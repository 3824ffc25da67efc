import Mathlib
import SecureBoot.Proofs.SignatureDatabase

/-!
# Cut and joined signature databases

A file that was cut short must not pass for a shorter database: each list on disk states its own
length, so bytes that are missing are missed by the list they belong to.

**Cutting** (`decode_take_and_append`). Of an accepted file the first `k` bytes are accepted exactly
when the cut falls between two lists, and then they mean the lists in front of it. A cut inside a
list is reported as such, with the offset at which that list starts.

**Joining.** Behind an accepted file the reader goes on as at the front of one. What follows is
accepted or refused on its own.

The three sizes of a list stand in its first 28 bytes. A shorter piece is refused for them; in a
longer one they read as in the whole list (`IsUniform.sizes_take`), which is then found too short
before its type and its entries are looked at.
-/

namespace SecureBoot

/-! ## One list -/

namespace SignatureList

variable {l : SignatureList} {base k : Nat}

/-- The error for a list at `base` of which only `k` bytes are there. -/
def cutError (l : SignatureList) (base k : Nat) : Error :=
  if k < fixedSize then .truncated .signatureListHeader base fixedSize k
  else .truncated .signatureList base l.size k

theorem IsUniform.sizes_take (h : l.IsUniform) (hsize : l.size ≤ maxWord) (hk : fixedSize ≤ k) :
    (Bytes.u32 (l.encode.take k) 16).toNat = l.size ∧
      (Bytes.u32 (l.encode.take k) 20).toNat = l.header.length := by
  have hfixed : fixedSize = 28 := rfl
  have hsizes := h.sizes_encode hsize []
  rw [List.append_nil] at hsizes
  rw [Bytes.u32_congr fun i _ hi => List.getElem?_take_of_lt (by omega),
    Bytes.u32_congr fun i _ hi => List.getElem?_take_of_lt (by omega)]
  exact ⟨hsizes.1, hsizes.2.1⟩

theorem exists_cutError_eq (l : SignatureList) (base : Nat) (hk : k < l.size) :
    ∃ part needed, k < needed ∧ l.cutError base k = .truncated part base needed k := by
  unfold cutError
  split
  · exact ⟨_, _, by assumption, rfl⟩
  · exact ⟨_, _, hk, rfl⟩

/-- A piece of a list is not read as anything else. -/
theorem IsStored.decode_take (h : l.IsStored) (hk : k < l.size) (base : Nat) :
    decode base (l.encode.take k) = .error (l.cutError base k) := by
  have hlength : (l.encode.take k).length = k :=
    List.length_take_of_le (h.uniform.length_encode ▸ hk.le)
  unfold decode cutError
  dsimp only
  rw [hlength]
  by_cases hshort : k < fixedSize
  · rw [if_pos hshort, if_pos hshort]
    rfl
  · obtain ⟨hlist, hheader⟩ := h.uniform.sizes_take h.size_le (Nat.le_of_not_lt hshort)
    have hstart : ¬ l.size < fixedSize + l.header.length := Nat.not_lt.2 (Nat.le_add_right _ _)
    rw [if_neg hshort, if_neg hshort, hlist, hheader, if_neg hstart, if_pos hk]
    rfl

end SignatureList

/-! ## List after list -/

namespace SignatureDatabase

variable {db : SignatureDatabase} {b : Bytes}

/-- Where list `n` starts on disk, and where the one in front of it ends. -/
def offset (db : SignatureDatabase) (n : Nat) : Nat := (encode ⟨db.lists.take n⟩).length

theorem offset_zero (db : SignatureDatabase) : db.offset 0 = 0 := rfl

theorem offset_cons (l : SignatureList) (rest : List SignatureList) (n : Nat) :
    offset ⟨l :: rest⟩ (n + 1) = l.encode.length + offset ⟨rest⟩ n := by
  simp only [offset, encode, List.take_succ_cons, List.flatMap_cons, List.length_append]

theorem offset_succ (hstored : ∀ l ∈ db.lists, l.IsStored) {n : Nat} (hn : n < db.lists.length) :
    db.offset (n + 1) = db.offset n + db.lists[n].size := by
  rw [← (hstored _ (List.getElem_mem hn)).uniform.length_encode]
  simp only [offset, encode, List.take_succ_eq_append_getElem hn, List.flatMap_append,
    List.length_append, List.flatMap_singleton]

theorem offset_le_offset_iff (hstored : ∀ l ∈ db.lists, l.IsStored) {m n : Nat}
    (hm : m ≤ db.lists.length) (hn : n ≤ db.lists.length) :
    db.offset m ≤ db.offset n ↔ m ≤ n := by
  have hmono : StrictMonoOn db.offset (Set.Iic db.lists.length) := by
    refine strictMonoOn_of_lt_succ Set.ordConnected_Iic fun n _ _ hsucc => ?_
    have hlt : n < db.lists.length := Order.succ_le_iff.1 hsucc
    have hfixed : 28 ≤ db.lists[n].size := SignatureList.fixedSize_le_size _
    show db.offset n < db.offset (n + 1)
    rw [offset_succ hstored hlt]
    omega
  exact hmono.le_iff_le hm hn

/-- The first `k` bytes of some lists: either the cut falls between two of them, or the one it falls
into is refused. -/
theorem decodeLists_take {ls : List SignatureList} (hstored : ∀ l ∈ ls, l.IsStored)
    {k : Nat} (hk : k ≤ (ls.flatMap SignatureList.encode).length) (base : Nat) :
    (∃ n ≤ ls.length, k = offset ⟨ls⟩ n ∧
      decodeLists base ((ls.flatMap SignatureList.encode).take k) = .ok (ls.take n)) ∨
    ∃ (n : Nat) (hn : n < ls.length), offset ⟨ls⟩ n < k ∧ k < offset ⟨ls⟩ (n + 1) ∧
      decodeLists base ((ls.flatMap SignatureList.encode).take k) =
        .error (ls[n].cutError (base + offset ⟨ls⟩ n) (k - offset ⟨ls⟩ n)) := by
  induction ls generalizing base k with
  | nil =>
    obtain rfl : k = 0 := Nat.le_zero.1 hk
    exact .inl ⟨0, le_rfl, rfl, decodeLists_nil base⟩
  | cons l rest ih =>
    obtain ⟨hl, hrest⟩ := List.forall_mem_cons.1 hstored
    have hlength : l.encode.length = l.size := hl.uniform.length_encode
    rw [List.flatMap_cons, List.length_append] at hk
    rw [List.flatMap_cons]
    rcases Nat.eq_zero_or_pos k with rfl | hpos
    · exact .inl ⟨0, Nat.zero_le _, rfl, decodeLists_nil base⟩
    by_cases hin : k < l.size
    · -- The cut falls into the first list.
      have hne : ¬ (l.encode.take k).isEmpty := by
        rw [List.isEmpty_iff_length_eq_zero, List.length_take_of_le (by omega)]
        omega
      refine .inr ⟨0, Nat.succ_pos _, hpos, ?_, ?_⟩
      · rw [offset_cons, hlength]
        omega
      · rw [List.take_append_of_le_length (by omega), decodeLists, if_neg hne, hl.decode_take hin]
        rfl
    · have htake : (l.encode ++ rest.flatMap SignatureList.encode).take k =
          l.encode ++ (rest.flatMap SignatureList.encode).take (k - l.size) := by
        rw [List.take_append, List.take_of_length_le (by omega), hlength]
      rw [htake, decodeLists_encode_append hl.uniform hl.size_le,
        SignatureList.checkEntrySize_eq_ok.2 hl.allowed]
      rcases ih hrest (k := k - l.size) (by omega) (base + l.size) with
        ⟨n, hn, hcut, hok⟩ | ⟨n, hn, hlow, hhigh, herror⟩
      · refine .inl ⟨n + 1, Nat.succ_le_succ hn, ?_, ?_⟩
        · rw [offset_cons, hlength]
          omega
        · rw [hok]
          rfl
      · refine .inr ⟨n + 1, Nat.succ_lt_succ hn, ?_, ?_, ?_⟩
        · rw [offset_cons, hlength]
          omega
        · rw [offset_cons, hlength]
          omega
        · rw [herror, offset_cons, hlength, ← Nat.add_assoc, ← Nat.sub_sub]
          rfl

theorem decodeLists_flatMap_encode_append {ls : List SignatureList} (h : ∀ l ∈ ls, l.IsStored)
    (base : Nat) (c : Bytes) :
    decodeLists base (ls.flatMap SignatureList.encode ++ c) =
      (decodeLists (base + offset ⟨ls⟩ ls.length) c >>= fun more => .ok (ls ++ more)) := by
  induction ls generalizing base with
  | nil =>
    show decodeLists base c = _
    rw [List.length_nil, offset_zero, Nat.add_zero]
    cases decodeLists base c <;> rfl
  | cons l rest ih =>
    obtain ⟨hl, hrest⟩ := List.forall_mem_cons.1 h
    rw [List.flatMap_cons, List.append_assoc, decodeLists_encode_append hl.uniform hl.size_le,
      SignatureList.checkEntrySize_eq_ok.2 hl.allowed, List.length_cons, offset_cons,
      hl.uniform.length_encode, ← Nat.add_assoc]
    show (decodeLists (base + l.size) _ >>= _) = _
    rw [ih hrest]
    cases decodeLists (base + l.size + offset ⟨rest⟩ rest.length) c <;> rfl

/-! ## Whole databases -/

/-- No list is cut apart after `k` bytes: there are none, or some list ends there. -/
def IsBoundary (db : SignatureDatabase) (k : Nat) : Prop :=
  k = 0 ∨ ∃ n < db.lists.length, k = db.offset (n + 1)

theorem isBoundary_iff {k : Nat} : db.IsBoundary k ↔ ∃ n ≤ db.lists.length, k = db.offset n := by
  constructor
  · rintro (rfl | ⟨n, hn, rfl⟩)
    · exact ⟨0, Nat.zero_le _, rfl⟩
    · exact ⟨n + 1, hn, rfl⟩
  · rintro ⟨_ | n, hn, rfl⟩
    · exact .inl rfl
    · exact .inr ⟨n, hn, rfl⟩

theorem not_isBoundary (hstored : ∀ l ∈ db.lists, l.IsStored) {n k : Nat}
    (hn : n < db.lists.length) (hlow : db.offset n < k) (hhigh : k < db.offset (n + 1)) :
    ¬ db.IsBoundary k := by
  rw [isBoundary_iff]
  rintro ⟨m, hm, rfl⟩
  have hle := (offset_le_offset_iff hstored hm hn.le).not.1 (Nat.not_le.2 hlow)
  have hlt := (offset_le_offset_iff hstored (Nat.succ_le_of_lt hn) hm).not.1 (Nat.not_le.2 hhigh)
  omega

/-- What the reader makes of the first `k` bytes of a database that can stand on disk. -/
theorem decode_take_encode (hstored : ∀ l ∈ db.lists, l.IsStored) {k : Nat}
    (hk : k ≤ db.encode.length) :
    (∃ n ≤ db.lists.length, k = db.offset n ∧
      decode (db.encode.take k) = .ok ⟨db.lists.take n⟩) ∨
    ∃ n < db.lists.length, db.offset n < k ∧ k < db.offset (n + 1) ∧
      ∃ part needed, k - db.offset n < needed ∧ decode (db.encode.take k) =
        .error (.truncated part (db.offset n) needed (k - db.offset n)) := by
  rcases decodeLists_take hstored hk 0 with
    ⟨n, hn, hcut, hok⟩ | ⟨n, hn, (hlow : db.offset n < k), (hhigh : k < db.offset (n + 1)), herror⟩
  · refine .inl ⟨n, hn, hcut, ?_⟩
    rw [decode, encode, hok]
    rfl
  · have hsize := offset_succ hstored hn
    obtain ⟨part, needed, hneeded, heq⟩ := SignatureList.exists_cutError_eq db.lists[n]
      (0 + db.offset n) (k := k - db.offset n) (by omega)
    rw [Nat.zero_add] at heq herror
    refine .inr ⟨n, hn, hlow, hhigh, part, needed, hneeded, ?_⟩
    rw [decode, encode, herror, heq]
    rfl

/-- The reader goes on behind an accepted file as at the front of one. -/
theorem decode_append_eq_ok_iff (h : decode b = .ok db) (c : Bytes) {whole : SignatureDatabase} :
    decode (b ++ c) = .ok whole ↔
      ∃ more, decode c = .ok more ∧ whole = ⟨db.lists ++ more.lists⟩ := by
  obtain ⟨hstored, rfl⟩ := decode_eq_ok_iff.1 h
  constructor
  · intro hwhole
    rw [decode, encode, decodeLists_flatMap_encode_append hstored] at hwhole
    cases hmore : decodeLists (0 + db.offset db.lists.length) c with
    | error e => rw [hmore] at hwhole; cases hwhole
    | ok more =>
      rw [hmore] at hwhole
      cases hwhole
      exact ⟨⟨more⟩, decode_eq_ok_iff.2 (of_decodeLists hmore), rfl⟩
  · rintro ⟨more, hmore, rfl⟩
    obtain ⟨hstored', rfl⟩ := decode_eq_ok_iff.1 hmore
    refine decode_eq_ok_iff.2 ⟨List.forall_mem_append.2 ⟨hstored, hstored'⟩, ?_⟩
    rw [encode, encode, encode, List.flatMap_append]

/-- A cut of an accepted file is accepted exactly where no list is cut apart, and then means the
lists that end in front of it. Otherwise the error is that the list it falls into, named by where it
starts, has too few bytes. What follows an accepted file is accepted or refused on its own. -/
theorem decode_take_and_append (h : decode b = .ok db) :
    (∀ k ≤ b.length,
      ((∃ cut, decode (b.take k) = .ok cut) ↔ db.IsBoundary k) ∧
      (∀ cut, decode (b.take k) = .ok cut → ∃ n ≤ db.lists.length,
        cut.lists = db.lists.take n ∧ ∀ m < db.lists.length, m < n ↔ db.offset (m + 1) ≤ k) ∧
      (¬ db.IsBoundary k →
        ∃ n < db.lists.length, db.offset n < k ∧ k < db.offset (n + 1) ∧
          ∃ part needed, k - db.offset n < needed ∧ decode (b.take k) =
            .error (.truncated part (db.offset n) needed (k - db.offset n)))) ∧
    ∀ c, ((∃ whole, decode (b ++ c) = .ok whole) ↔ ∃ more, decode c = .ok more) ∧
      ∀ more, decode c = .ok more → decode (b ++ c) = .ok ⟨db.lists ++ more.lists⟩ := by
  constructor
  · obtain ⟨hstored, rfl⟩ := decode_eq_ok_iff.1 h
    intro k hk
    rcases decode_take_encode hstored hk with ⟨n, hn, rfl, hok⟩ | ⟨n, hn, hlow, hhigh, hcut⟩
    · have hboundary : db.IsBoundary (db.offset n) := isBoundary_iff.2 ⟨n, hn, rfl⟩
      refine ⟨iff_of_true ⟨_, hok⟩ hboundary, ?_, fun hnot => absurd hboundary hnot⟩
      intro cut hcut
      cases hok.symm.trans hcut
      exact ⟨n, hn, rfl, fun m hm => (offset_le_offset_iff hstored hm hn).symm⟩
    · have hnot := not_isBoundary hstored hn hlow hhigh
      obtain ⟨part, needed, hneeded, herror⟩ := hcut
      have hfails : ∀ cut, decode (db.encode.take k) ≠ .ok cut := fun cut hcut => by
        rw [herror] at hcut
        cases hcut
      exact ⟨iff_of_false (fun ⟨cut, hcut⟩ => hfails cut hcut) hnot,
        fun cut hcut => absurd hcut (hfails cut),
        fun _ => ⟨n, hn, hlow, hhigh, part, needed, hneeded, herror⟩⟩
  · intro c
    constructor
    · constructor
      · rintro ⟨whole, hwhole⟩
        obtain ⟨more, hmore, -⟩ := (decode_append_eq_ok_iff h c).1 hwhole
        exact ⟨more, hmore⟩
      · rintro ⟨more, hmore⟩
        exact ⟨_, (decode_append_eq_ok_iff h c).2 ⟨more, hmore, rfl⟩⟩
    · exact fun more hmore => (decode_append_eq_ok_iff h c).2 ⟨more, hmore, rfl⟩

/-- Of the small database, whose lists end at 29, 76 and 152, 76 bytes are a database of two lists
and 77 bytes are none; two copies in one file are read as six lists. -/
theorem decode_take_and_append_smallDatabase :
    (∃ cut, decode (smallDatabase.encode.take 76) = .ok cut) ∧
      (∃ part needed, decode (smallDatabase.encode.take 77) =
        .error (.truncated part 76 needed 1)) ∧
      decode (smallDatabase.encode ++ smallDatabase.encode) =
        .ok ⟨smallDatabase.lists ++ smallDatabase.lists⟩ := by
  have h : decode smallDatabase.encode = .ok smallDatabase :=
    decode_eq_ok_iff.2 ⟨isStored_smallDatabase, rfl⟩
  have hsecond : smallDatabase.offset 2 = 76 := by decide +kernel
  obtain ⟨hcut, happend⟩ := decode_take_and_append h
  refine ⟨(hcut 76 (by decide +kernel)).1.2 (.inr ⟨1, by decide, hsecond.symm⟩), ?_,
    (happend _).2 _ h⟩
  have hnot : ¬ smallDatabase.IsBoundary 77 :=
    not_isBoundary isStored_smallDatabase (n := 2) (by decide) (by decide +kernel)
      (by decide +kernel)
  obtain ⟨n, hn, hlow, hhigh, part, needed, -, herror⟩ :=
    (hcut 77 (by decide +kernel)).2.2 hnot
  have hthird : ∀ n < 3, smallDatabase.offset n < 77 → 77 < smallDatabase.offset (n + 1) →
      n = 2 := by decide +kernel
  obtain rfl : n = 2 := hthird n hn hlow hhigh
  rw [hsecond] at herror
  exact ⟨part, needed, herror⟩

end SignatureDatabase

end SecureBoot
