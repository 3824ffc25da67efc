import Mathlib
import SecureBoot.SignatureList
import SecureBoot.Proofs.Guid
import SecureBoot.Proofs.Outcome

/-!
# Signature lists on disk

A list states on disk what its entries imply: its length, the length of its header, the size of an
entry. What is read back is the list that was written only if nothing is stated twice in different
ways: all entries have the one size, and `declaredSize` is set only where the entries and the type
do not settle it (`IsUniform`).

**Written lists** (`IsUniform.decode_encode`). A uniform list whose size fits its field is read
back, whatever follows it, unless the reader refuses its type and entry size.

**Read lists** (`decode_eq_ok_iff`). What is read is uniform, fits its field and is allowed by its
type (`IsStored`), and the bytes it was read from are the bytes it is written as.

**Lists in memory** start uniform and stay so (`IsUniform.push`): `push` keeps the one size, and
clears `declaredSize` when the first entry settles it.
-/

namespace SecureBoot

/-! ## Entries -/

namespace SignatureEntry

@[simp] theorem length_encode (entry : SignatureEntry) : entry.encode.length = entry.size := by
  rw [encode, List.length_append, Guid.length_toBytes, size]

theorem guidSize_le_size (entry : SignatureEntry) : Guid.size ≤ entry.size := Nat.le_add_right _ _

theorem decode_encode (entry : SignatureEntry) : decode entry.encode = entry := by
  rw [decode, encode, Guid.ofBytes_toBytes_append, List.drop_left' entry.owner.length_toBytes]

theorem encode_decode {b : Bytes} (h : Guid.size ≤ b.length) : (decode b).encode = b := by
  rw [decode, encode, Guid.toBytes_ofBytes h, List.take_append_drop]

theorem size_decode {b : Bytes} (h : Guid.size ≤ b.length) : (decode b).size = b.length := by
  rw [← length_encode, encode_decode h]

end SignatureEntry

namespace SignatureList

variable {l : SignatureList} {base n count : Nat} {b : Bytes}

/-! ## Pieces -/

theorem length_pieces (count n : Nat) (b : Bytes) : (pieces count n b).length = count := by
  induction count generalizing b with
  | zero => rfl
  | succ count ih => rw [pieces, List.length_cons, ih]

theorem length_of_mem_pieces {p : Bytes} (hp : p ∈ pieces count n b)
    (h : n * count ≤ b.length) : p.length = n := by
  induction count generalizing b with
  | zero => cases hp
  | succ count ih =>
    rw [Nat.mul_succ] at h
    rcases List.mem_cons.1 hp with rfl | hp
    · rw [List.length_take]
      omega
    · exact ih hp (by rw [List.length_drop]; omega)

theorem flatten_pieces (count n : Nat) (b : Bytes) :
    (pieces count n b).flatten = b.take (n * count) := by
  induction count generalizing b with
  | zero => rw [Nat.mul_zero]; rfl
  | succ count ih =>
    rw [pieces, List.flatten_cons, ih, ← List.take_add, Nat.mul_succ, Nat.add_comm]

theorem pieces_flatMap {α : Type} {f : α → Bytes} {xs : List α} (h : ∀ x ∈ xs, (f x).length = n) :
    pieces xs.length n (xs.flatMap f) = xs.map f := by
  induction xs with
  | nil => rfl
  | cons x rest ih =>
    obtain ⟨hx, hrest⟩ := List.forall_mem_cons.1 h
    rw [List.length_cons, pieces, List.flatMap_cons, List.take_left' hx, List.drop_left' hx,
      ih hrest, List.map_cons]

/-! ## Uniform lists -/

/-- The entries have the one size, and a size is declared only where neither an entry nor the type
implies it. -/
structure IsUniform (l : SignatureList) : Prop where
  size_eq : ∀ e ∈ l.entries, e.size = l.signatureSize
  declared : ∀ n ∈ l.declaredSize,
    l.entries = [] ∧ l.signatureType = Guid.x509 ∧ Guid.size < n ∧ n ≤ maxWord

/-- The entry sizes that the reader allows a type to have. -/
def Allows (signatureType : Guid) (n : Nat) : Prop :=
  signatureType = Guid.x509 ∧ Guid.size ≤ n ∨ signatureType = Guid.sha256 ∧ n = Guid.size + 32

instance (signatureType : Guid) (n : Nat) : Decidable (Allows signatureType n) :=
  inferInstanceAs (Decidable (_ ∨ _))

theorem checkEntrySize_eq_ok {signatureType : Guid} :
    checkEntrySize base signatureType n = .ok () ↔ Allows signatureType n := by
  unfold checkEntrySize Allows
  by_cases hx : signatureType = Guid.x509
  · rw [if_pos hx, check_eq_ok, hx]
    simp [Guid.sha256_ne_x509.symm, pure_eq_ok]
  · rw [if_neg hx]
    by_cases hs : signatureType = Guid.sha256
    · rw [if_pos hs, check_eq_ok, hs]
      simp [Guid.sha256_ne_x509, pure_eq_ok]
    · rw [if_neg hs]
      exact ⟨nofun, fun h => (h.elim (fun h => hx h.1) (fun h => hs h.1)).elim⟩

theorem Allows.guidSize_le {signatureType : Guid} (h : Allows signatureType n) :
    Guid.size ≤ n := by
  rcases h with ⟨-, h⟩ | ⟨-, rfl⟩
  · exact h
  · exact Nat.le_add_right _ _

theorem IsUniform.guidSize_le (h : l.IsUniform) (hx : l.signatureType = Guid.x509) :
    Guid.size ≤ l.signatureSize := by
  cases hes : l.entries with
  | cons e _ =>
    rw [← h.size_eq e (by simp [hes])]
    exact e.guidSize_le_size
  | nil =>
    rw [signatureSize, hes, hx]
    cases hd : l.declaredSize with
    | none => exact Nat.le_refl _
    | some n => exact (h.declared n hd).2.2.1.le

/-- An empty list of digests states the usual size. -/
theorem IsUniform.signatureSize_of_nil (h : l.IsUniform) (hs : l.signatureType = Guid.sha256)
    (hes : l.entries = []) : l.signatureSize = Guid.size + 32 := by
  cases hd : l.declaredSize with
  | none => rw [signatureSize, hes, hd, hs]; rfl
  | some n => exact absurd (hs ▸ (h.declared n hd).2.1) Guid.sha256_ne_x509

/-- What the reader asks of the size it finds in a list: nothing of certificates, and that digests
are digests. -/
theorem allows_signatureSize_iff (h : l.IsUniform) :
    Allows l.signatureType l.signatureSize ↔ l.signatureType = Guid.x509 ∨
      l.signatureType = Guid.sha256 ∧ ∀ e ∈ l.entries, e.data.length = 32 := by
  have hdata : ∀ e ∈ l.entries, (e.data.length = 32 ↔ l.signatureSize = Guid.size + 32) := by
    intro e he
    rw [← h.size_eq e he, SignatureEntry.size]
    omega
  constructor
  · rintro (⟨hx, -⟩ | ⟨hs, hn⟩)
    · exact .inl hx
    · exact .inr ⟨hs, fun e he => (hdata e he).2 hn⟩
  · rintro (hx | ⟨hs, hall⟩)
    · exact .inl ⟨hx, h.guidSize_le hx⟩
    · refine .inr ⟨hs, ?_⟩
      cases hes : l.entries with
      | nil => exact h.signatureSize_of_nil hs hes
      | cons e _ =>
        have he : e ∈ l.entries := by simp [hes]
        exact (hdata e he).1 (hall e he)

theorem IsUniform.length_entries (h : l.IsUniform) :
    (l.entries.flatMap SignatureEntry.encode).length = l.signatureSize * l.entries.length := by
  rw [List.length_flatMap, List.map_congr_left (g := fun _ => l.signatureSize) fun e he => by
    rw [SignatureEntry.length_encode, h.size_eq e he]]
  rw [List.map_const', List.sum_replicate, smul_eq_mul, Nat.mul_comm]

theorem IsUniform.length_encode (h : l.IsUniform) : l.encode.length = l.size := by
  simp only [encode, List.length_append, Guid.length_toBytes, Bytes.length_ofNatLE,
    h.length_entries, size, fixedSize]

theorem IsUniform.signatureSize_le (h : l.IsUniform) (hsize : l.size ≤ maxWord) :
    l.signatureSize ≤ maxWord := by
  cases hes : l.entries with
  | cons e rest =>
    have hle : l.signatureSize * 1 ≤ l.signatureSize * l.entries.length :=
      Nat.mul_le_mul_left _ (by rw [hes]; exact Nat.succ_pos _)
    rw [size] at hsize
    omega
  | nil =>
    rw [signatureSize, hes]
    cases hd : l.declaredSize with
    | some n => exact (h.declared n hd).2.2.2
    | none =>
      show usualSize l.signatureType ≤ maxWord
      unfold usualSize
      split <;> decide

/-! ## Writing, then reading -/

theorem encode_append_eq (l : SignatureList) (rest : Bytes) :
    l.encode ++ rest = l.signatureType.toBytes ++ (Bytes.ofNatLE 4 l.size ++
      (Bytes.ofNatLE 4 l.header.length ++ (Bytes.ofNatLE 4 l.signatureSize ++
        (l.header ++ (l.entries.flatMap SignatureEntry.encode ++ rest))))) := by
  simp only [encode, List.append_assoc]

/-- The sizes in front of a list are written as far as they fit their fields. -/
theorem sizes_encode (l : SignatureList) (rest : Bytes) :
    (Bytes.u32 (l.encode ++ rest) 16).toNat = l.size % 2 ^ 32 ∧
      (Bytes.u32 (l.encode ++ rest) 20).toNat = l.header.length % 2 ^ 32 ∧
        (Bytes.u32 (l.encode ++ rest) 24).toNat = l.signatureSize % 2 ^ 32 := by
  have hguid : l.signatureType.toBytes.length = 16 := Guid.length_toBytes _
  rw [encode_append_eq]
  refine ⟨?_, ?_, ?_⟩
  · rw [Bytes.u32_append_right (by omega), hguid, Bytes.toNat_u32_ofNatLE_append_mod]
  · rw [Bytes.u32_append_right (by omega), Bytes.u32_append_right (by simp [hguid]), hguid,
      Bytes.length_ofNatLE, Bytes.toNat_u32_ofNatLE_append_mod]
  · rw [Bytes.u32_append_right (by omega), Bytes.u32_append_right (by simp [hguid]),
      Bytes.u32_append_right (by simp [hguid]), hguid, Bytes.length_ofNatLE, Bytes.length_ofNatLE,
      Bytes.toNat_u32_ofNatLE_append_mod]

/-- They are read as they were written, unless the list is too long. -/
theorem IsUniform.sizes_encode (h : l.IsUniform) (hsize : l.size ≤ maxWord) (rest : Bytes) :
    (Bytes.u32 (l.encode ++ rest) 16).toNat = l.size ∧
      (Bytes.u32 (l.encode ++ rest) 20).toNat = l.header.length ∧
        (Bytes.u32 (l.encode ++ rest) 24).toNat = l.signatureSize := by
  have hheader : l.header.length ≤ maxWord := by
    rw [size] at hsize
    omega
  obtain ⟨hlist, hheader', hentry⟩ := l.sizes_encode rest
  rw [hlist, hheader', hentry]
  exact ⟨Nat.mod_eq_of_lt (Nat.lt_succ_of_le hsize), Nat.mod_eq_of_lt (Nat.lt_succ_of_le hheader),
    Nat.mod_eq_of_lt (Nat.lt_succ_of_le (h.signatureSize_le hsize))⟩

theorem IsUniform.slices_encode (h : l.IsUniform) (rest : Bytes) :
    Bytes.slice (l.encode ++ rest) fixedSize (fixedSize + l.header.length) = l.header ∧
      Bytes.slice (l.encode ++ rest) (fixedSize + l.header.length) l.size =
        l.entries.flatMap SignatureEntry.encode := by
  let front := l.signatureType.toBytes ++ Bytes.ofNatLE 4 l.size ++
    Bytes.ofNatLE 4 l.header.length ++ Bytes.ofNatLE 4 l.signatureSize
  let body := l.entries.flatMap SignatureEntry.encode
  have hfront : front.length = fixedSize := by
    simp only [front, List.length_append, Guid.length_toBytes, Bytes.length_ofNatLE]
    rfl
  have hx : l.encode ++ rest = front ++ (l.header ++ (body ++ rest)) := by
    simp only [encode, front, body, List.append_assoc]
  constructor
  · rw [hx, ← hfront, Bytes.slice_append_mid]
  · have hmid := Bytes.slice_append_mid (front ++ l.header) body rest
    rw [List.length_append, hfront, List.append_assoc, h.length_entries] at hmid
    rw [hx, size, hmid]

/-- The size that the reader keeps of an empty list is the one that was declared. -/
theorem IsUniform.declaredSize_eq (h : l.IsUniform) :
    (if l.entries.isEmpty ∧ l.signatureSize ≠ usualSize l.signatureType then
      some l.signatureSize else none) = l.declaredSize := by
  cases hd : l.declaredSize with
  | none =>
    apply if_neg
    intro hempty
    obtain ⟨hes, hne⟩ := hempty
    rw [signatureSize, List.isEmpty_iff.1 hes, hd] at hne
    exact hne rfl
  | some n =>
    obtain ⟨hes, hx, hlt, -⟩ := h.declared n hd
    have hn : l.signatureSize = n := by rw [signatureSize, hes, hd]; rfl
    have husual : usualSize l.signatureType = Guid.size := by rw [hx]; decide
    rw [hn, husual, hes, if_pos ⟨rfl, hlt.ne'⟩]

/-- A uniform list is read back unless its type or its entry size is refused. -/
theorem IsUniform.decode_encode (h : l.IsUniform) (hsize : l.size ≤ maxWord) (base : Nat)
    (rest : Bytes) :
    decode base (l.encode ++ rest) =
      (checkEntrySize base l.signatureType l.signatureSize).map fun _ => l := by
  obtain ⟨hlist, hheader, hentry⟩ := h.sizes_encode hsize rest
  obtain ⟨hheaderBytes, hbody⟩ := h.slices_encode rest
  have htype : Guid.ofBytes (l.encode ++ rest) = l.signatureType := by
    rw [encode_append_eq, Guid.ofBytes_toBytes_append]
  have hlength : l.size ≤ (l.encode ++ rest).length := by
    rw [List.length_append, h.length_encode]
    exact Nat.le_add_right _ _
  have hfixed := l.fixedSize_le_size
  have hstart : fixedSize + l.header.length ≤ l.size := Nat.le_add_right _ _
  unfold decode
  dsimp only
  rw [if_neg (by omega), htype, hlist, hheader, hentry, if_neg (by omega), if_neg (by omega),
    hheaderBytes, hbody, h.length_entries]
  cases hcheck : checkEntrySize base l.signatureType l.signatureSize with
  | error e => rfl
  | ok _ =>
    have hpos : 0 < l.signatureSize :=
      Nat.lt_of_lt_of_le (by decide) (checkEntrySize_eq_ok.1 hcheck).guidSize_le
    have hentries : (pieces l.entries.length l.signatureSize
        (l.entries.flatMap SignatureEntry.encode)).map SignatureEntry.decode = l.entries := by
      rw [pieces_flatMap fun e he => by rw [SignatureEntry.length_encode, h.size_eq e he],
        List.map_map, List.map_congr_left (g := id) fun e _ => e.decode_encode, List.map_id]
    show (if l.signatureSize * l.entries.length % l.signatureSize ≠ 0 then _ else _) = _
    rw [if_neg (by rw [Nat.mul_mod_right]; decide), Nat.mul_div_cancel_left _ hpos, hentries,
      h.declaredSize_eq]
    rfl

/-! ## Reading, then writing -/

/-- A list as it can stand on disk. -/
structure IsStored (l : SignatureList) : Prop where
  uniform : l.IsUniform
  size_le : l.size ≤ maxWord
  allowed : Allows l.signatureType l.signatureSize

/-- What reading a list with these three sizes in front checks, and what it makes of the bytes. -/
structure Reads (b : Bytes) (listSize headerSize entrySize : Nat) (l : SignatureList) : Prop where
  fixedSize_le : fixedSize ≤ b.length
  listSize_eq : Bytes.ofNatLE 4 listSize = b.slice 16 20
  headerSize_eq : Bytes.ofNatLE 4 headerSize = b.slice 20 24
  entrySize_eq : Bytes.ofNatLE 4 entrySize = b.slice 24 fixedSize
  listSize_le : listSize ≤ maxWord
  entrySize_le : entrySize ≤ maxWord
  start_le : fixedSize + headerSize ≤ listSize
  length_le : listSize ≤ b.length
  even : entrySize ∣ listSize - (fixedSize + headerSize)
  signatureType_eq : l.signatureType = Guid.ofBytes b
  allowed : Allows l.signatureType entrySize
  header_eq : l.header = b.slice fixedSize (fixedSize + headerSize)
  entries_eq : l.entries = (pieces ((listSize - (fixedSize + headerSize)) / entrySize) entrySize
    (b.slice (fixedSize + headerSize) listSize)).map SignatureEntry.decode
  declaredSize_eq : l.declaredSize =
    if l.entries.isEmpty ∧ entrySize ≠ usualSize l.signatureType then some entrySize else none

theorem reads_of_decode (h : decode base b = .ok l) :
    Reads b (b.u32 16).toNat (b.u32 20).toNat (b.u32 24).toNat l := by
  unfold decode at h
  dsimp only at h
  obtain ⟨hfixed, h⟩ := check_bind_eq_ok.1 h
  obtain ⟨hstart, h⟩ := check_bind_eq_ok.1 h
  obtain ⟨hlist, h⟩ := check_bind_eq_ok.1 h
  obtain ⟨_, hcheck, h⟩ := bind_eq_ok.1 h
  obtain ⟨heven, h⟩ := check_bind_eq_ok.1 h
  have hl := pure_eq_ok.1 h
  rw [Bytes.length_slice (Nat.le_of_not_lt hlist)] at heven hl
  have hfixed : 28 ≤ b.length := Nat.le_of_not_lt hfixed
  subst hl
  exact {
    fixedSize_le := hfixed
    listSize_eq := Bytes.ofNatLE_u32 (by omega)
    headerSize_eq := Bytes.ofNatLE_u32 (by omega)
    entrySize_eq := Bytes.ofNatLE_u32 hfixed
    listSize_le := Nat.le_of_lt_succ (b.u32 16).toNat_lt
    entrySize_le := Nat.le_of_lt_succ (b.u32 24).toNat_lt
    start_le := Nat.le_of_not_lt hstart
    length_le := Nat.le_of_not_lt hlist
    even := Nat.dvd_of_mod_eq_zero (Decidable.not_not.1 heven)
    signatureType_eq := rfl
    allowed := checkEntrySize_eq_ok.1 hcheck
    header_eq := rfl
    entries_eq := rfl
    declaredSize_eq := rfl }

namespace Reads

variable {listSize headerSize entrySize : Nat} (h : Reads b listSize headerSize entrySize l)

include h

theorem length_header : l.header.length = headerSize := by
  rw [h.header_eq, Bytes.length_slice (h.start_le.trans h.length_le), Nat.add_sub_cancel_left]

theorem mul_length_entries :
    entrySize * l.entries.length = listSize - (fixedSize + headerSize) := by
  rw [h.entries_eq, List.length_map, length_pieces, Nat.mul_div_cancel' h.even]

theorem length_body : (b.slice (fixedSize + headerSize) listSize).length =
    entrySize * ((listSize - (fixedSize + headerSize)) / entrySize) := by
  rw [Bytes.length_slice h.length_le, Nat.mul_div_cancel' h.even]

theorem length_piece {p : Bytes}
    (hp : p ∈ pieces ((listSize - (fixedSize + headerSize)) / entrySize) entrySize
      (b.slice (fixedSize + headerSize) listSize)) : p.length = entrySize :=
  length_of_mem_pieces hp h.length_body.ge

theorem size_entry : ∀ e ∈ l.entries, e.size = entrySize := by
  intro e he
  rw [h.entries_eq] at he
  obtain ⟨p, hp, rfl⟩ := List.mem_map.1 he
  have hlength := h.length_piece hp
  rw [SignatureEntry.size_decode (by rw [hlength]; exact h.allowed.guidSize_le), hlength]

theorem encode_entries :
    l.entries.flatMap SignatureEntry.encode = b.slice (fixedSize + headerSize) listSize := by
  have hpiece : ∀ p ∈ pieces ((listSize - (fixedSize + headerSize)) / entrySize) entrySize
      (b.slice (fixedSize + headerSize) listSize), (SignatureEntry.decode p).encode = p := by
    intro p hp
    apply SignatureEntry.encode_decode
    rw [h.length_piece hp]
    exact h.allowed.guidSize_le
  rw [h.entries_eq, List.flatMap_map, List.flatMap, List.map_congr_left (g := id) hpiece,
    List.map_id, flatten_pieces, List.take_of_length_le h.length_body.le]

theorem signatureSize_eq : l.signatureSize = entrySize := by
  unfold signatureSize
  cases hes : l.entries with
  | cons e rest => exact h.size_entry e (by rw [hes]; exact List.mem_cons_self)
  | nil =>
    show l.declaredSize.getD _ = _
    rw [h.declaredSize_eq, hes]
    by_cases husual : entrySize = usualSize l.signatureType
    · rw [if_neg fun hempty => hempty.2 husual, husual]
      rfl
    · rw [if_pos ⟨rfl, husual⟩]
      rfl

theorem size_eq : l.size = listSize := by
  rw [size, h.signatureSize_eq, h.mul_length_entries, h.length_header]
  have := h.start_le
  omega

/-- A digest list never declares a size: it is refused unless it states the usual one. -/
theorem isUniform : l.IsUniform where
  size_eq := by
    rw [h.signatureSize_eq]
    exact h.size_entry
  declared n hn := by
    rw [h.declaredSize_eq] at hn
    by_cases hcond : l.entries.isEmpty ∧ entrySize ≠ usualSize l.signatureType
    · rw [if_pos hcond] at hn
      cases hn
      obtain ⟨hempty, husual⟩ := hcond
      rcases h.allowed with ⟨hx, hle⟩ | ⟨hs, hn⟩
      · rw [hx] at husual
        exact ⟨List.isEmpty_iff.1 hempty, hx, lt_of_le_of_ne hle (Ne.symm husual), h.entrySize_le⟩
      · rw [hs, hn] at husual
        exact absurd rfl husual
    · rw [if_neg hcond] at hn
      cases hn

theorem isStored : l.IsStored where
  uniform := h.isUniform
  size_le := h.size_eq.trans_le h.listSize_le
  allowed := h.signatureSize_eq ▸ h.allowed

/-- No byte is lost: the parts of the list are neighbouring slices of the bytes. -/
theorem encode_append_drop : l.encode ++ b.drop l.size = b := by
  have hstart := h.start_le
  have hfixed : fixedSize = 28 := rfl
  have hguid : (Guid.ofBytes b).toBytes = b.slice 0 16 := by
    rw [Guid.toBytes_ofBytes (le_trans (by decide) h.fixedSize_le), Bytes.slice_zero]
    rfl
  rw [encode, h.size_eq, h.length_header, h.signatureSize_eq, h.signatureType_eq, hguid,
    h.listSize_eq, h.headerSize_eq, h.entrySize_eq, h.header_eq, h.encode_entries]
  rw [Bytes.slice_append_slice (by omega) (by omega),
    Bytes.slice_append_slice (by omega) (by omega),
    Bytes.slice_append_slice (by omega) (by omega), Bytes.slice_append_slice (by omega) (by omega),
    Bytes.slice_append_slice (by omega) hstart, Bytes.slice_append_drop (Nat.zero_le _),
    List.drop_zero]

end Reads

/-- What the reader accepts at the front of some bytes is a list as it is written. -/
theorem decode_eq_ok_iff :
    decode base b = .ok l ↔ l.IsStored ∧ ∃ rest, b = l.encode ++ rest := by
  constructor
  · intro h
    have hreads := reads_of_decode h
    exact ⟨hreads.isStored, b.drop l.size, hreads.encode_append_drop.symm⟩
  · rintro ⟨hl, rest, rfl⟩
    rw [hl.uniform.decode_encode hl.size_le, checkEntrySize_eq_ok.2 hl.allowed]
    rfl

/-! ## Lists in memory -/

theorem isUniform_new (signatureType : Guid) : IsUniform { signatureType } where
  size_eq := nofun
  declared := nofun

theorem isUniform_ofCertificate (entry : SignatureEntry) : (ofCertificate entry).IsUniform where
  size_eq e he := by rw [List.mem_singleton.1 he]; rfl
  declared := nofun

variable {entry : SignatureEntry}

/-- What is accepted has the size that the list has settled, and leaves the list short enough. -/
theorem checkEntry_eq_ok :
    l.checkEntry entry = .ok () ↔ (∀ n ∈ l.settledSize, n = entry.size) ∧
      fixedSize + l.header.length + entry.size * (l.entries.length + 1) ≤ maxWord := by
  unfold checkEntry
  cases l.settledSize with
  | none =>
    dsimp only
    rw [check_eq_ok, Nat.not_lt, pure_eq_ok]
    exact ⟨fun h => ⟨nofun, h.1⟩, fun h => ⟨h.2, rfl⟩⟩
  | some expected =>
    dsimp only
    rw [check_bind_eq_ok, check_eq_ok, Decidable.not_not, Nat.not_lt, pure_eq_ok]
    constructor
    · rintro ⟨hsize, htotal, -⟩
      exact ⟨fun n hn => Option.some.inj hn ▸ hsize, htotal⟩
    · rintro ⟨hsize, htotal⟩
      exact ⟨hsize expected rfl, htotal, rfl⟩

theorem push_of_ok (h : l.checkEntry entry = .ok ()) :
    l.push entry = ({ l with entries := l.entries ++ [entry], declaredSize := none }, none) := by
  rw [push, h]

theorem push_of_error {e : Error} (h : l.checkEntry entry = .error e) :
    l.push entry = (l, some e) := by
  rw [push, h]

theorem push_eq_none_iff : (l.push entry).2 = none ↔ l.checkEntry entry = .ok () := by
  cases h : l.checkEntry entry with
  | error e => rw [push_of_error h]; exact iff_of_false nofun nofun
  | ok _ => rw [push_of_ok h]; exact iff_of_true rfl rfl

/-- An entry that is accepted has the size of the others, and one that is refused changes
nothing. -/
theorem IsUniform.push (hl : l.IsUniform) (entry : SignatureEntry) :
    (l.push entry).1.IsUniform := by
  cases h : l.checkEntry entry with
  | error e =>
    rw [push_of_error h]
    exact hl
  | ok _ =>
    rw [push_of_ok h]
    obtain ⟨hsettled, -⟩ := checkEntry_eq_ok.1 h
    refine ⟨?_, nofun⟩
    intro e he
    rcases hes : l.entries with _ | ⟨first, rest⟩
    · rw [hes] at he
      rw [List.mem_singleton.1 he]
      rfl
    · have hentry : first.size = entry.size := hsettled _ (by rw [settledSize, hes]; rfl)
      show e.size = first.size
      rcases List.mem_append.1 he with he | he
      · rw [hl.size_eq e he, signatureSize, hes]
      · rw [List.mem_singleton.1 he, hentry]

end SignatureList

end SecureBoot
