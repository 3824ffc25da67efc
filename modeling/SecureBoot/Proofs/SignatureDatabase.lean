import Mathlib
import SecureBoot.SignatureDatabase
import SecureBoot.Proofs.SignatureList

/-!
# Signature databases on disk

Lists follow one another on disk with nothing between them and nothing behind them, so what holds of
one list carries over to the whole by induction over the lists.

**Reading is exact** (`decode_eq_ok_iff`). The accepted bytes are the written databases whose lists
can stand on disk, and each is read as the database it was written from. So an accepted file is
written back byte for byte, and two files never mean the same database (`encode_of_decode`).

**Writing can be undone** (`decode_encode_iff`) for every database that can be built, unless a list
has a type that the reader does not know, or holds digests that are none. Then reading fails; it
never gives another database.
-/

namespace SecureBoot

namespace SignatureDatabase

open SignatureList (IsUniform IsStored Allows checkEntrySize)

/-! ## List by list -/

theorem decodeLists_nil (base : Nat) : decodeLists base [] = .ok [] := by
  rw [decodeLists]
  rfl

/-- One list at the front, as it was written. -/
theorem decodeLists_encode_append {l : SignatureList} (h : l.IsUniform) (hsize : l.size ≤ maxWord)
    (base : Nat) (rest : Bytes) :
    decodeLists base (l.encode ++ rest) =
      (checkEntrySize base l.signatureType l.signatureSize >>= fun _ =>
        decodeLists (base + l.size) rest >>= fun ls => .ok (l :: ls)) := by
  have hdrop : (l.encode ++ rest).drop l.size = rest := List.drop_left' h.length_encode
  have hne : ¬ (l.encode ++ rest).isEmpty := by
    have hlength := h.length_encode
    have hfixed : 28 ≤ l.size := l.fixedSize_le_size
    rw [List.isEmpty_iff_length_eq_zero, List.length_append]
    omega
  rw [decodeLists, if_neg hne, h.decode_encode hsize]
  cases checkEntrySize base l.signatureType l.signatureSize with
  | error e => rfl
  | ok _ =>
    simp only [Except.map, hdrop]
    cases decodeLists (base + l.size) rest <;> rfl

theorem decodeLists_flatMap_encode {ls : List SignatureList} (h : ∀ l ∈ ls, l.IsStored)
    (base : Nat) : decodeLists base (ls.flatMap SignatureList.encode) = .ok ls := by
  induction ls generalizing base with
  | nil => exact decodeLists_nil base
  | cons l rest ih =>
    obtain ⟨hl, hrest⟩ := List.forall_mem_cons.1 h
    rw [List.flatMap_cons, decodeLists_encode_append hl.uniform hl.size_le,
      SignatureList.checkEntrySize_eq_ok.2 hl.allowed, ih hrest]
    rfl

theorem exists_decodeLists_eq_error {ls : List SignatureList}
    (h : ∀ l ∈ ls, l.IsUniform ∧ l.size ≤ maxWord)
    (hrefused : ∃ l ∈ ls, ¬ Allows l.signatureType l.signatureSize) (base : Nat) :
    ∃ e, decodeLists base (ls.flatMap SignatureList.encode) = .error e := by
  induction ls generalizing base with
  | nil => exact absurd hrefused nofun
  | cons l rest ih =>
    obtain ⟨⟨huniform, hsize⟩, hrest⟩ := List.forall_mem_cons.1 h
    rw [List.flatMap_cons, decodeLists_encode_append huniform hsize]
    cases hcheck : checkEntrySize base l.signatureType l.signatureSize with
    | error e => exact ⟨e, rfl⟩
    | ok _ =>
      have hlater : ∃ l' ∈ rest, ¬ Allows l'.signatureType l'.signatureSize := by
        obtain ⟨l', hl', hnot⟩ := hrefused
        rcases List.mem_cons.1 hl' with rfl | hl'
        · exact absurd (SignatureList.checkEntrySize_eq_ok.1 hcheck) hnot
        · exact ⟨l', hl', hnot⟩
      obtain ⟨e, he⟩ := ih hrest hlater (base + l.size)
      exact ⟨e, by rw [he]; rfl⟩

theorem of_decodeLists {base : Nat} {b : Bytes} {ls : List SignatureList}
    (h : decodeLists base b = .ok ls) :
    (∀ l ∈ ls, l.IsStored) ∧ b = ls.flatMap SignatureList.encode := by
  fun_induction decodeLists base b generalizing ls with
  | case1 base b hempty =>
    cases h
    exact ⟨nofun, List.isEmpty_iff.1 hempty⟩
  | case2 => cases h
  | case3 => cases h
  | case4 base b hne l hl ls' hls ih =>
    cases h
    obtain ⟨hrest, heq⟩ := ih hls
    obtain ⟨hstored, rest, rfl⟩ := SignatureList.decode_eq_ok_iff.1 hl
    rw [List.drop_left' hstored.uniform.length_encode] at heq
    refine ⟨List.forall_mem_cons.2 ⟨hstored, hrest⟩, ?_⟩
    rw [List.flatMap_cons, ← heq]

/-! ## Whole databases -/

variable {db : SignatureDatabase} {b : Bytes}

/-- What the reader accepts is a database of lists that can stand on disk, as it is written. -/
theorem decode_eq_ok_iff : decode b = .ok db ↔ (∀ l ∈ db.lists, l.IsStored) ∧ b = db.encode := by
  constructor
  · intro h
    unfold decode at h
    cases hls : decodeLists 0 b with
    | error e => rw [hls] at h; cases h
    | ok ls =>
      rw [hls] at h
      cases h
      exact of_decodeLists hls
  · rintro ⟨hstored, rfl⟩
    rw [decode, encode, decodeLists_flatMap_encode hstored]
    rfl

/-- A database with a list of each kind: an empty one with a header and a size that its type does
not imply, one with a certificate, and one with a digest. -/
def smallDatabase : SignatureDatabase where
  lists := [
    { signatureType := Guid.x509, header := [7], declaredSize := some 20 },
    .ofCertificate ⟨Guid.x509, [1, 2, 3]⟩,
    { signatureType := Guid.sha256, entries := [⟨Guid.x509, List.replicate 32 1⟩] }]

theorem isStored_smallDatabase : ∀ l ∈ smallDatabase.lists, l.IsStored := by
  simp only [smallDatabase, List.forall_mem_cons, List.not_mem_nil, false_implies, implies_true,
    and_true]
  refine ⟨⟨⟨by decide, by decide⟩, by decide, by decide⟩,
    ⟨⟨by decide, by decide⟩, by decide, by decide⟩, ⟨⟨by decide, by decide⟩, by decide, by decide⟩⟩

/-- An accepted file is written back byte for byte, and no other file means the same. -/
theorem encode_of_decode (h : decode b = .ok db) :
    db.encode = b ∧ ∀ b', decode b' = .ok db → b' = b := by
  obtain ⟨-, rfl⟩ := decode_eq_ok_iff.1 h
  exact ⟨rfl, fun b' h' => (decode_eq_ok_iff.1 h').2⟩

/-- Its 152 bytes are the only ones that mean this database. -/
theorem encode_of_decode_smallDatabase :
    decode smallDatabase.encode = .ok smallDatabase ∧ smallDatabase.encode.length = 152 ∧
      ∀ b', decode b' = .ok smallDatabase → b' = smallDatabase.encode := by
  have h : decode smallDatabase.encode = .ok smallDatabase :=
    decode_eq_ok_iff.2 ⟨isStored_smallDatabase, rfl⟩
  exact ⟨h, by decide +kernel, (encode_of_decode h).2⟩

end SignatureDatabase

/-! ## Databases that can be built -/

/-- The lists that can be built: a new one, that of a certificate, one of a database that was read,
and any of them after attempts to add entries, some of them in vain. -/
inductive SignatureList.IsReachable : SignatureList → Prop
  | new (signatureType : Guid) : IsReachable { signatureType }
  | ofCertificate (entry : SignatureEntry) : IsReachable (ofCertificate entry)
  | read {b : Bytes} {db : SignatureDatabase} {l : SignatureList} :
      SignatureDatabase.decode b = .ok db → l ∈ db.lists → IsReachable l
  | push {l : SignatureList} (entry : SignatureEntry) :
      IsReachable l → IsReachable (l.push entry).1

theorem SignatureList.IsReachable.isUniform {l : SignatureList} (h : l.IsReachable) :
    l.IsUniform := by
  induction h with
  | new signatureType => exact isUniform_new signatureType
  | ofCertificate entry => exact isUniform_ofCertificate entry
  | read h hl => exact ((SignatureDatabase.decode_eq_ok_iff.1 h).1 _ hl).uniform
  | push entry _ ih => exact ih.push entry

namespace SignatureDatabase

/-- A database that can be built is read back exactly when all its lists hold certificates, or
digests of 32 bytes; otherwise reading fails. -/
theorem decode_encode_iff (db : SignatureDatabase) (h : ∀ l ∈ db.lists, l.IsReachable)
    (hsize : ∀ l ∈ db.lists, l.size ≤ maxWord) :
    (decode db.encode = .ok db ↔ ∀ l ∈ db.lists, l.signatureType = Guid.x509 ∨
      l.signatureType = Guid.sha256 ∧ ∀ e ∈ l.entries, e.data.length = 32) ∧
    (decode db.encode ≠ .ok db → ∃ e, decode db.encode = .error e) := by
  have huniform : ∀ l ∈ db.lists, l.IsUniform := fun l hl => (h l hl).isUniform
  have hallowed : decode db.encode = .ok db ↔
      ∀ l ∈ db.lists, SignatureList.Allows l.signatureType l.signatureSize := by
    rw [decode_eq_ok_iff]
    constructor
    · exact fun hstored l hl => (hstored.1 l hl).allowed
    · exact fun hall => ⟨fun l hl => ⟨huniform l hl, hsize l hl, hall l hl⟩, rfl⟩
  refine ⟨hallowed.trans (forall₂_congr fun l hl =>
    SignatureList.allows_signatureSize_iff (huniform l hl)), ?_⟩
  intro hne
  rw [ne_eq, hallowed] at hne
  simp only [not_forall, exists_prop] at hne
  obtain ⟨e, he⟩ := exists_decodeLists_eq_error
    (fun l hl => ⟨huniform l hl, hsize l hl⟩) hne 0
  exact ⟨e, by rw [decode, encode, he]; rfl⟩

/-- An empty list of another size comes from a file only; the digest was added to a new list, which
then refuses a digest that is too short. -/
theorem isReachable_smallDatabase : ∀ l ∈ smallDatabase.lists, l.IsReachable := by
  have hread : ∀ l ∈ smallDatabase.lists, l.IsReachable := fun l hl =>
    .read (decode_eq_ok_iff.2 ⟨isStored_smallDatabase, rfl⟩) hl
  rw [smallDatabase, List.forall_mem_cons, List.forall_mem_cons, List.forall_mem_singleton]
  exact ⟨hread _ List.mem_cons_self, .ofCertificate _,
    .push ⟨Guid.x509, []⟩ (.push ⟨Guid.x509, List.replicate 32 1⟩ (.new Guid.sha256))⟩

/-- A digest that was cut short, in a list of its own. -/
def shortDigest : SignatureDatabase where
  lists := [(SignatureList.push { signatureType := Guid.sha256 } ⟨Guid.x509, [1]⟩).1]

/-- The small database is read back, the digest that was cut short is refused. -/
theorem decode_encode_smallDatabase :
    decode smallDatabase.encode = .ok smallDatabase ∧
      ∃ e, decode shortDigest.encode = .error e := by
  have hsmall := decode_encode_iff smallDatabase isReachable_smallDatabase (by decide)
  have hshort := decode_encode_iff shortDigest
    (List.forall_mem_singleton.2 (.push _ (.new Guid.sha256))) (by decide)
  exact ⟨hsmall.1.2 (by decide), hshort.2 fun hok => absurd (hshort.1.1 hok) (by decide)⟩

end SignatureDatabase

end SecureBoot
