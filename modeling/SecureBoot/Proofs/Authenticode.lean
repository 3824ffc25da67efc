import Mathlib
import SecureBoot.Authenticode
import SecureBoot.Proofs.Der

/-!
# What reading a signature sees

A signature is read from its outermost element alone, so that zeros behind it, which fill up an
entry of the certificate table, change nothing (`decode_append`).
-/

namespace SecureBoot

theorem SignedData.decode?_append {x : Bytes} {s : SignedData} (h : decode? x = some s)
    (more : Bytes) : decode? (x ++ more) = some s := by
  cases hnext : Der.next? .lenient x with
  | none =>
    rw [decode?, hnext] at h
    cases h
  | some pair =>
    obtain ⟨whole, rest⟩ := pair
    rw [decode?, hnext] at h
    rw [decode?, Der.next?_append hnext more]
    exact h

theorem Authenticode.decode_append {x : Bytes} {a : Authenticode} (h : decode x = .ok a)
    (more : Bytes) : decode (x ++ more) = .ok a := by
  rw [decode] at h
  split at h
  · rename_i a' ha
    cases h
    rw [decode?, Option.bind_eq_bind, Option.bind_eq_some_iff] at ha
    obtain ⟨signed, hsigned, hrest⟩ := ha
    rw [decode, decode?, SignedData.decode?_append hsigned more, Option.bind_eq_bind,
      Option.bind_some, hrest]
  · cases h

end SecureBoot
