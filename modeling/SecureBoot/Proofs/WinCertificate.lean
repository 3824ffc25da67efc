import Mathlib
import SecureBoot.Authenticode
import SecureBoot.Proofs.Bytes
import SecureBoot.Proofs.Outcome

/-!
# Laws of certificate table entries

An entry that was written takes its size to a byte, a multiple of eight (`length_encode`,
`dvd_size`), and is read back with the zeros that fill it up (`decode_encode`).
-/

namespace SecureBoot.WinCertificate

/-! ## Places of entries -/

theorem le_align (n : Nat) : n ≤ align n := le_alignUp n alignment

theorem align_lt_add (n : Nat) : align n < n + 8 := alignUp_lt_add (by decide)

theorem dvd_align (n : Nat) : 8 ∣ align n := dvd_alignUp (by decide)

theorem align_of_dvd {n : Nat} (h : 8 ∣ n) : align n = n :=
  (alignUp_eq_self_iff (a := alignment) (by decide)).2 h

/-! ## Written entries -/

variable {w : WinCertificate}

/-- The entry as it is read back: its certificate is filled up with zeros. -/
def padded (w : WinCertificate) : WinCertificate :=
  { w with certificate := Bytes.padTo w.certificate (w.size - headerSize) }

theorem headerSize_add_le_size (w : WinCertificate) :
    headerSize + w.certificate.length ≤ w.size := le_align _

theorem dvd_size (w : WinCertificate) : 8 ∣ w.size := dvd_align _

theorem encode_eq (w : WinCertificate) :
    w.encode = Bytes.ofNatLE 4 w.size ++ (Bytes.ofNatLE 2 w.revision.toNat ++
      (Bytes.ofNatLE 2 w.kind.toNat ++ w.padded.certificate)) := by
  have hlength : (Bytes.ofNatLE 4 w.size ++ Bytes.ofNatLE 2 w.revision.toNat ++
      Bytes.ofNatLE 2 w.kind.toNat ++ w.certificate).length =
        headerSize + w.certificate.length := by
    simp [headerSize]
    omega
  rw [encode, padded, Bytes.padTo, Bytes.padTo, hlength, Nat.sub_add_eq]
  simp only [List.append_assoc]

theorem length_encode (w : WinCertificate) : w.encode.length = w.size := by
  have hle := w.headerSize_add_le_size
  have hheader : headerSize = 8 := rfl
  rw [encode_eq, padded]
  simp only [List.length_append, Bytes.length_ofNatLE, Bytes.length_padTo]
  omega

/-- The length in front of an entry is the number of its bytes. -/
theorem u32_encode (hsize : w.size ≤ maxWord) : (Bytes.u32 w.encode 0).toNat = w.size := by
  apply Bytes.u32_of_slice _ hsize
  rw [encode_eq, Bytes.slice_zero]
  exact List.take_left' (Bytes.length_ofNatLE _ _)

/-- An entry comes back, filled up with zeros. -/
theorem decode_encode (hrevision : w.revision ∈ revisions) (hkind : w.kind ∈ kinds) :
    decode w.encode = .ok w.padded := by
  have hrev : Bytes.u16 w.encode 4 = w.revision := by
    rw [encode_eq, Bytes.u16_append_right (by simp), Bytes.length_ofNatLE,
      Bytes.u16_ofNatLE_append]
  have hkin : Bytes.u16 w.encode 6 = w.kind := by
    rw [encode_eq, Bytes.u16_append_right (by simp), Bytes.u16_append_right (by simp),
      Bytes.length_ofNatLE, Bytes.length_ofNatLE, Bytes.u16_ofNatLE_append]
  have hdrop : w.encode.drop headerSize = w.padded.certificate := by
    rw [encode_eq, ← List.append_assoc, ← List.append_assoc]
    exact List.drop_left' (by simp [headerSize])
  rw [decode, hrev, hkin, hdrop, if_pos ⟨hrevision, hkind⟩]
  rfl

end SecureBoot.WinCertificate
