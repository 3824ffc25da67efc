import Mathlib
import SecureBoot.Proofs.SignatureDatabase

/-!
# Sizes of signature lists

A list states three sizes in fields of 32 bits, and writing does not look whether they fit. Every
way to come by a list has to see to that.

* A new list is as long as the fixed part.
* A list that was read had its sizes in such fields.
* `push` refuses an entry with which the list would get too long, and then leaves the list alone.
* The list of one certificate is made without a look at its length; the certificate may be too long.

**Theorem (`sizes_of_isReachable`).** Attempts to add entries in any order, some of them in vain,
leave a list with entries of one size that takes the bytes that its size says. The three fields hold
the exact sizes, unless the list is that of one certificate which does not fit. Of such a list they
hold what is left of the sizes in 32 bits (`sizes_hugeCertificate`).

**Empty lists** state a size too. One that is not the usual size of the type binds the first entry;
the usual one is not kept when the list is read, and binds nothing (`push_emptyDigests`).
-/

namespace SecureBoot.SignatureList

variable {l l' : SignatureList} {entry : SignatureEntry} {e : Error}

/-! ## Adding entries -/

theorem eq_of_push_eq_error (h : l.push entry = (l', some e)) : l' = l := by
  cases hcheck : l.checkEntry entry with
  | error e' =>
    rw [push_of_error hcheck] at h
    exact (congrArg Prod.fst h).symm
  | ok _ =>
    rw [push_of_ok hcheck] at h
    cases congrArg Prod.snd h

theorem IsUniform.size_push (hl : l.IsUniform) (h : l.checkEntry entry = .ok ()) :
    (l.push entry).1.size = fixedSize + l.header.length + entry.size * (l.entries.length + 1) := by
  have huniform := hl.push entry
  rw [push_of_ok h] at huniform ⊢
  have hsize := huniform.size_eq entry (List.mem_append_right _ (List.mem_singleton_self _))
  rw [size, ← hsize, List.length_append, List.length_singleton]

/-- A list that is too long for its fields is that of one certificate. -/
theorem IsReachable.size_le (h : l.IsReachable) :
    l.size ≤ maxWord ∨ ∃ entry, l = SignatureList.ofCertificate entry ∧ maxWord < l.size := by
  induction h with
  | new signatureType => exact .inl (by rw [size]; exact (by decide : 28 ≤ maxWord))
  | ofCertificate entry => exact (Nat.lt_or_ge maxWord _).symm.imp_right fun h => ⟨entry, rfl, h⟩
  | read h hl => exact .inl ((SignatureDatabase.decode_eq_ok_iff.1 h).1 _ hl).size_le
  | @push l entry hl ih =>
    cases hcheck : l.checkEntry entry with
    | error e =>
      rw [push_of_error hcheck]
      exact ih
    | ok _ =>
      -- Nothing fits behind a certificate that is too long, so the bound holds from here on.
      exact .inl ((hl.isUniform.size_push hcheck).trans_le (checkEntry_eq_ok.1 hcheck).2)

/-! ## Empty lists that were read -/

theorem settledSize_of_decode {base : Nat} {b : Bytes} (h : decode base b = .ok l)
    (hempty : l.entries = []) :
    l.settledSize = if (b.u32 24).toNat ≠ usualSize l.signatureType then some (b.u32 24).toNat
      else none := by
  have hdeclared := (reads_of_decode h).declaredSize_eq
  rw [hempty] at hdeclared
  rw [settledSize, hempty]
  simpa using hdeclared

theorem push_eq_none_iff_of_decode {base : Nat} {b : Bytes} (h : decode base b = .ok l)
    (hempty : l.entries = []) :
    (l.push entry).2 = none ↔
      ((b.u32 24).toNat ≠ usualSize l.signatureType → entry.size = (b.u32 24).toNat) ∧
        fixedSize + l.header.length + entry.size ≤ maxWord := by
  have htotal : fixedSize + l.header.length + entry.size * (l.entries.length + 1) =
      fixedSize + l.header.length + entry.size := by rw [hempty, List.length_nil, Nat.mul_one]
  rw [push_eq_none_iff, checkEntry_eq_ok, settledSize_of_decode h hempty, htotal]
  refine and_congr_left' ⟨fun hsize hne => ?_, fun hsize n hn => ?_⟩
  · exact (hsize _ (if_pos hne)).symm
  · split at hn
    · rename_i hne
      cases hn
      exact (hsize hne).symm
    · cases hn

/-! ## All lists -/

/-- However a list came about, its entries have one size and it takes the bytes that it says. Its
fields hold the exact sizes unless it is that of a certificate that is too long. An empty list that
was read takes only entries of the size it stated, unless that is the usual one; and an entry that
is refused leaves the list as it is. -/
theorem sizes_of_isReachable (h : l.IsReachable) :
    (∀ e ∈ l.entries, e.size = l.signatureSize) ∧ l.encode.length = l.size ∧
      (l.size ≤ maxWord ∧ (l.encode.u32 16).toNat = l.size ∧
          (l.encode.u32 20).toNat = l.header.length ∧ (l.encode.u32 24).toNat = l.signatureSize ∨
        ∃ entry, l = ofCertificate entry ∧ maxWord < l.size ∧
          (l.encode.u32 16).toNat = l.size % 2 ^ 32 ∧ (l.encode.u32 20).toNat = 0 ∧
          (l.encode.u32 24).toNat = l.signatureSize % 2 ^ 32) ∧
      (∀ base b, decode base b = .ok l → l.entries = [] → ∀ entry,
        ((l.push entry).2 = none ↔
          ((b.u32 24).toNat ≠ usualSize l.signatureType → entry.size = (b.u32 24).toNat) ∧
            fixedSize + l.header.length + entry.size ≤ maxWord)) ∧
      ∀ entry l' e, l.push entry = (l', some e) → l' = l := by
  have huniform := h.isUniform
  refine ⟨huniform.size_eq, huniform.length_encode, ?_,
    fun base b hb hempty entry => push_eq_none_iff_of_decode hb hempty,
    fun entry l' e he => eq_of_push_eq_error he⟩
  rcases h.size_le with hsize | ⟨entry, rfl, hlong⟩
  · have hsizes := huniform.sizes_encode hsize []
    rw [List.append_nil] at hsizes
    exact .inl ⟨hsize, hsizes⟩
  · have hsizes := (SignatureList.ofCertificate entry).sizes_encode []
    rw [List.append_nil] at hsizes
    exact .inr ⟨entry, rfl, hlong, hsizes⟩

/-- An empty list with a size of its own. -/
def emptyTwenty : SignatureList :=
  { signatureType := Guid.x509, header := [7], declaredSize := some 20 }

theorem decode_emptyTwenty : decode 0 emptyTwenty.encode = .ok emptyTwenty :=
  decode_eq_ok_iff.2 ⟨⟨⟨by decide, by decide⟩, by decide, by decide⟩, [], (List.append_nil _).symm⟩

/-- It takes an entry of 20 bytes and no other, and stays as it is when one is refused. -/
theorem sizes_of_isReachable_emptyTwenty :
    emptyTwenty.IsReachable ∧ emptyTwenty.encode.length = 29 ∧
      (emptyTwenty.encode.u32 24).toNat = 20 ∧
      (emptyTwenty.push ⟨Guid.x509, [1, 2, 3, 4]⟩).2 = none ∧
      (emptyTwenty.push ⟨Guid.x509, [1]⟩).2 ≠ none ∧
      (emptyTwenty.push ⟨Guid.x509, [1]⟩).1 = emptyTwenty := by
  have hread : SignatureDatabase.decode (SignatureDatabase.encode ⟨[emptyTwenty]⟩) =
      .ok ⟨[emptyTwenty]⟩ := SignatureDatabase.decode_eq_ok_iff.2
    ⟨List.forall_mem_singleton.2 (decode_eq_ok_iff.1 decode_emptyTwenty).1, rfl⟩
  have hreachable : emptyTwenty.IsReachable := .read hread (List.mem_singleton_self _)
  obtain ⟨-, hlength, hfields, htakes, hrefused⟩ := sizes_of_isReachable hreachable
  have hstated : (emptyTwenty.encode.u32 24).toNat = 20 := by decide
  have hshort : (emptyTwenty.push ⟨Guid.x509, [1]⟩).2 = some (.mixedSignatureSize 20 17) := by
    decide
  refine ⟨hreachable, hlength.trans (by decide), hstated, ?_, ?_, ?_⟩
  · exact (htakes 0 _ decode_emptyTwenty rfl _).2 (by decide)
  · exact fun hpush => absurd ((htakes 0 _ decode_emptyTwenty rfl _).1 hpush) (by decide)
  · exact hrefused _ _ _ (Prod.ext rfl hshort)

/-- A certificate that no list can state the size of. -/
def hugeCertificate : SignatureEntry := ⟨Guid.x509, Bytes.zeros maxWord⟩

theorem size_ofCertificate (entry : SignatureEntry) :
    (ofCertificate entry).size = fixedSize + entry.size := by
  rw [size, ofCertificate]
  exact congrArg (fixedSize + ·) (Nat.mul_one _)

theorem length_hugeCertificate : hugeCertificate.data.length = maxWord := Bytes.length_zeros maxWord

theorem size_hugeCertificate : (ofCertificate hugeCertificate).size = maxWord + 44 := by
  have hfixed : fixedSize = 28 := rfl
  have hguid : Guid.size = 16 := rfl
  rw [size_ofCertificate, SignatureEntry.size, length_hugeCertificate, hfixed, hguid]
  omega

/-- The list of that certificate has 44 bytes more than its field can state, which holds the 43
bytes that are left. -/
theorem sizes_hugeCertificate :
    (ofCertificate hugeCertificate).IsReachable ∧
      (ofCertificate hugeCertificate).encode.length = maxWord + 44 ∧
      (ofCertificate hugeCertificate).size = maxWord + 44 ∧
      ((ofCertificate hugeCertificate).encode.u32 16).toNat = 43 := by
  obtain ⟨hfield, -, -⟩ := (ofCertificate hugeCertificate).sizes_encode []
  have hlength := (isUniform_ofCertificate hugeCertificate).length_encode
  have hrest : (maxWord + 44) % 2 ^ 32 = 43 := by decide
  rw [List.append_nil, size_hugeCertificate, hrest] at hfield
  rw [size_hugeCertificate] at hlength
  exact ⟨.ofCertificate _, hlength, size_hugeCertificate, hfield⟩

/-- An empty list of digests, which states their usual size. -/
def emptyDigests : SignatureList := { signatureType := Guid.sha256 }

/-- It is read from 28 bytes that state 48 for an entry, and takes one of 17. -/
theorem push_emptyDigests :
    decode 0 emptyDigests.encode = .ok emptyDigests ∧ (emptyDigests.encode.u32 24).toNat = 48 ∧
      (emptyDigests.push ⟨Guid.x509, [1]⟩).2 = none ∧
      (emptyDigests.push ⟨Guid.x509, [1]⟩).1.signatureSize = 17 := by
  have hread : decode 0 emptyDigests.encode = .ok emptyDigests :=
    decode_eq_ok_iff.2 ⟨⟨⟨by decide, by decide⟩, by decide, by decide⟩, [],
      (List.append_nil _).symm⟩
  have htakes : (emptyDigests.push ⟨Guid.x509, [1]⟩).2 = none :=
    (push_eq_none_iff_of_decode hread rfl).2 (by decide)
  exact ⟨hread, by decide, htakes, by decide⟩

end SecureBoot.SignatureList
