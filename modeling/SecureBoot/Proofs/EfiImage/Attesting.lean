import Mathlib
import SecureBoot.Proofs.EfiImage.Regular

/-!
# Digests with and without the new signatures

A digest is computed before the signatures are added that state it. `KeepsDigest` says when it is
the digest of the signed image too (`IsResigned.digest_iff`).

**Two ways to lose it.** Where a table does not end aligned, zeros come to stand behind what follows
it, and the digest covers them. Where the sizes of headers and sections sum up to more than the
start of the table, the digest looks for what follows the sections behind the start of the table,
and fails unless there is nothing that far in the file.

**Agreement.** Signatures that state one digest were made with one algorithm, since all algorithms
give digests of different lengths (`DigestAlgorithm.eq_of_digest_eq`).
-/

namespace SecureBoot

/-! ## Lengths of digests -/

namespace DigestAlgorithm

/-- The length of an image digest. -/
def imageDigestLength : DigestAlgorithm → Nat
  | .md5 => 16
  | .sha1 => 20
  | .sha256 => 32
  | .sha384 => 48
  | _ => 64

theorem length_digest {a : DigestAlgorithm} (ha : a ∈ EfiImage.imageAlgorithms) (x : Bytes) :
    (a.digest x).length = a.imageDigestLength := by
  simp only [EfiImage.imageAlgorithms, List.mem_cons, List.not_mem_nil, or_false] at ha
  rcases ha with rfl | rfl | rfl | rfl | rfl
  · simp [digest, Digest.md5, imageDigestLength]
  · simp [digest, Digest.sha1, imageDigestLength]
  · simp [digest, Digest.sha256, Digest.Sha256.digest, Digest.Sha256.State.toBytes,
      imageDigestLength]
  · simp [digest, Digest.sha384, Digest.Sha512.digest, Digest.Sha512.State.toBytes,
      imageDigestLength]
  · simp [digest, Digest.sha512, Digest.Sha512.digest, Digest.Sha512.State.toBytes,
      imageDigestLength]

theorem eq_of_digest_eq {a b : DigestAlgorithm} (ha : a ∈ EfiImage.imageAlgorithms)
    (hb : b ∈ EfiImage.imageAlgorithms) {x y : Bytes} (h : a.digest x = b.digest y) : a = b := by
  have hlength : a.imageDigestLength = b.imageDigestLength := by
    rw [← length_digest ha x, h, length_digest hb y]
  simp only [EfiImage.imageAlgorithms, List.mem_cons, List.not_mem_nil, or_false] at ha hb
  rcases ha with rfl | rfl | rfl | rfl | rfl <;> rcases hb with rfl | rfl | rfl | rfl | rfl <;>
    first | rfl | cases hlength

end DigestAlgorithm

namespace EfiImage

open Pe

variable {x y : Bytes} {i j : EfiImage} {more : List WinCertificate} {a : DigestAlgorithm}
  {hash : Bytes}

/-! ## Digests that the signatures state -/

/-- Where all signatures together state a digest, each states it or none. -/
theorem fileHash_of_agreedHash {first : Option Bytes} {ws : List WinCertificate}
    (h : agreedHash first ws = .ok (some hash)) :
    (∀ stated ∈ first, stated = hash) ∧
      ∀ w ∈ ws, ∃ stated, w.fileHash = .ok stated ∧ ∀ other ∈ stated, other = hash := by
  induction ws generalizing first with
  | nil =>
    cases pure_eq_ok.1 h
    exact ⟨fun stated hstated => (Option.some.inj hstated).symm, nofun⟩
  | cons w rest ih =>
    rw [agreedHash] at h
    obtain ⟨stated, hstated, h⟩ := bind_eq_ok.1 h
    rw [List.forall_mem_cons]
    cases stated with
    | none =>
      obtain ⟨hfirst, hrest⟩ := ih h
      exact ⟨hfirst, ⟨none, hstated, nofun⟩, hrest⟩
    | some other =>
      cases first with
      | none =>
        obtain ⟨hother, hrest⟩ := ih h
        exact ⟨nofun, ⟨some other, hstated, hother⟩, hrest⟩
      | some first =>
        obtain ⟨hsame, h⟩ := check_bind_eq_ok.1 h
        obtain ⟨hfirst, hrest⟩ := ih h
        rw [not_not] at hsame
        exact ⟨hfirst, ⟨some other, hstated, hsame ▸ hfirst⟩, hrest⟩

theorem agreedHash_of_fileHash {ws : List WinCertificate}
    (h : ∀ w ∈ ws, w.fileHash = .ok (some hash)) : agreedHash (some hash) ws = .ok (some hash) := by
  induction ws with
  | nil => rfl
  | cons w rest ih =>
    obtain ⟨hw, hrest⟩ := List.forall_mem_cons.1 h
    rw [agreedHash, hw]
    exact check_bind_eq_ok.2 ⟨fun hne => hne rfl, ih hrest⟩

theorem embeddedDigest_of_fileHash (hne : i.signatures ≠ [])
    (h : ∀ w ∈ i.signatures, w.fileHash = .ok (some hash)) :
    i.embeddedDigest = .ok (some hash) := by
  obtain ⟨w, rest, hws⟩ := List.exists_cons_of_ne_nil hne
  rw [hws] at h
  obtain ⟨hw, hrest⟩ := List.forall_mem_cons.1 h
  rw [embeddedDigest, hws, agreedHash, hw]
  exact agreedHash_of_fileHash hrest

/-! ## What the digest covers -/

/-- Headers that can be digested do not end in front of the directory entry. -/
theorem Reads.directory_le_of_digest (hi : Reads x i) (hdigest : i.digest a = .ok hash) :
    i.headers.certificateDirectoryStop ≤ i.headers.sizeOfHeaders.toNat := by
  obtain ⟨-, input, hinput, -⟩ := digest_eq_ok_iff.1 hdigest
  obtain ⟨header, hheader, -⟩ := bind_eq_ok.1 hinput
  obtain ⟨_, -, hheader⟩ := bind_eq_ok.1 hheader
  obtain ⟨_, -, hheader⟩ := bind_eq_ok.1 hheader
  obtain ⟨_, hrest, -⟩ := bind_eq_ok.1 hheader
  rw [← hi.certificateDirectory_stop]
  exact (Bytes.range_eq_ok.1 hrest).1.1

/-- Where the sizes sum up to more than the start of the table, nothing that follows can be found.
-/
theorem Reads.trailingInput_eq_ok_iff (hi : Reads x i)
    (hlt : i.front.length < digestedSize i.headers) {trailing : Bytes} :
    i.trailingInput = .ok trailing ↔ i.raw.length ≤ digestedSize i.headers ∧ trailing = [] := by
  rw [trailingInput]
  split
  · rename_i hsize
    rw [pure_eq_ok]
    exact ⟨fun h => ⟨hsize, h.symm⟩, fun h => h.2.symm⟩
  · rename_i hsize
    refine ⟨fun h => ?_, fun h => absurd h.1 hsize⟩
    cases hd : i.headers.certificateDirectory with
    | none =>
      rw [(hi.pieces_of_none hd).2.1] at hlt
      exact absurd hlt.le hsize
    | some d =>
      obtain ⟨t, ht, hoffset, -⟩ := hi.table_of_some hd
      rw [ht] at h
      obtain ⟨_, hbefore, -⟩ := bind_eq_ok.1 h
      have hle := (Bytes.range_eq_ok.1 hbefore).1.1
      rw [hoffset, ← (hi.lengths_of_some hd).1] at hle
      exact absurd hle (Nat.not_le.2 hlt)

theorem coveredBytes_append {h : Headers} {b : Bytes}
    (hheaders : h.certificateDirectoryStop ≤ h.sizeOfHeaders.toNat)
    (hstop : sectionsStop h ≤ b.length)
    (hbehind : ∀ s ∈ h.sections, s.sizeOfRawData ≠ 0 →
      h.certificateDirectoryStop ≤ s.pointerToRawData.toNat)
    (hsize : digestedSize h ≤ b.length) (rest : Bytes) :
    coveredBytes h (b ++ rest) = coveredBytes h b ++ rest := by
  have hagree : h.AgreeTo b.length b (b ++ rest) := fun k hk _ => List.getElem?_append_left hk
  rw [coveredBytes, coveredBytes, coveredFront_congr hagree hheaders hstop hbehind,
    List.drop_append_of_le_length hsize, List.append_assoc]

/-! ## The digest of a signed image -/

/-- Whether the digest of an image is also that of the image of some length that signing makes. -/
def KeepsDigest (i : EfiImage) (a : DigestAlgorithm) (length : Nat) : Prop :=
  if digestedSize i.headers ≤ i.front.length then
    let covered := coveredBytes i.headers i.unsigned
    a.digest (covered ++ Bytes.zeros (i.tableStop % 8)) = a.digest covered
  else length ≤ digestedSize i.headers

/-- Sections with places of their own and a table that ends aligned keep the digest. -/
theorem keepsDigest_of_isApart (hapart : i.headers.sections.Pairwise IsApart)
    (hbehind : ∀ s ∈ i.headers.sections, s.sizeOfRawData ≠ 0 →
      i.headers.sizeOfHeaders.toNat ≤ s.pointerToRawData.toNat)
    (hstop : sectionsStop i.headers ≤ i.front.length) (hdvd : 8 ∣ i.tableStop) (length : Nat) :
    i.KeepsDigest a length := by
  rw [KeepsDigest, if_pos ((digestedSize_le hapart hbehind).trans hstop)]
  dsimp only
  rw [Nat.mod_eq_zero_of_dvd hdvd, Bytes.zeros_zero, List.append_nil]

/-- The digest stays what it was exactly if `KeepsDigest` says so. -/
theorem IsSigned.digest_iff (hi : Reads x i) (hj : Reads y j) (hsigned : IsSigned i more j)
    (hstop : sectionsStop i.headers ≤ i.front.length)
    (hbehind : ∀ s ∈ i.headers.sections, s.sizeOfRawData ≠ 0 →
      i.headers.certificateDirectoryStop ≤ s.pointerToRawData.toNat)
    (hdigest : i.digest a = .ok hash) :
    j.digest a = .ok hash ↔ i.KeepsDigest a j.raw.length := by
  have hheaders := hi.directory_le_of_digest hdigest
  obtain ⟨ha, input, hinput, rfl⟩ := digest_eq_ok_iff.1 hdigest
  have hunsigned : i.front.length ≤ i.unsigned.length := by
    rw [i.length_unsigned]
    exact Nat.le_add_right _ _
  have hjheaders : j.headers.certificateDirectoryStop ≤ j.headers.sizeOfHeaders.toNat := by
    rw [hsigned.headers]
    exact hheaders
  have hjstop : sectionsStop j.headers ≤ j.front.length := by
    rw [hsigned.headers, hsigned.length_front]
    exact hstop
  have hjsize : digestedSize j.headers = digestedSize i.headers := by
    rw [hsigned.headers]
    rfl
  rw [KeepsDigest]
  split
  · rename_i hsize
    have hcovered : coveredBytes j.headers j.unsigned =
        coveredBytes i.headers i.unsigned ++ Bytes.zeros (i.tableStop % 8) := by
      rw [← coveredBytes_append hheaders (hstop.trans hunsigned) hbehind (hsize.trans hunsigned),
        ← coveredBytes_congr hsigned.agree hheaders hbehind, hsigned.headers]
      rfl
    rw [hi.digestInput_eq hheaders hstop hsize] at hinput
    cases hinput
    have hjinput := hj.digestInput_eq hjheaders hjstop
      (by rwa [hjsize, hsigned.length_front])
    rw [digest_eq_ok_iff, hjinput, hcovered]
    constructor
    · intro h
      obtain ⟨-, _, hinput, hsame⟩ := h
      cases hinput
      exact hsame.symm
    · intro h
      exact ⟨ha, _, rfl, h.symm⟩
  · rename_i hsize
    have hlt : i.front.length < digestedSize i.headers := Nat.not_le.1 hsize
    have hcovered : coveredFront j.headers j.unsigned = coveredFront i.headers i.unsigned := by
      have hagree : i.headers.AgreeTo i.front.length i.unsigned j.unsigned := by
        intro k hk hfield
        rw [hsigned.agree i.front.length k hk hfield, List.getElem?_append_left (by omega)]
      rw [← coveredFront_congr hagree hheaders hstop hbehind, hsigned.headers]
      rfl
    obtain ⟨trailing, htrailing, rfl⟩ :=
      (digestInput_eq_ok_iff (hi.front_eq hheaders hstop)).1 hinput
    obtain ⟨-, rfl⟩ := (hi.trailingInput_eq_ok_iff hlt).1 htrailing
    have hjfront := hj.front_eq hjheaders hjstop
    have hjtrailing := @Reads.trailingInput_eq_ok_iff y j hj
      (by rwa [hjsize, hsigned.length_front])
    rw [hcovered] at hjfront
    rw [hjsize] at hjtrailing
    rw [digest_eq_ok_iff]
    constructor
    · intro h
      obtain ⟨-, input, hinput, -⟩ := h
      obtain ⟨trailing, htrailing, -⟩ := (digestInput_eq_ok_iff hjfront).1 hinput
      exact (hjtrailing.1 htrailing).1
    · intro h
      exact ⟨ha, _, (digestInput_eq_ok_iff hjfront).2 ⟨[], hjtrailing.2 ⟨h, rfl⟩, rfl⟩, rfl⟩

end EfiImage

end SecureBoot
