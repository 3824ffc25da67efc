import Mathlib
import SecureBoot.Proofs.Authenticode.Building
import SecureBoot.Proofs.EfiImage.Attesting
import SecureBoot.Signer

/-!
# Signed images match their signatures

**Theorem (`isCurrent_signImage_iff`).** Whenever a regular image is signed the result can be read.
Its signatures, the new one and those kept, all match it if and only if the digest that was signed
does not depend on the new table (`KeepsDigest`).

Before it returns, signing compares the digest that the signatures state with the digest that it has
computed before. Both are the same value, so that this says nothing about the result. But it does
say that all signatures state one digest, and with the lengths of digests that they name one
algorithm.
-/

namespace SecureBoot

open EfiImage

/-! ## Signatures filled up -/

namespace WinCertificate

variable {v : WinCertificate} {a : DigestAlgorithm} {hash : Bytes}

theorem digestAlgorithm_padded (h : v.digestAlgorithm = .ok a) :
    v.padded.digestAlgorithm = .ok a := by
  obtain ⟨said, hsaid, h⟩ := bind_eq_ok.1 h
  exact bind_eq_ok.2 ⟨said, authenticode_padded hsaid, h⟩

theorem fileHash_padded (h : v.fileHash = .ok (some hash)) :
    v.padded.fileHash = .ok (some hash) := by
  obtain ⟨said, hsaid, h⟩ := bind_eq_ok.1 h
  exact bind_eq_ok.2 ⟨said, authenticode_padded hsaid, h⟩

end WinCertificate

namespace Signer

variable {s : Signer} {x out : Bytes} {i : EfiImage} {a : DigestAlgorithm} {hash : Bytes}

/-! ## What signing goes through -/

/-- The bytes of an image without the signatures that no longer match. -/
def cleaned (x : Bytes) : Except Error Bytes := do
  return (← (← decode x).dropStale).getD x

/-- The algorithm that the new signature of an image is made with. -/
def algorithmFor (s : Signer) (i : EfiImage) : Except Error DigestAlgorithm := do
  return (← i.digestAlgorithm).getD s.algorithm

/-- The steps of signing. -/
structure Signs (s : Signer) (x c : Bytes) (i : EfiImage) (a : DigestAlgorithm) (hash : Bytes)
    (w : WinCertificate) (y : Bytes) (j : EfiImage) : Prop where
  cleaned : cleaned x = .ok c
  image : decode c = .ok i
  algorithm : s.algorithmFor i = .ok a
  digest : i.digest a = .ok hash
  signature : s.signatureFor hash a = .ok w
  added : i.setSignatures [w] = .ok y
  signed : decode y = .ok j
  agreed : j.embeddedDigest = .ok (some hash)

theorem exists_signs_of_signImage (h : s.signImage x = .ok out) :
    ∃ c i a hash w y j, Signs s x c i a hash w y j ∧ out = j.withChecksum := by
  obtain ⟨i₀, hi₀, h⟩ := bind_eq_ok.1 h
  obtain ⟨r, hr, h⟩ := bind_eq_ok.1 h
  obtain ⟨i, hi, h⟩ := bind_eq_ok.1 h
  obtain ⟨named, hnamed, h⟩ := bind_eq_ok.1 h
  obtain ⟨hash, hhash, h⟩ := bind_eq_ok.1 h
  obtain ⟨w, hw, h⟩ := bind_eq_ok.1 h
  obtain ⟨y, hy, h⟩ := bind_eq_ok.1 h
  obtain ⟨j, hj, h⟩ := bind_eq_ok.1 h
  obtain ⟨stated, hstated, h⟩ := bind_eq_ok.1 h
  obtain ⟨hsame, h⟩ := check_bind_eq_ok.1 h
  refine ⟨r.getD x, i, named.getD s.algorithm, hash, w, y, j, {
    cleaned := bind_eq_ok.2 ⟨i₀, hi₀, bind_eq_ok.2 ⟨r, hr, rfl⟩⟩
    image := hi
    algorithm := bind_eq_ok.2 ⟨named, hnamed, rfl⟩
    digest := hhash
    signature := hw
    added := hy
    signed := hj
    agreed := ?_ }, (pure_eq_ok.1 h).symm⟩
  rw [hstated, not_not.1 hsame]

theorem Signs.signImage_eq {c y : Bytes} {w : WinCertificate} {j : EfiImage}
    (hs : Signs s x c i a hash w y j) : s.signImage x = .ok j.withChecksum := by
  obtain ⟨i₀, hi₀, hc⟩ := bind_eq_ok.1 hs.cleaned
  obtain ⟨r, hr, hc⟩ := bind_eq_ok.1 hc
  obtain rfl := pure_eq_ok.1 hc
  obtain ⟨named, hnamed, ha⟩ := bind_eq_ok.1 hs.algorithm
  obtain rfl := pure_eq_ok.1 ha
  have hagreed : ¬ (some hash ≠ some hash) := fun hne => hne rfl
  refine bind_eq_ok.2 ⟨i₀, hi₀, ?_⟩
  refine bind_eq_ok.2 ⟨r, hr, ?_⟩
  refine bind_eq_ok.2 ⟨i, hs.image, ?_⟩
  refine bind_eq_ok.2 ⟨named, hnamed, ?_⟩
  refine bind_eq_ok.2 ⟨hash, hs.digest, ?_⟩
  refine bind_eq_ok.2 ⟨w, hs.signature, ?_⟩
  refine bind_eq_ok.2 ⟨y, hs.added, ?_⟩
  refine bind_eq_ok.2 ⟨j, hs.signed, ?_⟩
  refine bind_eq_ok.2 ⟨some hash, hs.agreed, ?_⟩
  exact check_bind_eq_ok.2 ⟨hagreed, rfl⟩

/-! ## What the new signature states -/

theorem signatureFor_eq_ok {w : WinCertificate} (h : s.signatureFor hash a = .ok w) :
    ∃ r certificate, Authenticode.Recipe.signature? r = some certificate ∧ r.algorithm = a ∧
      r.fileHash = hash ∧ w = { certificate } := by
  rw [signatureFor] at h
  split at h
  swap
  · cases h
  rename_i certificate hcertificate
  cases h
  obtain ⟨r, hr, hcertificate⟩ := Option.bind_eq_some_iff.1 hcertificate
  obtain ⟨c, -, hr⟩ := bind_eq_some.1 hr
  obtain ⟨-, hr⟩ := guard_bind_eq_some.1 hr
  split at hr
  swap
  · cases hr
  cases hr
  exact ⟨_, certificate, hcertificate, rfl, rfl, rfl⟩

/-- The new signature names its algorithm and states the digest. -/
theorem states_of_signatureFor {w : WinCertificate} (h : s.signatureFor hash a = .ok w)
    (hlength : w.encode.length < 2 ^ 64) (haccepted : w.padded.IsAccepted) :
    w.padded.digestAlgorithm = .ok a ∧ w.padded.fileHash = .ok (some hash) := by
  obtain ⟨r, certificate, hcertificate, rfl, rfl, rfl⟩ := signatureFor_eq_ok h
  have hsize := WinCertificate.headerSize_add_le_size { certificate }
  rw [← WinCertificate.length_encode] at hsize
  obtain ⟨said, hsaid, -⟩ := haccepted.signature
  obtain ⟨halgorithm, hhash⟩ := Authenticode.Recipe.states_of_signature? hcertificate
    (((Nat.le_add_left _ _).trans hsize).trans_lt hlength) hsaid
  exact ⟨bind_eq_ok.2 ⟨said, hsaid, halgorithm⟩, bind_eq_ok.2 ⟨said, hsaid, pure_eq_ok.2 hhash⟩⟩

/-! ## What all signatures state -/

variable {c y : Bytes} {w : WinCertificate} {j : EfiImage}

theorem Signs.reads (hs : Signs s x c i a hash w y j) : Reads c i := decode_eq_ok_iff.1 hs.image

theorem Signs.reads_signed (hs : Signs s x c i a hash w y j) : Reads y j :=
  decode_eq_ok_iff.1 hs.signed

theorem Signs.length_eq (hs : Signs s x c i a hash w y j) :
    y.length = WinCertificate.align i.tableStop + w.encode.length + i.behind.length := by
  have hlength := hs.reads.length_setSignatures hs.added
  rwa [List.flatMap_singleton] at hlength

theorem Signs.length_lt (hs : Signs s x c i a hash w y j) : i.raw.length < y.length := by
  have hle := WinCertificate.le_align i.tableStop
  have hsize := w.headerSize_add_le_size
  have hheader : WinCertificate.headerSize = 8 := rfl
  rw [hs.length_eq, i.length_raw, w.length_encode]
  omega

theorem Signs.eq_signed (hs : Signs s x c i a hash w y j) (hc : IsRegular c i) :
    y = i.signed [w] := by
  have hadded := hs.added
  rw [hs.reads.setSignatures_eq_ok hc.directory_le_tableStop] at hadded
  cases hadded
  rfl

theorem Signs.isSigned (hs : Signs s x c i a hash w y j) (hc : IsRegular c i)
    (hmax : y.length ≤ maxWord) : IsSigned i [w] j ∧ IsRegular y j := by
  have hj := hs.reads_signed
  have hne : j.signatures ≠ [] := by
    intro hnone
    have hagreed := hs.agreed
    rw [embeddedDigest, hnone] at hagreed
    cases hagreed
  obtain rfl := hs.eq_signed hc
  have hfront : i.front.length ≤ i.tableStop := Nat.le_add_right _ _
  have hheaders := hc.headers_eq hs.reads hj
    ((hs.reads.agreeTo_signed hc.directory_le_tableStop [w]).mono (min_le_min le_rfl hfront))
  have hentry := hj.hasEntry hne
  rw [hheaders] at hentry
  obtain ⟨r, certificate, -, -, -, hw⟩ := signatureFor_eq_ok hs.signature
  refine hc.signed hs.reads hentry (List.cons_ne_nil _ _) ?_ hmax hj
  rw [List.forall_mem_singleton, hw]
  exact ⟨List.mem_cons_of_mem _ (List.mem_singleton_self _),
    List.mem_cons_of_mem _ (List.mem_cons_self)⟩

theorem Signs.isClear (hs : Signs s x c i a hash w y j) (hc : IsRegular c i)
    (hmax : y.length ≤ maxWord) : j.IsClear ∧ sectionsStop i.headers ≤ i.front.length := by
  obtain ⟨hsigned, -⟩ := hs.isSigned hc hmax
  have hj := hs.reads_signed
  have hstop : sectionsStop j.headers = sectionsStop i.headers := by
    rw [hsigned.headers]
    rfl
  have hlonger := hs.length_lt
  have hin := hs.reads.isInPlace.sectionsStop_le
  have hle := hs.reads.le_length_raw
  have hclear : j.IsClear := by
    intro d hd
    rcases hj.isInPlace.table with hend | htable
    · omega
    · exact (htable d hd).1
  refine ⟨hclear, ?_⟩
  rcases hj.lengths with ⟨-, hfront⟩ | ⟨d, hd, hfront, -⟩
  · rw [hsigned.length_front] at hfront
    omega
  · rw [← hsigned.length_front, hfront, ← hstop]
    exact hclear d hd

/-- All signatures name the algorithm of the new one and state its digest. -/
theorem Signs.states (hs : Signs s x c i a hash w y j) (hc : IsRegular c i)
    (hmax : y.length ≤ maxWord)
    (hkept : ∀ v ∈ i.signatures, ∃ i₀ u, EfiImage.isCurrent i₀ u = .ok true ∧
      (v = u ∨ v = u.padded)) :
    ∀ v ∈ j.signatures, v.digestAlgorithm = .ok a ∧ v.fileHash = .ok (some hash) := by
  obtain ⟨hsigned, hregular⟩ := hs.isSigned hc hmax
  have hagreed := (fileHash_of_agreedHash hs.agreed).2
  intro v hv
  obtain ⟨stated, hstated, hsame⟩ := hagreed v hv
  have haccepted := hregular.entries.isAccepted v hv
  rw [hsigned.signatures, List.mem_append] at hv
  rcases hv with hv | hv
  · obtain ⟨i₀, u, hcurrent, hpadded⟩ := hkept v hv
    obtain ⟨b, other, hb, hother, hhash⟩ := isCurrent_eq_ok_true_iff.1 hcurrent
    have hstates : v.digestAlgorithm = .ok b ∧ v.fileHash = .ok (some other) := by
      rcases hpadded with rfl | rfl
      · exact ⟨hb, hhash⟩
      · exact ⟨WinCertificate.digestAlgorithm_padded hb, WinCertificate.fileHash_padded hhash⟩
    rw [hstates.2] at hstated
    cases hstated
    obtain rfl := hsame other rfl
    obtain ⟨ha, input, -, hinput⟩ := digest_eq_ok_iff.1 hs.digest
    obtain ⟨hb', input', -, hinput'⟩ := digest_eq_ok_iff.1 hother
    obtain rfl := DigestAlgorithm.eq_of_digest_eq hb' ha (hinput'.symm.trans hinput)
    exact hstates
  · rw [List.map_singleton, List.mem_singleton] at hv
    subst hv
    have hlength := hs.length_eq
    have hword : maxWord < 2 ^ 64 := by decide
    exact states_of_signatureFor hs.signature (by omega) haccepted

/-! ## Signed images -/

/-- The result can be read, and has the signatures and the digest of the image that was signed. -/
theorem Signs.isSigned_withChecksum (hs : Signs s x c i a hash w y j) (hc : IsRegular c i)
    (hmax : y.length ≤ maxWord) :
    ∃ k, Reads j.withChecksum k ∧ IsSigned i [w] k ∧ k.signatures = j.signatures ∧
      k.raw.length = j.withChecksum.length := by
  obtain ⟨hsigned, hregular⟩ := hs.isSigned hc hmax
  obtain ⟨hclear, -⟩ := hs.isClear hc hmax
  have hj := hs.reads_signed
  obtain ⟨k, hk, hheaders, hsignatures, hfront, hagree⟩ := hregular.withChecksum hj hclear
  refine ⟨k, hk, {
    headers := by rw [hheaders]; exact hsigned.headers
    signatures := by rw [hsignatures, hsigned.signatures]
    length_front := by rw [hfront, hsigned.length_front]
    agree := ?_ }, hsignatures, ?_⟩
  · intro stop
    have hchecksum := hagree stop
    rw [hsigned.headers] at hchecksum
    exact (hsigned.agree stop).trans hchecksum
  · rw [hk.length_raw, hj.length_withChecksum, WinCertificate.align_of_dvd hj.dvd_length_raw]

/-- Signing makes an image that can be read, and that matches all of its signatures exactly if the
digest that was signed is kept. -/
theorem isCurrent_signImage_iff (hx : decode x = .ok i) (hregular : IsRegular x i)
    (hout : s.signImage x = .ok out) (hmax : out.length ≤ maxWord) :
    ∃ c i' a k, cleaned x = .ok c ∧ decode c = .ok i' ∧ s.algorithmFor i' = .ok a ∧
      decode out = .ok k ∧
      ((∀ v ∈ k.signatures, k.isCurrent v = .ok true) ↔ i'.KeepsDigest a out.length) := by
  obtain ⟨c, i', a, hash, w, y, j, hs, rfl⟩ := exists_signs_of_signImage hout
  have hj := hs.reads_signed
  rw [hj.length_withChecksum] at hmax
  have hy : y.length ≤ maxWord := hj.le_length_raw.trans hmax
  have hcy := hs.reads.le_length_raw.trans hs.length_lt.le
  obtain ⟨_, hi, hc⟩ := bind_eq_ok.1 hs.cleaned
  rw [hx] at hi
  cases hi
  obtain ⟨r, hr, hc⟩ := bind_eq_ok.1 hc
  obtain rfl := pure_eq_ok.1 hc
  obtain ⟨hclean, hkept⟩ := hregular.dropStale (decode_eq_ok_iff.1 hx) hr (hcy.trans hy) hs.reads
  obtain ⟨k, hk, hsigned, hsignatures, hlength⟩ := hs.isSigned_withChecksum hclean hy
  have hstates := hs.states hclean hy fun v hv => by
    obtain ⟨u, hu, hv⟩ := hkept v hv
    exact ⟨i, u, hu, hv⟩
  refine ⟨_, i', a, k, hs.cleaned, hs.image, hs.algorithm, decode_eq_ok_iff.2 hk, ?_⟩
  rw [← hlength, ← hsigned.digest_iff hs.reads hk (hs.isClear hclean hy).2 hclean.sections_behind
    hs.digest, hsignatures]
  constructor
  · intro h
    have hnew : w.padded ∈ j.signatures := by
      rw [← hsignatures, hsigned.signatures]
      simp
    obtain ⟨b, other, hb, hother, hstated⟩ := isCurrent_eq_ok_true_iff.1 (h _ hnew)
    obtain ⟨ha, hhash⟩ := hstates _ hnew
    rw [ha] at hb
    rw [hhash] at hstated
    cases hb
    cases hstated
    exact hother
  · intro h v hv
    obtain ⟨ha, hhash⟩ := hstates v hv
    exact isCurrent_eq_ok_true_iff.2 ⟨a, hash, ha, h, hhash⟩

/-! ## Small images -/

/-- A certificate that is fit for signing code. -/
def smallCertificate : X509.Certificate where
  serial := [1]
  signature := { oid := .rsaEncryption }
  issuer := ⟨[]⟩
  validity :=
    let moment : Der.Element :=
      ⟨Der.Tag.utcTime,
        [0x32, 0x35, 0x30, 0x31, 0x30, 0x31, 0x30, 0x30, 0x30, 0x30, 0x30, 0x30, 0x5a]⟩
    ⟨moment, moment⟩
  subject := ⟨[]⟩
  publicKey := ⟨{ oid := .rsaEncryption }, ⟨0, []⟩⟩
  signatureAlgorithm := { oid := .rsaEncryption }
  signatureValue := ⟨0, []⟩

/-- A signer with a key that is just long enough. -/
def smallSigner : Signer where
  bundle := [smallCertificate.encode]
  key := .rsa {
    modulus := (2 ^ 252 + 1) ^ 2
    publicExponent := 3
    privateExponent := (2 ^ 253 + 1) / 3
    p := 2 ^ 252 + 1
    q := 2 ^ 252 + 1 }

/-- The places that make an image without a certificate table a regular one. -/
def hasRegularPlaces (x : Bytes) (i : EfiImage) : Bool :=
  let h := i.headers
  decide (h.certificateDirectory = none ∧ h.certificateDirectoryStop ≤ h.tableOffset ∧
    h.tableStop ≤ frontStop x i ∧ ∀ t ∈ h.sections,
      (t.sizeOfRawData ≠ 0 → h.certificateDirectoryStop ≤ t.pointerToRawData.toNat) ∧
      Pe.Headers.nameOffset? t.rawName = none)

theorem exists_isRegular (h : (decode x).toOption.any (hasRegularPlaces x) = true) :
    ∃ i, decode x = .ok i ∧ IsRegular x i := by
  obtain ⟨i, hi, hplaces⟩ := exists_eq_ok_of_any h
  obtain ⟨hnone, hdirectory, htable, hsections⟩ := of_decide_eq_true hplaces
  exact ⟨i, hi, {
    directory_le := hdirectory
    tableStop_le := htable
    sections_behind := fun t ht => (hsections t ht).1
    names_behind := by
      intro t ht offset hoffset
      rw [(hsections t ht).2] at hoffset
      cases hoffset
    entries := ((decode_eq_ok_iff.1 hi).entries_of_none hnone).2 }⟩

/-- A small image that is signed. -/
theorem isCurrent_signImage_clearImage :
    ∃ i out, decode clearImage = .ok i ∧ IsRegular clearImage i ∧
      smallSigner.signImage clearImage = .ok out ∧ out.length ≤ maxWord ∧
      ∃ c i' a k, cleaned clearImage = .ok c ∧ decode c = .ok i' ∧
        smallSigner.algorithmFor i' = .ok a ∧ decode out = .ok k ∧
        ((∀ v ∈ k.signatures, k.isCurrent v = .ok true) ↔ i'.KeepsDigest a out.length) := by
  obtain ⟨i, hi, hregular⟩ := exists_isRegular (x := clearImage) (by decide +kernel)
  obtain ⟨out, hout, hmax⟩ := exists_eq_ok_of_any (e := smallSigner.signImage clearImage)
    (p := fun out => decide (out.length ≤ maxWord)) (by decide +kernel)
  have hmax := of_decide_eq_true hmax
  exact ⟨i, out, hi, hregular, hout, hmax, isCurrent_signImage_iff hi hregular hout hmax⟩

/-- An image with a section that shares bytes with the headers. -/
def overlappingImage : Bytes := smallImage 32 240 ⟨0, 0⟩ [1, 2, 3, 4, 5, 6, 7, 8]

/-- Signing does not fail for this image, but no digest of the result can be computed. -/
theorem not_isCurrent_signImage_overlappingImage :
    ∃ i out k, decode overlappingImage = .ok i ∧ IsRegular overlappingImage i ∧
      smallSigner.signImage overlappingImage = .ok out ∧ decode out = .ok k ∧
      ∃ v ∈ k.signatures, ∀ b, k.isCurrent v ≠ .ok b := by
  obtain ⟨i, hi, hregular⟩ := exists_isRegular (x := overlappingImage) (by decide +kernel)
  obtain ⟨out, hout, hk⟩ := exists_eq_ok_of_any (e := smallSigner.signImage overlappingImage)
    (p := fun out => (decode out).toOption.any fun k =>
      k.signatures.any fun v => (k.isCurrent v).toOption.isNone) (by decide +kernel)
  obtain ⟨k, hk, hsignatures⟩ := exists_eq_ok_of_any hk
  obtain ⟨v, hv, hnone⟩ := List.any_eq_true.1 hsignatures
  refine ⟨i, out, k, hi, hregular, hout, hk, v, hv, fun b hb => ?_⟩
  rw [hb] at hnone
  cases hnone

end Signer

end SecureBoot
