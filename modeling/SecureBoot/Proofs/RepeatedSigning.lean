import Mathlib
import SecureBoot.Proofs.EfiImage.Checksum
import SecureBoot.Proofs.Signer

/-!
# Images that are signed again and again

A sound image without a certificate table is signed by one signer after the other, each time from
the bytes that the one before has left.

**Theorem (`carries_of_run`).** However often the image is signed, it has one signature for each
signer, in their order, and all of them match it: all are made with the algorithm of the first
signer and state the digest that the unsigned image has for it. So no signature is ever dropped, and
the next signer finds an image that can be signed.

**The invariant** (`Signed`) adds to `Keeps` what the signatures say. A step keeps it because the
digest that a signer computes is that of the first image (`Keeps.digest_eq`), and the algorithm is
read from the first signature.
-/

namespace SecureBoot

open EfiImage Pe

namespace Signer

variable {x y z : Bytes} {i j : EfiImage} {l : Layout} {signers : List Signer} {s : Signer}
  {a : DigestAlgorithm} {hash : Bytes} {w : WinCertificate}

/-! ## Runs -/

/-- Signing by one signer after the other; attempts that fail leave no new bytes. -/
inductive SigningRun (x : Bytes) : List Signer → Bytes → Prop
  | start : SigningRun x [] x
  | signed {signers : List Signer} {s : Signer} {y z : Bytes} : SigningRun x signers y →
      s.signImage y = .ok z → z.length ≤ maxWord → SigningRun x (signers ++ [s]) z

/-- Signatures that were made by these signers, in their order, all for one digest. -/
structure Carries (signers : List Signer) (a : DigestAlgorithm) (hash : Bytes)
    (ws : List WinCertificate) : Prop where
  made : List.Forall₂ (fun s w => ∃ v, s.signatureFor hash a = .ok v ∧ w = v.padded) signers ws
  algorithm : ∀ w ∈ ws, w.digestAlgorithm = .ok a
  fileHash : ∀ w ∈ ws, w.fileHash = .ok (some hash)

theorem Carries.nil (a : DigestAlgorithm) (hash : Bytes) : Carries [] a hash [] where
  made := .nil
  algorithm := nofun
  fileHash := nofun

theorem Carries.append {ws : List WinCertificate} (h : Carries signers a hash ws)
    (hw : s.signatureFor hash a = .ok w) (halgorithm : w.padded.digestAlgorithm = .ok a)
    (hfileHash : w.padded.fileHash = .ok (some hash)) :
    Carries (signers ++ [s]) a hash (ws ++ [w.padded]) where
  made := List.rel_append h.made (.cons ⟨w, hw, rfl⟩ .nil)
  algorithm := List.forall_mem_append.2 ⟨h.algorithm, List.forall_mem_singleton.2 halgorithm⟩
  fileHash := List.forall_mem_append.2 ⟨h.fileHash, List.forall_mem_singleton.2 hfileHash⟩

/-- What signing keeps: the image behind the signatures, and what they say. -/
structure Signed (x : Bytes) (i : EfiImage) (signers : List Signer) (y : Bytes) (j : EfiImage) :
    Prop where
  keeps : Keeps x i j.signatures y j
  unsigned : signers = [] → j.signatures = []
  carries : ∀ first ∈ signers.head?, ∃ hash, i.digest first.algorithm = .ok hash ∧
    Carries signers first.algorithm hash j.signatures
  checksum : signers ≠ [] → j.statedChecksum = UInt32.ofNat j.computedChecksum

theorem signed_start (hx : IsSound x i l) (hunsigned : i.signatures = []) : Signed x i [] x i where
  keeps := hx.keeps
  unsigned := fun _ => hunsigned
  carries := nofun
  checksum := fun hne => absurd rfl hne

/-! ## What a signer finds -/

/-- The algorithm that the next signer signs with. -/
def nextAlgorithm (signers : List Signer) (s : Signer) : DigestAlgorithm :=
  (signers.head?.getD s).algorithm

/-- The digest for the next signature is the one that the signatures there are state. -/
theorem Signed.carries_next (h : Signed x i signers y j)
    (hdigest : i.digest (nextAlgorithm signers s) = .ok hash) :
    Carries signers (nextAlgorithm signers s) hash j.signatures := by
  cases signers with
  | nil =>
    rw [h.unsigned rfl]
    exact Carries.nil _ _
  | cons first rest =>
    obtain ⟨stated, hstated, hcarries⟩ := h.carries first rfl
    change i.digest first.algorithm = .ok hash at hdigest
    rw [hdigest] at hstated
    cases hstated
    exact hcarries

theorem Signed.length_signatures (h : Signed x i signers y j) :
    j.signatures.length = signers.length := by
  cases signers with
  | nil => rw [h.unsigned rfl]; rfl
  | cons first rest =>
    obtain ⟨hash, -, hcarries⟩ := h.carries first rfl
    exact hcarries.made.length_eq.symm

theorem Signed.algorithmFor_eq (h : Signed x i signers y j) (s : Signer) :
    s.algorithmFor j = .ok (nextAlgorithm signers s) := by
  cases signers with
  | nil =>
    rw [algorithmFor, digestAlgorithm, h.unsigned rfl]
    rfl
  | cons first rest =>
    obtain ⟨hash, -, hcarries⟩ := h.carries first rfl
    obtain ⟨w, ws, -, -, hws⟩ := List.forall₂_cons_left_iff.1 hcarries.made
    have hw := hcarries.algorithm w (by rw [hws]; exact List.mem_cons_self)
    rw [algorithmFor, digestAlgorithm, hws]
    show ((some <$> w.digestAlgorithm) >>= fun named => pure (named.getD s.algorithm)) = _
    rw [hw]
    rfl

theorem Signed.dropStale_eq (h : Signed x i signers y j) (hx : IsSound x i l)
    (hclear : i.IsClear) : j.dropStale = .ok none := by
  apply dropStale_eq_none
  intro w hw
  rw [h.keeps.isCurrent_eq hx hclear]
  cases signers with
  | nil =>
    rw [h.unsigned rfl] at hw
    cases hw
  | cons first rest =>
    obtain ⟨hash, hdigest, hcarries⟩ := h.carries first rfl
    exact isCurrent_eq_ok_true_iff.2
      ⟨first.algorithm, hash, hcarries.algorithm w hw, hdigest, hcarries.fileHash w hw⟩

/-! ## One more signer -/

theorem Signed.append (h : Signed x i signers y j) {k : EfiImage}
    (hdigest : i.digest (nextAlgorithm signers s) = .ok hash)
    (hw : s.signatureFor hash (nextAlgorithm signers s) = .ok w)
    (halgorithm : w.padded.digestAlgorithm = .ok (nextAlgorithm signers s))
    (hfileHash : w.padded.fileHash = .ok (some hash))
    (hkeeps : Keeps x i (j.signatures ++ [w.padded]) z k)
    (hchecksum : k.statedChecksum = UInt32.ofNat k.computedChecksum) :
    Signed x i (signers ++ [s]) z k where
  keeps := by
    rw [hkeeps.signatures]
    exact hkeeps
  unsigned := fun hnil => absurd hnil (List.append_ne_nil_of_right_ne_nil _ (List.cons_ne_nil _ _))
  carries := by
    intro first hfirst
    have hsame : first.algorithm = nextAlgorithm signers s := by
      cases signers <;> cases hfirst <;> rfl
    rw [hkeeps.signatures, hsame]
    exact ⟨hash, hdigest, (h.carries_next hdigest).append hw halgorithm hfileHash⟩
  checksum := fun _ => hchecksum

/-- A signer signs the image that was found, since nothing in it is stale. -/
theorem Signs.found {c y' : Bytes} {i' j' : EfiImage}
    (hs : Signs s y c i' a hash w y' j') (hj : decode y = .ok j)
    (hstale : j.dropStale = .ok none) : c = y ∧ i' = j := by
  obtain ⟨i₀, hi₀, hc⟩ := bind_eq_ok.1 hs.cleaned
  rw [hj] at hi₀
  cases hi₀
  obtain ⟨r, hr, hc⟩ := bind_eq_ok.1 hc
  rw [hstale] at hr
  cases hr
  obtain rfl := pure_eq_ok.1 hc
  have himage := hs.image
  rw [Option.getD_none, hj] at himage
  cases himage
  exact ⟨rfl, rfl⟩

/-- The reader has accepted the new signature when it has read the signed image, so that signature
says what it was made for. -/
theorem Signs.keeps {ws : List WinCertificate} {y' : Bytes} {j' : EfiImage} (hx : IsSound x i l)
    (hclear : i.IsClear) (hk : Keeps x i ws y j) (hs : Signs s y y j a hash w y' j')
    (hmax : y'.length ≤ maxWord) :
    w.padded.digestAlgorithm = .ok a ∧ w.padded.fileHash = .ok (some hash) ∧
      Keeps x i (ws ++ [w.padded]) y' j' := by
  obtain ⟨hsigned, hregular⟩ := hs.isSigned (hk.isRegular hx hclear) hmax
  have haccepted : w.padded.IsAccepted := by
    apply hregular.entries.isAccepted
    rw [hsigned.signatures]
    exact List.mem_append_right _ List.mem_cons_self
  have hlength := hs.length_eq
  have hword : maxWord < 2 ^ 64 := by decide
  obtain ⟨halgorithm, hfileHash⟩ := states_of_signatureFor hs.signature (by omega) haccepted
  obtain ⟨_, hadded⟩ := hk.setSignatures hx hclear (List.forall_mem_singleton.2 haccepted)
    hs.added hmax
  have hsame := hs.signed
  rw [hadded.image] at hsame
  cases hsame
  exact ⟨halgorithm, hfileHash, hadded⟩

/-- Every signing keeps the invariant. -/
theorem Signed.step (h : Signed x i signers y j) (hx : IsSound x i l) (hclear : i.IsClear)
    (hz : s.signImage y = .ok z) (hmax : z.length ≤ maxWord) :
    ∃ k, Signed x i (signers ++ [s]) z k := by
  obtain ⟨c, i', a, hash, w, y', j', hs, rfl⟩ := exists_signs_of_signImage hz
  obtain ⟨rfl, rfl⟩ := hs.found h.keeps.image (h.dropStale_eq hx hclear)
  have halgorithm := hs.algorithm
  rw [h.algorithmFor_eq s] at halgorithm
  cases halgorithm
  have hdigest := hs.digest
  rw [h.keeps.digest_eq hx hclear] at hdigest
  have hy : y'.length ≤ maxWord := by
    rw [hs.reads_signed.length_withChecksum] at hmax
    exact hs.reads_signed.le_length_raw.trans hmax
  obtain ⟨halgorithm, hfileHash, hadded⟩ := hs.keeps hx hclear h.keeps hy
  obtain ⟨k, hk⟩ := hadded.withChecksum hx hclear
  obtain ⟨-, -, hchecksum⟩ := hadded.reads.statedChecksum_withChecksum hk.reads
  exact ⟨k, h.append hdigest hs.signature halgorithm hfileHash hk hchecksum⟩

theorem signed_of_run (hx : IsSound x i l) (hclear : i.IsClear) (hunsigned : i.signatures = [])
    (hrun : SigningRun x signers y) : ∃ j, Signed x i signers y j := by
  induction hrun with
  | start => exact ⟨i, signed_start hx hunsigned⟩
  | signed _ hz hmax ih =>
    obtain ⟨j, h⟩ := ih
    exact h.step hx hclear hz hmax

/-! ## Signers that can sign -/

/-- A signer that makes a signature can sign if there is room for it, and the image grows by no more
than the signature. -/
theorem Signed.exists_signImage (h : Signed x i signers y j) (hx : IsSound x i l)
    (hclear : i.IsClear) (hdigest : i.digest (nextAlgorithm signers s) = .ok hash)
    (hw : s.signatureFor hash (nextAlgorithm signers s) = .ok w) (haccepted : w.IsAccepted)
    (hmax : WinCertificate.align y.length + w.size ≤ maxWord) :
    ∃ z, s.signImage y = .ok z ∧ z.length = WinCertificate.align y.length + w.size := by
  obtain ⟨z, hz⟩ := h.keeps.exists_setSignatures hx hclear [w]
  have hlength := h.keeps.reads.length_setSignatures hz
  have hraw := h.keeps.reads.length_raw
  rw [j.length_raw] at hraw
  rw [WinCertificate.align_of_dvd h.keeps.dvd_tableStop, List.flatMap_singleton,
    w.length_encode] at hlength
  obtain ⟨k, hk⟩ := h.keeps.setSignatures hx hclear
    (List.forall_mem_singleton.2 haccepted.padded) hz (by omega)
  have hword : maxWord < 2 ^ 64 := by decide
  obtain ⟨halgorithm, hfileHash⟩ := states_of_signatureFor hw
    (by rw [w.length_encode]; omega) haccepted.padded
  have hcarries := (h.carries_next hdigest).append hw halgorithm hfileHash
  have hagreed : k.embeddedDigest = .ok (some hash) := by
    apply embeddedDigest_of_fileHash <;> rw [hk.signatures]
    · exact List.append_ne_nil_of_right_ne_nil _ (List.cons_ne_nil _ _)
    · exact hcarries.fileHash
  have hcleaned : cleaned y = .ok y :=
    bind_eq_ok.2 ⟨j, h.keeps.image, bind_eq_ok.2 ⟨none, h.dropStale_eq hx hclear, rfl⟩⟩
  have hsum : z.length = WinCertificate.align y.length + w.size := by omega
  have hgrown : k.withChecksum.length = WinCertificate.align y.length + w.size := by
    rw [hk.reads.length_withChecksum, hk.reads.length_raw, hsum, WinCertificate.align_of_dvd]
    exact Nat.dvd_add (WinCertificate.dvd_align _) w.dvd_size
  refine ⟨_, Signs.signImage_eq {
    cleaned := hcleaned
    image := h.keeps.image
    algorithm := h.algorithmFor_eq s
    digest := by rw [h.keeps.digest_eq hx hclear]; exact hdigest
    signature := hw
    added := hz
    signed := hk.image
    agreed := hagreed }, hgrown⟩

/-! ## The whole run -/

/-- After any run the image has the signatures of the signers, all current and made for the digest
that it had at first, and a further signer can sign it. -/
theorem carries_of_run (hx : IsSound x i l) (hunsigned : i.certificateTable = none)
    (hrun : SigningRun x signers y) :
    ∃ j, decode y = .ok j ∧ j.signatures.length = signers.length ∧ j.dropStale = .ok none ∧
      (∀ first ∈ signers.head?, ∃ hash, i.digest first.algorithm = .ok hash ∧
        Carries signers first.algorithm hash j.signatures ∧
        j.embeddedDigest = .ok (some hash) ∧
        j.statedChecksum = UInt32.ofNat j.computedChecksum) ∧
      ∀ s hash w, i.digest (nextAlgorithm signers s) = .ok hash →
        s.signatureFor hash (nextAlgorithm signers s) = .ok w → w.IsAccepted →
        WinCertificate.align y.length + w.size ≤ maxWord → ∃ z, s.signImage y = .ok z := by
  have hnone : i.headers.certificateDirectory = none := by
    have htable := hx.reads.certificateTable
    rw [hunsigned] at htable
    exact Option.map_eq_none_iff.1 htable.symm
  have hclear : i.IsClear := by
    intro d hd
    rw [hnone] at hd
    cases hd
  obtain ⟨j, h⟩ := signed_of_run hx hclear (hx.reads.entries_of_none hnone).1 hrun
  refine ⟨j, h.keeps.image, h.length_signatures, h.dropStale_eq hx hclear, ?_,
    fun s hash w hdigest hw haccepted hmax =>
      (h.exists_signImage hx hclear hdigest hw haccepted hmax).imp fun _ hz => hz.1⟩
  intro first hfirst
  have hsigners : signers ≠ [] := List.ne_nil_of_mem (List.mem_of_mem_head? hfirst)
  have hsignatures : j.signatures ≠ [] := by
    rw [← List.length_pos_iff, h.length_signatures]
    exact List.length_pos_iff.2 hsigners
  obtain ⟨hash, hdigest, hcarries⟩ := h.carries first hfirst
  exact ⟨hash, hdigest, hcarries, embeddedDigest_of_fileHash hsignatures hcarries.fileHash,
    h.checksum hsigners⟩

/-- A small image that is signed twice, the second time by a signer with another algorithm. -/
theorem carries_of_run_clearImage :
    ∃ i l y j hash, IsSound clearImage i l ∧ i.certificateTable = none ∧
      SigningRun clearImage [smallSigner, { smallSigner with algorithm := .sha1 }] y ∧
      decode y = .ok j ∧ j.signatures.length = 2 ∧ j.dropStale = .ok none ∧
      i.digest .sha256 = .ok hash ∧
      Carries [smallSigner, { smallSigner with algorithm := .sha1 }] .sha256 hash j.signatures := by
  obtain ⟨i, l, hx, hplaces, -⟩ := exists_isSound (x := clearImage)
    (p := fun i => decide (i.IsClear ∧ i.headers.certificateDirectory = none ∧
      i.certificateTable = none))
    (by decide +kernel) (by decide +kernel)
  obtain ⟨hclear, hdirectory, hnone⟩ := of_decide_eq_true hplaces
  obtain ⟨w, hw, haccepted⟩ := exists_eq_ok_of_any
    (e := decode clearImage >>= fun i => i.digest .sha256 >>= fun hash =>
      smallSigner.signatureFor hash .sha256) (p := isShortAccepted) (by decide +kernel)
  obtain ⟨haccepted, hlength⟩ := isAccepted_of_isShortAccepted haccepted
  obtain ⟨_, hi, hw⟩ := bind_eq_ok.1 hw
  rw [hx.image] at hi
  cases hi
  obtain ⟨hash, hdigest, hw⟩ := bind_eq_ok.1 hw
  rw [w.length_encode] at hlength
  have himage : clearImage.length ≤ 1000 := by decide +kernel
  have hword : maxWord = 4294967295 := rfl
  have halign := WinCertificate.align_lt_add clearImage.length
  have hstart := signed_start hx (hx.reads.entries_of_none hdirectory).1
  obtain ⟨y, hy, hylength⟩ :=
    hstart.exists_signImage (s := smallSigner) hx hclear hdigest hw haccepted (by omega)
  have hystep : SigningRun clearImage [smallSigner] y := SigningRun.start.signed hy (by omega)
  obtain ⟨j₁, hsigned⟩ := hstart.step hx hclear hy (by omega)
  -- The second signer has the same key, so its signature for the digest is the same one.
  have halign' := WinCertificate.align_lt_add y.length
  obtain ⟨z, hz, hzlength⟩ := hsigned.exists_signImage
    (s := { smallSigner with algorithm := .sha1 })
    hx hclear hdigest hw haccepted (by omega)
  have hrun := hystep.signed hz (by omega)
  obtain ⟨j, hj, hlength, hstale, hcarries, -⟩ := carries_of_run hx hnone hrun
  obtain ⟨hash, hdigest, hcarries, -⟩ := hcarries smallSigner rfl
  exact ⟨i, l, z, j, hash, hx, hnone, hrun, hj, hlength, hstale, hdigest, hcarries⟩

end Signer

end SecureBoot
