import Mathlib
import SecureBoot.EfiImage.Verification
import SecureBoot.Proofs.Signer

/-!
# Signatures that agree

Whether the signatures of an image fit together is asked in two places.

**One by one.** `dropStale` compares what each signature states with the digest of the image by the
algorithm of that signature. Signatures by different algorithms may all match.

**All with the first.** `embeddedDigest` compares what each signature states with what the first
states. Digests by different algorithms have different lengths, so they never agree.

**Theorem (`agree_iff_isUniform`).** Where nothing is to be dropped, the digest that the signatures
state is that of the first if and only if all of them name one algorithm (`IsUniform`). If they do
not, asking for it fails, and with it the report on the image and every signing that comes to ask:
the new signature takes the algorithm of the first, and does not agree with the others any more than
the first does.
-/

namespace SecureBoot

open EfiImage

namespace EfiImage

variable {x : Bytes} {i : EfiImage} {a b : DigestAlgorithm} {hash hash' : Bytes}
  {w : WinCertificate}

/-- Whether all signatures of an image name one algorithm. -/
def IsUniform (i : EfiImage) : Prop := ∃ a, ∀ w ∈ i.signatures, w.digestAlgorithm = .ok a

/-! ## One by one -/

theorem isCurrent_of_dropStale (h : i.dropStale = .ok none) :
    ∀ w ∈ i.signatures, i.isCurrent w = .ok true := by
  obtain ⟨kept, hkept, ⟨hlength, -⟩ | ⟨-, stripped, -, h⟩⟩ := dropStale_eq_ok.1 h
  · obtain ⟨hall, rfl⟩ := filterM_eq_ok.1 hkept
    intro w hw
    obtain ⟨b, hb⟩ := hall w hw
    have htrue := List.length_filter_eq_length_iff.1 hlength w hw
    rw [hb] at htrue
    rw [hb]
    exact congrArg Except.ok htrue
  · rcases h with ⟨-, h⟩ | ⟨-, _, _, -, -, h⟩
    · cases h
    · cases h

theorem digest_eq_iff (ha : i.digest a = .ok hash) (hb : i.digest b = .ok hash') :
    hash' = hash ↔ b = a := by
  constructor
  · intro h
    obtain ⟨hmem, input, -, rfl⟩ := digest_eq_ok_iff.1 ha
    obtain ⟨hmem', input', -, rfl⟩ := digest_eq_ok_iff.1 hb
    exact DigestAlgorithm.eq_of_digest_eq hmem' hmem h
  · rintro rfl
    rw [ha] at hb
    cases hb
    rfl

theorem fileHash_eq_iff (hw : i.isCurrent w = .ok true) (ha : i.digest a = .ok hash) :
    w.fileHash = .ok (some hash) ↔ w.digestAlgorithm = .ok a := by
  obtain ⟨b, other, hb, hother, hstated⟩ := isCurrent_eq_ok_true_iff.1 hw
  rw [hstated, hb, Except.ok.injEq, Except.ok.injEq, Option.some.injEq]
  exact digest_eq_iff ha hother

/-! ## All with the first -/

/-- Signatures that each state a digest agree with a first one, or one of them does not. -/
theorem agreedHash_or_error {ws : List WinCertificate} (hash : Bytes)
    (h : ∀ w ∈ ws, ∃ stated, w.fileHash = .ok (some stated)) :
    (∀ w ∈ ws, w.fileHash = .ok (some hash)) ∨
      ∃ w ∈ ws, ∃ other, other ≠ hash ∧ w.fileHash = .ok (some other) ∧
        agreedHash (some hash) ws = .error (.badImage (.differentHashes other hash)) := by
  induction ws with
  | nil => exact .inl nofun
  | cons w rest ih =>
    obtain ⟨⟨stated, hstated⟩, hrest⟩ := List.forall_mem_cons.1 h
    have hstep : agreedHash (some hash) (w :: rest) =
        if stated ≠ hash then .error (.badImage (.differentHashes stated hash))
        else agreedHash (some hash) rest := by
      rw [agreedHash, hstated]
      by_cases hsame : stated ≠ hash
      · rw [if_pos hsame]
        exact if_pos hsame
      · rw [if_neg hsame]
        exact if_neg hsame
    by_cases hsame : stated = hash
    · subst hsame
      rw [if_neg (not_not_intro rfl)] at hstep
      rcases ih hrest with hall | ⟨v, hv, other, hne, hother, herror⟩
      · exact .inl (List.forall_mem_cons.2 ⟨hstated, hall⟩)
      · exact .inr ⟨v, List.mem_cons_of_mem _ hv, other, hne, hother, hstep.trans herror⟩
    · rw [if_pos hsame] at hstep
      exact .inr ⟨w, List.mem_cons_self, stated, hsame, hstated, hstep⟩

theorem checkReport_eq_ok_iff : i.checkReport true = .ok () ↔
    (∃ hash, i.digest .sha256 = .ok hash) ∧ (∃ stated, i.embeddedDigest = .ok stated) ∧
      ∃ a, i.digestAlgorithm = .ok a := by
  rw [checkReport, if_pos rfl]
  cases i.digest .sha256 with
  | error e => exact ⟨nofun, fun h => by obtain ⟨⟨_, h⟩, -⟩ := h; cases h⟩
  | ok hash =>
    cases i.embeddedDigest with
    | error e => exact ⟨nofun, fun h => by obtain ⟨-, ⟨_, h⟩, -⟩ := h; cases h⟩
    | ok stated =>
      cases i.digestAlgorithm with
      | error e => exact ⟨nofun, fun h => by obtain ⟨-, -, _, h⟩ := h; cases h⟩
      | ok a => exact ⟨fun _ => ⟨⟨hash, rfl⟩, ⟨stated, rfl⟩, a, rfl⟩, fun _ => rfl⟩

theorem embeddedDigest_cases {first : WinCertificate} {rest : List WinCertificate}
    (hws : i.signatures = first :: rest) (hcurrent : ∀ w ∈ i.signatures, i.isCurrent w = .ok true)
    (ha : first.digestAlgorithm = .ok a) (hdigest : i.digest a = .ok hash) :
    first.fileHash = .ok (some hash) ∧
      (i.IsUniform ∧ (∀ w ∈ i.signatures, w.fileHash = .ok (some hash)) ∧
          i.embeddedDigest = .ok (some hash) ∨
        ¬ i.IsUniform ∧ ∃ other, other ≠ hash ∧
          i.embeddedDigest = .error (.badImage (.differentHashes other hash))) := by
  have hfirst : first ∈ i.signatures := hws ▸ List.mem_cons_self
  have hstates := (fileHash_eq_iff (hcurrent first hfirst) hdigest).2 ha
  have hdigests : i.embeddedDigest = agreedHash (some hash) rest := by
    rw [embeddedDigest, hws, agreedHash, hstates]
    rfl
  have hrest : ∀ w ∈ rest, w ∈ i.signatures := fun w hw => hws ▸ List.mem_cons_of_mem _ hw
  have hstated : ∀ w ∈ rest, ∃ stated, w.fileHash = .ok (some stated) := by
    intro w hw
    obtain ⟨_, stated, -, -, hstated⟩ := isCurrent_eq_ok_true_iff.1 (hcurrent w (hrest w hw))
    exact ⟨stated, hstated⟩
  refine ⟨hstates, ?_⟩
  rcases agreedHash_or_error hash hstated with hall | ⟨w, hw, other, hne, hother, herror⟩
  · have hall : ∀ w ∈ i.signatures, w.fileHash = .ok (some hash) := by
      rw [hws]
      exact List.forall_mem_cons.2 ⟨hstates, hall⟩
    refine .inl ⟨⟨a, fun w hw => (fileHash_eq_iff (hcurrent w hw) hdigest).1 (hall w hw)⟩, hall, ?_⟩
    exact embeddedDigest_of_fileHash (List.ne_nil_of_mem hfirst) hall
  · refine .inr ⟨fun huniform => hne ?_, other, hne, hdigests.trans herror⟩
    obtain ⟨b, hb⟩ := huniform
    have hsame := hb first hfirst
    rw [ha] at hsame
    cases hsame
    have hstated := (fileHash_eq_iff (hcurrent w (hrest w hw)) hdigest).2 (hb w (hrest w hw))
    rw [hother] at hstated
    cases hstated
    rfl

/-! ## Signing again -/

/-- A signature that is added to a regular image with signatures is read behind them, with the
algorithm and the digest it was made for. -/
theorem IsRegular.states_of_added {s : Signer} {y : Bytes} {j : EfiImage} (hx : IsRegular x i)
    (hi : Reads x i) (hne : i.signatures ≠ []) (hw : s.signatureFor hash a = .ok w)
    (hy : i.setSignatures [w] = .ok y) (hmax : y.length ≤ maxWord) (hj : Reads y j) :
    j.signatures = i.signatures ++ [w.padded] ∧ w.padded.fileHash = .ok (some hash) := by
  have hlength := hi.length_setSignatures hy
  rw [List.flatMap_singleton] at hlength
  rw [hi.setSignatures_eq_ok hx.directory_le_tableStop] at hy
  cases hy
  obtain ⟨_, certificate, -, -, -, hcertificate⟩ := Signer.signatureFor_eq_ok hw
  have hknown : ∀ v ∈ [w],
      v.revision ∈ WinCertificate.revisions ∧ v.kind ∈ WinCertificate.kinds := by
    rw [List.forall_mem_singleton, hcertificate]
    exact ⟨List.mem_cons_of_mem _ (List.mem_singleton_self _),
      List.mem_cons_of_mem _ List.mem_cons_self⟩
  obtain ⟨hsigned, hregular⟩ :=
    hx.signed hi (hi.hasEntry hne) (List.cons_ne_nil _ _) hknown hmax hj
  have hadded : j.signatures = i.signatures ++ [w.padded] := hsigned.signatures
  refine ⟨hadded, ?_⟩
  have haccepted := hregular.entries.isAccepted w.padded (by rw [hadded]; simp)
  have hword : maxWord < 2 ^ 64 := by decide
  exact (Signer.states_of_signatureFor hw (by omega) haccepted).2

/-- Where the new signature can be made and added, signing succeeds exactly if all then state the
digest it was made for. -/
theorem exists_signImage_iff {s : Signer} {c y : Bytes} {j : EfiImage}
    (hcleaned : Signer.cleaned x = .ok c) (hi : decode c = .ok i)
    (halgorithm : s.algorithmFor i = .ok a) (hdigest : i.digest a = .ok hash)
    (hw : s.signatureFor hash a = .ok w) (hy : i.setSignatures [w] = .ok y)
    (hj : decode y = .ok j) :
    (∃ out, s.signImage x = .ok out) ↔ j.embeddedDigest = .ok (some hash) := by
  constructor
  · intro h
    obtain ⟨out, hout⟩ := h
    obtain ⟨c', i', a', hash', w', y', j', hs, -⟩ := Signer.exists_signs_of_signImage hout
    -- Every step gives what it gave before.
    obtain ⟨hc', hi', ha', hhash', hw', hy', hj', hagreed⟩ := hs
    rw [hcleaned] at hc'
    cases hc'
    rw [hi] at hi'
    cases hi'
    rw [halgorithm] at ha'
    cases ha'
    rw [hdigest] at hhash'
    cases hhash'
    rw [hw] at hw'
    cases hw'
    rw [hy] at hy'
    cases hy'
    rw [hj] at hj'
    cases hj'
    exact hagreed
  · intro hagreed
    have hs : Signer.Signs s x c i a hash w y j := {
      cleaned := hcleaned
      image := hi
      algorithm := halgorithm
      digest := hdigest
      signature := hw
      added := hy
      signed := hj
      agreed := hagreed }
    exact ⟨_, hs.signImage_eq⟩

/-- An image whose signatures all match can be signed again only if they name one algorithm. -/
theorem IsRegular.signImage_iff {s : Signer} {y : Bytes} {j : EfiImage} (hx : IsRegular x i)
    (hi : decode x = .ok i) (hstale : i.dropStale = .ok none) {first : WinCertificate}
    {rest : List WinCertificate} (hws : i.signatures = first :: rest)
    (ha : first.digestAlgorithm = .ok a) (hdigest : i.digest a = .ok hash)
    (hw : s.signatureFor hash a = .ok w) (hy : i.setSignatures [w] = .ok y)
    (hmax : y.length ≤ maxWord) (hj : decode y = .ok j) :
    (∃ out, s.signImage x = .ok out) ↔ i.IsUniform := by
  have hcurrent := isCurrent_of_dropStale hstale
  have hne : i.signatures ≠ [] := hws ▸ List.cons_ne_nil _ _
  obtain ⟨hadded, hnew⟩ := hx.states_of_added (decode_eq_ok_iff.1 hi) hne hw hy hmax
    (decode_eq_ok_iff.1 hj)
  have hcleaned : Signer.cleaned x = .ok x :=
    bind_eq_ok.2 ⟨i, hi, bind_eq_ok.2 ⟨none, hstale, rfl⟩⟩
  have halgorithm : s.algorithmFor i = .ok a := by
    refine bind_eq_ok.2 ⟨some a, ?_, rfl⟩
    rw [EfiImage.digestAlgorithm, hws, List.head?_cons, Option.mapM_some, ha]
    rfl
  rw [exists_signImage_iff hcleaned hi halgorithm hdigest hw hy hj]
  constructor
  · intro hagreed
    obtain ⟨-, hall⟩ := fileHash_of_agreedHash hagreed
    refine ⟨a, fun v hv => (fileHash_eq_iff (hcurrent v hv) hdigest).1 ?_⟩
    obtain ⟨stated, hstated, hsame⟩ := hall v (hadded ▸ List.mem_append_left _ hv)
    obtain ⟨_, other, -, -, hother⟩ := isCurrent_eq_ok_true_iff.1 (hcurrent v hv)
    rw [hother] at hstated
    cases hstated
    rw [hother, hsame other rfl]
  · intro huniform
    obtain ⟨-, ⟨-, hall, -⟩ | ⟨hnot, -⟩⟩ := embeddedDigest_cases hws hcurrent ha hdigest
    swap
    · exact absurd huniform hnot
    refine embeddedDigest_of_fileHash (by rw [hadded]; simp) ?_
    rw [hadded]
    exact List.forall_mem_append.2 ⟨hall, List.forall_mem_singleton.2 hnew⟩

/-- Signatures that all match an image state the digest of the first exactly if they name one
algorithm. If they do not, neither is a report on the image made nor is it signed again. -/
theorem agree_iff_isUniform (hx : decode x = .ok i) (hne : i.signatures ≠ [])
    (hcurrent : i.dropStale = .ok none) :
    ∃ first a hash, i.signatures.head? = some first ∧ first.digestAlgorithm = .ok a ∧
      first.fileHash = .ok (some hash) ∧
      (i.embeddedDigest = .ok (some hash) ↔ i.IsUniform) ∧
      (¬ i.IsUniform → ∃ other, other ≠ hash ∧
        i.embeddedDigest = .error (.badImage (.differentHashes other hash))) ∧
      (i.checkReport true = .ok () ↔ i.IsUniform) ∧
      (IsRegular x i → ∀ (s : Signer) w y j, s.signatureFor hash a = .ok w →
        i.setSignatures [w] = .ok y → y.length ≤ maxWord → decode y = .ok j →
        ((∃ out, s.signImage x = .ok out) ↔ i.IsUniform)) := by
  have hall := isCurrent_of_dropStale hcurrent
  obtain ⟨first, rest, hws⟩ := List.exists_cons_of_ne_nil hne
  obtain ⟨a, hash, ha, hdigest, -⟩ :=
    isCurrent_eq_ok_true_iff.1 (hall first (hws ▸ List.mem_cons_self))
  obtain ⟨hstates, hcases⟩ := embeddedDigest_cases hws hall ha hdigest
  have hreport : i.checkReport true = .ok () ↔ ∃ stated, i.embeddedDigest = .ok stated := by
    rw [checkReport_eq_ok_iff, EfiImage.digestAlgorithm, hws, List.head?_cons, Option.mapM_some, ha]
    obtain ⟨-, input, hinput, -⟩ := digest_eq_ok_iff.1 hdigest
    exact ⟨fun h => h.2.1, fun h =>
      ⟨⟨_, digest_eq_ok_iff.2 ⟨by decide, input, hinput, rfl⟩⟩, h, some a, rfl⟩⟩
  refine ⟨first, a, hash, by rw [hws]; rfl, ha, hstates, ?_, fun hnot => ?_, ?_,
    fun hregular s w y j hw hy hmax hj =>
      hregular.signImage_iff hx hcurrent hws ha hdigest hw hy hmax hj⟩
  · rcases hcases with ⟨huniform, -, hsame⟩ | ⟨hnot, other, -, herror⟩
    · exact iff_of_true hsame huniform
    · exact iff_of_false (fun h => by rw [herror] at h; cases h) hnot
  · rcases hcases with ⟨huniform, -⟩ | ⟨-, herror⟩
    · exact absurd huniform hnot
    · exact herror
  · rw [hreport]
    rcases hcases with ⟨huniform, -, hsame⟩ | ⟨hnot, other, -, herror⟩
    · exact iff_of_true ⟨_, hsame⟩ huniform
    · exact iff_of_false (fun ⟨_, h⟩ => by rw [herror] at h; cases h) hnot

/-! ## A small image -/

/-- A signer with a key that is long enough for digests of 48 bytes. -/
def longSigner : Signer where
  bundle := Signer.smallSigner.bundle
  key := .rsa {
    modulus := (2 ^ 316 + 1) ^ 2
    publicExponent := 3
    privateExponent := (2 ^ 317 + 1) / 3
    p := 2 ^ 316 + 1
    q := 2 ^ 316 + 1 }

/-- A digest of the small image, and the signature that the signer makes for it. -/
def smallSigning (a : DigestAlgorithm) : Except Error (Bytes × WinCertificate) := do
  let hash ← (← decode clearImage).digest a
  return (hash, ← longSigner.signatureFor hash a)

/-- The small image with signatures by two algorithms, each for its own digest. -/
def mixedImage : Except Error Bytes := do
  let v ← smallSigning .sha256
  let w ← smallSigning .sha384
  (← decode clearImage).setSignatures [v.2, w.2]

/-- A signature that the reader takes states what it was made for, so no digest is computed here. -/
theorem exists_smallSigning (hi : decode clearImage = .ok i)
    (h : ((smallSigning a).toOption.any fun s => isShortAccepted s.2) = true) :
    ∃ hash w, smallSigning a = .ok (hash, w) ∧ i.digest a = .ok hash ∧
      longSigner.signatureFor hash a = .ok w ∧ w.encode.length ≤ 1000 ∧
      w.padded.IsAccepted ∧ w.padded.digestAlgorithm = .ok a ∧
      w.padded.fileHash = .ok (some hash) := by
  obtain ⟨⟨hash, w⟩, hs, h⟩ := exists_eq_ok_of_any h
  obtain ⟨haccepted, (hlength : w.encode.length ≤ 1000)⟩ := isAccepted_of_isShortAccepted h
  obtain ⟨i', hi', hmade⟩ := bind_eq_ok.1 hs
  rw [hi] at hi'
  cases hi'
  obtain ⟨_, hdigest, hmade⟩ := bind_eq_ok.1 hmade
  obtain ⟨_, hw, hmade⟩ := bind_eq_ok.1 hmade
  cases pure_eq_ok.1 hmade
  obtain ⟨halgorithm, hfileHash⟩ := Signer.states_of_signatureFor hw (by omega) haccepted.padded
  exact ⟨hash, w, hs, hdigest, hw, hlength, haccepted.padded, halgorithm, hfileHash⟩

/-- Signatures add their own length and what the alignment asks for. -/
theorem Reads.length_setSignatures_le (hi : Reads x i) {more : List WinCertificate} {y : Bytes}
    (hy : i.setSignatures more = .ok y) :
    y.length ≤ x.length + 16 + (more.flatMap WinCertificate.encode).length := by
  have hlength := hi.length_setSignatures hy
  have htable := WinCertificate.align_lt_add i.tableStop
  have hraw := hi.length_raw
  have halign := WinCertificate.align_lt_add x.length
  rw [i.length_raw] at hraw
  omega

theorem exists_mixedImage :
    ∃ x i v w hash other y j, mixedImage = .ok x ∧ decode x = .ok i ∧ IsRegular x i ∧
      i.signatures = [v, w] ∧ i.dropStale = .ok none ∧
      v.digestAlgorithm = .ok .sha256 ∧ i.digest .sha256 = .ok hash ∧
      v.fileHash = .ok (some hash) ∧
      w.digestAlgorithm = .ok .sha384 ∧ i.digest .sha384 = .ok other ∧
      w.fileHash = .ok (some other) ∧
      ∃ u, longSigner.signatureFor hash .sha256 = .ok u ∧
        i.setSignatures [u] = .ok y ∧ y.length ≤ maxWord ∧ decode y = .ok j := by
  obtain ⟨i₀, l, hx₀, hplaces, -⟩ := exists_isSound (x := clearImage)
    (p := fun i => decide (i.IsClear ∧ i.headers.certificateDirectory = none))
    (by decide +kernel) (by decide +kernel)
  obtain ⟨hclear, hnone⟩ := of_decide_eq_true hplaces
  obtain ⟨hash, v, hs, hdigest, hmade, hvlength, hv, hv', hv''⟩ :=
    exists_smallSigning hx₀.image (a := .sha256) (by decide +kernel)
  obtain ⟨other, w, ht, hdigest', -, hwlength, hw, hw', hw''⟩ :=
    exists_smallSigning hx₀.image (a := .sha384) (by decide +kernel)
  have hlength₀ : clearImage.length ≤ 1000 := by decide +kernel
  have hlength : ([v, w].flatMap WinCertificate.encode).length ≤ 2000 := by
    rw [List.flatMap_cons, List.flatMap_singleton, List.length_append]
    omega
  have hword : maxWord = 4294967295 := rfl
  -- The signatures are added to an image that is sound, so nothing of the result is evaluated.
  have hset := hx₀.reads.setSignatures_eq_ok (hx₀.isRegular hclear).directory_le_tableStop [v, w]
  have hmax := hx₀.reads.length_setSignatures_le hset
  obtain ⟨i, hk⟩ := hx₀.keeps.setSignatures hx₀ hclear
    (List.forall_mem_cons.2 ⟨hv, List.forall_mem_singleton.2 hw⟩) hset (by omega)
  have hregular := hk.isRegular hx₀ hclear
  have hset' := hk.reads.setSignatures_eq_ok hregular.directory_le_tableStop [v]
  have hmax' := hk.reads.length_setSignatures_le hset'
  rw [List.flatMap_singleton] at hmax'
  obtain ⟨j, hj⟩ := hk.setSignatures hx₀ hclear (List.forall_mem_singleton.2 hv) hset' (by omega)
  rw [← hk.digest_eq hx₀ hclear] at hdigest hdigest'
  have hws : i.signatures = [v.padded, w.padded] := by
    rw [hk.signatures, (hx₀.reads.entries_of_none hnone).1]
    rfl
  have hcurrent : ∀ s ∈ i.signatures, i.isCurrent s = .ok true := by
    rw [hws]
    exact List.forall_mem_cons.2 ⟨isCurrent_eq_ok_true_iff.2 ⟨_, _, hv', hdigest, hv''⟩,
      List.forall_mem_singleton.2 (isCurrent_eq_ok_true_iff.2 ⟨_, _, hw', hdigest', hw''⟩)⟩
  have hmixed : mixedImage = .ok (i₀.signed [v, w]) := by
    refine bind_eq_ok.2 ⟨_, hs, ?_⟩
    refine bind_eq_ok.2 ⟨_, ht, ?_⟩
    exact bind_eq_ok.2 ⟨i₀, hx₀.image, hset⟩
  exact ⟨_, i, _, _, hash, other, _, j, hmixed, hk.image, hregular, hws, dropStale_eq_none hcurrent,
    hv', hdigest, hv'', hw', hdigest', hw'', v, hmade, hset', by omega, hj.image⟩

theorem not_isUniform_of_ne {v w : WinCertificate} (hws : i.signatures = [v, w])
    (hv : v.digestAlgorithm = .ok a) (hw : w.digestAlgorithm = .ok b) (hne : a ≠ b) :
    ¬ i.IsUniform := by
  intro h
  obtain ⟨c, hc⟩ := h
  rw [hws] at hc
  have hva := hc v List.mem_cons_self
  have hwb := hc w (List.mem_cons_of_mem _ List.mem_cons_self)
  rw [hv] at hva
  rw [hw] at hwb
  cases hva
  cases hwb
  exact hne rfl

/-- The small image with two algorithms is not signed again, and no report on it is made. -/
theorem agree_iff_isUniform_mixedImage :
    ∃ x i y j w, mixedImage = .ok x ∧ decode x = .ok i ∧ i.signatures ≠ [] ∧
      i.dropStale = .ok none ∧ IsRegular x i ∧ i.setSignatures [w] = .ok y ∧ decode y = .ok j ∧
      (∃ hash other, other ≠ hash ∧
        i.embeddedDigest = .error (.badImage (.differentHashes other hash))) ∧
      i.checkReport true ≠ .ok () ∧ ∀ out, longSigner.signImage x ≠ .ok out := by
  obtain ⟨x, i, v, w, hash, -, y, j, hx, hi, hregular, hws, hstale, hv, -, hv', hw, -, -, u, hu, hy,
    hmax, hj⟩ := exists_mixedImage
  have hne : i.signatures ≠ [] := hws ▸ List.cons_ne_nil _ _
  have hmixed : ¬ i.IsUniform := not_isUniform_of_ne hws hv hw (by decide)
  obtain ⟨first, a, stated, hfirst, ha, hstates, -, herror, hreport, hsign⟩ :=
    agree_iff_isUniform hi hne hstale
  rw [hws] at hfirst
  cases hfirst
  rw [hv] at ha
  cases ha
  rw [hv'] at hstates
  cases hstates
  obtain ⟨other, herror⟩ := herror hmixed
  exact ⟨x, i, y, j, u, hx, hi, hne, hstale, hregular, hy, hj, ⟨hash, other, herror⟩,
    fun h => hmixed (hreport.1 h),
    fun out hout => hmixed ((hsign hregular _ u y j hu hy hmax hj).1 ⟨out, hout⟩)⟩

/-- Both signatures match the image, but the digest that they state is not that of the first. -/
theorem embeddedDigest_mixedImage :
    ∃ x i first hash, mixedImage = .ok x ∧ decode x = .ok i ∧ i.signatures.head? = some first ∧
      i.dropStale = .ok none ∧ first.fileHash = .ok (some hash) ∧
      i.embeddedDigest ≠ .ok (some hash) := by
  obtain ⟨x, i, v, w, hash, other, -, -, hx, hi, -, hws, hstale, -, hdigest, hv, -, hdigest', hw,
    -⟩ := exists_mixedImage
  refine ⟨x, i, v, hash, hx, hi, by rw [hws]; rfl, hstale, hv, fun h => ?_⟩
  obtain ⟨stated, hstated, hsame⟩ := (fileHash_of_agreedHash h).2 w (by rw [hws]; simp)
  rw [hw] at hstated
  cases hstated
  have halgorithm := (digest_eq_iff hdigest hdigest').1 (hsame other rfl)
  cases halgorithm

end EfiImage

end SecureBoot
