import Mathlib
import SecureBoot.Authenticode.Building
import SecureBoot.Proofs.EfiImage.Steps

/-!
# Runs of changes

The signatures of an image are changed again and again, each time from the bytes that the change
before has left: further ones are added, the table is taken away, those that no longer match are
dropped, the checksum is filled in.

**Theorem (`intact_of_run`).** In a sound image everything but the signatures stays as it is,
however often it is changed: the image and its layout can still be read, the digests and the
sections are those of the first image, and the signatures are those that the changes call for. This
is so if the certificate table lies behind every place that the headers name. Where it does not, the
first signature that is added makes an image that cannot be read any more: reading takes the end of
sections that have no bytes in the file for the end of the sections.

The proof is an induction over the run with the invariant `Keeps`.
-/

namespace SecureBoot.EfiImage

open Pe

/-! ## Changes -/

/-- A change of the signatures of an image. -/
inductive Edit where
  | sign (more : List WinCertificate)
  | checksum
  | strip
  | dropStale

/-- Whether a signature can be read and states the digest of the image. -/
def isAttestedBy (i : EfiImage) (w : WinCertificate) : Bool :=
  (i.isCurrent w).toOption.getD false

namespace Edit

/-- The bytes after a change. -/
def apply (e : Edit) (x : Bytes) : Except Error Bytes := do
  let i ← decode x
  match e with
  | sign more => i.setSignatures more
  | checksum => return i.withChecksum
  | strip => i.strip
  | dropStale => return (← i.dropStale).getD x

/-- The signatures after a change of the signatures `ws`; those that are written are filled up with
zeros. -/
def after (i : EfiImage) (ws : List WinCertificate) : Edit → List WinCertificate
  | sign more => ws ++ more.map WinCertificate.padded
  | checksum => ws
  | strip => []
  | dropStale =>
    let kept := ws.filter i.isAttestedBy
    if kept.length = ws.length then ws else kept.map WinCertificate.padded

/-- Whether all signatures that a change adds are accepted by the reader. -/
def IsProper : Edit → Prop
  | sign more => ∀ w ∈ more, w.IsAccepted
  | _ => True

/-- Whether a change can tell of all signatures whether they match. -/
def CanTell (i : EfiImage) (ws : List WinCertificate) : Edit → Prop
  | dropStale => ∀ w ∈ ws, ∃ b, i.isCurrent w = .ok b
  | _ => True

end Edit

/-- Bytes that a list of changes has made of some bytes, four gigabytes of them at most. -/
inductive Run (x : Bytes) : List Edit → Bytes → Prop
  | start : Run x [] x
  | step {edits : List Edit} {y z : Bytes} {e : Edit} (hrun : Run x edits y) (he : e.IsProper)
      (hz : e.apply y = .ok z) (hmax : z.length ≤ maxWord) : Run x (edits ++ [e]) z

/-- The signatures that a list of changes calls for. -/
def signaturesAfter (i : EfiImage) (edits : List Edit) : List WinCertificate :=
  edits.foldl (Edit.after i) i.signatures

/-- Whether an image has certain signatures, and otherwise is what it was. -/
structure Intact (i : EfiImage) (l : Layout) (ws : List WinCertificate) (y : Bytes) : Prop where
  image : ∃ j, decode y = .ok j ∧ j.signatures = ws ∧
    ∀ a ∈ imageAlgorithms, ∃ digest, i.digest a = .ok digest ∧ j.digest a = .ok digest
  layout : ∃ m, Layout.decode y = .ok m ∧ m.sections = l.sections
  next : ∀ e : Edit, e.IsProper → e.CanTell i ws → ∃ z, e.apply y = .ok z

variable {x y z : Bytes} {i j : EfiImage} {l : Layout} {ws : List WinCertificate}

/-! ## What the invariant gives -/

theorem Keeps.digestInput_eq (hx : IsSound x i l) (hclear : i.IsClear) (hk : Keeps x i ws y j) :
    j.digestInput = .ok (coveredBytes i.headers i.unsigned) := by
  have hstop := (hx.sectionsStop_le hclear).trans hk.frontStop_le_front
  have hsize := (hx.digestedSize_le hclear).trans hk.frontStop_le_front
  have hheaders := hx.directory_le_sizeOfHeaders
  have hcovered : coveredBytes j.headers j.unsigned = coveredBytes i.headers j.unsigned := by
    rw [hk.headers]
    rfl
  rw [hk.reads.digestInput_eq, hcovered]
  · exact congrArg Except.ok (coveredBytes_congr hk.agree hheaders fun s hs hne =>
      hheaders.trans (hx.sections_behind s hs hne))
  · rw [hk.headers]
    exact hheaders
  · rw [hk.headers]
    exact hstop
  · rw [hk.headers]
    exact hsize

theorem Keeps.digest_eq (hx : IsSound x i l) (hclear : i.IsClear) (hk : Keeps x i ws y j)
    (a : DigestAlgorithm) : j.digest a = i.digest a := by
  rw [digest, digest, hk.digestInput_eq hx hclear, hx.keeps.digestInput_eq hx hclear]

theorem Keeps.isCurrent_eq (hx : IsSound x i l) (hclear : i.IsClear) (hk : Keeps x i ws y j) :
    j.isCurrent = i.isCurrent := by
  funext w
  unfold isCurrent
  simp only [hk.digest_eq hx hclear]

theorem Keeps.layout (hx : IsSound x i l) (hclear : i.IsClear) (hk : Keeps x i ws y j) :
    ∃ m, Layout.decode y = .ok m ∧ m.sections = l.sections := by
  obtain ⟨certificates, hr⟩ := hx.layoutReads
  have hagree : i.headers.AgreeTo (frontStop x i) x y := by
    intro k hk₁ hfield
    rw [← hx.reads.getElem?_unsigned hk₁,
      ← hk.reads.getElem?_unsigned (hk₁.trans_le hk.frontStop_le)]
    exact hk.agree _ k hk₁ hfield
  have hheaders := hk.reads.headers
  rw [hk.headers] at hheaders
  exact hr.resigned (hx.isBelow hclear) hagree (hk.frontStop_le.trans (min_le_left _ _)) hheaders
    hk.reads.table_le

/-! ## Steps -/

theorem dropStale_eq_ok {r : Option Bytes} :
    j.dropStale = .ok r ↔ ∃ kept, j.signatures.filterM j.isCurrent = .ok kept ∧
      (kept.length = j.signatures.length ∧ r = none ∨
        kept.length ≠ j.signatures.length ∧ ∃ stripped, j.strip = .ok stripped ∧
          (kept = [] ∧ r = some stripped ∨
            kept ≠ [] ∧ ∃ j' z, decode stripped = .ok j' ∧ j'.setSignatures kept = .ok z ∧
              r = some z)) := by
  rw [dropStale, bind_eq_ok]
  refine exists_congr fun kept => and_congr_right fun _ => ?_
  by_cases hlength : kept.length = j.signatures.length
  · rw [if_pos hlength, pure_eq_ok]
    exact ⟨fun h => Or.inl ⟨hlength, h.symm⟩,
      fun h => h.elim (·.2.symm) fun h => absurd hlength h.1⟩
  rw [if_neg hlength, bind_eq_ok]
  constructor
  · intro h
    obtain ⟨stripped, hstripped, h⟩ := h
    refine Or.inr ⟨hlength, stripped, hstripped, ?_⟩
    split at h
    · rename_i hempty
      exact Or.inl ⟨List.isEmpty_iff.1 hempty, (pure_eq_ok.1 h).symm⟩
    · rename_i hkept
      obtain ⟨j', hj', h⟩ := bind_eq_ok.1 h
      obtain ⟨z, hz, h⟩ := bind_eq_ok.1 h
      exact Or.inr ⟨fun h0 => hkept (List.isEmpty_iff.2 h0), j', z, hj', hz, (pure_eq_ok.1 h).symm⟩
  · intro h
    rcases h with ⟨h, -⟩ | ⟨-, stripped, hstripped, h⟩
    · exact absurd h hlength
    refine ⟨stripped, hstripped, ?_⟩
    rcases h with ⟨hempty, rfl⟩ | ⟨hkept, j', z, hj', hz, rfl⟩
    · rw [if_pos (List.isEmpty_iff.2 hempty)]
      rfl
    · rw [if_neg fun h0 => hkept (List.isEmpty_iff.1 h0)]
      exact bind_eq_ok.2 ⟨j', hj', bind_eq_ok.2 ⟨z, hz, rfl⟩⟩

/-- Signatures that no longer match are dropped. -/
theorem Keeps.dropStale (hx : IsSound x i l) (hclear : i.IsClear) (hk : Keeps x i ws y j)
    {r : Option Bytes} (hr : j.dropStale = .ok r) (hmax : (r.getD y).length ≤ maxWord) :
    ∃ j', Keeps x i (Edit.dropStale.after i ws) (r.getD y) j' := by
  obtain ⟨kept, hkept, h⟩ := dropStale_eq_ok.1 hr
  rw [hk.isCurrent_eq hx hclear, hk.signatures, filterM_eq_ok] at hkept
  have hfilter : kept = ws.filter i.isAttestedBy := hkept.2
  rw [hk.signatures, hfilter] at h
  rw [Edit.after]
  rcases h with ⟨hlength, rfl⟩ | ⟨hlength, stripped, hstripped, h⟩
  · rw [if_pos hlength]
    exact ⟨j, hk⟩
  rw [if_neg hlength]
  obtain ⟨j', hj'⟩ := hk.strip hx hclear hstripped
  rcases h with ⟨hempty, rfl⟩ | ⟨-, j'', z, hj'', hz, rfl⟩
  · rw [hempty]
    exact ⟨j', hj'⟩
  · have hsame := hj'.image
    rw [hj''] at hsame
    cases hsame
    have haccepted : ∀ w ∈ ws.filter i.isAttestedBy, w.padded.IsAccepted := fun w hw =>
      (hk.entries.isAccepted w (List.mem_of_mem_filter hw)).padded
    have hsigned := hj'.setSignatures hx hclear haccepted hz hmax
    rwa [List.nil_append] at hsigned

/-- A change keeps the invariant, with the signatures that it calls for. -/
theorem Keeps.step (hx : IsSound x i l) (hclear : i.IsClear) (hk : Keeps x i ws y j) {e : Edit}
    (he : e.IsProper) (hz : e.apply y = .ok z) (hmax : z.length ≤ maxWord) :
    ∃ j', Keeps x i (e.after i ws) z j' := by
  obtain ⟨_, hj, hz⟩ := bind_eq_ok.1 hz
  rw [hk.image] at hj
  cases hj
  cases e with
  | sign more => exact hk.setSignatures hx hclear (fun w hw => (he w hw).padded) hz hmax
  | checksum =>
    rw [← pure_eq_ok.1 hz]
    exact hk.withChecksum hx hclear
  | strip => exact hk.strip hx hclear hz
  | dropStale =>
    obtain ⟨r, hr, hz⟩ := bind_eq_ok.1 hz
    rw [← pure_eq_ok.1 hz] at hmax ⊢
    exact hk.dropStale hx hclear hr hmax

/-! ## Steps that can be taken -/

theorem Keeps.exists_setSignatures (hx : IsSound x i l) (hclear : i.IsClear)
    (hk : Keeps x i ws y j) (more : List WinCertificate) : ∃ z, j.setSignatures more = .ok z := by
  have hdirectory := hk.directoryStop_eq ▸ hk.directory_le_front hx hclear
  exact ⟨_, by
    rw [hk.reads.setSignatures_eq, hk.reads.patchDirectory_front hdirectory]⟩

theorem Keeps.exists_strip (hx : IsSound x i l) (hclear : i.IsClear) (hk : Keeps x i ws y j) :
    ∃ z, j.strip = .ok z := by
  have hdirectory := hk.directoryStop_eq ▸ hk.directory_le_front hx hclear
  exact ⟨_, by rw [j.strip_eq, unsigned, hk.reads.patchDirectory_front hdirectory]⟩

theorem Keeps.exists_apply (hx : IsSound x i l) (hclear : i.IsClear) (hk : Keeps x i ws y j)
    {e : Edit} (htell : e.CanTell i ws) : ∃ z, e.apply y = .ok z := by
  rw [Edit.apply, hk.image]
  cases e with
  | sign more => exact hk.exists_setSignatures hx hclear more
  | checksum => exact ⟨_, rfl⟩
  | strip => exact hk.exists_strip hx hclear
  | dropStale =>
    have hfilter : ws.filterM j.isCurrent = .ok (ws.filter i.isAttestedBy) := by
      rw [hk.isCurrent_eq hx hclear, filterM_eq_ok]
      exact ⟨htell, rfl⟩
    obtain ⟨r, hr⟩ : ∃ r, j.dropStale = .ok r := by
      simp only [dropStale_eq_ok, hk.signatures]
      by_cases hlength : (ws.filter i.isAttestedBy).length = ws.length
      · exact ⟨none, _, hfilter, Or.inl ⟨hlength, rfl⟩⟩
      obtain ⟨stripped, hstripped⟩ := hk.exists_strip hx hclear
      by_cases hempty : ws.filter i.isAttestedBy = []
      · exact ⟨_, _, hfilter, Or.inr ⟨hlength, stripped, hstripped, Or.inl ⟨hempty, rfl⟩⟩⟩
      · obtain ⟨j', hj'⟩ := hk.strip hx hclear hstripped
        obtain ⟨z, hz⟩ := hj'.exists_setSignatures hx hclear (ws.filter i.isAttestedBy)
        exact ⟨_, _, hfilter, Or.inr ⟨hlength, stripped, hstripped,
          Or.inr ⟨hempty, j', z, hj'.image, hz, rfl⟩⟩⟩
    exact ⟨r.getD y, bind_eq_ok.2 ⟨j, rfl, bind_eq_ok.2 ⟨r, hr, rfl⟩⟩⟩

theorem Keeps.intact (hx : IsSound x i l) (hclear : i.IsClear) (hk : Keeps x i ws y j) :
    Intact i l ws y where
  image := ⟨j, hk.image, hk.signatures, fun _ ha =>
    ⟨_, digest_eq_ok_iff.2 ⟨ha, _, hx.keeps.digestInput_eq hx hclear, rfl⟩,
      digest_eq_ok_iff.2 ⟨ha, _, hk.digestInput_eq hx hclear, rfl⟩⟩⟩
  layout := hk.layout hx hclear
  next := fun _ _ htell => hk.exists_apply hx hclear htell

/-! ## Runs -/

theorem keeps_of_run (hx : IsSound x i l) (hclear : i.IsClear) {edits : List Edit}
    (hrun : Run x edits y) : ∃ j, Keeps x i (i.signaturesAfter edits) y j := by
  induction hrun with
  | start => exact ⟨i, hx.keeps⟩
  | step _ he hz hmax ih =>
    obtain ⟨j, hk⟩ := ih
    rw [signaturesAfter, List.foldl_append]
    exact hk.step hx hclear he hz hmax

/-! ## Tables that are not clear -/

/-- A table in front of the end of the sections makes an image that cannot be read once a signature
is added. -/
theorem unreadable_of_not_isClear (hx : IsSound x i l) (hclear : ¬ i.IsClear)
    (htable : ∀ d ∈ i.headers.certificateDirectory, i.headers.tableStop ≤ d.stop)
    {more : List WinCertificate} (hmore : more ≠ []) :
    ∃ y, (Edit.sign more).apply x = .ok y ∧ (y.length ≤ maxWord → ∀ j, decode y ≠ .ok j) := by
  obtain ⟨d, hd, hlt⟩ : ∃ d ∈ i.headers.certificateDirectory,
      d.address.toNat < sectionsStop i.headers := by
    by_contra hno
    exact hclear fun d hd => Nat.not_lt.1 fun hlt => hno ⟨d, hd, hlt⟩
  have hstart : i.headers.tableOffset ≤ i.headers.tableStop := Nat.le_add_right _ _
  have hdirectory := hx.directory_le
  obtain ⟨hfront, hstop⟩ := hx.reads.lengths_of_some hd
  have htableStop : i.headers.tableStop ≤ min x.length i.tableStop := by
    rw [hstop]
    exact le_min ((htable d hd).trans (hx.reads.table_le d hd)) (htable d hd)
  have hfits : i.headers.certificateDirectoryStop ≤ i.tableStop :=
    hdirectory.trans (hstart.trans (htableStop.trans (min_le_right _ _)))
  -- a table in front of the end of the sections is overlooked only where the file ends with them
  have hend : x.length = sectionsStop i.headers :=
    hx.reads.isInPlace.table.resolve_right fun h => Nat.not_le.2 hlt (h d hd).1
  refine ⟨i.signed more,
    bind_eq_ok.2 ⟨i, hx.image, hx.reads.setSignatures_eq_ok hfits more⟩, fun hmax j hj => ?_⟩
  have hreads := decode_eq_ok_iff.1 hj
  obtain ⟨d', hheaders, haddress, -⟩ :=
    hx.reads.headers_signed hx.hasEntry hdirectory htableStop hmore hmax hreads.headers
  have hsections : sectionsStop j.headers = sectionsStop i.headers := by
    rw [hheaders]
    rfl
  have hlonger : sectionsStop j.headers < (i.signed more).length := by
    have hpos := length_flatMap_encode_pos hmore
    have hle := WinCertificate.le_align i.tableStop
    have hraw := hx.reads.le_length_raw
    rw [i.length_raw] at hraw
    rw [length_signed hfits, hsections]
    omega
  rcases hreads.isInPlace.table with hsame | htable
  · exact absurd hsame hlonger.ne'
  · have hle := (htable d' (by rw [hheaders]; rfl)).1
    rw [hsections, haddress, hfront] at hle
    exact Nat.not_le.2 hlt hle

/-- Changes leave a sound image intact if its certificate table lies behind every place that the
headers name; if it does not, the first signature added makes it unreadable. -/
theorem intact_of_run (hx : IsSound x i l) :
    (i.IsClear → ∀ edits y, Run x edits y → Intact i l (i.signaturesAfter edits) y) ∧
      (¬ i.IsClear → (∀ d ∈ i.headers.certificateDirectory, i.headers.tableStop ≤ d.stop) →
        ∀ more, more ≠ [] → ∃ y, (Edit.sign more).apply x = .ok y ∧
          (y.length ≤ maxWord → ∀ j, decode y ≠ .ok j)) := by
  refine ⟨fun hclear edits y hrun => ?_, fun hclear htable more hmore =>
    unreadable_of_not_isClear hx hclear htable hmore⟩
  obtain ⟨j, hk⟩ := keeps_of_run hx hclear hrun
  exact hk.intact hx hclear

/-! ## Small images -/

/-- What the reader asks of a signature, and that the signature is a short one. -/
def isShortAccepted (w : WinCertificate) : Bool :=
  decide (w.revision ∈ WinCertificate.revisions ∧ w.kind ∈ WinCertificate.kinds ∧
    w.encode.length ≤ 1000) &&
  w.authenticode.toOption.any fun said => (checkSignature said).toOption.isSome

theorem isAccepted_of_isShortAccepted {w : WinCertificate} (h : isShortAccepted w = true) :
    w.IsAccepted ∧ w.encode.length ≤ 1000 := by
  rw [isShortAccepted, Bool.and_eq_true] at h
  obtain ⟨hrevision, hkind, hlength⟩ := of_decide_eq_true h.1
  obtain ⟨said, hsaid, hcheck⟩ := exists_eq_ok_of_any h.2
  obtain ⟨_, hcheck⟩ := Option.isSome_iff_exists.1 hcheck
  exact ⟨⟨hrevision, hkind, said, hsaid, eq_ok_of_toOption hcheck⟩, hlength⟩

/-- A small signature that the reader accepts; nobody has signed it. -/
def smallSignature : WinCertificate where
  certificate :=
    let algorithm := Authenticode.algorithmIdentifier .sha1
    Der.sequence [Oid.signedData.encode, Der.context 0 [Der.sequence [
      Der.smallInteger 1, Der.set [algorithm],
      Der.sequence [Oid.indirectData.encode, Der.context 0 [
        Der.sequence [Authenticode.statementOf .sha1 (Bytes.zeros 20)]]],
      Der.set [Der.sequence [
        Der.smallInteger 1, Der.sequence [Der.sequence [], Der.smallInteger 7], algorithm,
        Der.context 0 [], Authenticode.algorithmIdentifier .rsaEncryption, Der.octetString []]]]]]

theorem isAccepted_smallSignature : smallSignature.IsAccepted :=
  (isAccepted_of_isShortAccepted (by decide +kernel)).1

/-- A small image: headers of 264 bytes with one section, and what stands behind them. -/
def smallImage (sizeOfRawData pointerToRawData : UInt32) (d : DataDirectory) (behind : Bytes) :
    Bytes :=
  [0x4d, 0x5a] ++ Bytes.zeros 58 ++ Bytes.ofNatLE 4 64 ++ [0x50, 0x45, 0, 0] ++
    Bytes.ofNatLE 2 0x8664 ++ Bytes.ofNatLE 2 1 ++ Bytes.zeros 12 ++ Bytes.ofNatLE 2 136 ++
    Bytes.zeros 2 ++
    Bytes.ofNatLE 2 0x10b ++ Bytes.zeros 30 ++ Bytes.ofNatLE 4 0x1000 ++ Bytes.ofNatLE 4 8 ++
    Bytes.zeros 20 ++ Bytes.ofNatLE 4 264 ++ Bytes.zeros 28 ++ Bytes.ofNatLE 4 5 ++
    Bytes.zeros 32 ++ DataDirectory.entryOf d.address.toNat d.size.toNat ++
    SectionHeader.encode {
      rawName := Bytes.padTo [0x2e, 0x61] SectionHeader.nameSize
      virtualSize := 8
      virtualAddress := 0x1000
      sizeOfRawData
      pointerToRawData } ++
    behind

instance (i : EfiImage) : Decidable i.IsClear := inferInstanceAs (Decidable (∀ _ ∈ _, _))

/-- The places that make an image with one section and no symbols a sound one. -/
def hasPlaces (i : EfiImage) : Bool :=
  let h := i.headers
  decide (DataDirectory.certificateIndex < h.numberOfDirectories ∧
    h.directoriesOffset + h.numberOfDirectories * DataDirectory.width ≤ h.tableOffset ∧
    h.tableStop ≤ h.sizeOfHeaders.toNat ∧ h.sections.length = 1 ∧
    (∀ s ∈ h.sections, s.sizeOfRawData ≠ 0 → h.sizeOfHeaders.toNat ≤ s.pointerToRawData.toNat) ∧
    ∀ d ∈ h.certificateDirectory, 8 ∣ d.address.toNat ∧ 8 ∣ d.size.toNat ∧
      h.tableStop ≤ d.stop ∧
      ∀ s ∈ h.sections, s.sizeOfRawData ≠ 0 → s.rawStop ≤ d.address.toNat)

theorem exists_isSound {p : EfiImage → Bool}
    (hi : (decode x).toOption.any (fun i => i.hasPlaces && p i) = true)
    (hl : (Layout.decode x).toOption.any (·.symbols.isNone) = true) :
    ∃ i l, IsSound x i l ∧ p i = true ∧
      ∀ d ∈ i.headers.certificateDirectory, i.headers.tableStop ≤ d.stop := by
  obtain ⟨i, hi, hplaces⟩ := exists_eq_ok_of_any hi
  obtain ⟨l, hl, hsymbols⟩ := exists_eq_ok_of_any hl
  rw [Bool.and_eq_true] at hplaces
  obtain ⟨hentry, hdirectories, htable, hone, hsections, hdirectory⟩ := of_decide_eq_true hplaces.1
  have hnone : ∀ t ∈ l.symbols, False := by
    rw [Option.isNone_iff_eq_none.1 hsymbols]
    exact nofun
  obtain ⟨s, hs⟩ := List.length_eq_one_iff.1 hone
  exact ⟨i, l, {
    image := hi
    layout := hl
    hasEntry := hentry
    directories_le := hdirectories
    tableStop_le := htable
    apart := by rw [hs]; exact List.pairwise_singleton _ _
    sections_behind := hsections
    symbols_behind := fun t ht => (hnone t ht).elim
    endsInNul := fun t ht => (hnone t ht).elim
    dvd_address := fun d hd => (hdirectory d hd).1
    dvd_size := fun d hd => (hdirectory d hd).2.1
    table_behind := fun d hd => ⟨(hdirectory d hd).2.2.2, fun t ht => (hnone t ht).elim⟩ },
    hplaces.2, fun d hd => (hdirectory d hd).2.2.1⟩

/-- An image with a section of eight bytes and no certificate table. -/
def clearImage : Bytes := smallImage 8 264 ⟨0, 0⟩ [1, 2, 3, 4, 5, 6, 7, 8]

/-- An image with one signature, and a section that has no bytes but names the end of the file as
their place. -/
def unclearImage : Bytes :=
  smallImage 0 464 ⟨264, 200⟩ smallSignature.encode

/-- Of two small images one takes a signature and one does not. -/
theorem intact_of_run_smallImage :
    (∃ i l y, IsSound clearImage i l ∧ i.IsClear ∧ Run clearImage [.sign [smallSignature]] y ∧
      Intact i l (i.signaturesAfter [.sign [smallSignature]]) y) ∧
    ∃ i l y, IsSound unclearImage i l ∧ ¬ i.IsClear ∧
      (Edit.sign [smallSignature]).apply unclearImage = .ok y ∧
      (y.length ≤ maxWord → ∀ j, decode y ≠ .ok j) := by
  constructor
  · obtain ⟨i, l, hx, hclear, -⟩ := exists_isSound (x := clearImage)
      (p := fun i => decide i.IsClear) (by decide +kernel) (by decide +kernel)
    have hclear := of_decide_eq_true hclear
    obtain ⟨y, hy, hmax⟩ := exists_eq_ok_of_any
      (e := (Edit.sign [smallSignature]).apply clearImage)
      (p := fun y => decide (y.length ≤ maxWord)) (by decide +kernel)
    have hproper : (Edit.sign [smallSignature]).IsProper :=
      List.forall_mem_singleton.2 isAccepted_smallSignature
    have hrun := Run.start.step hproper hy (of_decide_eq_true hmax)
    exact ⟨i, l, y, hx, hclear, hrun, (intact_of_run hx).1 hclear _ y hrun⟩
  · obtain ⟨i, l, hx, hclear, htable⟩ := exists_isSound (x := unclearImage)
      (p := fun i => decide (¬ i.IsClear)) (by decide +kernel) (by decide +kernel)
    have hclear := of_decide_eq_true hclear
    obtain ⟨y, hy⟩ := (intact_of_run hx).2 hclear htable [smallSignature] nofun
    exact ⟨i, l, y, hx, hclear, hy⟩

/-- An image that can be read, but not any more once a signature is added. -/
theorem not_decode_signed_unclearImage :
    ∃ i l y, IsSound unclearImage i l ∧ Run unclearImage [.sign [smallSignature]] y ∧
      ∀ j, decode y ≠ .ok j := by
  obtain ⟨i, l, hx, -⟩ := exists_isSound (x := unclearImage) (p := fun _ => true)
    (by decide +kernel) (by decide +kernel)
  obtain ⟨y, hy, hchecks⟩ := exists_eq_ok_of_any
    (e := (Edit.sign [smallSignature]).apply unclearImage)
    (p := fun y => decide (y.length ≤ maxWord) && (decode y).toOption.isNone) (by decide +kernel)
  rw [Bool.and_eq_true] at hchecks
  refine ⟨i, l, y, hx, Run.start.step (List.forall_mem_singleton.2 isAccepted_smallSignature) hy
    (of_decide_eq_true hchecks.1), fun j hj => ?_⟩
  rw [hj] at hchecks
  cases hchecks.2

end SecureBoot.EfiImage
