import Mathlib
import SecureBoot.Proofs.EfiImage.Runs
import SecureBoot.Proofs.Pe.ApplySections

/-!
# Edited images can be signed

The editor of sections writes a file, and the reader of images takes it for granted that headers and
sections have places that make sense. What the one leaves is what the other needs.

**Theorem (`signable_of_applySections`).** Whatever sections are placed into an executable that has
a directory entry for a certificate table, the result is an image without signatures. It has a
digest for every algorithm, any signatures can be put into it, and the image that is read afterwards
has these signatures and the same digests.

The proof reads off from the layout that was written that the image is sound (`isSound_written`):
the sections were placed one behind the other, so they share no bytes and end inside of the file;
the headers end behind the section table, and symbols come last. From there on it is a matter of
images (`Keeps`).
-/

namespace SecureBoot.EfiImage

open Pe Pe.Layout

variable {x y : Bytes} {h : Headers} {l : Layout} {requests : List SectionRequest}

/-! ## What was written -/

theorem directoryStop_le_tableOffset (hl : l.HasFront h)
    (hentry : DataDirectory.certificateIndex < h.numberOfDirectories) :
    h.certificateDirectoryStop ≤ h.tableOffset :=
  (hl.certificateDirectory_le (by rw [hl.certificateDirectoryOffset, if_pos hentry]; rfl)).2.2

theorem sizeOfHeaders_rereadHeaders (hl : l.HasFront h) (hs : l.IsStored) (hw : l.IsWritable) :
    (l.rereadHeaders h).sizeOfHeaders.toNat = l.headersStop :=
  Bytes.toNat_ofNat_of_le_maxWord ((Nat.le_add_right _ _).trans (hw.sectionsStop_le hl hs))

/-- Headers and sections end where the symbols begin, or earlier. -/
theorem sectionsStop_rereadHeaders_le (hl : l.HasFront h) (hs : l.IsStored) (hw : l.IsWritable) :
    sectionsStop (l.rereadHeaders h) ≤ l.sectionsStop := by
  rw [sectionsStop, foldl_max_le_iff, sizeOfHeaders_rereadHeaders hl hs hw]
  refine ⟨Nat.le_add_right _ _, fun n hn => ?_⟩
  obtain ⟨header, hheader, rfl⟩ := List.mem_map.1 hn
  obtain ⟨s, hmem, rfl⟩ := List.mem_map.1 hheader
  exact (hw.isWithin hl hs s hmem).rawStop_le

theorem exists_decode_written (hl : l.Holds h) (hs : l.IsSound) (hw : l.IsWritable)
    (hentry : DataDirectory.certificateIndex < h.numberOfDirectories)
    (hcount : l.sections.length ≤ 65535) :
    ∃ i, decode l.written = .ok i ∧ i.headers = l.rereadHeaders h ∧ i.signatures = [] := by
  have hlength := hl.length_written hs.isStored
  have htable := hs.isStored.table_le
  have hdirectory := directoryStop_le_tableOffset hl.toHasFront hentry
  have hsections := sectionsStop_rereadHeaders_le hl.toHasFront hs.isStored hw
  have hfront := hl.length_front
  have hstop : l.sectionsStop = l.headersStop + l.sectionBytes.length := rfl
  refine exists_decode (reads_written hl hs hw hcount) (readSignatures_none.2 rfl) nofun ?_
    { sectionsStop_le := by omega, table := Or.inr nofun }
  change h.certificateDirectoryStop ≤ _
  omega

/-- The file that a layout is written to is a sound image. -/
theorem isSound_written (hl : l.Holds h) (hs : l.IsSound) (hw : l.IsWritable)
    (hentry : DataDirectory.certificateIndex < h.numberOfDirectories)
    (hcount : l.sections.length ≤ 65535) {i : EfiImage} (hi : decode l.written = .ok i)
    (hheaders : i.headers = l.rereadHeaders h) : IsSound l.written i l.reread := by
  have hsize := sizeOfHeaders_rereadHeaders hl.toHasFront hs.isStored hw
  have hnone : ∀ d ∈ i.headers.certificateDirectory, False := by
    rw [hheaders]
    exact nofun
  exact {
    image := hi
    layout := decode_written hl hs hw hcount
    hasEntry := by rw [hheaders]; exact hentry
    directories_le := by rw [hheaders]; exact hl.directories_le
    tableStop_le := by
      rw [hheaders, hsize]
      change h.tableOffset + l.sections.length * SectionHeader.size ≤ _
      rw [← hl.length_front]
      exact le_alignUp _ _
    apart := by
      rw [hheaders]
      exact List.pairwise_map.2 ((hw.pairwise_placedSections hl.toHasFront hs.isStored).imp
        fun hst _ hne => Or.inl (hst.resolve_right hne))
    sections_behind := by
      rw [hheaders, hsize]
      intro header hheader hne
      obtain ⟨s, hmem, rfl⟩ := List.mem_map.1 hheader
      exact (hw.isWithin hl.toHasFront hs.isStored s hmem).le_pointer hne
    symbols_behind := by
      intro t ht
      obtain ⟨t', ht', -⟩ := Option.map_eq_some_iff.1 ht
      rw [hheaders, hsize]
      change _ ≤ if l.symbols.isSome then l.sectionsStop else 0
      rw [ht', Option.isSome_some, if_pos rfl]
      exact Nat.le_add_right _ _
    endsInNul := fun t ht => (allWhole_counted hs.symbols t ht).endsInNul
    dvd_address := fun d hd => (hnone d hd).elim
    dvd_size := fun d hd => (hnone d hd).elim
    table_behind := fun d hd => (hnone d hd).elim }

/-! ## Signing -/

/-- An edited image has no signatures and a digest for every algorithm, and stays the same when
signatures are put into it. -/
theorem signable_of_applySections (hx : IsEditable x h l)
    (hentry : DataDirectory.certificateIndex < h.numberOfDirectories)
    (hy : applySections x requests = .ok y)
    (hcount : (l.kept requests).length + requests.length ≤ 65535) :
    ∃ i, decode y = .ok i ∧ i.certificateTable = none ∧ i.signatures = [] ∧
      (∀ a ∈ imageAlgorithms, ∃ digest, i.digest a = .ok digest) ∧
      ∀ more : List WinCertificate, (∀ w ∈ more, w.IsAccepted) →
        ∃ z, i.setSignatures more = .ok z ∧ (z.length ≤ maxWord →
          ∃ j, decode z = .ok j ∧ j.signatures = more.map WinCertificate.padded ∧
            ∀ a ∈ imageAlgorithms, j.digest a = i.digest a) := by
  obtain ⟨edited, -, hadded, hholds, hwritable, rfl⟩ := hx.edited hy
  have hlength := hadded.length_sections
  change _ = (l.kept requests).length + _ at hlength
  obtain ⟨i, hi, hheaders, hsignatures⟩ :=
    exists_decode_written hholds hadded.isSound hwritable hentry (by omega)
  have hsound := isSound_written hholds hadded.isSound hwritable hentry (by omega) hi hheaders
  have hnone : i.headers.certificateDirectory = none := by rw [hheaders]; rfl
  have hclear : i.IsClear := fun d hd => by
    rw [hnone] at hd
    cases hd
  have hkeeps := hsound.keeps
  refine ⟨i, hi, ?_, hsignatures, fun a ha => ?_, fun more hmore => ?_⟩
  · rw [hsound.reads.certificateTable, hnone]
    rfl
  · exact ⟨_, digest_eq_ok_iff.2 ⟨ha, _, hkeeps.digestInput_eq hsound hclear, rfl⟩⟩
  · obtain ⟨z, hz⟩ := hkeeps.exists_setSignatures hsound hclear more
    refine ⟨z, hz, fun hmax => ?_⟩
    obtain ⟨j, hj⟩ := hkeeps.setSignatures hsound hclear (fun w hw => (hmore w hw).padded) hz hmax
    refine ⟨j, hj.image, ?_, fun a _ => hj.digest_eq hsound hclear a⟩
    rw [hj.signatures, hsignatures, List.nil_append]

/-- A section is placed into a small image, which is then signed. -/
theorem signable_of_applySections_clearImage :
    ∃ h l r y i z j, IsEditable clearImage h l ∧
      DataDirectory.certificateIndex < h.numberOfDirectories ∧
      applySections clearImage [r] = .ok y ∧ decode y = .ok i ∧ i.certificateTable = none ∧
      i.signatures = [] ∧ smallSignature.IsAccepted ∧
      i.setSignatures [smallSignature] = .ok z ∧ z.length ≤ maxWord ∧ decode z = .ok j ∧
      j.signatures = [smallSignature.padded] ∧ ∀ a ∈ imageAlgorithms, j.digest a = i.digest a := by
  let r : SectionRequest := { name := ".new", virtualAddress := 0x2000, data := [7, 8] }
  obtain ⟨i₀, l, hx, hplace, -⟩ := exists_isSound (x := clearImage)
    (p := fun i => decide (Headers.peOffsetField + 4 ≤ i.headers.peOffset ∧
      i.headers.sections.length = 1)) (by decide +kernel) (by decide +kernel)
  obtain ⟨hpeOffset, hone⟩ := of_decide_eq_true hplace
  have heditable : IsEditable clearImage i₀.headers l := {
    headers := Headers.decode_eq_ok_iff.2 hx.reads.headers
    layout := hx.layout
    le_peOffset := hpeOffset
    directories_le := hx.directories_le
    endsInNul := hx.endsInNul }
  have hkept : (l.kept [r]).length ≤ 1 := by
    obtain ⟨certificates, hr⟩ := hx.layoutReads
    rw [← hone, ← hr.sections, List.length_map]
    exact List.length_filter_le _ _
  obtain ⟨z, hz, hmax⟩ := exists_eq_ok_of_any
    (e := do (← decode (← applySections clearImage [r])).setSignatures [smallSignature])
    (p := fun z => decide (z.length ≤ maxWord)) (by decide +kernel)
  obtain ⟨y, hy, hz⟩ := bind_eq_ok.1 hz
  obtain ⟨i, hi, hz⟩ := bind_eq_ok.1 hz
  have hmax := of_decide_eq_true hmax
  obtain ⟨_, hi', htable, hsignatures, -, hsign⟩ :=
    signable_of_applySections heditable hx.hasEntry hy
    (show (l.kept [r]).length + 1 ≤ 65535 by omega)
  rw [hi] at hi'
  cases hi'
  obtain ⟨_, hz', hread⟩ :=
    hsign [smallSignature] (List.forall_mem_singleton.2 isAccepted_smallSignature)
  rw [hz] at hz'
  cases hz'
  obtain ⟨j, hj, hsigned, hdigest⟩ := hread hmax
  exact ⟨_, l, r, y, i, z, j, heditable, hx.hasEntry, hy, hi, htable, hsignatures,
    isAccepted_smallSignature, hz, hmax, hj, hsigned, hdigest⟩

end SecureBoot.EfiImage
