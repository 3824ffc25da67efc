import Mathlib
import SecureBoot.Proofs.EfiImage.Runs
import SecureBoot.Proofs.Pe.Layout.Resigning

/-!
# Editing forgets signatures

Two readers look at the same file. That of images finds the certificate table by the directory and
puts new signatures behind it; that of layouts cuts the table out of what follows the sections. They
agree on where it is (`applySections_of_run`): however often an image without signatures is signed,
editing makes the same file of it as of the image before.

The proof is an induction over the changes with the invariant `IsResigned`:

* *bytes*: the file begins with the bytes of the image, but for what signing writes to, and
* *table*: all that follows is the certificate table, and the directory says so.

The invariant is enough to read the layout again, with an overlay that ends where the table begins
(`IsResigned.layout`).
-/

namespace SecureBoot.EfiImage

open Pe

/-- An image without a certificate table that has a place for its directory entry, and whose
sections and symbols stand behind the headers. -/
structure IsUnsigned (x : Bytes) (i : EfiImage) (l : Layout) : Prop where
  image : decode x = .ok i
  noTable : i.headers.certificateDirectory = none
  layout : Layout.decode i.raw = .ok l
  hasEntry : DataDirectory.certificateIndex < i.headers.numberOfDirectories
  directory_le : i.headers.certificateDirectoryStop ≤ i.headers.tableOffset
  tableStop_le : i.headers.tableStop ≤ i.headers.sizeOfHeaders.toNat
  sections_behind : ∀ s ∈ i.headers.sections, s.sizeOfRawData ≠ 0 →
    i.headers.sizeOfHeaders.toNat ≤ s.pointerToRawData.toNat
  symbols_behind : ∀ t ∈ l.symbols, i.headers.sizeOfHeaders.toNat ≤ i.headers.pointerToSymbolTable
  endsInNul : ∀ t ∈ l.symbols, t.EndsInNul

/-- The bytes of an image with a certificate table behind them, or none. -/
structure IsResigned (i : EfiImage) (z : Bytes) : Prop where
  agree : i.headers.AgreeTo i.raw.length i.raw z
  dvd_length : 8 ∣ z.length
  directory : DataDirectory.decode? z i.headers.certificateDirectoryOffset = none ∧
      z.length = i.raw.length ∨
    ∃ d, DataDirectory.decode? z i.headers.certificateDirectoryOffset = some d ∧
      d.address.toNat = i.raw.length ∧ d.stop = z.length

/-- An image whose bytes are those of another one with a certificate table behind them. -/
structure Continues (i j : EfiImage) : Prop where
  headers : j.headers = { i.headers with certificateDirectory := j.headers.certificateDirectory }
  length_front : j.front.length = i.raw.length
  behind : j.behind = []
  agree : i.headers.AgreeTo i.raw.length i.raw j.raw

variable {x y z : Bytes} {i j : EfiImage} {l : Layout} {more : List WinCertificate}

/-! ## The image to start from -/

namespace IsUnsigned

variable (hx : IsUnsigned x i l)

include hx

theorem reads : Reads x i := decode_eq_ok_iff.1 hx.image

theorem sizeOfHeaders_le : i.headers.sizeOfHeaders.toNat ≤ x.length :=
  (sizeOfHeaders_le_sectionsStop _).trans hx.reads.isInPlace.sectionsStop_le

theorem tableStop_le_length : i.headers.tableStop ≤ x.length :=
  hx.tableStop_le.trans hx.sizeOfHeaders_le

theorem directory_le_sizeOfHeaders :
    i.headers.certificateDirectoryStop ≤ i.headers.sizeOfHeaders.toNat :=
  hx.directory_le.trans ((Nat.le_add_right _ _).trans hx.tableStop_le)

theorem directory_le_raw : i.headers.certificateDirectoryStop ≤ i.raw.length :=
  hx.reads.directory_le.trans hx.reads.le_length_raw

theorem decode?_raw :
    DataDirectory.decode? i.raw i.headers.certificateDirectoryOffset = none := by
  have hread := hx.reads.headers.certificateDirectory
  rw [if_pos hx.hasEntry, hx.noTable] at hread
  rw [← hread]
  exact DataDirectory.decode?_congr fun k _ hk =>
    hx.reads.getElem?_raw (hk.trans_le hx.reads.directory_le)

theorem layoutReads : Layout.Reads i.raw i.headers none l := by
  obtain ⟨h, certificates, hr⟩ := Layout.decode_eq_ok_iff.1 hx.layout
  have hagree : i.headers.AgreeTo i.headers.tableStop x i.raw := fun k hk _ =>
    hx.reads.getElem?_raw (hk.trans_le hx.tableStop_le_length)
  have hheaders := hx.reads.headers.eq_of_agree hr.headers hagree hx.directory_le
  have hnone : h.certificateDirectory = none := by
    have hread := hr.headers.certificateDirectory
    rw [hheaders] at hread
    rw [← hread, ← hx.decode?_raw]
    exact if_pos hx.hasEntry
  have hsame : h = i.headers := by rw [hheaders, hnone, ← hx.noTable]
  subst hsame
  have hrange := hr.certificateTable
  rw [Layout.certificateRange, hnone] at hrange
  rw [← pure_eq_ok.1 hrange] at hr
  exact hr

theorem isBetween : l.IsBetween i.headers i.raw.length where
  directory_le := hx.directory_le
  tableStop_le := hx.tableStop_le_length.trans hx.reads.le_length_raw
  sections s hs hne := by
    refine ⟨hx.directory_le_sizeOfHeaders.trans (hx.sections_behind s hs hne), ?_⟩
    rw [← hx.layoutReads.sections] at hs
    obtain ⟨t, ht, rfl⟩ := List.mem_map.1 hs
    have hstands := (hx.layoutReads.section_stands t ht).2
    rw [Section.StandsIn, if_neg hne] at hstands
    exact hstands.1
  symbols t ht := by
    exact ⟨hx.directory_le_sizeOfHeaders.trans (hx.symbols_behind t ht),
      hx.layoutReads.symbolsStop_le t ht⟩
  endsInNul := hx.endsInNul

theorem isResigned_raw : IsResigned i i.raw where
  agree := Headers.AgreeTo.refl _ _ _
  dvd_length := hx.reads.dvd_length_raw
  directory := Or.inl ⟨hx.decode?_raw, rfl⟩

end IsUnsigned

/-! ## Reading such bytes -/

/-- What is read of such bytes is an image with a table behind them. -/
theorem IsResigned.continues (hx : IsUnsigned x i l) (hz : IsResigned i z) (hj : Reads z j) :
    Continues i j := by
  have hraw : j.raw = z := by
    rw [hj.raw, WinCertificate.align_of_dvd hz.dvd_length, Bytes.padTo_of_length_le le_rfl]
  have htable := hx.isBetween.tableStop_le
  have hheaders := hx.layoutReads.headers.eq_of_agree hj.headers (hz.agree.mono htable)
    hx.directory_le
  have hdirectory : j.headers.certificateDirectory =
      DataDirectory.decode? z i.headers.certificateDirectoryOffset := by
    have hread := hj.headers.certificateDirectory
    rw [hheaders] at hread
    rw [← hread]
    exact if_pos hx.hasEntry
  have hlengths : j.front.length = i.raw.length ∧ j.behind.length = 0 := by
    rcases hz.directory with ⟨hnone, hlength⟩ | ⟨d, hd, haddress, hstop⟩
    · obtain ⟨-, hfront, -, hbehind⟩ := hj.pieces_of_none (hdirectory.trans hnone)
      rw [hfront, hraw, hlength, hbehind]
      exact ⟨rfl, rfl⟩
    · obtain ⟨hfront, htableStop⟩ := hj.lengths_of_some (hdirectory.trans hd)
      have hlength := j.length_raw
      rw [hraw, htableStop, hstop] at hlength
      exact ⟨hfront.trans haddress, by simpa using hlength⟩
  exact {
    headers := hheaders
    length_front := hlengths.1
    behind := List.eq_nil_of_length_eq_zero hlengths.2
    agree := hraw ▸ hz.agree }

namespace Continues

variable (hj : Continues i j)

include hj

theorem directoryOffset_eq :
    j.headers.certificateDirectoryOffset = i.headers.certificateDirectoryOffset := by
  rw [hj.headers]
  rfl

theorem directoryStop_eq :
    j.headers.certificateDirectoryStop = i.headers.certificateDirectoryStop := by
  rw [hj.headers]
  rfl

theorem checksumOffset_eq : j.headers.checksumOffset = i.headers.checksumOffset := by
  rw [hj.headers]
  rfl

theorem tableStop_eq : j.tableStop = j.raw.length := by
  rw [j.length_raw, hj.behind, List.length_nil, Nat.add_zero]

theorem agree_front (rest : Bytes) :
    i.headers.AgreeTo i.raw.length i.raw (j.front ++ rest) := by
  intro k hk hfield
  have hfront : k < j.front.length := by rwa [hj.length_front]
  rw [← hj.agree k hk hfield, j.raw_eq, List.getElem?_append_left hfront,
    List.getElem?_append_left hfront]

end Continues

/-! ## The changes -/

theorem Continues.setSignatures (hx : IsUnsigned x i l) (hj : Continues i j) (hy : Reads y j)
    (hz : j.setSignatures more = .ok z) (hmax : z.length ≤ maxWord) : IsResigned i z := by
  have hfront : j.headers.certificateDirectoryStop ≤ j.front.length := by
    rw [hj.directoryStop_eq, hj.length_front]
    exact hx.directory_le_raw
  have hstop : j.headers.certificateDirectoryStop ≤ j.tableStop :=
    hfront.trans (Nat.le_add_right _ _)
  have haligned : WinCertificate.align j.tableStop = j.tableStop := by
    rw [hj.tableStop_eq, WinCertificate.align_of_dvd hy.dvd_length_raw]
  rw [hy.setSignatures_eq_ok hstop] at hz
  cases hz
  have hlength := length_signed hstop more
  have htable := j.length_signedTable more
  rw [haligned] at hlength htable
  rw [hj.behind, List.length_nil, Nat.add_zero] at hlength
  refine ⟨?_, ?_, Or.inr ?_⟩
  · rw [signed, hj.directoryOffset_eq]
    refine (hj.agree_front _).trans (agreeTo_overwrite_directory _ _ _ _ ?_)
    rw [← hj.directoryStop_eq]
    exact directory_fits hstop more
  · rw [hlength, hj.tableStop_eq]
    exact Nat.dvd_add hy.dvd_length_raw (dvd_length_flatMap_encode more)
  · have hpos : j.front.length ≠ 0 := by
      have hwidth : 0 < j.headers.certificateDirectoryStop := Nat.add_pos_right _ (by decide)
      exact (hwidth.trans_le hfront).ne'
    obtain ⟨d, hd, haddress, hsize⟩ := exists_directory_signed hstop (Or.inl hpos) hmax
    rw [hj.directoryOffset_eq] at hd
    refine ⟨d, hd, haddress.trans hj.length_front, ?_⟩
    rw [DataDirectory.stop, haddress, hsize, htable, hlength]

theorem Continues.withChecksum (hx : IsUnsigned x i l) (hj : Continues i j) (hy : Reads y j) :
    IsResigned i j.withChecksum := by
  have hentry : DataDirectory.decode? j.withChecksum i.headers.certificateDirectoryOffset =
      j.headers.certificateDirectory := by
    rw [← hj.directoryOffset_eq, hy.directory_withChecksum, ← hy.headers.certificateDirectory,
      if_pos]
    rw [hj.headers]
    exact hx.hasEntry
  refine ⟨?_, ?_, ?_⟩
  · rw [hy.withChecksum_eq, hj.checksumOffset_eq]
    refine hj.agree.trans (agreeTo_overwrite_checksum _ _ _ ?_)
    rw [← hj.checksumOffset_eq]
    exact hy.checksum_le.trans hy.le_length_raw
  · rw [hy.length_withChecksum]
    exact hy.dvd_length_raw
  · rw [hentry, hy.length_withChecksum, ← hj.tableStop_eq, ← hj.length_front]
    cases hd : j.headers.certificateDirectory with
    | none =>
      have htable := (hy.pieces_of_none hd).2.2.1
      exact Or.inl ⟨rfl, by rw [tableStop, htable, List.length_nil, Nat.add_zero]⟩
    | some d =>
      obtain ⟨hfront, hstop⟩ := hy.lengths_of_some hd
      exact Or.inr ⟨d, rfl, hfront.symm, hstop.symm⟩

/-- Without the table the bytes of the image are left. -/
theorem Continues.strip (hx : IsUnsigned x i l) (hj : Continues i j) (hy : Reads y j)
    (hz : j.strip = .ok z) : IsResigned i z := by
  rw [j.strip_eq, unsigned, hj.behind] at hz
  obtain ⟨hin, rfl⟩ := hy.patchDirectory_eq_ok.1 hz
  rw [hj.directoryStop_eq] at hin
  rw [hj.directoryOffset_eq]
  set entry := DataDirectory.entryOf 0 0 with hentry
  have hwidth : entry.length = DataDirectory.width := DataDirectory.length_entryOf _ _
  have hfits : i.headers.certificateDirectoryOffset + entry.length ≤ (j.front ++ []).length := hin
  have hlength := Bytes.length_overwrite hfits
  rw [List.length_append, List.length_nil, Nat.add_zero, hj.length_front] at hlength
  refine ⟨(hj.agree_front []).trans (agreeTo_overwrite_directory _ _ _ _ hin), ?_,
    Or.inl ⟨DataDirectory.decode?_of_zeros ?_, hlength⟩⟩
  · rw [hlength]
    exact hx.reads.dvd_length_raw
  · rw [← hwidth, Bytes.slice_overwrite_self hfits]
    rfl

theorem IsResigned.dropStale (hx : IsUnsigned x i l) (hy : IsResigned i y) (hj : Reads y j)
    {r : Option Bytes} (hr : j.dropStale = .ok r) (hmax : (r.getD y).length ≤ maxWord) :
    IsResigned i (r.getD y) := by
  obtain ⟨kept, -, h⟩ := dropStale_eq_ok.1 hr
  rcases h with ⟨-, rfl⟩ | ⟨-, stripped, hstripped, h⟩
  · exact hy
  · have hz := (hy.continues hx hj).strip hx hj hstripped
    rcases h with ⟨-, rfl⟩ | ⟨-, j', z, hj', hsigned, rfl⟩
    · exact hz
    · have hj' := decode_eq_ok_iff.1 hj'
      exact (hz.continues hx hj').setSignatures hx hj' hsigned hmax

/-- Every change of the signatures keeps the bytes of the image in front. -/
theorem IsResigned.step (hx : IsUnsigned x i l) (hy : IsResigned i y) {e : Edit}
    (hz : e.apply y = .ok z) (hmax : z.length ≤ maxWord) : IsResigned i z := by
  obtain ⟨j, hj, hz⟩ := bind_eq_ok.1 hz
  have hj := decode_eq_ok_iff.1 hj
  have hcontinues := hy.continues hx hj
  cases e with
  | sign more => exact hcontinues.setSignatures hx hj hz hmax
  | checksum =>
    rw [← pure_eq_ok.1 hz]
    exact hcontinues.withChecksum hx hj
  | strip => exact hcontinues.strip hx hj hz
  | dropStale =>
    obtain ⟨r, hr, hz⟩ := bind_eq_ok.1 hz
    rw [← pure_eq_ok.1 hz] at hmax ⊢
    exact hy.dropStale hx hj hr hmax

theorem isResigned_of_run (hx : IsUnsigned x i l) {edits : List Edit}
    (hrun : Run i.raw edits y) : IsResigned i y := by
  induction hrun with
  | start => exact hx.isResigned_raw
  | step _ _ hz hmax ih => exact ih.step hx hz hmax

/-! ## The layout -/

/-- What follows the sections ends where the certificate table begins. -/
theorem IsResigned.exists_certificates (hz : IsResigned i z) {start : Nat}
    (hstart : i.headers.certificateDirectoryStop ≤ start) :
    ∃ certificates, Layout.certificateRange z { i.headers with
        certificateDirectory := DataDirectory.decode? z i.headers.certificateDirectoryOffset } =
          .ok certificates ∧
      Layout.overlayFrom z start certificates = i.raw.drop start := by
  have hslice : z.slice start i.raw.length = i.raw.drop start := by
    rw [hz.agree.slice hstart le_rfl, Bytes.slice_length]
  have hdrop : z.length = i.raw.length → z.drop start = i.raw.drop start := by
    intro hlength
    rw [← hslice, ← hlength, Bytes.slice_length]
  rcases hz.directory with ⟨hnone, hlength⟩ | ⟨d, hd, haddress, hstop⟩
  · rw [hnone]
    exact ⟨none, rfl, hdrop hlength⟩
  · rw [hd]
    by_cases hsize : d.size = 0
    · refine ⟨none, if_pos hsize, hdrop ?_⟩
      rw [← hstop, DataDirectory.stop, hsize, haddress]
      rfl
    · refine ⟨some d, ?_, ?_⟩
      · rw [Layout.certificateRange]
        dsimp only
        rw [if_neg hsize, if_neg (Nat.not_lt.2 hstop.le)]
        rfl
      · have hbehind : z.drop (max d.stop start) = [] :=
          List.drop_eq_nil_of_le (hstop ▸ le_max_left _ _)
        rw [Layout.overlayFrom, haddress, hslice, hbehind, List.append_nil]

theorem IsUnsigned.tailStart_eq (hx : IsUnsigned x i l) (hle : i.raw.length ≤ z.length)
    (directory : Option DataDirectory) :
    Layout.tailStart z { i.headers with certificateDirectory := directory } l.sections l.symbols =
      Layout.tailStart i.raw i.headers l.sections l.symbols := by
  have hheaders := hx.sizeOfHeaders_le.trans hx.reads.le_length_raw
  rw [Layout.tailStart, Layout.tailStart, Nat.min_eq_left hheaders,
    Nat.min_eq_left (hheaders.trans hle)]

theorem IsUnsigned.directory_le_tailStart (hx : IsUnsigned x i l) :
    i.headers.certificateDirectoryStop ≤
      Layout.tailStart i.raw i.headers l.sections l.symbols := by
  have hheaders := hx.sizeOfHeaders_le.trans hx.reads.le_length_raw
  rw [Layout.tailStart, Nat.min_eq_left hheaders]
  exact hx.directory_le_sizeOfHeaders.trans (le_foldl_max _ _).1

theorem IsResigned.le_length (hz : IsResigned i z) : i.raw.length ≤ z.length := by
  rcases hz.directory with ⟨-, hlength⟩ | ⟨d, -, haddress, hstop⟩
  · exact hlength.ge
  · rw [← haddress, ← hstop]
    exact Nat.le_add_right _ _

/-- The layout is that of the image but for the fields that signing writes to. -/
theorem IsResigned.layout (hx : IsUnsigned x i l) (hz : IsResigned i z) :
    ∃ front hadSignatures, Layout.decode z = .ok (l.resigned front hadSignatures) ∧
      Layout.IsFrontOf front l := by
  have hr := hx.layoutReads
  have hl := hx.isBetween
  have hle := hz.le_length
  have hheaders := hr.headers.resigned (hz.agree.mono hl.tableStop_le) hx.directory_le
    (hl.tableStop_le.trans hle) (hr.headers.directories_le.trans hle)
    (hr.names_resigned hl hz.agree hle)
  rw [if_pos hx.hasEntry] at hheaders
  obtain ⟨certificates, hcertificates, hoverlay⟩ :=
    hz.exists_certificates hx.directory_le_tailStart
  refine ⟨z.take i.headers.tableOffset, certificates.isSome,
    Layout.decode_eq_ok_iff.2 ⟨_, certificates, {
      headers := hheaders
      certificateTable := hcertificates
      symbols := (hr.symbols_resigned hl hz.agree hle).1
      sections := hr.sections
      section_stands := fun s hs =>
        ⟨(hr.section_stands s hs).1, hr.standsIn_resigned hl hz.agree hle s hs⟩
      front_le := hr.front_le.trans hle
      front := rfl
      coffOffset := hr.coffOffset
      certificateDirectoryOffset := hr.certificateDirectoryOffset
      fileAlignment := hr.fileAlignment
      sectionAlignment := hr.sectionAlignment
      overlay := by
        rw [Layout.resigned_overlay, Layout.resigned_sections, Layout.resigned_symbols,
          hx.tailStart_eq hle, hoverlay, hr.overlay]
        rfl
      hadSignatures := rfl }⟩, ?_⟩
  have hfront := hr.front_le
  constructor
  · rw [hr.front, List.length_take_of_le hfront, List.length_take_of_le (hfront.trans hle)]
  · intro k hchecksum hdirectory
    rw [hr.certificateDirectoryOffset, if_pos hx.hasEntry] at hdirectory
    rw [hr.front, List.getElem?_take, List.getElem?_take]
    split
    · rename_i hk
      refine hz.agree k (hk.trans_le hfront) fun hfield => ?_
      have hentry := hdirectory _ rfl
      rw [Layout.optionalOffset, hr.coffOffset] at hchecksum
      rcases hfield with ⟨hge, hlt⟩ | ⟨hge, hlt⟩
      · exact hchecksum.elim (Nat.not_lt.2 hge) (Nat.not_le.2 hlt)
      · exact hentry.elim (Nat.not_lt.2 hge) (Nat.not_le.2 hlt)
    · rfl

/-! ## Files and their padding -/

/-- Reading the padded bytes gives the same image, with other bytes behind the sections at most. -/
theorem IsUnsigned.exists_decode_raw (hx : IsUnsigned x i l) :
    ∃ overlay, decode i.raw = .ok { i with overlay } := by
  have hnone : readSignatures i.raw i.headers.certificateDirectory = .ok i.signatures := by
    have hsignatures := hx.reads.signatures
    rw [hx.noTable, readSignatures_none] at hsignatures ⊢
    exact hsignatures
  obtain ⟨j, hdecode, hheaders, hsignatures⟩ := exists_decode hx.layoutReads.headers hnone
    (by rw [hx.noTable]; exact nofun) hx.directory_le_raw {
      sectionsStop_le := hx.reads.isInPlace.sectionsStop_le.trans hx.reads.le_length_raw
      table := Or.inr (by rw [hx.noTable]; exact nofun) }
  have hj := decode_eq_ok_iff.1 hdecode
  have hslice : ∀ start stop, stop ≤ x.length → i.raw.slice start stop = x.slice start stop :=
    fun start stop hstop =>
      Bytes.slice_congr fun k _ hk => hx.reads.getElem?_raw (hk.trans_le hstop)
  have hraw : j.raw = i.raw := by
    rw [hj.raw, WinCertificate.align_of_dvd hx.reads.dvd_length_raw,
      Bytes.padTo_of_length_le le_rfl]
  have htable : j.certificateTable = i.certificateTable := by
    rw [hj.certificateTable, hx.reads.certificateTable, hheaders, hx.noTable]
    rfl
  have hchecksum : j.checksum = i.checksum := by
    rw [hj.checksum, hx.reads.checksum, hheaders, hslice _ _ hx.reads.checksum_le]
  have hdirectory : j.certificateDirectory = i.certificateDirectory := by
    rw [hj.certificateDirectory, hx.reads.certificateDirectory, hheaders,
      hslice _ _ hx.reads.directory_le]
  refine ⟨j.overlay, ?_⟩
  rw [hdecode, ← hheaders, ← hraw, ← htable, ← hchecksum, ← hdirectory, ← hsignatures]

/-- The first change makes the same of the file and of its padded bytes. -/
theorem IsUnsigned.apply_raw (hx : IsUnsigned x i l) {e : Edit} (he : e ≠ .dropStale) :
    e.apply i.raw = e.apply x := by
  obtain ⟨overlay, hraw⟩ := hx.exists_decode_raw
  rw [Edit.apply, Edit.apply, hx.image, hraw]
  cases e with
  | dropStale => exact absurd rfl he
  | _ => rfl

/-! ## Whole runs -/

/-- Whatever signatures an image has been given, editing makes the same of it as of the image
without them: the same file, or the same error. The changes may start from the file that the image
was read from as well as from its padded bytes. -/
theorem applySections_of_run (hx : IsUnsigned x i l) :
    (∀ e : Edit, e ≠ .dropStale → e.apply i.raw = e.apply x) ∧
      ∀ edits y, Run i.raw edits y →
        ∀ requests, applySections y requests = applySections i.raw requests := by
  refine ⟨fun e he => hx.apply_raw he, fun edits y hrun requests => ?_⟩
  obtain ⟨front, hadSignatures, hdecode, hfront⟩ := (isResigned_of_run hx hrun).layout hx
  exact applySections_congr hx.layout hdecode hfront requests

/-- Sound images that need no padding are among those without signatures, if they have none. -/
theorem IsSound.isUnsigned (hx : IsSound x i l) (hnone : i.headers.certificateDirectory = none)
    (hdvd : 8 ∣ x.length) : IsUnsigned x i l where
  image := hx.image
  noTable := hnone
  layout := by
    rw [hx.reads.raw, WinCertificate.align_of_dvd hdvd, Bytes.padTo_of_length_le le_rfl]
    exact hx.layout
  hasEntry := hx.hasEntry
  directory_le := hx.directory_le
  tableStop_le := hx.tableStop_le
  sections_behind := hx.sections_behind
  symbols_behind := hx.symbols_behind
  endsInNul := hx.endsInNul

/-- A small image is signed and its checksum filled in; a section that is then added makes the file
that it makes of the image before. -/
theorem applySections_of_run_clearImage :
    ∃ i l y z r, IsUnsigned clearImage i l ∧ Run i.raw [.sign [smallSignature], .checksum] y ∧
      Edit.checksum.apply i.raw = Edit.checksum.apply clearImage ∧
      applySections i.raw [r] = .ok z ∧ applySections y [r] = .ok z := by
  obtain ⟨i, l, hsound, hnone, -⟩ := exists_isSound (x := clearImage)
    (p := fun i => decide (i.headers.certificateDirectory = none)) (by decide +kernel)
    (by decide +kernel)
  have hx := hsound.isUnsigned (of_decide_eq_true hnone) (by decide +kernel)
  have hraw : i.raw = clearImage := by
    rw [hx.reads.raw, WinCertificate.align_of_dvd (by decide +kernel),
      Bytes.padTo_of_length_le le_rfl]
  let r : SectionRequest := { name := ".b", virtualAddress := 0x2000, data := [7] }
  obtain ⟨signed, hsigned, hmax⟩ := exists_eq_ok_of_any
    (e := (Edit.sign [smallSignature]).apply clearImage)
    (p := fun y => decide (y.length ≤ maxWord) &&
      (Edit.checksum.apply y).toOption.any fun z => decide (z.length ≤ maxWord))
    (by decide +kernel)
  rw [Bool.and_eq_true] at hmax
  obtain ⟨y, hy, hymax⟩ := exists_eq_ok_of_any hmax.2
  obtain ⟨z, hz, -⟩ := exists_eq_ok_of_any (e := applySections clearImage [r])
    (p := fun _ => true) (by decide +kernel)
  rw [← hraw] at hsigned hz
  have hproper : (Edit.sign [smallSignature]).IsProper :=
    List.forall_mem_singleton.2 isAccepted_smallSignature
  have hfilled : Edit.checksum.IsProper := trivial
  have hrun := (Run.start.step hproper hsigned (of_decide_eq_true hmax.1)).step hfilled hy
    (of_decide_eq_true hymax)
  exact ⟨i, l, y, z, r, hx, hrun, (applySections_of_run hx).1 .checksum nofun, hz,
    ((applySections_of_run hx).2 _ y hrun [r]).trans hz⟩

end SecureBoot.EfiImage
