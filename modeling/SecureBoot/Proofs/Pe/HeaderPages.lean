import Mathlib
import SecureBoot.Proofs.Pe.Layout.Geometry

/-!
# Requested sections and the pages of the headers

A section must not share a page with the headers. That is looked at twice, with two measures:

* *when it is added*: it must stand behind the pages that the headers take with one section more
  (`mappedHeaders_le_of_checkRequest`),
* *when the file is written*: every section must stand behind the headers themselves, not behind
  their pages (`checkHeaders_eq_ok`).

In between further sections make the headers longer. **Theorem
(`sizeOfHeaders_le_of_applySections`).** Of a requested section with data two things always hold: it
stands behind the final headers, and behind the pages that the headers had when it was added. It
stands behind the pages of the final headers if its address is a multiple of the section alignment,
as it is without an alignment of its own, or if the headers have not come to take more pages since.

Otherwise it need not: with an alignment of its own a section can start in the page in which the
headers end (`sizeOfHeaders_in_page_of_section`).
-/

namespace SecureBoot.Pe

namespace Layout

variable {x y : Bytes} {l l' : Layout} {h : Headers} {r : SectionRequest}
  {before after : List SectionRequest}

/-! ## One request -/

/-- A section with data stands behind the pages that the headers take with it. -/
theorem mappedHeaders_le_of_checkRequest (hcheck : l.checkRequest r = .ok ()) (hr : r.data ≠ []) :
    (l.mappedHeaders (l.sections.length + 1)).stop ≤ r.virtualAddress.toNat := by
  have hdisjoint := (Mapped.isDisjoint_iff _ _).1 (checkRequest_eq_ok_iff.1 hcheck).headers
  have hdata : 0 < r.data.length := List.length_pos_iff.2 hr
  have hsize := le_alignUp r.data.length l.sectionAlignment.toNat
  have hheaders : 0 < (l.mappedHeaders (l.sections.length + 1)).stop := by
    have htable : 0 < (l.sections.length + 1) * SectionHeader.size :=
      Nat.mul_pos (Nat.succ_pos _) (by decide)
    have hfile := le_alignUp (l.front.length + (l.sections.length + 1) * SectionHeader.size)
      l.fileAlignment.toNat
    have hpage := le_alignUp (l.sizeOfHeaders (l.sections.length + 1)) l.sectionAlignment.toNat
    unfold mappedHeaders sizeOfHeaders at *
    dsimp only at *
    omega
  rw [Set.Ico_disjoint_Ico] at hdisjoint
  unfold mapped mappedHeaders at *
  dsimp only at *
  omega

theorem alignUp_virtualAddress_of_mod
    (haligned : r.virtualAddress % r.explicitAlignment.getD l.sectionAlignment = 0)
    (hr : r.explicitAlignment = none) :
    alignUp r.virtualAddress.toNat l.sectionAlignment.toNat = r.virtualAddress.toNat := by
  rw [hr, Option.getD_none] at haligned
  have hmod : r.virtualAddress.toNat % l.sectionAlignment.toNat = 0 := by
    rw [← UInt32.toNat_mod]
    exact congrArg UInt32.toNat haligned
  exact alignUp_of_dvd (Nat.dvd_of_mod_eq_zero hmod)

theorem alignUp_virtualAddress (hcheck : l.checkRequest r = .ok ())
    (hr : r.explicitAlignment = none) :
    alignUp r.virtualAddress.toNat l.sectionAlignment.toNat = r.virtualAddress.toNat :=
  alignUp_virtualAddress_of_mod (checkRequest_eq_ok_iff.1 hcheck).aligned hr

/-! ## All requests -/

theorem eq_of_addSections (hadd : l.addSections after = .ok l') :
    ∃ symbols added, l' = { l with symbols, sections := l.sections ++ added } ∧
      added.length = after.length := by
  induction after generalizing l with
  | nil =>
    cases hadd
    exact ⟨_, [], by rw [List.append_nil], rfl⟩
  | cons r rest ih =>
    rw [addSections] at hadd
    split at hadd
    · cases hadd
    · rename_i middle hmiddle
      obtain ⟨rawName, _, -, -, rfl⟩ := addSection_eq hmiddle
      obtain ⟨symbols, added, rfl, hlength⟩ := ih hadd
      refine ⟨symbols, l.requestedSection r rawName :: added, ?_, congrArg (· + 1) hlength⟩
      rw [List.append_assoc, List.singleton_append]

theorem checkRequest_of_addSections (hadd : l.addSections (before ++ r :: after) = .ok l') :
    ∃ middle, l.addSections before = .ok middle ∧ middle.checkRequest r = .ok () ∧
      ∃ rawName, middle.requestedSection r rawName ∈ l'.sections := by
  induction before generalizing l with
  | nil =>
    rw [List.nil_append, addSections] at hadd
    split at hadd
    · cases hadd
    · rename_i next hnext
      obtain ⟨rawName, symbols, hcheck, -, rfl⟩ := addSection_eq hnext
      obtain ⟨_, added, rfl, -⟩ := eq_of_addSections hadd
      exact ⟨l, rfl, hcheck, rawName, List.mem_append_left _ List.mem_concat_self⟩
  | cons first rest ih =>
    rw [List.cons_append, addSections] at hadd
    split at hadd
    · cases hadd
    · rename_i next hnext
      obtain ⟨middle, hmiddle, hrest⟩ := ih hadd
      exact ⟨middle, by rw [addSections, hnext]; exact hmiddle, hrest⟩

/-! ## The file -/

/-- A file that was written from an executable with other sections states the size of its headers,
wherever the data directories stand, and all sections stand behind that. -/
theorem sizeOfHeadersIn_encode {certificates : Option DataDirectory} {symbols : Option SymbolTable}
    {sections : List Section} (hreads : Reads x h certificates l)
    (hy : { l with symbols, sections }.encode = .ok y) (hne : sections ≠ []) :
    h.sizeOfHeadersIn y = l.sizeOfHeaders sections.length ∧
      ∀ s ∈ sections, l.sizeOfHeaders sections.length ≤ s.header.virtualAddress.toNat := by
  obtain ⟨hwritable, rfl⟩ := encode_eq_ok_iff.1 hy
  have hbelow : ∀ s ∈ sections, l.sizeOfHeaders sections.length ≤ s.header.virtualAddress.toNat :=
    checkHeaders_eq_ok.1 hwritable.headers
  obtain ⟨s, hs⟩ := List.exists_mem_of_ne_nil _ hne
  have hmax := (hbelow s hs).trans (Nat.le_of_lt_succ s.header.virtualAddress.toNat_lt)
  have hoptional : l.optionalOffset = h.optionalOffset :=
    congrArg (· + Headers.coffSize) hreads.coffOffset
  have hapart := pairwise_apart_fields (l := { l with symbols, sections }) fun offset ho => by
    have hdirectory : h.certificateDirectoryOffset = h.directoriesOffset + 32 := rfl
    have hdirectories := h.add_le_directoriesOffset
    have hchecksum : Headers.checksumField = 64 := rfl
    change offset ∈ l.certificateDirectoryOffset at ho
    change l.optionalOffset + _ + _ ≤ _
    rw [hreads.certificateDirectoryOffset] at ho
    split at ho <;> cases ho
    omega
  obtain ⟨-, -, -, -, hfield, -⟩ := forall_mem_fields.1 fun field hfield =>
    slice_patchAll hwritable.fields hapart hfield
  change Bytes.slice _ (l.optionalOffset + 60) (l.optionalOffset + 60 + _) = _ at hfield
  rw [hoptional, Bytes.length_ofNatLE] at hfield
  exact ⟨Bytes.u32_of_slice hfield hmax, hbelow⟩

end Layout

open Layout

variable {x y : Bytes} {h : Headers} {l : Layout} {r : SectionRequest}
  {before after : List SectionRequest}

/-- A requested section with data stands behind the headers of the result and behind the pages that
the headers took when it was added. It stands behind the pages that they take in the end if it has
no alignment of its own, or starts at a page, or the headers do not take more of them. -/
theorem sizeOfHeaders_le_of_applySections (hh : Headers.decode x = .ok h)
    (hl : Layout.decode x = .ok l) (hy : applySections x (before ++ r :: after) = .ok y)
    (hr : r.data ≠ []) :
    let kept := (l.kept (before ++ r :: after)).length
    let count := kept + (before ++ r :: after).length
    h.sizeOfHeadersIn y = l.sizeOfHeaders count ∧
      h.sizeOfHeadersIn y ≤ r.virtualAddress.toNat ∧
      (l.mappedHeaders (kept + before.length + 1)).stop ≤ r.virtualAddress.toNat ∧
      (r.explicitAlignment = none ∨
        alignUp r.virtualAddress.toNat h.sectionAlignment.toNat = r.virtualAddress.toNat ∨
        (l.mappedHeaders count).stop = (l.mappedHeaders (kept + before.length + 1)).stop →
        alignUp (h.sizeOfHeadersIn y) h.sectionAlignment.toNat ≤ r.virtualAddress.toNat) := by
  intro kept count
  obtain ⟨g, certificates, hreads⟩ := decode_eq_ok_iff.1 hl
  have hg := Headers.decode_eq_ok_iff.2 hreads.headers
  rw [hh] at hg
  cases hg
  obtain ⟨-, m, edited, hm, hadd, hencode⟩ := applySections_eq_ok.1 hy
  rw [hl] at hm
  cases hm
  obtain ⟨middle, hmiddle, hcheck, rawName, hmem⟩ := checkRequest_of_addSections hadd
  obtain ⟨_, added, rfl, hadded⟩ := eq_of_addSections hadd
  obtain ⟨_, added', rfl, hadded'⟩ := eq_of_addSections hmiddle
  have hcount : (l.kept (before ++ r :: after) ++ added).length = count := by
    rw [List.length_append, hadded]
  have hcount' : (l.kept (before ++ r :: after) ++ added').length = kept + before.length := by
    rw [List.length_append, hadded']
  have hpages : (l.mappedHeaders (kept + before.length + 1)).stop ≤ r.virtualAddress.toNat := by
    rw [← hcount']
    exact mappedHeaders_le_of_checkRequest hcheck hr
  obtain ⟨hfield, hsections⟩ : h.sizeOfHeadersIn y = l.sizeOfHeaders count ∧
      ∀ s ∈ l.kept (before ++ r :: after) ++ added,
        l.sizeOfHeaders count ≤ s.header.virtualAddress.toNat := by
    rw [← hcount]
    exact sizeOfHeadersIn_encode hreads hencode (List.ne_nil_of_mem hmem)
  have hbelow : l.sizeOfHeaders count ≤ r.virtualAddress.toNat := hsections _ hmem
  have halignment : l.sectionAlignment = h.sectionAlignment := hreads.sectionAlignment
  have hstart : alignUp r.virtualAddress.toNat h.sectionAlignment.toNat = r.virtualAddress.toNat →
      alignUp (l.sizeOfHeaders count) h.sectionAlignment.toNat ≤ r.virtualAddress.toNat :=
    fun haligned => (alignUp_le_alignUp hbelow _).trans haligned.le
  rw [hfield]
  refine ⟨rfl, hbelow, hpages, fun hcase => ?_⟩
  rcases hcase with hnone | haligned | hsame
  · have haligned := alignUp_virtualAddress hcheck hnone
    exact hstart (halignment ▸ haligned)
  · exact hstart haligned
  · rw [← halignment]
    exact hsame.le.trans hpages

/-- An image with long headers, in pages of 0x400 bytes: the table has room for one more section
until they take another page. -/
def fullImage : Bytes :=
  [[0x4d, 0x5a], Bytes.zeros 58, Bytes.ofNatLE 4 0x290, Bytes.zeros 592, [0x50, 0x45, 0, 0],
    Bytes.ofNatLE 2 0x8664, Bytes.ofNatLE 2 1, Bytes.zeros 12, Bytes.ofNatLE 2 240,
    Bytes.ofNatLE 2 0x22,
    Bytes.ofNatLE 2 0x20b, Bytes.zeros 30, Bytes.ofNatLE 4 0x400, Bytes.ofNatLE 4 0x200,
    Bytes.zeros 20, Bytes.ofNatLE 4 0x400, Bytes.zeros 44, Bytes.ofNatLE 4 16,
    Bytes.zeros 128,
    SectionHeader.encode {
      rawName := Bytes.padTo [0x2e, 0x74, 0x65, 0x78, 0x74] SectionHeader.nameSize
      virtualSize := 0x1000
      virtualAddress := 0x4000 },
    Bytes.zeros 64].flatten

/-- A section that starts between two pages, as its own alignment allows. -/
def betweenPages : SectionRequest := ⟨".sbat", 0x600, some 0x200, [1]⟩

/-- A section that starts at a page. -/
def atPage : SectionRequest := ⟨".new", 0x5000, none, [1]⟩

theorem applySections_fullImage :
    ∃ y h, applySections fullImage [betweenPages, atPage] = .ok y ∧ Headers.decode y = .ok h ∧
      h.sizeOfHeaders = 0x600 ∧ h.sectionAlignment = 0x400 := by
  obtain ⟨y, hy, hdecode⟩ := exists_eq_ok_of_any
    (e := applySections fullImage [betweenPages, atPage])
    (p := fun y => (Headers.decode y).toOption.any fun h : Headers =>
      decide (h.sizeOfHeaders = 0x600 ∧ h.sectionAlignment = 0x400)) (by decide +kernel)
  obtain ⟨h, hh, hsizes⟩ := exists_eq_ok_of_any hdecode
  exact ⟨y, h, hy, hh, of_decide_eq_true hsizes⟩

/-- The section at a page stands behind the pages of the headers, whatever was added before. -/
theorem sizeOfHeaders_le_of_applySections_fullImage :
    ∃ h y, Headers.decode fullImage = .ok h ∧
      applySections fullImage [betweenPages, atPage] = .ok y ∧
      alignUp (h.sizeOfHeadersIn y) h.sectionAlignment.toNat ≤ atPage.virtualAddress.toNat := by
  obtain ⟨h, hh, -⟩ := exists_eq_ok_of_any (e := Headers.decode fullImage) (p := fun _ => true)
    (by decide +kernel)
  obtain ⟨l, hl, -⟩ := exists_eq_ok_of_any (e := Layout.decode fullImage) (p := fun _ => true)
    (by decide +kernel)
  obtain ⟨y, -, hy, -⟩ := applySections_fullImage
  have hsplit : applySections fullImage ([betweenPages] ++ atPage :: []) = .ok y := hy
  obtain ⟨-, -, -, hpages⟩ :=
    sizeOfHeaders_le_of_applySections hh hl hsplit (List.cons_ne_nil _ _)
  exact ⟨h, y, hh, hy, hpages (.inl rfl)⟩

/-- The section between two pages stands at 0x600 when the headers come to end there, and with them
take the pages up to 0x800. -/
theorem sizeOfHeaders_in_page_of_section :
    ∃ y h, applySections fullImage [betweenPages, atPage] = .ok y ∧ Headers.decode y = .ok h ∧
      betweenPages.data ≠ [] ∧ h.sizeOfHeaders = 0x600 ∧ h.sectionAlignment = 0x400 ∧
      betweenPages.virtualAddress.toNat <
        alignUp h.sizeOfHeaders.toNat h.sectionAlignment.toNat := by
  obtain ⟨y, h, hy, hh, hsize, halignment⟩ := applySections_fullImage
  refine ⟨y, h, hy, hh, List.cons_ne_nil _ _, hsize, halignment, ?_⟩
  rw [hsize, halignment]
  decide

end SecureBoot.Pe
