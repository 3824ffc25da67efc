import Mathlib
import SecureBoot.Proofs.Pe.Layout.Editing
import SecureBoot.Proofs.Pe.Layout.RoundTrip

/-!
# Layouts that differ only in their places

Two layouts are `Alike` when they differ in nothing that a request for sections asks about: their
sections are the same but for their places in a file, and so are their headers but for fields that
are filled in anyway.

**Requests** that one of them lets through the other lets through too, and they stay alike
(`addSections_of_alike`), if the second has all names in its string table that the first takes in.

**Files.** What the two are written to differs in the overlay at most (`written_of_alike`).
-/

namespace SecureBoot.Pe.Layout

open SymbolTable

structure Alike (l l' : Layout) : Prop where
  length_front : l'.front.length = l.front.length
  coffOffset : l'.coffOffset = l.coffOffset
  certificateDirectoryOffset : l'.certificateDirectoryOffset = l.certificateDirectoryOffset
  fileAlignment : l'.fileAlignment = l.fileAlignment
  sectionAlignment : l'.sectionAlignment = l.sectionAlignment
  sections : l'.sections.map (·.unplaced) = l.sections.map (·.unplaced)

variable {l l' : Layout} {r : SectionRequest} {requests : List SectionRequest}

/-! ## What does not depend on places -/

theorem Alike.map_eq {β : Type} (ha : l.Alike l') (f : Section → β)
    (hf : ∀ s, f s.unplaced = f s) : l'.sections.map f = l.sections.map f := by
  have hmap := congrArg (List.map f) ha.sections
  have hcomp : (f ∘ fun s => s.unplaced) = f := funext hf
  rwa [List.map_map, List.map_map, hcomp] at hmap

theorem Alike.length_sections (ha : l.Alike l') : l'.sections.length = l.sections.length := by
  have hmap := congrArg List.length ha.sections
  rwa [List.length_map, List.length_map] at hmap

theorem Alike.sizeOfHeaders (ha : l.Alike l') (count : Nat) :
    l'.sizeOfHeaders count = l.sizeOfHeaders count := by
  rw [Layout.sizeOfHeaders, Layout.sizeOfHeaders, ha.length_front, ha.fileAlignment]

theorem Alike.isSome_section? (ha : l.Alike l') (name : String) :
    (l'.section? name).isSome = (l.section? name).isSome := by
  have hfind : ∀ sections : List Section,
      (sections.find? (·.name = name)).isSome = (sections.map (·.name)).contains name := by
    intro sections
    rw [Bool.eq_iff_iff, List.find?_isSome, List.contains_iff_mem, List.mem_map]
    simp
  rw [section?, section?, hfind, hfind, ha.map_eq (·.name) fun _ => rfl]

/-- Both let the same request through. -/
theorem Alike.checkRequest (ha : l.Alike l') (r : SectionRequest) :
    l'.checkRequest r = l.checkRequest r := by
  have hmapped : l'.mapped = l.mapped := by
    funext address size
    rw [mapped, mapped, ha.sectionAlignment]
  have hheaders : l'.mappedHeaders (l'.sections.length + 1) =
      l.mappedHeaders (l.sections.length + 1) := by
    rw [mappedHeaders, mappedHeaders, ha.sizeOfHeaders, ha.length_sections, ha.sectionAlignment]
  have hsections : ∀ range : Mapped,
      (l'.sections.forM fun s =>
        checkDisjoint r.name range s.name (l.mapped s.header.virtualAddress s.header.span)) =
      l.sections.forM fun s =>
        checkDisjoint r.name range s.name (l.mapped s.header.virtualAddress s.header.span) := by
    intro range
    have hmap := ha.map_eq (fun s =>
      checkDisjoint r.name range s.name (l.mapped s.header.virtualAddress s.header.span))
      fun _ => rfl
    have hforM := congrArg (List.forM · id) hmap
    simpa only [forM_map, Function.comp_def, id] using hforM
  rw [Layout.checkRequest, Layout.checkRequest, ha.isSome_section?, ha.sectionAlignment,
    ha.fileAlignment, hmapped, hheaders]
  simp only [hsections]

/-! ## Adding to both -/

/-- What one layout lets in goes into the other too. -/
theorem addSection_of_alike (hl : l.IsSound) (ha : l.Alike l') {middle : Layout}
    (h : l.addSection r = (middle, none)) (hgrow : Grow middle.symbols l'.symbols) :
    ∃ sections, l'.addSection r = ({ l' with sections }, none) ∧
      middle.Alike { l' with sections } := by
  obtain ⟨rawName, symbols, hcheck, hname, rfl⟩ := addSection_eq h
  have hagain := encodeName_of_grow hl.symbols (checkRequest_eq_ok hcheck).1 hname hgrow
  refine ⟨l'.sections ++ [l'.requestedSection r rawName], ?_, ?_⟩
  · rw [addSection, ha.checkRequest, hcheck, hagain]
  · exact {
      length_front := ha.length_front
      coffOffset := ha.coffOffset
      certificateDirectoryOffset := ha.certificateDirectoryOffset
      fileAlignment := ha.fileAlignment
      sectionAlignment := ha.sectionAlignment
      sections := by
        rw [List.map_append, List.map_append, ha.sections, requestedSection, requestedSection,
          ha.fileAlignment] }

theorem addSections_of_alike (hl : l.IsSound) (ha : l.Alike l') {edited : Layout}
    (h : l.addSections requests = .ok edited) (hgrow : Grow edited.symbols l'.symbols) :
    ∃ sections, l'.addSections requests = .ok { l' with sections } ∧
      edited.Alike { l' with sections } := by
  induction requests generalizing l l' with
  | nil =>
    cases h
    exact ⟨l'.sections, rfl, ha⟩
  | cons r rest ih =>
    rw [addSections] at h
    split at h
    · cases h
    · rename_i middle hmiddle
      have hsound := isSound_addSection hl hmiddle
      have hmore := (addSections_eq_ok hsound h).grow
      obtain ⟨sections, hadd, hmiddleAlike⟩ :=
        addSection_of_alike hl ha hmiddle (hmore.trans hgrow)
      obtain ⟨sections', hrest, hedited⟩ := ih hsound hmiddleAlike h hgrow
      refine ⟨sections', ?_, hedited⟩
      rw [addSections, hadd]
      exact hrest

/-! ## Writing both -/

theorem Alike.headersStop (ha : l.Alike l') : l'.headersStop = l.headersStop := by
  rw [Layout.headersStop, Layout.headersStop, ha.sizeOfHeaders, ha.length_sections]

theorem Alike.placedSections (ha : l.Alike l') : l'.placedSections = l.placedSections := by
  rw [Layout.placedSections, Layout.placedSections, ha.headersStop, ha.fileAlignment,
    ← placed_unplaced, ha.sections, placed_unplaced]

theorem Alike.sectionBytes (ha : l.Alike l') : l'.sectionBytes = l.sectionBytes := by
  rw [Layout.sectionBytes, Layout.sectionBytes, ha.headersStop, ha.fileAlignment,
    ← body_unplaced, ha.sections, body_unplaced]

theorem Alike.sectionsStop (ha : l.Alike l') : l'.sectionsStop = l.sectionsStop := by
  rw [Layout.sectionsStop, Layout.sectionsStop, ha.headersStop, ha.sectionBytes]

theorem Alike.table (ha : l.Alike l') : l'.table = l.table := by
  rw [Layout.table, Layout.table, ha.placedSections]

theorem Alike.sizeOfImage (ha : l.Alike l') (size : Nat) :
    l'.sizeOfImage size = l.sizeOfImage size := by
  rw [Layout.sizeOfImage, Layout.sizeOfImage, ha.sectionAlignment,
    ha.map_eq _ fun _ => rfl]

theorem Alike.checkHeaders (ha : l.Alike l') : l'.checkHeaders = l.checkHeaders := by
  rw [Layout.checkHeaders, Layout.checkHeaders, ha.map_eq _ fun _ => rfl, ha.length_sections]
  simp only [ha.sizeOfHeaders]

theorem Alike.place (ha : l.Alike l') (offset : Nat) :
    place l'.fileAlignment.toNat offset l'.sections =
      place l.fileAlignment.toNat offset l.sections := by
  rw [← place_unplaced, ha.sections, place_unplaced, ha.fileAlignment]

theorem symbolBytes_counted (hl : l.IsSound) (hsymbols : l'.symbols = l.symbols.map counted) :
    l'.symbolBytes = l.symbolBytes := by
  rw [symbolBytes, symbolBytes, hsymbols]
  cases hsome : l.symbols with
  | none => rfl
  | some t =>
    change t.counted.encode = t.encode
    rw [SymbolTable.encode, SymbolTable.encode, length_strings_counted (hl.symbols t hsome)]
    exact congrArg (t.symbols ++ Bytes.ofNatLE lengthSize t.strings.length ++ ·)
      (texts_counted t)

theorem fields_of_alike (ha : l.Alike l') (hsymbols : l'.symbols = l.symbols.map counted) :
    l'.fields = l.fields := by
  have hsome : l'.symbols.isSome = l.symbols.isSome := by rw [hsymbols, Option.isSome_map]
  have hcount : l'.symbols.map SymbolTable.numberOfSymbols =
      l.symbols.map SymbolTable.numberOfSymbols := by
    rw [hsymbols, Option.map_map]
    rfl
  rw [fields, fields, hsome, hcount, ha.headersStop, ha.sectionsStop, ha.sizeOfImage, patches,
    patches, ha.length_sections, ha.coffOffset, ha.certificateDirectoryOffset,
    Layout.optionalOffset, Layout.optionalOffset, ha.coffOffset]

variable {h : Headers}

/-- If the fields of the second front are filled in already, the files agree up to the overlay. -/
theorem written_of_alike (hl : l.Holds h) (hs : l.IsSound) (ha : l.Alike l')
    (hsymbols : l'.symbols = l.symbols.map counted)
    (hfront : l'.front = patchAll l.fields l.front) :
    l'.written = l.headerBytes ++ (l.sectionBytes ++ (l.symbolBytes ++ l'.overlay)) := by
  have hfits := hl.fieldsFit
  rw [written, whole, fields_of_alike ha hsymbols, hfront,
    patchAll_append (by rw [length_patchAll hfits]; exact hfits),
    patchAll_patchAll hfits hl.fieldsApart, behindFront, hfront, length_patchAll hfits, ha.table,
    ha.headersStop, ha.sectionBytes, symbolBytes_counted hs hsymbols, headerBytes,
    List.append_assoc, List.append_assoc]

/-- With the same overlay both can be written. -/
theorem isWritable_of_alike (hs : l.IsSound) (ha : l.Alike l')
    (hsymbols : l'.symbols = l.symbols.map counted) (hoverlay : l'.overlay = l.overlay)
    (hw : l.IsWritable) : l'.IsWritable := by
  have hwhole : l'.whole.length = l.whole.length := by
    rw [whole, whole, List.length_append, List.length_append, ha.length_front, behindFront,
      behindFront, ha.table, ha.headersStop, ha.length_front, ha.sectionBytes,
      symbolBytes_counted hs hsymbols, hoverlay]
  exact {
    headers := by rw [ha.checkHeaders, hw.headers]
    places := by
      rw [ha.headersStop, ha.place]
      exact hw.places
    symbols := by
      rw [hsymbols, Option.isSome_map, ha.sectionsStop]
      exact hw.symbols
    length_le := by rw [hwhole]; exact hw.length_le
    image_le := by rw [ha.headersStop, ha.sizeOfImage]; exact hw.image_le
    fields := by rw [fields_of_alike ha hsymbols, hwhole]; exact hw.fields }

end SecureBoot.Pe.Layout
