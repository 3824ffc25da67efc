import Mathlib
import SecureBoot.Proofs.Pe.Layout.Reading
import SecureBoot.Proofs.Pe.Layout.Writing

/-!
# Reading back what was written

Reading the file that a layout was written to gives that layout again (`decode_written`), with three
differences that `reread` spells out: fields of the front are filled in, the sections have their new
places, and padding behind the last section has become part of the overlay if no symbols follow.
-/

namespace SecureBoot.Pe.Layout

open SymbolTable

variable {l : Layout} {h : Headers}

/-! ## The fields that are filled in -/

theorem forall_mem_fields {P : Nat × Bytes → Prop} :
    (∀ field ∈ l.fields, P field) ↔
      P (l.coffOffset + 2, Bytes.ofNatLE 2 l.sections.length) ∧
      P (l.coffOffset + 8, Bytes.ofNatLE 4 (if l.symbols.isSome then l.sectionsStop else 0)) ∧
      P (l.coffOffset + 12, Bytes.ofNatLE 4 ((l.symbols.map SymbolTable.numberOfSymbols).getD 0)) ∧
      P (l.optionalOffset + 56, Bytes.ofNatLE 4 (l.sizeOfImage l.headersStop)) ∧
      P (l.optionalOffset + 60, Bytes.ofNatLE 4 l.headersStop) ∧
      P (l.optionalOffset + Headers.checksumField, Bytes.ofNatLE 4 0) ∧
      ∀ offset ∈ l.certificateDirectoryOffset, P (offset, Bytes.zeros DataDirectory.width) := by
  rw [fields, patches]
  cases l.certificateDirectoryOffset <;> simp

theorem HasFront.optionalOffset (hl : l.HasFront h) : l.optionalOffset = h.optionalOffset := by
  rw [Layout.optionalOffset, hl.coffOffset]
  rfl

/-- The directory entry of the certificate table lies among the counted ones. -/
theorem HasFront.certificateDirectory_le (hl : l.HasFront h) {offset : Nat}
    (ho : offset ∈ l.certificateDirectoryOffset) :
    offset = h.certificateDirectoryOffset ∧ h.directoriesOffset ≤ offset ∧
      offset + DataDirectory.width ≤ h.tableOffset := by
  have hoffset : h.certificateDirectoryOffset = h.directoriesOffset + 32 := rfl
  have hle := hl.directories_le
  have hwidth : DataDirectory.width = 8 := rfl
  have hindex : DataDirectory.certificateIndex = 4 := rfl
  rw [hl.certificateDirectoryOffset] at ho
  rw [hwidth] at hle ⊢
  split at ho
  · cases ho
    omega
  · cases ho

/-- The fields lie in front of the section table if the optional header has room for them, and only
then. -/
theorem fieldsFit_iff (hcoff : l.coffOffset = h.coffOffset)
    (hdirectory : l.certificateDirectoryOffset =
      if DataDirectory.certificateIndex < h.numberOfDirectories then
        some h.certificateDirectoryOffset
      else none) :
    FieldsFit l.fields h.tableOffset ↔ h.HoldsFields := by
  have hoptional : l.optionalOffset = h.optionalOffset := by
    rw [Layout.optionalOffset, hcoff]
    rfl
  have hstart : h.optionalOffset = h.coffOffset + 20 := rfl
  have htable : h.tableOffset = h.optionalOffset + h.sizeOfOptionalHeader := rfl
  have hchecksum : Headers.checksumField = 64 := rfl
  have hcertificate : (∀ offset ∈ l.certificateDirectoryOffset,
      offset + DataDirectory.width ≤ h.tableOffset) ↔
        (DataDirectory.certificateIndex < h.numberOfDirectories →
          h.certificateDirectoryOffset + DataDirectory.width ≤ h.tableOffset) := by
    rw [hdirectory]
    split <;> simp [*]
  rw [FieldsFit, forall_mem_fields, hoptional, hcoff]
  simp only [Bytes.length_ofNatLE, Bytes.length_zeros, hcertificate]
  constructor
  · intro hfit
    obtain ⟨-, -, -, -, -, hle, hentry⟩ := hfit
    exact ⟨by omega, hentry⟩
  · intro hholds
    have hle := hholds.checksum_le
    exact ⟨by omega, by omega, by omega, by omega, by omega, by omega,
      hholds.certificateDirectory_le⟩

theorem HasFront.holdsFields (hl : l.HasFront h) : h.HoldsFields := by
  have hdir := h.add_le_directoriesOffset
  have hle := hl.directories_le
  have htable : h.tableOffset = h.optionalOffset + h.sizeOfOptionalHeader := rfl
  have hchecksum : Headers.checksumField = 64 := rfl
  have hoffset : h.certificateDirectoryOffset = h.directoriesOffset + 32 := rfl
  have hwidth : DataDirectory.width = 8 := rfl
  have hindex : DataDirectory.certificateIndex = 4 := rfl
  rw [hwidth] at hle
  exact ⟨by omega, fun hlt => by omega⟩

theorem HasFront.fieldsFit (hl : l.HasFront h) : FieldsFit l.fields l.front.length := by
  rw [hl.length_front]
  exact (fieldsFit_iff hl.coffOffset hl.certificateDirectoryOffset).2 hl.holdsFields

/-- The fields lie apart if the directory entry stands behind all others. -/
theorem pairwise_apart_fields (hentry : ∀ offset ∈ l.certificateDirectoryOffset,
    l.optionalOffset + Headers.checksumField + 4 ≤ offset) : l.fields.Pairwise Apart := by
  have hcoff : l.optionalOffset = l.coffOffset + 20 := rfl
  have hchecksum : Headers.checksumField = 64 := rfl
  rw [fields, patches]
  cases hdirectory : l.certificateDirectoryOffset with
  | none => simp [Apart]; omega
  | some offset =>
    have hoffset := hentry offset hdirectory
    simp [Apart]
    omega

theorem HasFront.fieldsApart (hl : l.HasFront h) : l.fields.Pairwise Apart := by
  have hdir := h.add_le_directoriesOffset
  have hchecksum : Headers.checksumField = 64 := rfl
  refine pairwise_apart_fields fun offset ho => ?_
  have hoffset := (hl.certificateDirectory_le ho).2.1
  rw [hl.optionalOffset]
  omega

/-- No field that headers are recognised by is filled in. -/
theorem Holds.outside (hl : l.Holds h) {i : Nat} (hi : h.IsFixed i) : Outside l.fields i := by
  have hlt := isFixed_lt hl.le_peOffset hi
  have hdir := h.add_le_directoriesOffset
  have hoptional := hl.optionalOffset
  have hcoff : h.optionalOffset = h.coffOffset + 20 := rfl
  have hoff : h.coffOffset = h.peOffset + 4 := rfl
  have hchecksum : Headers.checksumField = 64 := rfl
  have hfield : Headers.peOffsetField = 60 := rfl
  have hle := hl.le_peOffset
  rw [Outside, forall_mem_fields, hl.coffOffset]
  unfold Headers.IsFixed at hi
  simp only [Bytes.length_ofNatLE, Bytes.length_zeros]
  refine ⟨by omega, by omega, by omega, by omega, by omega, by omega, ?_⟩
  intro offset ho
  have hoffset := (hl.certificateDirectory_le ho).2.1
  omega

/-! ## The pieces of the file -/

theorem IsSound.placedSections (hl : l.IsSound) :
    ∀ s ∈ l.placedSections, s.IsSound l.symbols :=
  forall_mem_placed fun s hs => (hl.sections s hs).placedAt

theorem IsStored.placedSections (hl : l.IsStored) : ∀ s ∈ l.placedSections, s.IsStored :=
  forall_mem_placed fun s hs => (hl s hs).placedAt

theorem IsStored.hasWholeName (hl : l.IsStored) :
    ∀ header ∈ l.placedSections.map (·.header), header.HasWholeName := by
  intro header hheader
  obtain ⟨s, hs, rfl⟩ := List.mem_map.1 hheader
  exact (hl.placedSections s hs).wholeName

theorem table_eq (l : Layout) :
    l.table = (l.placedSections.map (·.header)).flatMap SectionHeader.encode := by
  rw [table, List.flatMap_map]

theorem length_placedSections (l : Layout) : l.placedSections.length = l.sections.length :=
  length_placed _ _ _

theorem IsStored.length_table (hl : l.IsStored) :
    l.table.length = l.sections.length * SectionHeader.size := by
  rw [table_eq, SectionHeader.length_flatMap_encode hl.hasWholeName, List.length_map,
    length_placedSections]

theorem IsStored.table_le (hl : l.IsStored) : l.front.length + l.table.length ≤ l.headersStop := by
  rw [hl.length_table]
  exact le_alignUp _ _

/-- What stands in front of the bytes of the sections. -/
def headerBytes (l : Layout) : Bytes :=
  patchAll l.fields l.front ++
    (l.table ++ Bytes.zeros (l.headersStop - (l.front.length + l.table.length)))

theorem HasFront.length_headerBytes (hl : l.HasFront h) (hs : l.IsStored) :
    l.headerBytes.length = l.headersStop := by
  have hle := hs.table_le
  rw [headerBytes, List.length_append, List.length_append, length_patchAll hl.fieldsFit,
    Bytes.length_zeros]
  omega

theorem HasFront.written_eq (hl : l.HasFront h) :
    l.written = l.headerBytes ++ (l.sectionBytes ++ (l.symbolBytes ++ l.overlay)) := by
  rw [written, whole, patchAll_append hl.fieldsFit, behindFront, headerBytes, List.append_assoc,
    List.append_assoc]

theorem HasFront.length_written (hl : l.HasFront h) (hs : l.IsStored) :
    l.written.length = l.sectionsStop + (l.symbolBytes.length + l.overlay.length) := by
  rw [hl.written_eq, List.length_append, hl.length_headerBytes hs, List.length_append,
    List.length_append, sectionsStop, Nat.add_assoc]

theorem HasFront.length_whole (hl : l.HasFront h) : l.whole.length = l.written.length := by
  rw [whole, written, whole, patchAll_append hl.fieldsFit, List.length_append, List.length_append,
    length_patchAll hl.fieldsFit]

theorem HasFront.slice_field (hl : l.HasFront h) {field : Nat × Bytes} (hfield : field ∈ l.fields) :
    l.written.slice field.1 (field.1 + field.2.length) = field.2 := by
  have hfits := hl.fieldsFit
  have hle := hfits field hfield
  rw [hl.written_eq, headerBytes, List.append_assoc,
    Bytes.slice_append_left (by rw [length_patchAll hfits]; exact hle)]
  exact slice_patchAll hfits hl.fieldsApart hfield

theorem HasFront.getElem?_written (hl : l.HasFront h) {i : Nat} (hi : i < h.tableOffset)
    (hout : Outside l.fields i) : l.written[i]? = l.front[i]? := by
  have hfits := hl.fieldsFit
  rw [hl.written_eq, headerBytes, List.append_assoc, List.getElem?_append_left
    (by rw [length_patchAll hfits, hl.length_front]; exact hi), getElem?_patchAll hfits hout]

theorem HasFront.slice_table (hl : l.HasFront h) :
    l.written.slice h.tableOffset (h.tableOffset + l.table.length) = l.table := by
  have hlength : (patchAll l.fields l.front).length = h.tableOffset := by
    rw [length_patchAll hl.fieldsFit, hl.length_front]
  rw [hl.written_eq, headerBytes, List.append_assoc, List.append_assoc, ← hlength,
    Bytes.slice_append_mid]

theorem HasFront.sections_written (hl : l.HasFront h) (hs : l.IsStored) :
    (List.range l.sections.length).map (Headers.sectionAt l.written h) =
      l.placedSections.map (·.header) := by
  have hslice : l.written.slice h.tableOffset
      (h.tableOffset + (l.placedSections.map (·.header)).length * SectionHeader.size) =
        (l.placedSections.map (·.header)).flatMap SectionHeader.encode := by
    rw [List.length_map, length_placedSections, ← hs.length_table, hl.slice_table, table_eq]
  have hread := SectionHeader.decode_of_flatMap_encode hs.hasWholeName hslice
  rw [List.length_map, length_placedSections] at hread
  exact hread

theorem HasFront.drop_sectionsStop (hl : l.HasFront h) (hs : l.IsStored) :
    l.written.drop l.sectionsStop = l.symbolBytes ++ l.overlay := by
  rw [hl.written_eq, sectionsStop, ← hl.length_headerBytes hs, ← List.drop_drop, List.drop_left,
    List.drop_left]

/-! ## The headers -/

/-- The headers of the file that a layout is written to. -/
def rereadHeaders (l : Layout) (h : Headers) : Headers :=
  { h with
    numberOfSections := l.sections.length
    pointerToSymbolTable := if l.symbols.isSome then l.sectionsStop else 0
    numberOfSymbols := (l.symbols.map SymbolTable.numberOfSymbols).getD 0
    sizeOfHeaders := UInt32.ofNat l.headersStop
    certificateDirectory := none
    sections := l.placedSections.map (·.header) }

theorem allWhole_counted {symbols : Option SymbolTable} (hwhole : AllWhole symbols) :
    AllWhole (symbols.map counted) := by
  intro t' ht'
  obtain ⟨t, ht, rfl⟩ := Option.map_eq_some_iff.1 ht'
  exact isWhole_counted (hwhole t ht)

theorem grow_counted (symbols : Option SymbolTable) : Grow symbols (symbols.map counted) := by
  intro t ht
  exact ⟨t.counted, Option.map_eq_some_iff.2 ⟨t, ht, rfl⟩, grows_counted t⟩

/-- The sections have the same names in the table as it is read back. -/
theorem IsSound.sectionName_counted (hs : l.IsSound) :
    ∀ s ∈ l.placedSections,
      sectionName s.header.rawName (l.symbols.map counted) = .ok s.name := fun s hmem =>
  sectionName_of_grow hs.symbols (allWhole_counted hs.symbols) (grow_counted _)
    (hs.placedSections s hmem).name

theorem IsWritable.written_le (hw : l.IsWritable) (hl : l.HasFront h) :
    l.written.length ≤ maxWord := by
  rw [← hl.length_whole]
  exact hw.length_le

theorem IsWritable.sectionsStop_le (hw : l.IsWritable) (hl : l.HasFront h) (hs : l.IsStored) :
    l.headersStop + (body l.fileAlignment.toNat l.headersStop l.sections).length ≤ maxWord := by
  have hmax := hw.written_le hl
  rw [hl.length_written hs] at hmax
  exact (Nat.le_add_right _ _).trans hmax

/-- The sections of the file lie between the headers and where the symbols begin. -/
theorem IsWritable.isWithin (hw : l.IsWritable) (hl : l.HasFront h) (hs : l.IsStored) :
    ∀ s ∈ l.placedSections, s.IsWithin l.fileAlignment.toNat l.headersStop l.sectionsStop :=
  isWithin_of_mem_placed (alignUp_alignUp _ _) (hw.sectionsStop_le hl hs)

theorem IsWritable.pairwise_placedSections (hw : l.IsWritable) (hl : l.HasFront h)
    (hs : l.IsStored) : l.placedSections.Pairwise fun s t =>
      s.header.rawStop ≤ t.header.pointerToRawData.toNat ∨ t.header.sizeOfRawData = 0 :=
  pairwise_placed (alignUp_alignUp _ _) (hw.sectionsStop_le hl hs)

theorem reads_written (hl : l.Holds h) (hs : l.IsSound) (hw : l.IsWritable)
    (hcount : l.sections.length ≤ 65535) : Headers.Reads l.written (l.rereadHeaders h) := by
  have hlength := hl.length_written hs.isStored
  have hmax := hw.written_le hl.toHasFront
  have htable := hs.isStored.table_le
  have htableLength := hs.isStored.length_table
  have hfront := hl.length_front
  have hdirectories := hl.directories_le
  obtain ⟨x, hx, hfixed⟩ := hl.fixed
  obtain ⟨hnumber, hpointer, hsymbols, -, hheaders, -, hcertificate⟩ :=
    forall_mem_fields.1 fun field hfield => hl.slice_field hfield
  simp only [Bytes.length_ofNatLE, Bytes.length_zeros, hl.coffOffset, hl.optionalOffset]
    at hnumber hpointer hsymbols hheaders hcertificate
  have hstop : l.sectionsStop = l.headersStop + l.sectionBytes.length := rfl
  apply hx.rewrite
  · intro i hi
    have hlt := isFixed_lt hl.le_peOffset hi
    rw [← hfixed i hi]
    exact hl.getElem?_written (by omega) (hl.outside hi)
  · omega
  · exact Bytes.u16_of_slice hnumber (by omega)
  · apply Bytes.u32_of_slice hpointer
    split <;> omega
  · apply Bytes.u32_of_slice hsymbols
    cases hsome : l.symbols with
    | none => exact Nat.zero_le _
    | some t =>
      have hencode := length_encode (hs.symbols t hsome)
      have hdiv : t.numberOfSymbols ≤ t.symbols.length := Nat.div_le_self _ _
      rw [symbolBytes_of_some hsome] at hlength
      change t.numberOfSymbols ≤ maxWord
      omega
  · apply UInt32.toNat.inj
    rw [Bytes.u32_of_slice hheaders (by omega), Bytes.toNat_ofNat_of_le_maxWord (by omega)]
  · rw [hl.certificateDirectoryOffset] at hcertificate
    split at hcertificate
    · rename_i hcounted
      rw [if_pos hcounted]
      exact DataDirectory.decode?_of_zeros (hcertificate _ rfl)
    · rename_i hcounted
      rw [if_neg hcounted]
  · exact hl.sections_written hs.isStored
  · right
    omega
  · intro header hheader
    obtain ⟨s, hmem, rfl⟩ := List.mem_map.1 hheader
    apply isNameReadable_of_sectionName (allWhole_counted hs.symbols) _
      (hs.sectionName_counted s hmem)
    intro t ht
    obtain ⟨t, hsome, rfl⟩ := Option.map_eq_some_iff.1 ht
    have hdiv : t.numberOfSymbols * Headers.symbolSize = t.symbols.length :=
      Nat.div_mul_cancel (hs.symbols t hsome).symbols_dvd
    rw [hsome]
    change t.counted.strings <+: l.written.drop
      (l.sectionsStop + t.numberOfSymbols * Headers.symbolSize)
    rw [hdiv, ← List.drop_drop, hl.drop_sectionsStop hs.isStored, symbolBytes_of_some hsome,
      encode_eq, List.append_assoc, List.drop_left]
    exact List.prefix_append _ _

/-! ## The layout -/

/-- Where the last section with bytes ends, before its padding; the headers' end if there is none.
-/
def unpaddedStop (l : Layout) : Nat :=
  lastStop l.fileAlignment.toNat l.headersStop l.headersStop l.sections

/-- The layout that is read back. -/
@[simps]
def reread (l : Layout) : Layout :=
  { l with
    front := patchAll l.fields l.front
    sections := l.placedSections
    symbols := l.symbols.map counted
    overlay :=
      if l.symbols.isSome then l.overlay
      else Bytes.zeros (l.sectionsStop - l.unpaddedStop) ++ l.overlay
    hadSignatures := false }

theorem headersStop_le_unpaddedStop (l : Layout) : l.headersStop ≤ l.unpaddedStop :=
  le_lastStop _ le_rfl

/-- The bytes of the sections end at the next multiple of the alignment. -/
theorem alignUp_unpaddedStop (l : Layout) :
    alignUp l.unpaddedStop l.fileAlignment.toNat = l.sectionsStop := by
  rw [sectionsStop, sectionBytes, unpaddedStop]
  exact (add_length_body_eq_alignUp (alignUp_alignUp _ _).symm).symm

theorem unpaddedStop_le (l : Layout) : l.unpaddedStop ≤ l.sectionsStop := by
  rw [← alignUp_unpaddedStop]
  exact le_alignUp _ _

/-- Behind the last section there is its padding, then what follows the sections. -/
theorem HasFront.drop_unpaddedStop (hl : l.HasFront h) (hs : l.IsStored) :
    l.written.drop l.unpaddedStop =
      Bytes.zeros (l.sectionsStop - l.unpaddedStop) ++ (l.symbolBytes ++ l.overlay) := by
  have hle := l.headersStop_le_unpaddedStop
  have hle' := l.unpaddedStop_le
  have hdrop : (Bytes.zeros (l.headersStop - l.headersStop) ++ l.sectionBytes).drop
      (l.unpaddedStop - l.headersStop) = Bytes.zeros (l.sectionsStop - l.unpaddedStop) :=
    drop_body le_rfl
  rw [Nat.sub_self, Bytes.zeros_zero, List.nil_append] at hdrop
  rw [sectionsStop] at hle'
  rw [hl.written_eq,
    show l.unpaddedStop = l.headerBytes.length + (l.unpaddedStop - l.headersStop) by
    rw [hl.length_headerBytes hs]; omega, ← List.drop_drop, List.drop_left,
    List.drop_append_of_le_length (by omega), hdrop]
  congr 3
  rw [hl.length_headerBytes hs]
  omega

theorem HasFront.standsIn_written (hl : l.HasFront h) (hs : l.IsStored) (hw : l.IsWritable) :
    ∀ s ∈ l.placedSections, s.StandsIn l.written := by
  have hmax := hw.written_le hl
  have hlength := hl.length_headerBytes hs
  rw [hl.written_eq] at hmax ⊢
  rw [sectionBytes, ← hlength] at hmax ⊢
  rw [placedSections, ← hlength]
  exact standsIn_of_mem_placed hmax

/-- Headers, sections and symbols of the file end where the layout has put them. -/
theorem tailStart_written (hl : l.Holds h) (hs : l.IsSound) (hw : l.IsWritable) :
    tailStart l.written (l.rereadHeaders h) l.placedSections (l.symbols.map counted) =
      if l.symbols.isSome then l.sectionsStop + l.symbolBytes.length else l.unpaddedStop := by
  have hmax := hw.written_le hl.toHasFront
  have hlength := hl.length_written hs.isStored
  have hle := l.unpaddedStop_le
  have hstop : l.sectionsStop = l.headersStop + l.sectionBytes.length := rfl
  have hheaders : min (l.rereadHeaders h).sizeOfHeaders.toNat l.written.length = l.headersStop := by
    rw [rereadHeaders]
    dsimp only
    rw [Bytes.toNat_ofNat_of_le_maxWord (by omega), Nat.min_eq_left (by omega)]
  have hsections : (l.placedSections.filter (·.header.sizeOfRawData ≠ 0)
      |>.map (·.header.rawStop)).foldl max l.headersStop = l.unpaddedStop :=
    foldl_max_rawStop le_rfl (hw.sectionsStop_le hl.toHasFront hs.isStored)
  rw [tailStart, hheaders, List.foldl_append, hsections, rereadHeaders]
  cases hsome : l.symbols with
  | none => rfl
  | some t =>
    have hencode := length_encode (hs.symbols t hsome)
    have hcounted := length_strings_counted (hs.symbols t hsome)
    rw [symbolBytes_of_some hsome]
    change max l.unpaddedStop
      (l.sectionsStop + t.symbols.length + t.counted.strings.length) = _
    rw [hcounted, Option.isSome_some, if_pos rfl]
    omega

theorem Holds.decode_symbols (hl : l.Holds h) (hs : l.IsSound) (hw : l.IsWritable) :
    SymbolTable.decode l.written (if l.symbols.isSome then l.sectionsStop else 0)
      ((l.symbols.map SymbolTable.numberOfSymbols).getD 0) = .ok (l.symbols.map counted) := by
  have hlength := hl.length_written hs.isStored
  have hmax := hw.written_le hl.toHasFront
  have htable := hs.isStored.table_le
  have hstop : l.sectionsStop = l.headersStop + l.sectionBytes.length := rfl
  have hfront := hl.length_front
  have hpe := hl.le_peOffset
  have htableOffset : h.tableOffset = h.peOffset + 24 + h.sizeOfOptionalHeader := rfl
  cases hsome : l.symbols with
  | none => rfl
  | some t =>
    have ht := hs.symbols t hsome
    have hencode := length_encode ht
    have hdrop := hl.drop_sectionsStop hs.isStored
    rw [symbolBytes_of_some hsome] at hlength hdrop
    apply SymbolTable.decode_of_slice ht
    · omega
    · change l.sectionsStop ≠ 0
      omega
    · change l.written.slice l.sectionsStop (l.sectionsStop + t.encode.length) = t.encode
      rw [Bytes.slice, hdrop, Nat.add_sub_cancel_left, List.take_left]

theorem HasFront.take_tableOffset (hl : l.HasFront h) :
    l.written.take h.tableOffset = patchAll l.fields l.front := by
  rw [hl.written_eq, headerBytes, List.append_assoc]
  apply List.take_left'
  rw [length_patchAll hl.fieldsFit, hl.length_front]

theorem overlay_written (hl : l.Holds h) (hs : l.IsSound) (hw : l.IsWritable) :
    overlayFrom l.written
      (tailStart l.written (l.rereadHeaders h) l.placedSections (l.symbols.map counted)) none =
        l.reread.overlay := by
  rw [tailStart_written hl hs hw, overlayFrom, reread]
  cases hsome : l.symbols with
  | none =>
    have hdrop := hl.drop_unpaddedStop hs.isStored
    rw [symbolBytes, hsome] at hdrop
    exact hdrop
  | some t =>
    have hdrop := hl.drop_sectionsStop hs.isStored
    change l.written.drop (l.sectionsStop + l.symbolBytes.length) = l.overlay
    rw [← List.drop_drop, hdrop, List.drop_left]

/-- The file that a layout is written to is read as that layout. -/
theorem decode_written (hl : l.Holds h) (hs : l.IsSound) (hw : l.IsWritable)
    (hcount : l.sections.length ≤ 65535) : decode l.written = .ok l.reread := by
  have hlength := hl.length_written hs.isStored
  have htable := hs.isStored.table_le
  have hfront := hl.length_front
  have hstop : l.sectionsStop = l.headersStop + l.sectionBytes.length := rfl
  rw [decode_eq_ok_iff]
  refine ⟨l.rereadHeaders h, none, ?_⟩
  exact {
    headers := reads_written hl hs hw hcount
    certificateTable := rfl
    symbols := hl.decode_symbols hs hw
    sections := rfl
    section_stands := fun s hmem =>
      ⟨hs.sectionName_counted s hmem, hl.standsIn_written hs.isStored hw s hmem⟩
    front_le := by
      change h.tableOffset ≤ _
      omega
    front := by
      rw [reread_front, ← hl.take_tableOffset]
      rfl
    coffOffset := hl.coffOffset
    certificateDirectoryOffset := hl.certificateDirectoryOffset
    fileAlignment := hl.fileAlignment
    sectionAlignment := hl.sectionAlignment
    overlay := (overlay_written hl hs hw).symm
    hadSignatures := rfl }

end SecureBoot.Pe.Layout
