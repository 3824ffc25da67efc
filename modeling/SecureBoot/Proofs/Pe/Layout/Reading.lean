import Mathlib
import SecureBoot.Proofs.Pe.Headers
import SecureBoot.Proofs.Pe.Layout.Placement
import SecureBoot.Proofs.Pe.Names

/-!
# What reading a layout sees

`Layout.Reads` says of every piece of a layout where it stands in the file. Two things follow that
editing and writing rely on.

**The front holds the headers** (`Holds`): the fields that are not rewritten stand in the bytes in
front of the section table. This takes a PE header behind the DOS header and data directories inside
the optional header; else some fields would lie elsewhere, or on top of others.

**The sections are sound** (`IsSound`): names follow from the name fields, and headers tell the
number of bytes. This takes a string table that ends in a zero byte.

Where the pieces end up when they are written takes less: `HasFront` says only that the front has
room for the headers, and `IsStored` only that headers can be written and tell the number of bytes.
-/

namespace SecureBoot.Pe

/-- A section whose header has a whole name and goes with its bytes. -/
structure Section.IsStored (s : Section) : Prop where
  wholeName : s.header.HasWholeName
  sizeOfRawData : s.header.sizeOfRawData = UInt32.ofNat s.data.length

/-- A section whose header goes with its name and its bytes. -/
structure Section.IsSound (symbols : Option SymbolTable) (s : Section) : Prop extends
    Section.IsStored s where
  name : Layout.sectionName s.header.rawName symbols = .ok s.name

theorem Section.IsStored.placedAt {s : Section} (hs : s.IsStored) (offset : Nat) :
    (s.placedAt offset).IsStored where
  wholeName := hs.wholeName
  sizeOfRawData := rfl

theorem Section.IsSound.placedAt {symbols : Option SymbolTable} {s : Section}
    (hs : s.IsSound symbols) (offset : Nat) : (s.placedAt offset).IsSound symbols where
  wholeName := hs.wholeName
  name := hs.name
  sizeOfRawData := rfl

theorem Section.IsSound.of_grow {symbols symbols' : Option SymbolTable} {s : Section}
    (hs : s.IsSound symbols) (hwhole : SymbolTable.AllWhole symbols)
    (hwhole' : SymbolTable.AllWhole symbols') (hgrow : SymbolTable.Grow symbols symbols') :
    s.IsSound symbols' where
  wholeName := hs.wholeName
  name := Layout.sectionName_of_grow hwhole hwhole' hgrow hs.name
  sizeOfRawData := hs.sizeOfRawData

namespace Layout

open SymbolTable

theorem readSection_eq_ok {x : Bytes} {symbols : Option SymbolTable} {header : SectionHeader}
    {s : Section} :
    readSection x symbols header = .ok s ↔
      sectionName header.rawName symbols = .ok s.name ∧ s.header = header ∧ s.StandsIn x := by
  rw [readSection, bind_eq_ok]
  constructor
  · intro h
    obtain ⟨name, hname, h⟩ := h
    split at h
    · rename_i hzero
      cases h
      exact ⟨hname, rfl, by rw [Section.StandsIn, if_pos hzero]⟩
    · rename_i hne
      rw [check_bind_eq_ok] at h
      obtain ⟨hstop, h⟩ := h
      cases h
      refine ⟨hname, rfl, ?_⟩
      rw [Section.StandsIn, if_neg hne]
      exact ⟨Nat.not_lt.1 hstop, rfl⟩
  · intro h
    obtain ⟨hname, rfl, hstands⟩ := h
    refine ⟨s.name, hname, ?_⟩
    unfold Section.StandsIn at hstands
    split at hstands
    · rename_i hzero
      rw [if_pos hzero, ← hstands]
      rfl
    · rename_i hne
      rw [if_neg hne, check_bind_eq_ok, ← hstands.2]
      exact ⟨Nat.not_lt.2 hstands.1, rfl⟩

theorem mapM_readSection_eq_ok {x : Bytes} {symbols : Option SymbolTable}
    {headers : List SectionHeader} {sections : List Section} :
    headers.mapM (readSection x symbols) = .ok sections ↔
      sections.map (·.header) = headers ∧
        ∀ s ∈ sections, sectionName s.header.rawName symbols = .ok s.name ∧ s.StandsIn x := by
  rw [mapM_eq_ok]
  constructor
  · intro h
    induction h with
    | nil => exact ⟨rfl, fun s hs => by cases hs⟩
    | cons hread _ ih =>
      obtain ⟨hname, rfl, hstands⟩ := readSection_eq_ok.1 hread
      rw [List.map_cons, ih.1, List.forall_mem_cons]
      exact ⟨rfl, ⟨hname, hstands⟩, ih.2⟩
  · intro h
    obtain ⟨rfl, h⟩ := h
    rw [List.forall₂_map_left_iff, List.forall₂_same]
    intro s hs
    exact readSection_eq_ok.2 ⟨(h s hs).1, rfl, (h s hs).2⟩

/-- This is the layout of a file with these headers and this certificate table. -/
structure Reads (x : Bytes) (h : Headers) (certificates : Option DataDirectory) (l : Layout) :
    Prop where
  headers : Headers.Reads x h
  certificateTable : certificateRange x h = .ok certificates
  symbols : SymbolTable.decode x h.pointerToSymbolTable h.numberOfSymbols = .ok l.symbols
  sections : l.sections.map (·.header) = h.sections
  section_stands : ∀ s ∈ l.sections,
    sectionName s.header.rawName l.symbols = .ok s.name ∧ s.StandsIn x
  front_le : h.tableOffset ≤ x.length
  front : l.front = x.take h.tableOffset
  coffOffset : l.coffOffset = h.coffOffset
  certificateDirectoryOffset : l.certificateDirectoryOffset =
    if DataDirectory.certificateIndex < h.numberOfDirectories then
      some h.certificateDirectoryOffset
    else none
  fileAlignment : l.fileAlignment = h.fileAlignment
  sectionAlignment : l.sectionAlignment = h.sectionAlignment
  overlay : l.overlay = overlayFrom x (tailStart x h l.sections l.symbols) certificates
  hadSignatures : l.hadSignatures = certificates.isSome

theorem decode_eq_ok_iff {x : Bytes} {l : Layout} :
    decode x = .ok l ↔ ∃ h certificates, Reads x h certificates l := by
  rw [decode]
  constructor
  · intro hx
    obtain ⟨h, hh, hx⟩ := bind_eq_ok.1 hx
    obtain ⟨certificates, hcertificates, hx⟩ := bind_eq_ok.1 hx
    obtain ⟨symbols, hsymbols, hx⟩ := bind_eq_ok.1 hx
    obtain ⟨sections, hsections, hx⟩ := bind_eq_ok.1 hx
    obtain ⟨hfront, hx⟩ := check_bind_eq_ok.1 hx
    cases hx
    exact ⟨h, certificates, {
      headers := Headers.decode_eq_ok_iff.1 hh
      certificateTable := hcertificates
      symbols := hsymbols
      sections := (mapM_readSection_eq_ok.1 hsections).1
      section_stands := (mapM_readSection_eq_ok.1 hsections).2
      front_le := by omega
      front := rfl
      coffOffset := rfl
      certificateDirectoryOffset := rfl
      fileAlignment := rfl
      sectionAlignment := rfl
      overlay := rfl
      hadSignatures := rfl }⟩
  · intro h
    obtain ⟨h, certificates, hr⟩ := h
    refine bind_eq_ok.2 ⟨h, Headers.decode_eq_ok_iff.2 hr.headers, ?_⟩
    refine bind_eq_ok.2 ⟨certificates, hr.certificateTable, ?_⟩
    refine bind_eq_ok.2 ⟨l.symbols, hr.symbols, ?_⟩
    refine bind_eq_ok.2
      ⟨l.sections, mapM_readSection_eq_ok.2 ⟨hr.sections, hr.section_stands⟩, ?_⟩
    refine check_bind_eq_ok.2 ⟨Nat.not_lt.2 hr.front_le, ?_⟩
    rw [← hr.front, ← hr.coffOffset, ← hr.certificateDirectoryOffset, ← hr.fileAlignment,
      ← hr.sectionAlignment, ← hr.overlay, ← hr.hadSignatures]
    rfl

/-- Pieces that stand in a file are those of its layout. -/
theorem exists_reads {x : Bytes} {h : Headers} {certificates : Option DataDirectory}
    {symbols : Option SymbolTable} {sections : List Section} (hheaders : Headers.Reads x h)
    (hcertificates : certificateRange x h = .ok certificates)
    (hsymbols : SymbolTable.decode x h.pointerToSymbolTable h.numberOfSymbols = .ok symbols)
    (hsections : sections.map (·.header) = h.sections)
    (hstand : ∀ s ∈ sections, sectionName s.header.rawName symbols = .ok s.name ∧ s.StandsIn x)
    (hfront : h.tableOffset ≤ x.length) :
    ∃ l, Reads x h certificates l ∧ l.sections = sections ∧ l.symbols = symbols :=
  ⟨{
    front := x.take h.tableOffset
    coffOffset := h.coffOffset
    certificateDirectoryOffset :=
      if DataDirectory.certificateIndex < h.numberOfDirectories then
        some h.certificateDirectoryOffset
      else none
    fileAlignment := h.fileAlignment
    sectionAlignment := h.sectionAlignment
    sections := sections
    symbols := symbols
    overlay := overlayFrom x (tailStart x h sections symbols) certificates
    hadSignatures := certificates.isSome }, {
      headers := hheaders
      certificateTable := hcertificates
      symbols := hsymbols
      sections := hsections
      section_stands := hstand
      front_le := hfront
      front := rfl
      coffOffset := rfl
      certificateDirectoryOffset := rfl
      fileAlignment := rfl
      sectionAlignment := rfl
      overlay := rfl
      hadSignatures := rfl }, rfl, rfl⟩

/-! ## What the pieces hold -/

/-- A layout whose front is as long as the headers, with the directories inside the optional
header. -/
structure HasFront (l : Layout) (h : Headers) : Prop where
  directories_le :
    h.directoriesOffset + h.numberOfDirectories * DataDirectory.width ≤ h.tableOffset
  length_front : l.front.length = h.tableOffset
  coffOffset : l.coffOffset = h.coffOffset
  certificateDirectoryOffset : l.certificateDirectoryOffset =
    if DataDirectory.certificateIndex < h.numberOfDirectories then
      some h.certificateDirectoryOffset
    else none
  fileAlignment : l.fileAlignment = h.fileAlignment
  sectionAlignment : l.sectionAlignment = h.sectionAlignment

/-- A layout whose front holds the headers, with the directories inside the optional header. -/
structure Holds (l : Layout) (h : Headers) : Prop extends HasFront l h where
  le_peOffset : Headers.peOffsetField + 4 ≤ h.peOffset
  fixed : ∃ x, Headers.Reads x h ∧ ∀ i, h.IsFixed i → l.front[i]? = x[i]?

/-- A layout whose sections have headers that can be written. -/
def IsStored (l : Layout) : Prop := ∀ s ∈ l.sections, s.IsStored

/-- A layout whose sections go with their headers and with its string table. -/
structure IsSound (l : Layout) : Prop where
  symbols : AllWhole l.symbols
  sections : ∀ s ∈ l.sections, s.IsSound l.symbols

theorem IsSound.isStored {l : Layout} (hl : l.IsSound) : l.IsStored :=
  fun s hs => (hl.sections s hs).toIsStored

theorem isFixed_lt {h : Headers} (hle : Headers.peOffsetField + 4 ≤ h.peOffset) {i : Nat}
    (hi : h.IsFixed i) : i < h.directoriesOffset := by
  have hdir := h.add_le_directoriesOffset
  have hcoff : h.optionalOffset = h.peOffset + 24 := rfl
  have hoff : h.coffOffset = h.peOffset + 4 := rfl
  unfold Headers.IsFixed at hi
  omega

theorem Reads.hasFront {x : Bytes} {h : Headers} {certificates : Option DataDirectory} {l : Layout}
    (hr : Reads x h certificates l) (hdirectories :
      h.directoriesOffset + h.numberOfDirectories * DataDirectory.width ≤ h.tableOffset) :
    l.HasFront h where
  directories_le := hdirectories
  length_front := by rw [hr.front, List.length_take, Nat.min_eq_left hr.front_le]
  coffOffset := hr.coffOffset
  certificateDirectoryOffset := hr.certificateDirectoryOffset
  fileAlignment := hr.fileAlignment
  sectionAlignment := hr.sectionAlignment

theorem Reads.holds {x : Bytes} {h : Headers} {certificates : Option DataDirectory} {l : Layout}
    (hr : Reads x h certificates l) (hle : Headers.peOffsetField + 4 ≤ h.peOffset)
    (hdirectories :
      h.directoriesOffset + h.numberOfDirectories * DataDirectory.width ≤ h.tableOffset) :
    l.Holds h where
  toHasFront := hr.hasFront hdirectories
  le_peOffset := hle
  fixed := ⟨x, hr.headers, fun i hi => by
    have hlt := isFixed_lt hle hi
    rw [hr.front, List.getElem?_take_of_lt (by omega)]⟩

/-- Symbols and texts lie inside the file. -/
theorem Reads.symbolsStop_le {x : Bytes} {h : Headers} {certificates : Option DataDirectory}
    {l : Layout} (hr : Reads x h certificates l) : ∀ t ∈ l.symbols,
      h.pointerToSymbolTable + t.symbols.length + t.strings.length ≤ x.length :=
  fun _ ht => SymbolTable.stop_le_of_decode (ht ▸ hr.symbols)

theorem hasRoom_of_decode {x : Bytes} {pointer count : Nat} {t : SymbolTable}
    (h : SymbolTable.decode x pointer count = .ok (some t)) :
    Headers.symbolSize ∣ t.symbols.length ∧ lengthSize ≤ t.strings.length := by
  rcases SymbolTable.decode_eq_ok_iff.1 h with ⟨-, hnone⟩ |
    ⟨-, strings, length, rfl, hroom, rfl, hstop, ht⟩
  · cases hnone
  · cases ht
    rw [Bytes.length_slice (by omega), Nat.add_sub_cancel_left, Bytes.length_slice hstop,
      Nat.add_sub_cancel_left]
    exact ⟨Nat.dvd_mul_left _ _, Nat.le_max_right _ _⟩

theorem isWhole_of_decode {x : Bytes} {pointer count : Nat} {t : SymbolTable}
    (h : SymbolTable.decode x pointer count = .ok (some t)) (hnul : t.EndsInNul) : t.IsWhole where
  symbols_dvd := (hasRoom_of_decode h).1
  lengthSize_le := (hasRoom_of_decode h).2
  endsInNul := hnul

theorem Reads.isStored {x : Bytes} {h : Headers} {certificates : Option DataDirectory} {l : Layout}
    (hr : Reads x h certificates l) : l.IsStored := fun s hs => {
  wholeName := hr.headers.hasWholeName _ (hr.sections ▸ List.mem_map_of_mem hs)
  sizeOfRawData := (hr.section_stands s hs).2.sizeOfRawData }

theorem Reads.isSound {x : Bytes} {h : Headers} {certificates : Option DataDirectory} {l : Layout}
    (hr : Reads x h certificates l) (hnul : ∀ t ∈ l.symbols, t.EndsInNul) : l.IsSound where
  symbols := fun t ht => isWhole_of_decode (ht ▸ hr.symbols) (hnul t ht)
  sections := fun s hs => { hr.isStored s hs with name := (hr.section_stands s hs).1 }

end Layout

end SecureBoot.Pe
