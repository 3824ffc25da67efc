import Mathlib
import SecureBoot.Proofs.EfiImage.Reading
import SecureBoot.Proofs.Pe.Layout.Reading

/-!
# Files that differ by their signatures

Signing writes to two fields, the checksum and the directory entry of the certificate table, and
puts the table behind everything else. `AgreeTo` compares two files up to a place, these fields
aside.

**Nothing else changes.** Where headers, sections and symbols all lie in front of that place, a file
that agrees has the same headers but for the directory entry (`Headers.Reads.resigned`), and a
layout with the same sections (`Layout.Reads.resigned`).
-/

namespace SecureBoot.Pe

namespace Headers

/-- The places that signing writes to. -/
def IsSigningField (h : Headers) (k : Nat) : Prop :=
  (h.checksumOffset ≤ k ∧ k < h.checksumOffset + EfiImage.checksumSize) ∨
    (h.certificateDirectoryOffset ≤ k ∧ k < h.certificateDirectoryStop)

/-- Whether two files have the same bytes up to a place, but for those that signing writes to. -/
def AgreeTo (h : Headers) (stop : Nat) (x y : Bytes) : Prop :=
  ∀ k < stop, ¬ h.IsSigningField k → y[k]? = x[k]?

variable {x y : Bytes} {h : Headers} {stop start stop' : Nat}

theorem AgreeTo.refl (h : Headers) (stop : Nat) (x : Bytes) : h.AgreeTo stop x x :=
  fun _ _ _ => rfl

theorem AgreeTo.trans {z : Bytes} (hxy : h.AgreeTo stop x y) (hyz : h.AgreeTo stop y z) :
    h.AgreeTo stop x z := fun k hk hfield => (hyz k hk hfield).trans (hxy k hk hfield)

theorem AgreeTo.mono (hagree : h.AgreeTo stop x y) (hle : stop' ≤ stop) : h.AgreeTo stop' x y :=
  fun k hk => hagree k (hk.trans_le hle)

theorem not_isSigningField_of_le {k : Nat} (hk : h.certificateDirectoryStop ≤ k) :
    ¬ h.IsSigningField k := by
  have hchecksum := h.checksum_lt_directory
  have hstop : h.certificateDirectoryOffset ≤ h.certificateDirectoryStop := Nat.le_add_right _ _
  unfold IsSigningField
  omega

/-- In front of the table of directories only the checksum is written to. -/
theorem not_isSigningField_of_lt {k : Nat} (hk : k < h.directoriesOffset)
    (hchecksum : k < h.optionalOffset + 64 ∨ h.optionalOffset + 68 ≤ k) :
    ¬ h.IsSigningField k := by
  have hoffset : h.checksumOffset = h.optionalOffset + 64 := rfl
  have hsize : EfiImage.checksumSize = 4 := rfl
  have hdirectory : h.certificateDirectoryOffset = h.directoriesOffset + 32 := rfl
  unfold IsSigningField
  omega

theorem AgreeTo.slice (hagree : h.AgreeTo stop x y) (hstart : h.certificateDirectoryStop ≤ start)
    (hstop : stop' ≤ stop) : y.slice start stop' = x.slice start stop' :=
  Bytes.slice_congr fun k hk hk' =>
    hagree k (by omega) (not_isSigningField_of_le (hstart.trans hk))

theorem AgreeTo.u16 {offset : Nat} (hagree : h.AgreeTo h.tableStop x y)
    (hentry : h.certificateDirectoryStop ≤ h.tableOffset)
    (hoffset : offset + 2 ≤ h.directoriesOffset)
    (hchecksum : offset + 2 ≤ h.optionalOffset + 64 ∨ h.optionalOffset + 68 ≤ offset) :
    y.u16 offset = x.u16 offset := by
  have htable : h.tableOffset ≤ h.tableStop := Nat.le_add_right _ _
  have hdirectory : h.certificateDirectoryStop = h.directoriesOffset + 40 := rfl
  exact Bytes.u16_congr fun k hk hk' =>
    hagree k (by omega) (not_isSigningField_of_lt (by omega) (by omega))

theorem AgreeTo.u32 {offset : Nat} (hagree : h.AgreeTo h.tableStop x y)
    (hentry : h.certificateDirectoryStop ≤ h.tableOffset)
    (hoffset : offset + 4 ≤ h.directoriesOffset)
    (hchecksum : offset + 4 ≤ h.optionalOffset + 64 ∨ h.optionalOffset + 68 ≤ offset) :
    y.u32 offset = x.u32 offset := by
  have htable : h.tableOffset ≤ h.tableStop := Nat.le_add_right _ _
  have hdirectory : h.certificateDirectoryStop = h.directoriesOffset + 40 := rfl
  exact Bytes.u32_congr fun k hk hk' =>
    hagree k (by omega) (not_isSigningField_of_lt (by omega) (by omega))

theorem AgreeTo.sections (hagree : h.AgreeTo h.tableStop x y)
    (hentry : h.certificateDirectoryStop ≤ h.tableOffset) :
    (List.range h.numberOfSections).map (sectionAt y h) =
      (List.range h.numberOfSections).map (sectionAt x h) := by
  apply List.map_congr_left
  intro i hi
  rw [List.mem_range] at hi
  have hmul : (i + 1) * SectionHeader.size ≤ h.numberOfSections * SectionHeader.size :=
    Nat.mul_le_mul_right _ hi
  have htable : h.tableStop = h.tableOffset + h.numberOfSections * SectionHeader.size := rfl
  rw [Nat.add_one_mul] at hmul
  rw [sectionAt, sectionAt, SectionHeader.decode, SectionHeader.decode,
    hagree.slice (by omega) (by omega)]

/-- A file that agrees has the same headers but for the directory entry. -/
theorem Reads.resigned (hr : Reads x h) (hagree : h.AgreeTo h.tableStop x y)
    (hentry : h.certificateDirectoryStop ≤ h.tableOffset) (htable : h.tableStop ≤ y.length)
    (hdirectories : h.directoriesOffset + h.numberOfDirectories * DataDirectory.width ≤ y.length)
    (hnames : ∀ s ∈ h.sections, isNameReadable y h.stringsOffset s.rawName = true) :
    Reads y { h with
      certificateDirectory :=
        if DataDirectory.certificateIndex < h.numberOfDirectories then
          DataDirectory.decode? y h.certificateDirectoryOffset
        else none } := by
  have hdir := h.add_le_directoriesOffset
  have hcoff : h.optionalOffset = h.coffOffset + 20 := rfl
  have hmark : h.coffOffset = h.peOffset + 4 := rfl
  have hfield : peOffsetField = 60 := rfl
  have hle : h.tableOffset ≤ h.tableStop := Nat.le_add_right _ _
  have hdirectory : h.certificateDirectoryStop = h.directoriesOffset + 40 := rfl
  refine hr.rewrite ?_ hdirectories ?_ ?_ ?_ ?_ rfl ?_ (Or.inr htable) hnames
  · intro i hi
    unfold IsFixed at hi
    exact hagree i (by omega) (not_isSigningField_of_lt (by omega) (by omega))
  · rw [hagree.u16 hentry (by omega) (by omega), hr.numberOfSections]
  · rw [hagree.u32 hentry (by omega) (by omega), hr.pointerToSymbolTable]
  · rw [hagree.u32 hentry (by omega) (by omega), hr.numberOfSymbols]
  · rw [hagree.u32 hentry (by omega) (by omega), hr.sizeOfHeaders]
  · rw [hagree.sections hentry, hr.sections]

theorem Reads.eq_of_agree {g : Headers} (hx : Reads x h) (hy : Reads y g)
    (hagree : h.AgreeTo h.tableStop x y) (hentry : h.certificateDirectoryStop ≤ h.tableOffset) :
    g = { h with certificateDirectory := g.certificateDirectory } := by
  have hdir := h.add_le_directoriesOffset
  have hcoff : h.optionalOffset = h.coffOffset + 20 := rfl
  have hmark : h.coffOffset = h.peOffset + 4 := rfl
  have hfield : peOffsetField = 60 := rfl
  have hpe : g.peOffset = h.peOffset := by
    rw [← hy.peOffset, hagree.u32 hentry (by omega) (by omega), hx.peOffset]
  have hcoffOffset : g.coffOffset = h.coffOffset := congrArg (· + markSize) hpe
  have hoptional : g.optionalOffset = h.optionalOffset := congrArg (· + coffSize) hcoffOffset
  have hnumber : g.numberOfSections = h.numberOfSections := by
    rw [← hy.numberOfSections, hcoffOffset, hagree.u16 hentry (by omega) (by omega),
      hx.numberOfSections]
  have hpointer : g.pointerToSymbolTable = h.pointerToSymbolTable := by
    rw [← hy.pointerToSymbolTable, hcoffOffset, hagree.u32 hentry (by omega) (by omega),
      hx.pointerToSymbolTable]
  have hsymbols : g.numberOfSymbols = h.numberOfSymbols := by
    rw [← hy.numberOfSymbols, hcoffOffset, hagree.u32 hentry (by omega) (by omega),
      hx.numberOfSymbols]
  have hsize : g.sizeOfOptionalHeader = h.sizeOfOptionalHeader := by
    rw [← hy.sizeOfOptionalHeader, hcoffOffset, hagree.u16 hentry (by omega) (by omega),
      hx.sizeOfOptionalHeader]
  have hmagic : g.magic = h.magic := by
    have hword := hy.magic
    rw [hoptional, hagree.u16 hentry (by omega) (by omega), hx.magic] at hword
    exact (Option.some.inj hword).symm
  have hdirectories : g.directoriesOffset = h.directoriesOffset := by
    rw [directoriesOffset, directoriesOffset, hoptional, hmagic]
  have hsection : g.sectionAlignment = h.sectionAlignment := by
    rw [← hy.sectionAlignment, hoptional, hagree.u32 hentry (by omega) (by omega),
      hx.sectionAlignment]
  have hfile : g.fileAlignment = h.fileAlignment := by
    rw [← hy.fileAlignment, hoptional, hagree.u32 hentry (by omega) (by omega), hx.fileAlignment]
  have hheaders : g.sizeOfHeaders = h.sizeOfHeaders := by
    rw [← hy.sizeOfHeaders, hoptional, hagree.u32 hentry (by omega) (by omega), hx.sizeOfHeaders]
  have hcount : g.numberOfDirectories = h.numberOfDirectories := by
    rw [← hy.numberOfDirectories, hdirectories, hagree.u32 hentry (by omega) (by omega),
      hx.numberOfDirectories]
  have htable : g.tableOffset = h.tableOffset := by
    rw [tableOffset, tableOffset, hoptional, hsize]
  have hsections : g.sections = h.sections := by
    rw [← hy.sections, hnumber, ← hx.sections, ← hagree.sections hentry]
    apply List.map_congr_left
    intro i _
    rw [sectionAt, sectionAt, htable]
  have heta : g = ⟨g.peOffset, g.numberOfSections, g.pointerToSymbolTable, g.numberOfSymbols,
    g.sizeOfOptionalHeader, g.magic, g.sectionAlignment, g.fileAlignment, g.sizeOfHeaders,
    g.numberOfDirectories, g.certificateDirectory, g.sections⟩ := rfl
  rw [hpe, hnumber, hpointer, hsymbols, hsize, hmagic, hsection, hfile, hheaders, hcount,
    hsections] at heta
  exact heta

end Headers

/-! ## Layouts -/

namespace Layout

open SymbolTable

/-- Whether everything that a layout is read from lies in front of a place, and the sections and
symbols behind the directory entry. -/
structure IsBetween (l : Layout) (h : Headers) (stop : Nat) : Prop where
  directory_le : h.certificateDirectoryStop ≤ h.tableOffset
  tableStop_le : h.tableStop ≤ stop
  sections : ∀ s ∈ h.sections, s.sizeOfRawData ≠ 0 →
    h.certificateDirectoryStop ≤ s.pointerToRawData.toNat ∧ s.rawStop ≤ stop
  symbols : ∀ t ∈ l.symbols, h.certificateDirectoryStop ≤ h.pointerToSymbolTable ∧
    h.pointerToSymbolTable + t.symbols.length + t.strings.length ≤ stop
  endsInNul : ∀ t ∈ l.symbols, t.EndsInNul

/-- The same with all directories inside the optional header. -/
structure IsBelow (l : Layout) (h : Headers) (stop : Nat) : Prop extends IsBetween l h stop where
  directories_le :
    h.directoriesOffset + h.numberOfDirectories * DataDirectory.width ≤ h.tableOffset

variable {x y : Bytes} {h : Headers} {l : Layout} {stop : Nat} {certificates : Option DataDirectory}

theorem Reads.symbols_resigned (hr : Reads x h certificates l) (hl : l.IsBetween h stop)
    (hagree : h.AgreeTo stop x y) (hstop : stop ≤ y.length) :
    SymbolTable.decode y h.pointerToSymbolTable h.numberOfSymbols = .ok l.symbols ∧
      ∀ t ∈ l.symbols, t.strings <+: y.drop h.stringsOffset := by
  rcases SymbolTable.decode_eq_ok_iff.1 hr.symbols with ⟨hzero, hnone⟩ |
    ⟨hne, strings, length, hoffset, hroom, hlength, hin, hsome⟩
  · rw [hnone]
    exact ⟨SymbolTable.decode_eq_ok_iff.2 (Or.inl ⟨hzero, rfl⟩), nofun⟩
  · obtain ⟨hbehind, hbelow⟩ := hl.symbols _ hsome
    dsimp only at hbelow
    have hsize : lengthSize = 4 := rfl
    rw [Bytes.length_slice (by omega), Bytes.length_slice hin] at hbelow
    have hword : y.u32 strings = x.u32 strings := Bytes.u32_congr fun k hk hk' =>
      hagree k (by omega) (Headers.not_isSigningField_of_le (by omega))
    have hsymbols :
        y.slice h.pointerToSymbolTable strings = x.slice h.pointerToSymbolTable strings :=
      hagree.slice hbehind (by omega)
    have hstrings : y.slice strings (strings + length) = x.slice strings (strings + length) :=
      hagree.slice (by omega) (by omega)
    rw [hsome]
    constructor
    · refine SymbolTable.decode_eq_ok_iff.2
        (Or.inr ⟨hne, strings, length, hoffset, by omega, ?_, by omega, ?_⟩)
      · rw [hword, hlength]
      · rw [hsymbols, hstrings]
    · intro t ht
      cases ht
      dsimp only
      rw [← hstrings, ← show strings = h.stringsOffset from hoffset]
      exact List.take_prefix _ _

theorem Reads.standsIn_resigned (hr : Reads x h certificates l) (hl : l.IsBetween h stop)
    (hagree : h.AgreeTo stop x y) (hstop : stop ≤ y.length) : ∀ s ∈ l.sections, s.StandsIn y := by
  intro s hs
  have hstands := (hr.section_stands s hs).2
  unfold Section.StandsIn at hstands ⊢
  split
  · rename_i hzero
    rwa [if_pos hzero] at hstands
  · rename_i hne
    rw [if_neg hne] at hstands
    obtain ⟨hbehind, hbelow⟩ := hl.sections s.header (hr.sections ▸ List.mem_map_of_mem hs) hne
    rw [hagree.slice hbehind hbelow]
    exact ⟨hbelow.trans hstop, hstands.2⟩

theorem Reads.names_resigned (hr : Reads x h certificates l) (hl : l.IsBetween h stop)
    (hagree : h.AgreeTo stop x y) (hstop : stop ≤ y.length) :
    ∀ s ∈ h.sections, Headers.isNameReadable y h.stringsOffset s.rawName = true := by
  intro s hs
  rw [← hr.sections] at hs
  obtain ⟨t, ht, rfl⟩ := List.mem_map.1 hs
  exact isNameReadable_of_sectionName (hr.isSound hl.endsInNul).symbols
    (hr.symbols_resigned hl hagree hstop).2 (hr.section_stands t ht).1

theorem Reads.headers_resigned (hr : Reads x h certificates l) (hl : l.IsBelow h stop)
    (hagree : h.AgreeTo stop x y) (hstop : stop ≤ y.length) :
    Headers.Reads y { h with
      certificateDirectory :=
        if DataDirectory.certificateIndex < h.numberOfDirectories then
          DataDirectory.decode? y h.certificateDirectoryOffset
        else none } := by
  have htable : h.tableOffset ≤ h.tableStop := Nat.le_add_right _ _
  have hdirectories := hl.directories_le
  have hbelow := hl.tableStop_le
  exact hr.headers.resigned (hagree.mono hbelow) hl.directory_le (by omega) (by omega)
    (hr.names_resigned hl.toIsBetween hagree hstop)

/-- A file that agrees has a layout with the same sections. -/
theorem Reads.resigned {directory : Option DataDirectory} (hr : Reads x h certificates l)
    (hl : l.IsBelow h stop) (hagree : h.AgreeTo stop x y) (hstop : stop ≤ y.length)
    (hheaders : Headers.Reads y { h with certificateDirectory := directory })
    (hdirectory : ∀ d ∈ directory, d.stop ≤ y.length) :
    ∃ l', Layout.decode y = .ok l' ∧ l'.sections = l.sections := by
  have htable : h.tableOffset ≤ h.tableStop := Nat.le_add_right _ _
  have hbelow := hl.tableStop_le
  obtain ⟨certificates', hcertificates⟩ : ∃ certificates',
      certificateRange y { h with certificateDirectory := directory } = .ok certificates' := by
    rw [certificateRange]
    cases directory with
    | none => exact ⟨none, rfl⟩
    | some d =>
      dsimp only
      split
      · exact ⟨none, rfl⟩
      · rw [if_neg (Nat.not_lt.2 (hdirectory d rfl))]
        exact ⟨some d, rfl⟩
  let l' : Layout := { l with
    front := y.take h.tableOffset
    overlay := overlayFrom y (tailStart y h l.sections l.symbols) certificates'
    hadSignatures := certificates'.isSome }
  refine ⟨l', decode_eq_ok_iff.2 ⟨_, certificates', {
    headers := hheaders
    certificateTable := hcertificates
    symbols := (hr.symbols_resigned hl.toIsBetween hagree hstop).1
    sections := hr.sections
    section_stands := fun s hs =>
      ⟨(hr.section_stands s hs).1, hr.standsIn_resigned hl.toIsBetween hagree hstop s hs⟩
    front_le := show h.tableOffset ≤ y.length by omega
    front := rfl
    coffOffset := hr.coffOffset
    certificateDirectoryOffset := hr.certificateDirectoryOffset
    fileAlignment := hr.fileAlignment
    sectionAlignment := hr.sectionAlignment
    overlay := rfl
    hadSignatures := rfl }⟩, rfl⟩

end Layout

end SecureBoot.Pe
