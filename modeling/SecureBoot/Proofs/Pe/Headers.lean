import Mathlib
import SecureBoot.Pe.Headers
import SecureBoot.Proofs.Bytes
import SecureBoot.Proofs.Outcome
import SecureBoot.Proofs.Pe.Section

/-!
# What reading headers sees

**Field by field.** `Reads x h` says of every field of `h` where it stands in the file `x` and which
checks it has passed. Reading gives `h` exactly then (`decode_eq_ok_iff`).

**Fields that stay.** Signing and editing write to some fields only. A file in which the others are
as before is read as before, but for the fields written to (`Reads.rewrite`). What is added behind a
file without sections changes nothing (`Reads.append`).
-/

namespace SecureBoot.Pe

theorem DataDirectory.decode?_of_zeros {x : Bytes} {offset : Nat}
    (h : x.slice offset (offset + width) = Bytes.zeros width) : decode? x offset = none := by
  have hword : ∀ k, k + 4 ≤ width → x.u32 (offset + k) = 0 := by
    intro k hk
    have hslice := Bytes.slice_slice (x := x) (a := k)
      (show offset + (k + 4) ≤ offset + width by omega)
    rw [h, ← Nat.add_assoc] at hslice
    rw [Bytes.u32, ← hslice, Bytes.slice, Bytes.zeros, List.drop_replicate, List.take_replicate,
      Nat.add_sub_cancel_left, Nat.min_eq_left (by omega)]
    rfl
  have haddress := hword 0 (by decide)
  have hsize := hword 4 (by decide)
  rw [Nat.add_zero] at haddress
  rw [decode?, haddress, hsize]
  rfl

namespace Headers

/-- Where the data directories begin. -/
def directoriesOffset (h : Headers) : Nat := h.optionalOffset + h.magic.directoriesOffset

theorem add_le_directoriesOffset (h : Headers) : h.optionalOffset + 96 ≤ h.directoriesOffset := by
  rw [directoriesOffset]
  cases h.magic <;> simp [Magic.directoriesOffset]

/-- Where the string table begins, behind the symbols. -/
def stringsOffset (h : Headers) : Nat := h.pointerToSymbolTable + h.numberOfSymbols * symbolSize

/-- Where the section table ends. -/
def tableStop (h : Headers) : Nat := h.tableOffset + h.numberOfSections * SectionHeader.size

/-- The entry of the section table with a number. -/
def sectionAt (x : Bytes) (h : Headers) (i : Nat) : SectionHeader :=
  SectionHeader.decode x (h.tableOffset + i * SectionHeader.size)

/-- Whether the optional header, by the size that is stated for it, has room for the fields that
writing a layout fills in: the checksum with all in front of it, and the directory entry for the
certificate table if it is counted. -/
structure HoldsFields (h : Headers) : Prop where
  checksum_le : checksumField + 4 ≤ h.sizeOfOptionalHeader
  certificateDirectory_le : DataDirectory.certificateIndex < h.numberOfDirectories →
    h.certificateDirectoryOffset + DataDirectory.width ≤ h.tableOffset

/-- These are the headers of a file. -/
structure Reads (x : Bytes) (h : Headers) : Prop where
  field_le : peOffsetField + 4 ≤ x.length
  dosMark : x.u16 0 = 0x5a4d
  peOffset : (x.u32 peOffsetField).toNat = h.peOffset
  coff_le : h.optionalOffset ≤ x.length
  mark : x.u32 h.peOffset = 0x4550
  numberOfSections : (x.u16 (h.coffOffset + 2)).toNat = h.numberOfSections
  pointerToSymbolTable : (x.u32 (h.coffOffset + 8)).toNat = h.pointerToSymbolTable
  numberOfSymbols : (x.u32 (h.coffOffset + 12)).toNat = h.numberOfSymbols
  sizeOfOptionalHeader : (x.u16 (h.coffOffset + 16)).toNat = h.sizeOfOptionalHeader
  hasOptional : h.sizeOfOptionalHeader ≠ 0
  magic : Magic.ofWord? (x.u16 h.optionalOffset) = some h.magic
  sectionAlignment : x.u32 (h.optionalOffset + 32) = h.sectionAlignment
  fileAlignment : x.u32 (h.optionalOffset + 36) = h.fileAlignment
  sizeOfHeaders : x.u32 (h.optionalOffset + 60) = h.sizeOfHeaders
  numberOfDirectories : (x.u32 (h.directoriesOffset - 4)).toNat = h.numberOfDirectories
  numberOfDirectories_le : h.numberOfDirectories ≤ DataDirectory.maxCount
  directories_le : h.directoriesOffset + h.numberOfDirectories * DataDirectory.width ≤ x.length
  certificateDirectory :
    (if DataDirectory.certificateIndex < h.numberOfDirectories then
      DataDirectory.decode? x h.certificateDirectoryOffset else none) = h.certificateDirectory
  sections : (List.range h.numberOfSections).map (sectionAt x h) = h.sections
  table_le : h.numberOfSections = 0 ∨ h.tableStop ≤ x.length
  names : ∀ s ∈ h.sections, isNameReadable x h.stringsOffset s.rawName = true

/-- What reading gives stands in the file. -/
theorem reads_of_decode? {x : Bytes} {h : Headers} (hx : decode? x = some (some h)) :
    Reads x h := by
  unfold decode? at hx
  dsimp only at hx
  rw [guard_bind_eq_some, guard_bind_eq_some] at hx
  obtain ⟨⟨hfield, hdos⟩, ⟨hcoff, hmark⟩, hrest⟩ := hx
  split at hrest
  · rw [bind_eq_some] at hrest
    obtain ⟨_, -, hnone⟩ := hrest
    cases hnone
  rename_i hoptional
  rw [guard_bind_eq_some, bind_eq_some] at hrest
  obtain ⟨-, magic, hmagic, hrest⟩ := hrest
  rw [guard_bind_eq_some, guard_bind_eq_some, guard_bind_eq_some, bind_eq_some] at hrest
  obtain ⟨-, hcount, hdirectories, sections, hsections, hresult⟩ := hrest
  rw [guard_bind_eq_some, guard_bind_eq_some, guard_bind_eq_some] at hsections
  obtain ⟨-, htable, hnames, hread⟩ := hsections
  cases hread
  cases hresult
  exact {
    field_le := hfield
    dosMark := hdos
    peOffset := rfl
    coff_le := hcoff
    mark := hmark
    numberOfSections := rfl
    pointerToSymbolTable := rfl
    numberOfSymbols := rfl
    sizeOfOptionalHeader := rfl
    hasOptional := hoptional
    magic := hmagic
    sectionAlignment := rfl
    fileAlignment := rfl
    sizeOfHeaders := rfl
    numberOfDirectories := rfl
    numberOfDirectories_le := hcount
    directories_le := hdirectories
    certificateDirectory := rfl
    sections := (SectionHeader.decodeTable_drop _ _ _).symm
    table_le := htable
    names := List.all_eq_true.1 hnames }

theorem decode?_of_reads {x : Bytes} {h : Headers} (hr : Reads x h) :
    decode? x = some (some h) := by
  have hnumber : (x.u16 (h.peOffset + markSize + 2)).toNat = h.numberOfSections :=
    hr.numberOfSections
  have hpointer : (x.u32 (h.peOffset + markSize + 8)).toNat = h.pointerToSymbolTable :=
    hr.pointerToSymbolTable
  have hsymbols : (x.u32 (h.peOffset + markSize + 12)).toNat = h.numberOfSymbols :=
    hr.numberOfSymbols
  have hsize : (x.u16 (h.peOffset + markSize + 16)).toNat = h.sizeOfOptionalHeader :=
    hr.sizeOfOptionalHeader
  have hcount : (x.u32 (h.peOffset + markSize + coffSize + h.magic.directoriesOffset - 4)).toNat =
      h.numberOfDirectories := hr.numberOfDirectories
  have hstart : h.directoriesOffset ≤ x.length := (Nat.le_add_right _ _).trans hr.directories_le
  have hmagic : h.optionalOffset + 2 ≤ h.directoriesOffset :=
    (Nat.add_le_add_left (by decide) _).trans h.add_le_directoriesOffset
  have htable : h.numberOfSections = 0 ∨ h.tableStop ≤ x.length := hr.table_le
  have hroom : h.numberOfSections ≤ x.length / SectionHeader.size := by
    rcases htable with hzero | hstop
    · rw [hzero]
      exact Nat.zero_le _
    · rw [Nat.le_div_iff_mul_le (by decide)]
      exact (Nat.le_add_left _ _).trans hstop
  have hread : SectionHeader.decodeTable h.numberOfSections (x.drop h.tableOffset) = h.sections :=
    (SectionHeader.decodeTable_drop _ _ _).trans hr.sections
  unfold decode?
  dsimp only
  rw [guard_bind_eq_some, guard_bind_eq_some, hr.peOffset, hnumber, hpointer, hsymbols, hsize]
  refine ⟨⟨hr.field_le, hr.dosMark⟩, ⟨hr.coff_le, hr.mark⟩, ?_⟩
  rw [if_neg hr.hasOptional, guard_bind_eq_some, bind_eq_some]
  refine ⟨hmagic.trans hstart, h.magic, hr.magic, ?_⟩
  rw [hcount, guard_bind_eq_some, guard_bind_eq_some, guard_bind_eq_some, bind_eq_some]
  refine ⟨hstart, hr.numberOfDirectories_le, hr.directories_le, h.sections, ?_, ?_⟩
  · rw [guard_bind_eq_some, guard_bind_eq_some, guard_bind_eq_some]
    refine ⟨hroom, htable, ?_, congrArg some hread⟩
    rw [List.all_eq_true]
    intro s hs
    refine hr.names s ?_
    rw [← hread]
    exact hs
  · have hdirectory := hr.certificateDirectory
    have hsection := hr.sectionAlignment
    have hfile := hr.fileAlignment
    have hheaders := hr.sizeOfHeaders
    simp only [optionalOffset, coffOffset, certificateDirectoryOffset] at *
    rw [hdirectory, hsection, hfile, hheaders]
    rfl

theorem decode_eq_ok_iff {x : Bytes} {h : Headers} : decode x = .ok h ↔ Reads x h := by
  constructor
  · intro hx
    apply reads_of_decode?
    unfold decode at hx
    rcases hd : decode? x with _ | _ | g <;> rw [hd] at hx <;> cases hx
    rfl
  · intro hr
    rw [decode, decode?_of_reads hr]
    rfl

theorem Reads.hasWholeName {x : Bytes} {h : Headers} (hr : Reads x h) :
    ∀ s ∈ h.sections, s.HasWholeName := by
  intro s hs
  rw [← hr.sections] at hs
  obtain ⟨i, hi, rfl⟩ := List.mem_map.1 hs
  rw [List.mem_range] at hi
  apply SectionHeader.hasWholeName_decode
  have hstop : h.tableOffset + h.numberOfSections * SectionHeader.size ≤ x.length := by
    rcases hr.table_le with hzero | hle
    · omega
    · exact hle
  have hmul : (i + 1) * SectionHeader.size ≤ h.numberOfSections * SectionHeader.size :=
    Nat.mul_le_mul_right _ hi
  rw [Nat.add_one_mul] at hmul
  omega

/-! ## Fields that stay -/

/-- The places of fields that neither signing nor editing writes to. -/
def IsFixed (h : Headers) (i : Nat) : Prop :=
  i < 2 ∨ (peOffsetField ≤ i ∧ i < peOffsetField + 4) ∨ (h.peOffset ≤ i ∧ i < h.coffOffset) ∨
    (h.coffOffset + 16 ≤ i ∧ i < h.coffOffset + 18) ∨
    (h.optionalOffset ≤ i ∧ i < h.optionalOffset + 2) ∨
    (h.optionalOffset + 32 ≤ i ∧ i < h.optionalOffset + 40) ∨
    (h.directoriesOffset ≤ i + 4 ∧ i < h.directoriesOffset)

/-- A file with the same fixed fields has the same headers but for the fields that are not. -/
theorem Reads.rewrite {x y : Bytes} {h : Headers} (hr : Reads x h)
    (hfixed : ∀ i, h.IsFixed i → y[i]? = x[i]?)
    (hstop : h.directoriesOffset + h.numberOfDirectories * DataDirectory.width ≤ y.length)
    {number pointer count : Nat} {size : UInt32} {directory : Option DataDirectory}
    {sections : List SectionHeader}
    (hnumber : (y.u16 (h.coffOffset + 2)).toNat = number)
    (hpointer : (y.u32 (h.coffOffset + 8)).toNat = pointer)
    (hcount : (y.u32 (h.coffOffset + 12)).toNat = count)
    (hsize : y.u32 (h.optionalOffset + 60) = size)
    (hdirectory : (if DataDirectory.certificateIndex < h.numberOfDirectories then
      DataDirectory.decode? y h.certificateDirectoryOffset else none) = directory)
    (hsections : (List.range number).map (sectionAt y h) = sections)
    (htable : number = 0 ∨ h.tableOffset + number * SectionHeader.size ≤ y.length)
    (hnames : ∀ s ∈ sections, isNameReadable y (pointer + count * symbolSize) s.rawName = true) :
    Reads y { h with
      numberOfSections := number
      pointerToSymbolTable := pointer
      numberOfSymbols := count
      sizeOfHeaders := size
      certificateDirectory := directory
      sections := sections } := by
  have hdir := h.add_le_directoriesOffset
  have hcoff : h.optionalOffset = h.peOffset + 24 := rfl
  have hoff : h.coffOffset = h.peOffset + 4 := rfl
  have hfield : peOffsetField = 60 := rfl
  have u16_eq : ∀ o, (∀ i, o ≤ i → i < o + 2 → h.IsFixed i) → y.u16 o = x.u16 o :=
    fun o ho => Bytes.u16_congr fun i hi hi' => hfixed i (ho i hi hi')
  have u32_eq : ∀ o, (∀ i, o ≤ i → i < o + 4 → h.IsFixed i) → y.u32 o = x.u32 o :=
    fun o ho => Bytes.u32_congr fun i hi hi' => hfixed i (ho i hi hi')
  exact {
    field_le := by omega
    dosMark := by rw [u16_eq 0 fun i _ _ => by unfold IsFixed; omega, hr.dosMark]
    peOffset := by
      rw [u32_eq peOffsetField fun i _ _ => by unfold IsFixed; omega, hr.peOffset]
    coff_le := by
      change h.optionalOffset ≤ y.length
      omega
    mark := by
      rw [← hr.mark]
      exact u32_eq h.peOffset fun i _ _ => by unfold IsFixed; omega
    numberOfSections := hnumber
    pointerToSymbolTable := hpointer
    numberOfSymbols := hcount
    sizeOfOptionalHeader := by
      rw [← hr.sizeOfOptionalHeader]
      exact congrArg _ (u16_eq (h.coffOffset + 16) fun i _ _ => by unfold IsFixed; omega)
    hasOptional := hr.hasOptional
    magic := by
      rw [← hr.magic]
      exact congrArg _ (u16_eq h.optionalOffset fun i _ _ => by unfold IsFixed; omega)
    sectionAlignment := by
      rw [← hr.sectionAlignment]
      exact u32_eq (h.optionalOffset + 32) fun i _ _ => by unfold IsFixed; omega
    fileAlignment := by
      rw [← hr.fileAlignment]
      exact u32_eq (h.optionalOffset + 36) fun i _ _ => by unfold IsFixed; omega
    sizeOfHeaders := hsize
    numberOfDirectories := by
      rw [← hr.numberOfDirectories]
      exact congrArg _ (u32_eq (h.directoriesOffset - 4) fun i _ _ => by unfold IsFixed; omega)
    numberOfDirectories_le := hr.numberOfDirectories_le
    directories_le := hstop
    certificateDirectory := hdirectory
    sections := hsections
    table_le := htable
    names := hnames }

/-- What stands behind a file without sections does not matter to its headers. -/
theorem Reads.append {x : Bytes} {h : Headers} (hr : Reads x h) (hnone : h.numberOfSections = 0)
    (y : Bytes) : Reads (x ++ y) h := by
  have hlength : (x ++ y).length = x.length + y.length := List.length_append
  have hdir := h.add_le_directoriesOffset
  have hcoff : h.optionalOffset = h.peOffset + 24 := rfl
  have hoff : h.coffOffset = h.peOffset + 4 := rfl
  have hcertificate : h.certificateDirectoryOffset = h.directoriesOffset + 32 := rfl
  have hfield := hr.field_le
  have hdirectories := hr.directories_le
  have hin : ∀ i, i < x.length → (x ++ y)[i]? = x[i]? := fun i hi => List.getElem?_append_left hi
  have u16_eq : ∀ o, o + 2 ≤ x.length → (x ++ y).u16 o = x.u16 o :=
    fun o ho => Bytes.u16_congr fun i _ hi => hin i (by omega)
  have u32_eq : ∀ o, o + 4 ≤ x.length → (x ++ y).u32 o = x.u32 o :=
    fun o ho => Bytes.u32_congr fun i _ hi => hin i (by omega)
  have hsections : h.sections = [] := by rw [← hr.sections, hnone]; rfl
  refine hr.rewrite (fun i hi => hin i ?_) (by omega) ?_ ?_ ?_ ?_ ?_ ?_ (.inl hnone) ?_
  · unfold IsFixed at hi
    omega
  · rw [u16_eq _ (by omega), hr.numberOfSections]
  · rw [u32_eq _ (by omega), hr.pointerToSymbolTable]
  · rw [u32_eq _ (by omega), hr.numberOfSymbols]
  · rw [u32_eq _ (by omega), hr.sizeOfHeaders]
  · rw [← hr.certificateDirectory]
    split
    · rename_i hcounted
      have hwidth : DataDirectory.width = 8 := rfl
      have hindex : DataDirectory.certificateIndex = 4 := rfl
      rw [hwidth] at hdirectories
      rw [DataDirectory.decode?, DataDirectory.decode?, u32_eq _ (by omega), u32_eq _ (by omega)]
    · rfl
  · rw [hnone, hsections]
    rfl
  · rw [hsections]
    nofun

end Headers

end SecureBoot.Pe
