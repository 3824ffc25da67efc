import SecureBoot.Error
import SecureBoot.Pe.Section
import SecureBoot.Text.Base64
import SecureBoot.Text.Utf8

/-!
# Headers of a PE executable

`Headers.decode` reads the fixed headers and the section table, and decides what counts as a PE
executable at all: the DOS and PE marks, all header fields and the whole section table must be
there, at most sixteen data directories are counted, and a section name that refers to the string
table must lead to text inside the file.

The optional header is read right behind the COFF header, whatever size is stated for it; the stated
size only tells where the section table begins. A size of zero means that there is none.
-/

namespace SecureBoot.Pe

/-- The two kinds of optional header. -/
inductive Magic where
  | pe32
  | pe32Plus
  deriving DecidableEq, Inhabited, Repr

/-- Where the data directories begin in the optional header. -/
def Magic.directoriesOffset : Magic → Nat
  | .pe32 => 96
  | .pe32Plus => 112

def Magic.ofWord? (w : UInt16) : Option Magic :=
  if w = 0x10b then some .pe32 else if w = 0x20b then some .pe32Plus else none

/-- Place and size of a table; for the certificate table the address is an offset in the file. -/
structure DataDirectory where
  address : UInt32
  size : UInt32
  deriving DecidableEq, Inhabited, Repr

namespace DataDirectory

/-- Bytes that a directory entry takes. -/
def width : Nat := 8

/-- The number of the entry for the certificate table. -/
def certificateIndex : Nat := 4

/-- The greatest number of entries. -/
def maxCount : Nat := 16

/-- Where the table ends. -/
def stop (d : DataDirectory) : Nat := d.address.toNat + d.size.toNat

/-- Reads the entry at `offset`; one that is all zero is absent. -/
def decode? (b : Bytes) (offset : Nat) : Option DataDirectory :=
  let d : DataDirectory := ⟨b.u32 offset, b.u32 (offset + 4)⟩
  if d.address = 0 ∧ d.size = 0 then none else some d

end DataDirectory

/-- The header fields that editing and signing need. -/
structure Headers where
  /-- Offset of the PE mark. -/
  peOffset : Nat
  numberOfSections : Nat
  pointerToSymbolTable : Nat
  numberOfSymbols : Nat
  sizeOfOptionalHeader : Nat
  magic : Magic
  sectionAlignment : UInt32
  fileAlignment : UInt32
  sizeOfHeaders : UInt32
  numberOfDirectories : Nat
  certificateDirectory : Option DataDirectory
  sections : List SectionHeader
  deriving DecidableEq, Inhabited, Repr

namespace Headers

/-- Bytes of the PE mark. -/
def markSize : Nat := 4

/-- Bytes of the COFF header. -/
def coffSize : Nat := 20

/-- Offset of the field that holds the offset of the PE mark. -/
def peOffsetField : Nat := 0x3c

/-- Bytes of one COFF symbol. -/
def symbolSize : Nat := 18

/-- Offset of the checksum in the optional header. -/
def checksumField : Nat := 64

def coffOffset (h : Headers) : Nat := h.peOffset + markSize

def optionalOffset (h : Headers) : Nat := h.coffOffset + coffSize

/-- Where the section table begins. -/
def tableOffset (h : Headers) : Nat := h.optionalOffset + h.sizeOfOptionalHeader

def checksumOffset (h : Headers) : Nat := h.optionalOffset + checksumField

/-- Offset of the directory entry for the certificate table, be it counted or not. -/
def certificateDirectoryOffset (h : Headers) : Nat :=
  h.optionalOffset + h.magic.directoriesOffset +
    DataDirectory.certificateIndex * DataDirectory.width

/-! ## Names in the string table -/

/-- A decimal number as a section name states it; a plus sign in front is allowed. -/
def decimalOffset? (cs : List Char) : Option Nat :=
  match cs with
  | '+' :: rest => Text.decimal? rest
  | _ => Text.decimal? cs

/-- The offset that a name beginning with a slash states: decimal digits, or behind a second slash
digits in base 64. -/
def nameOffset? (rawName : Bytes) : Option Nat :=
  match rawName with
  | 0x2f :: 0x2f :: rest =>
    (Bytes.beforeNul rest).foldlM (fun n byte => (Base64.digit? byte).map (64 * n + ·)) 0
  | 0x2f :: rest => (Text.decode? (Bytes.beforeNul rest)).bind (decimalOffset? ·.toList)
  | _ => none

/-- Whether a name is short, or refers to text inside the file. -/
def isNameReadable (b : Bytes) (stringTable : Nat) (rawName : Bytes) : Bool :=
  if rawName.head? = some 0x2f then
    match nameOffset? rawName with
    | none => false
    | some offset =>
      let text := b.drop (stringTable + offset)
      !text.isEmpty && (Text.decode? (Bytes.beforeNul text)).isSome
  else true

/-! ## Reading -/

/-- The headers of an executable, or `none` where `b` is none; within, `none` where the executable
has no optional header. -/
def decode? (b : Bytes) : Option (Option Headers) := do
  let available := b.length
  guard (peOffsetField + 4 ≤ available ∧ b.u16 0 = 0x5a4d)
  let peOffset := (b.u32 peOffsetField).toNat
  guard (peOffset + markSize + coffSize ≤ available ∧ b.u32 peOffset = 0x4550)
  let coff := peOffset + markSize
  let optional := coff + coffSize
  let numberOfSections := (b.u16 (coff + 2)).toNat
  let pointerToSymbolTable := (b.u32 (coff + 8)).toNat
  let numberOfSymbols := (b.u32 (coff + 12)).toNat
  let sizeOfOptionalHeader := (b.u16 (coff + 16)).toNat
  let table := optional + sizeOfOptionalHeader
  let stringTable := pointerToSymbolTable + numberOfSymbols * symbolSize
  let readSections : Option (List SectionHeader) := do
    guard (numberOfSections ≤ available / SectionHeader.size)
    guard (numberOfSections = 0 ∨ table + numberOfSections * SectionHeader.size ≤ available)
    let sections := SectionHeader.decodeTable numberOfSections (b.drop table)
    guard (sections.all fun s => isNameReadable b stringTable s.rawName)
    return sections
  if sizeOfOptionalHeader = 0 then
    let _ ← readSections
    return none
  guard (optional + 2 ≤ available)
  let magic ← Magic.ofWord? (b.u16 optional)
  let directories := optional + magic.directoriesOffset
  guard (directories ≤ available)
  let numberOfDirectories := (b.u32 (directories - 4)).toNat
  guard (numberOfDirectories ≤ DataDirectory.maxCount)
  guard (directories + numberOfDirectories * DataDirectory.width ≤ available)
  let sections ← readSections
  return some {
    peOffset, numberOfSections, pointerToSymbolTable, numberOfSymbols, sizeOfOptionalHeader, magic
    sectionAlignment := b.u32 (optional + 32)
    fileAlignment := b.u32 (optional + 36)
    sizeOfHeaders := b.u32 (optional + 60)
    numberOfDirectories
    certificateDirectory :=
      if DataDirectory.certificateIndex < numberOfDirectories then
        DataDirectory.decode? b (directories +
          DataDirectory.certificateIndex * DataDirectory.width)
      else none
    sections }

def decode (b : Bytes) : Except Error Headers :=
  match decode? b with
  | none => throw .notExecutable
  | some none => throw .missingOptionalHeader
  | some (some h) => return h

end Headers

end SecureBoot.Pe
