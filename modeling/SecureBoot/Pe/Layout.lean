import SecureBoot.Pe.SymbolTable

/-!
# Editable layout of a PE executable

A `Layout` holds an executable in pieces: the `front` (all headers up to the section table), the
sections with their bytes, the COFF symbols and strings, and the `overlay`, that is whatever follows
in the file. Where a piece stands in the file is worked out anew when the layout is written, so
sections come and go without any offset being mended by hand.

**Signatures are left behind.** The certificate table belongs to no piece; a layout only remembers
that there was one (`hadSignatures`).
-/

namespace SecureBoot.Pe

structure Layout where
  front : Bytes
  /-- Offset of the COFF header. -/
  coffOffset : Nat
  /-- Offset of the directory entry for the certificate table, if it is counted. -/
  certificateDirectoryOffset : Option Nat
  fileAlignment : UInt32
  sectionAlignment : UInt32
  sections : List Section
  symbols : Option SymbolTable
  overlay : Bytes
  hadSignatures : Bool
  deriving DecidableEq, Inhabited, Repr

namespace Layout

def optionalOffset (l : Layout) : Nat := l.coffOffset + Headers.coffSize

/-- The first section of a name. -/
def section? (l : Layout) (name : String) : Option Section := l.sections.find? (·.name = name)

/-- The space that the headers take with a number of sections. -/
def sizeOfHeaders (l : Layout) (sections : Nat) : Nat :=
  alignUp (l.front.length + sections * SectionHeader.size) l.fileAlignment.toNat

/-! ## Reading -/

/-- The name of a section in full: what its name field holds up to the first zero byte or, if that
begins with a slash, the text of the string table at the offset behind the slash. -/
def sectionName (rawName : Bytes) (symbols : Option SymbolTable) : Except Error String :=
  let short := Text.decodeLossy (Bytes.beforeNul rawName)
  match short.toList with
  | '/' :: digits =>
    match Headers.decimalOffset? digits with
    | none => throw (.badSectionName short .badOffset)
    | some offset =>
      match symbols.bind (·.lookup? offset) with
      | none => throw (.badSectionName short .noEntry)
      | some long => return long
  | _ => return short

/-- A section with its name and its bytes. -/
def readSection (b : Bytes) (symbols : Option SymbolTable) (header : SectionHeader) :
    Except Error Section := do
  let name ← sectionName header.rawName symbols
  if header.sizeOfRawData = 0 then return { name, header, data := [] }
  let available := b.length
  let start := header.pointerToRawData.toNat
  if available < header.rawStop then
    throw (.truncated .sectionData start header.sizeOfRawData.toNat (available - start))
  return { name, header, data := b.slice start header.rawStop }

/-- The certificate table, unless its size is zero; it must lie inside the file. -/
def certificateRange (b : Bytes) (h : Headers) : Except Error (Option DataDirectory) :=
  match h.certificateDirectory with
  | none => return none
  | some d =>
    if d.size = 0 then return none
    else if b.length < d.stop then
      throw (.truncated .certificateTable d.address.toNat d.size.toNat
        (b.length - d.address.toNat))
    else return some d

/-- Where headers, sections and symbols all have ended. -/
def tailStart (b : Bytes) (h : Headers) (sections : List Section) (symbols : Option SymbolTable) :
    Nat :=
  let ofSections := (sections.filter fun s => s.header.sizeOfRawData ≠ 0).map (·.header.rawStop)
  let ofSymbols := symbols.map fun t =>
    h.pointerToSymbolTable + t.symbols.length + t.strings.length
  (ofSections ++ ofSymbols.toList).foldl max (min h.sizeOfHeaders.toNat b.length)

/-- The bytes from `start` on, less those of the certificate table. -/
def overlayFrom (b : Bytes) (start : Nat) : Option DataDirectory → Bytes
  | none => b.drop start
  | some d => b.slice start d.address.toNat ++ b.drop (max d.stop start)

def decode (b : Bytes) : Except Error Layout := do
  let h ← Headers.decode b
  let certificates ← certificateRange b h
  let symbols ← SymbolTable.decode b h.pointerToSymbolTable h.numberOfSymbols
  let sections ← h.sections.mapM (readSection b symbols)
  if b.length < h.tableOffset then throw (.outOfBounds 0 h.tableOffset b.length)
  return {
    front := b.take h.tableOffset
    coffOffset := h.coffOffset
    certificateDirectoryOffset :=
      if DataDirectory.certificateIndex < h.numberOfDirectories then
        some h.certificateDirectoryOffset
      else none
    fileAlignment := h.fileAlignment
    sectionAlignment := h.sectionAlignment
    sections
    symbols
    overlay := overlayFrom b (tailStart b h sections symbols) certificates
    hadSignatures := certificates.isSome }

end Layout

end SecureBoot.Pe
