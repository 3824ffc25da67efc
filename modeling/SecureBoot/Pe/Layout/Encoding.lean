import SecureBoot.Pe.Layout

/-!
# Writing a layout

`Layout.encode` writes the headers, then the sections in the order of the section table, each padded
to the file alignment, then symbols and strings, then the overlay.

**Fields that follow from the pieces** (`patches`) are filled in at the end: the counts, the
pointers and sizes, a checksum of zero, and an absent certificate table. Each of them is a range
of the written bytes; one that lies outside is `outOfBounds`.
-/

namespace SecureBoot.Pe.Layout

/-- Refuses a place in the file that a 32-bit field cannot state. -/
def checkOffset (name : String) (offset : Nat) : Except Error Unit :=
  if maxWord < offset then throw (.sectionTooLarge name offset maxWord) else return ()

/-- Section headers and bytes of the sections, laid out from `offset` of the file on. A section
without bytes takes no place, and its pointer is zero. -/
def place (fileAlignment : Nat) : Nat → List Section → Except Error (List SectionHeader × Bytes)
  | _, [] => return ([], [])
  | offset, s :: rest => do
    if s.data.isEmpty then
      let (headers, body) ← place fileAlignment offset rest
      return ({ s.header with pointerToRawData := 0, sizeOfRawData := 0 } :: headers, body)
    checkOffset s.name offset
    let stop := offset + s.data.length
    let next := alignUp stop fileAlignment
    let (headers, body) ← place fileAlignment next rest
    let header := { s.header with
      pointerToRawData := UInt32.ofNat offset
      sizeOfRawData := UInt32.ofNat s.data.length }
    return (header :: headers, s.data ++ Bytes.zeros (next - stop) ++ body)

/-- The headers must end before the first section is mapped. -/
def checkHeaders (l : Layout) : Except Error Unit :=
  match (l.sections.map (·.header.virtualAddress.toNat)).min? with
  | none => return ()
  | some first =>
    let size := l.sizeOfHeaders l.sections.length
    if first < size then throw (.headersOverflow (min size maxWord) first) else return ()

/-- Where the last section ends in memory. -/
def sizeOfImage (l : Layout) (sizeOfHeaders : Nat) : Nat :=
  let alignment := l.sectionAlignment.toNat
  (l.sections.map fun s => alignUp (s.header.virtualAddress.toNat + s.header.span) alignment).foldl
    max (alignUp sizeOfHeaders alignment)

/-- Writes bytes over those from `offset` on. -/
def patch (b : Bytes) (offset : Nat) (bytes : Bytes) : Except Error Bytes :=
  if b.length < offset + bytes.length then
    throw (.outOfBounds offset bytes.length (b.length - offset))
  else return b.overwrite offset bytes

/-- The fields of the headers that follow from the pieces. -/
def patches (l : Layout) (pointerToSymbols numberOfSymbols sizeOfImage sizeOfHeaders : Nat) :
    List (Nat × Bytes) :=
  let coff := l.coffOffset
  let optional := l.optionalOffset
  [(coff + 2, Bytes.ofNatLE 2 l.sections.length),
    (coff + 8, Bytes.ofNatLE 4 pointerToSymbols),
    (coff + 12, Bytes.ofNatLE 4 numberOfSymbols),
    (optional + 56, Bytes.ofNatLE 4 sizeOfImage),
    (optional + 60, Bytes.ofNatLE 4 sizeOfHeaders),
    (optional + Headers.checksumField, Bytes.ofNatLE 4 0)] ++
  (l.certificateDirectoryOffset.map fun offset =>
    (offset, Bytes.zeros DataDirectory.width)).toList

def encode (l : Layout) : Except Error Bytes := do
  checkHeaders l
  let sizeOfHeaders := l.sizeOfHeaders l.sections.length
  let (headers, body) ← place l.fileAlignment.toNat sizeOfHeaders l.sections
  let front := Bytes.padTo (l.front ++ headers.flatMap SectionHeader.encode) sizeOfHeaders
  let sectionsStop := sizeOfHeaders + body.length
  if l.symbols.isSome then checkOffset "symbol table" sectionsStop
  let symbols := (l.symbols.map SymbolTable.encode).getD []
  let whole := front ++ (body ++ (symbols ++ l.overlay))
  checkOffset "image" whole.length
  let imageSize := l.sizeOfImage sizeOfHeaders
  if maxWord < imageSize then throw (.sectionTooLarge "image" imageSize maxWord)
  let pointer := if l.symbols.isSome then sectionsStop else 0
  let count := (l.symbols.map SymbolTable.numberOfSymbols).getD 0
  (l.patches pointer count imageSize sizeOfHeaders).foldlM
    (fun out field => patch out field.1 field.2) whole

end SecureBoot.Pe.Layout
