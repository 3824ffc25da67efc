import SecureBoot.Bytes

/-!
# Sections of a PE executable

The section table has one header of forty bytes for each section. It tells the section's name, where
it is mapped (`virtualAddress`, `virtualSize`) and where its bytes stand in the file
(`pointerToRawData`, `sizeOfRawData`).
-/

namespace SecureBoot.Pe

/-- An entry of the section table. The name is the eight bytes as stored. -/
structure SectionHeader where
  rawName : Bytes
  virtualSize : UInt32 := 0
  virtualAddress : UInt32 := 0
  sizeOfRawData : UInt32 := 0
  pointerToRawData : UInt32 := 0
  pointerToRelocations : UInt32 := 0
  pointerToLinenumbers : UInt32 := 0
  numberOfRelocations : UInt16 := 0
  numberOfLinenumbers : UInt16 := 0
  characteristics : UInt32 := 0
  deriving DecidableEq, Inhabited, Repr

namespace SectionHeader

def size : Nat := 40

/-- Bytes of the name field. -/
def nameSize : Nat := 8

/-- Reads the header at `offset`. -/
def decode (b : Bytes) (offset : Nat) : SectionHeader :=
  let h := b.slice offset (offset + size)
  { rawName := h.take nameSize
    virtualSize := Bytes.u32 h 8
    virtualAddress := Bytes.u32 h 12
    sizeOfRawData := Bytes.u32 h 16
    pointerToRawData := Bytes.u32 h 20
    pointerToRelocations := Bytes.u32 h 24
    pointerToLinenumbers := Bytes.u32 h 28
    numberOfRelocations := Bytes.u16 h 32
    numberOfLinenumbers := Bytes.u16 h 34
    characteristics := Bytes.u32 h 36 }

/-- Reads a number of headers that follow one another. -/
def decodeTable : Nat → Bytes → List SectionHeader
  | 0, _ => []
  | count + 1, b => decode b 0 :: decodeTable count (b.drop size)

def encode (h : SectionHeader) : Bytes :=
  h.rawName ++ Bytes.ofNatLE 4 h.virtualSize.toNat ++ Bytes.ofNatLE 4 h.virtualAddress.toNat ++
    Bytes.ofNatLE 4 h.sizeOfRawData.toNat ++ Bytes.ofNatLE 4 h.pointerToRawData.toNat ++
    Bytes.ofNatLE 4 h.pointerToRelocations.toNat ++
    Bytes.ofNatLE 4 h.pointerToLinenumbers.toNat ++
    Bytes.ofNatLE 2 h.numberOfRelocations.toNat ++
    Bytes.ofNatLE 2 h.numberOfLinenumbers.toNat ++ Bytes.ofNatLE 4 h.characteristics.toNat

/-- Where the bytes of the section end in the file. -/
def rawStop (h : SectionHeader) : Nat := h.pointerToRawData.toNat + h.sizeOfRawData.toNat

/-- The length of a section in memory: its virtual size, or its raw size if that is zero. -/
def span (h : SectionHeader) : Nat :=
  if h.virtualSize = 0 then h.sizeOfRawData.toNat else h.virtualSize.toNat

end SectionHeader

/-- A section with its name in full and its bytes as stored in the file. -/
structure Section where
  name : String
  header : SectionHeader
  data : Bytes
  deriving DecidableEq, Inhabited, Repr

/-- The bytes of a section without the padding behind its virtual size. -/
def Section.content (s : Section) : Bytes :=
  if s.header.virtualSize = 0 then s.data else s.data.take s.header.virtualSize.toNat

end SecureBoot.Pe
