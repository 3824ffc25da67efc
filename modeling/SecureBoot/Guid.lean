import SecureBoot.Bytes
import SecureBoot.Text.Hex

/-!
# GUIDs

An EFI GUID is one 32-bit word, two 16-bit words and eight bytes.

**On disk** (`toBytes`) the three words stand least significant byte first and the eight bytes in
their order. **As a number** (`value`) all sixteen bytes stand most significant first; this is also
the order in which GUIDs are compared. **As text** (`toText`) the number is written in hexadecimal
with a hyphen behind the 8th, 12th, 16th and 20th digit; `parse?` also reads the digits without
hyphens, and the hyphenated form between braces or behind `urn:uuid:` or `URN:UUID:`.
-/

namespace SecureBoot

/-- An EFI GUID. The last eight bytes are kept as one number, first byte highest. -/
structure Guid where
  data1 : UInt32
  data2 : UInt16
  data3 : UInt16
  data4 : UInt64
  deriving DecidableEq, Inhabited, Repr

namespace Guid

/-- Bytes that a GUID takes on disk. -/
def size : Nat := 16

/-! ## Numbers -/

/-- The sixteen bytes as one number. -/
def value (g : Guid) : Nat :=
  ((g.data1.toNat <<< 16 + g.data2.toNat) <<< 16 + g.data3.toNat) <<< 64 + g.data4.toNat

/-- The GUID of a number below 2^128. -/
def ofValue (n : Nat) : Guid where
  data1 := UInt32.ofNat (n >>> 96)
  data2 := UInt16.ofNat (n >>> 80)
  data3 := UInt16.ofNat (n >>> 64)
  data4 := UInt64.ofNat n

theorem ofValue_value (g : Guid) : ofValue g.value = g := by
  have h1 := g.data1.toNat_lt
  have h2 := g.data2.toNat_lt
  have h3 := g.data3.toNat_lt
  have h4 := g.data4.toNat_lt
  obtain ⟨d1, d2, d3, d4⟩ := g
  simp only [ofValue, value, mk.injEq] at *
  refine ⟨?_, ?_, ?_, ?_⟩
  · apply UInt32.toNat.inj; rw [UInt32.toNat_ofNat']; omega
  · apply UInt16.toNat.inj; rw [UInt16.toNat_ofNat']; omega
  · apply UInt16.toNat.inj; rw [UInt16.toNat_ofNat']; omega
  · apply UInt64.toNat.inj; rw [UInt64.toNat_ofNat']; omega

/-! ## Bytes on disk -/

/-- The sixteen bytes on disk. -/
def toBytes (g : Guid) : Bytes :=
  Bytes.ofNatLE 4 g.data1.toNat ++ Bytes.ofNatLE 2 g.data2.toNat ++
    Bytes.ofNatLE 2 g.data3.toNat ++ Bytes.ofNatBE 8 g.data4.toNat

/-- The GUID that the first sixteen bytes hold. -/
def ofBytes (b : Bytes) : Guid where
  data1 := b.u32 0
  data2 := b.u16 4
  data3 := b.u16 6
  data4 := UInt64.ofNat (Bytes.toNatLE (b.slice 8 16).reverse)

@[simp] theorem length_toBytes (g : Guid) : g.toBytes.length = size := by
  simp [toBytes, size]

/-! ## Text -/

/-- The hyphenated lower-case text. -/
def toText (g : Guid) : String :=
  let last := (Text.hexPadded 16 g.data4.toNat).toList
  String.intercalate "-"
    [Text.hexPadded 8 g.data1.toNat, Text.hexPadded 4 g.data2.toNat, Text.hexPadded 4 g.data3.toNat,
      String.ofList (last.take 4), String.ofList (last.drop 4)]

/-- Reads 32 hexadecimal digits. -/
def ofDigits? (cs : List Char) : Option Guid :=
  if cs.length = 32 then (Text.hexNumber? cs).map ofValue else none

/-- Reads 32 hexadecimal digits with hyphens after the 8th, 12th, 16th and 20th. -/
def ofHyphenated? (cs : List Char) : Option Guid :=
  if cs.length = 36 ∧ [8, 13, 18, 23].all (cs[·]? = some '-') then
    ofDigits? (cs.take 8 ++ (cs.drop 9).take 4 ++ (cs.drop 14).take 4 ++ (cs.drop 19).take 4 ++
      cs.drop 24)
  else none

/-- Reads any of the four written forms. -/
def parse? (s : String) : Option Guid :=
  let cs := s.toList
  if cs.length = 32 then ofDigits? cs
  else if cs.length = 38 ∧ cs.head? = some '\x7b' ∧ cs.getLast? = some '\x7d' then
    ofHyphenated? ((cs.drop 1).take 36)
  else if cs.length = 45 ∧
      (cs.take 9 = "urn:uuid:".toList ∨ cs.take 9 = "URN:UUID:".toList) then
    ofHyphenated? (cs.drop 9)
  else ofHyphenated? cs

/-! ## Known signature types -/

/-- The type of a signature list whose entries are X.509 certificates. -/
def x509 : Guid := ⟨0xa5c059a1, 0x94e4, 0x4aa7, 0x87b5ab155c2bf072⟩

/-- The type of a signature list whose entries are SHA-256 digests of images. -/
def sha256 : Guid := ⟨0xc1c41626, 0x504c, 0x4092, 0xaca941f936934328⟩

end Guid

end SecureBoot
