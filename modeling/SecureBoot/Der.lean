import SecureBoot.Bytes

/-!
# Distinguished encoding

Certificates, keys and signatures are trees of elements (ASN.1). An **element** is one identifier
octet, the length of its content, and the content; of a constructed element the content is a row of
further elements. The distinguished encoding (DER) writes every length in the shortest way.

This module writes elements; `SecureBoot.Der.Reading` reads them.
-/

namespace SecureBoot.Der

/-- An identifier octet and the content that it describes. -/
structure Element where
  tag : UInt8
  content : Bytes
  deriving DecidableEq, Inhabited, Repr

/-! ## Identifier octets -/

namespace Tag

def boolean : UInt8 := 0x01
def integer : UInt8 := 0x02
def bitString : UInt8 := 0x03
def octetString : UInt8 := 0x04
def null : UInt8 := 0x05
def objectIdentifier : UInt8 := 0x06
def utcTime : UInt8 := 0x17
def generalizedTime : UInt8 := 0x18
def sequence : UInt8 := 0x30
def set : UInt8 := 0x31

/-- The identifier octet of a field that is told apart by its number, with elements inside. -/
def context (number : Nat) : UInt8 := UInt8.ofNat (0xa0 + number)

/-- The same without elements inside. -/
def contextPrimitive (number : Nat) : UInt8 := UInt8.ofNat (0x80 + number)

end Tag

/-! ## Writing -/

/-- How many base-256 digits a number has; zero has one. -/
def digitCount (n : Nat) : Nat := n.log2 / 8 + 1

/-- A length below 128 is one octet; a longer one is the number of its digits and the digits. -/
def encodeLength (n : Nat) : Bytes :=
  if n < 128 then [UInt8.ofNat n]
  else UInt8.ofNat (128 + digitCount n) :: Bytes.ofNatBE (digitCount n) n

def Element.encode (e : Element) : Bytes := e.tag :: encodeLength e.content.length ++ e.content

/-- An element written out. -/
def element (tag : UInt8) (content : Bytes) : Bytes := Element.encode ⟨tag, content⟩

/-- A constructed element around elements already written. -/
def sequence (parts : List Bytes) : Bytes := element Tag.sequence parts.flatten

def set (parts : List Bytes) : Bytes := element Tag.set parts.flatten

/-- A numbered field around elements already written. -/
def context (number : Nat) (parts : List Bytes) : Bytes :=
  element (Tag.context number) parts.flatten

def octetString (content : Bytes) : Bytes := element Tag.octetString content

def null : Bytes := element Tag.null []

/-- An integer below 128. -/
def smallInteger (n : Nat) : Bytes := element Tag.integer [UInt8.ofNat n]

end SecureBoot.Der
