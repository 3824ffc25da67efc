import SecureBoot.EfiImage

/-!
# Checksum of an image

The 16-bit words of the image, the checksum itself left out, are added up with every carry added in
again at the bottom; then the length of the image is added.
-/

namespace SecureBoot.EfiImage

/-- Adds the 16-bit words of some bytes to a sum, and every carry at the bottom. An odd byte at the
end is left out. -/
def addWords (sum : Nat) : Bytes → Nat
  | low :: high :: rest =>
    let total := sum + low.toNat + 256 * high.toNat
    addWords (total % 0x10000 + total / 0x10000) rest
  | _ => sum

/-- The sum of the words with the last carry added in. -/
def foldedSum (sum : Nat) (b : Bytes) : Nat :=
  let total := addWords sum b
  total + total / 0x10000

def computedChecksum (i : EfiImage) : Nat :=
  let front := foldedSum 0 (i.raw.take i.checksum.offset)
  i.raw.length + foldedSum front (i.raw.drop (i.checksum.offset + checksumSize))

/-- The checksum that the headers state. -/
def statedChecksum (i : EfiImage) : UInt32 := i.raw.u32 i.checksum.offset

/-- The bytes of the image with its checksum filled in. -/
def withChecksum (i : EfiImage) : Bytes :=
  i.raw.overwrite i.checksum.offset (Bytes.ofNatLE checksumSize i.computedChecksum)

end SecureBoot.EfiImage
