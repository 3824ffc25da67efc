import SecureBoot.Digest.Identifier

/-!
# RSA signatures

A signature is the padded digest of a message, taken as a number and raised to the private exponent.
The padding states which digest it is: behind the octets 00 01 come octets ff, a zero octet, and the
digest with the identifier of its algorithm, all of it as long as the modulus.
-/

namespace SecureBoot.Rsa

/-! ## Powers -/

/-- The binary digits of a number, highest first. -/
def bits (n : Nat) : List Bool := (List.range (n.log2 + 1)).reverse.map n.testBit

/-- A power modulo a number, by squaring for every binary digit of the exponent. -/
def powMod (base exponent modulus : Nat) : Nat :=
  (bits exponent).foldl
    (fun power bit =>
      let square := power * power % modulus
      if bit then square * base % modulus else square)
    (1 % modulus)

/-! ## Keys -/

structure PublicKey where
  modulus : Nat
  exponent : Nat
  deriving DecidableEq, Inhabited, Repr

structure PrivateKey where
  modulus : Nat
  publicExponent : Nat
  privateExponent : Nat
  p : Nat
  q : Nat
  deriving DecidableEq, Inhabited, Repr

/-- Bytes of a number up to a modulus. -/
def sizeOf (modulus : Nat) : Nat := Der.digitCount modulus

/-- The greatest number of binary digits of a modulus that is worked with. -/
def maxBits : Nat := 4096

/-- Whether numbers can serve as a public key: an odd modulus of bounded size, an odd exponent of at
most 33 binary digits below it. -/
def PublicKey.isUsable (k : PublicKey) : Bool :=
  k.modulus.log2 < maxBits && k.modulus % 2 == 1 && k.exponent < k.modulus &&
    k.exponent % 2 == 1 && 2 ≤ k.exponent && k.exponent.log2 < 33

def PrivateKey.publicKey (k : PrivateKey) : PublicKey := ⟨k.modulus, k.publicExponent⟩

/-- Whether the numbers of a private key belong together. -/
def PrivateKey.isUsable (k : PrivateKey) : Bool :=
  k.publicKey.isUsable && 2 ≤ k.p && 2 ≤ k.q && k.p * k.q == k.modulus &&
    [k.p - 1, k.q - 1].all fun m => k.publicExponent * k.privateExponent % m == 1 % m

/-! ## Padding -/

/-- The digest of a message, with the identifier of its algorithm. -/
def digestInfo? (a : DigestAlgorithm) (message : Bytes) : Option Bytes :=
  a.oid?.map fun oid =>
    Der.sequence [Der.sequence [oid.encode, Der.null], Der.octetString (a.digest message)]

/-- The digest of a message padded to `size` bytes, at least eight of them padding. -/
def padded? (size : Nat) (a : DigestAlgorithm) (message : Bytes) : Option Bytes := do
  let info ← digestInfo? a message
  guard (info.length + 11 ≤ size)
  return 0x00 :: 0x01 :: List.replicate (size - info.length - 3) 0xff ++ 0x00 :: info

/-! ## Signing and verifying -/

/-- The signature over a message, if the key is sound and large enough for the digest. -/
def sign? (k : PrivateKey) (a : DigestAlgorithm) (message : Bytes) : Option Bytes := do
  guard k.isUsable
  let size := sizeOf k.modulus
  let block ← padded? size a message
  return Bytes.ofNatBE size (powMod (Bytes.toNatBE block) k.privateExponent k.modulus)

/-- Whether a signature over a message was made with the private half of a key. -/
def verify (k : PublicKey) (a : DigestAlgorithm) (message signature : Bytes) : Bool :=
  let size := sizeOf k.modulus
  let number := Bytes.toNatBE signature
  k.isUsable && signature.length == size && number < k.modulus &&
    padded? size a message == some (Bytes.ofNatBE size (powMod number k.exponent k.modulus))

/-! ## Keys on disk -/

/-- The value of an integer element that is not negative. -/
def natural? (e : Der.Element) : Option Nat := do
  let digits ← e.contentOf? Der.Tag.integer
  guard (digits.head?.any (· < 0x80))
  return Bytes.toNatBE digits

/-- Reads a public key: modulus and exponent. -/
def PublicKey.decode? (b : Bytes) : Option PublicKey := do
  let [modulus, exponent] ← (← Der.single? .lenient b).inside? .lenient Der.Tag.sequence | none
  return ⟨← natural? modulus, ← natural? exponent⟩

/-- Reads a private key: a version, then modulus, exponents and primes, then numbers that follow
from these. -/
def PrivateKey.decode? (b : Bytes) : Option PrivateKey := do
  let fields ← (← Der.single? .lenient b).inside? .lenient Der.Tag.sequence
  let [_, modulus, publicExponent, privateExponent, p, q, _, _, _] ← fields.mapM natural? | none
  return { modulus, publicExponent, privateExponent, p, q }

end SecureBoot.Rsa
