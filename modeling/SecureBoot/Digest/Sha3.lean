import SecureBoot.Digest.Blocks

/-!
# SHA-3

The sponge over the permutation Keccak-f[1600]. The state is a square of five by five lanes of 64
bits, lane `(x, y)` at index `x + 5 * y`. A message is taken in blocks that fill the first lanes;
the digest is read from the first lanes at the end.
-/

namespace SecureBoot.Digest.Sha3

/-- The twenty-five lanes. -/
abbrev Lanes := Array UInt64

/-- The constant of each round. -/
def roundConstants : List UInt64 := [
  0x0000000000000001, 0x0000000000008082, 0x800000000000808a, 0x8000000080008000,
  0x000000000000808b, 0x0000000080000001, 0x8000000080008081, 0x8000000000008009,
  0x000000000000008a, 0x0000000000000088, 0x0000000080008009, 0x000000008000000a,
  0x000000008000808b, 0x800000000000008b, 0x8000000000008089, 0x8000000000008003,
  0x8000000000008002, 0x8000000000000080, 0x000000000000800a, 0x800000008000000a,
  0x8000000080008081, 0x8000000000008080, 0x0000000080000001, 0x8000000080008008]

/-- How far each lane is rotated, by its index. -/
def rotations : Array UInt64 := #[
  0, 1, 62, 28, 27,
  36, 44, 6, 55, 20,
  3, 10, 43, 25, 39,
  41, 45, 15, 21, 8,
  18, 2, 61, 56, 14]

/-- Adds to every lane the parities of the two columns beside it. -/
def theta (s : Lanes) : Lanes :=
  let column := fun x => s.getD x 0 ^^^ s.getD (x + 5) 0 ^^^ s.getD (x + 10) 0 ^^^
    s.getD (x + 15) 0 ^^^ s.getD (x + 20) 0
  let columns := (Array.range 5).map column
  (Array.range 25).map fun i =>
    let x := i % 5
    s.getD i 0 ^^^ columns.getD ((x + 4) % 5) 0 ^^^
      rotateLeft64 (columns.getD ((x + 1) % 5) 0) 1

/-- Rotates the lanes and moves each to its new place. -/
def rhoPi (s : Lanes) : Lanes :=
  (Array.range 25).map fun i =>
    let x := i % 5
    let y := i / 5
    let j := (x + 3 * y) % 5 + 5 * x
    rotateLeft64 (s.getD j 0) (rotations.getD j 0)

/-- Combines each lane with the two beside it in its row. -/
def chi (s : Lanes) : Lanes :=
  (Array.range 25).map fun i =>
    let x := i % 5
    let row := i - x
    s.getD i 0 ^^^ (~~~(s.getD (row + (x + 1) % 5) 0) &&& s.getD (row + (x + 2) % 5) 0)

def round (s : Lanes) (constant : UInt64) : Lanes :=
  (chi (rhoPi (theta s))).modify 0 (· ^^^ constant)

def permute (s : Lanes) : Lanes := roundConstants.foldl round s

/-- Adds a block to the first lanes and permutes. -/
def absorb (s : Lanes) (block : Bytes) : Lanes :=
  permute (go s 0 block (block.length / 8))
where
  go (s : Lanes) (i : Nat) (b : Bytes) : Nat → Lanes
    | 0 => s
    | count + 1 =>
      go (s.modify i (· ^^^ UInt64.ofNat (Bytes.toNatLE (b.take 8)))) (i + 1) (b.drop 8) count

/-- The message with its padding: the bits 01, a one bit, zero bits, and a final one bit. -/
def padded (rate : Nat) (message : Bytes) : Bytes :=
  let missing := rate - message.length % rate
  if missing = 1 then message ++ [0x86]
  else message ++ 0x06 :: (Bytes.zeros (missing - 2) ++ [0x80])

/-- The digest of `size` bytes. -/
def digest (size : Nat) (message : Bytes) : Bytes :=
  let rate := 200 - 2 * size
  let whole := padded rate message
  let s := foldBlocks rate absorb (whole.length / rate) (Array.replicate 25 0) whole
  (s.toList.flatMap fun lane => Bytes.ofNatLE 8 lane.toNat).take size

end Sha3

/-- The SHA3-256 digest, 32 bytes. -/
def sha3_256 (message : Bytes) : Bytes := Sha3.digest 32 message

/-- The SHA3-384 digest, 48 bytes. -/
def sha3_384 (message : Bytes) : Bytes := Sha3.digest 48 message

/-- The SHA3-512 digest, 64 bytes. -/
def sha3_512 (message : Bytes) : Bytes := Sha3.digest 64 message

end SecureBoot.Digest
