import SecureBoot.Digest.Blocks

/-!
# SHA-224 and SHA-256

The SHA-2 digests with 32-bit words: eight words of state, 64 steps to a block. The shorter digest
starts from other words and leaves out the last ones of the result.
-/

namespace SecureBoot.Digest.Sha256

structure State where
  a : UInt32
  b : UInt32
  c : UInt32
  d : UInt32
  e : UInt32
  f : UInt32
  g : UInt32
  h : UInt32

/-- The words that SHA-256 starts from. -/
def start256 : State :=
  ⟨0x6a09e667, 0xbb67ae85, 0x3c6ef372, 0xa54ff53a,
    0x510e527f, 0x9b05688c, 0x1f83d9ab, 0x5be0cd19⟩

/-- The words that SHA-224 starts from. -/
def start224 : State :=
  ⟨0xc1059ed8, 0x367cd507, 0x3070dd17, 0xf70e5939,
    0xffc00b31, 0x68581511, 0x64f98fa7, 0xbefa4fa4⟩

/-- The added constant of each step: the fraction of the cube root of a prime. -/
def constants : List UInt32 := [
  0x428a2f98, 0x71374491, 0xb5c0fbcf, 0xe9b5dba5, 0x3956c25b, 0x59f111f1,
  0x923f82a4, 0xab1c5ed5, 0xd807aa98, 0x12835b01, 0x243185be, 0x550c7dc3,
  0x72be5d74, 0x80deb1fe, 0x9bdc06a7, 0xc19bf174, 0xe49b69c1, 0xefbe4786,
  0x0fc19dc6, 0x240ca1cc, 0x2de92c6f, 0x4a7484aa, 0x5cb0a9dc, 0x76f988da,
  0x983e5152, 0xa831c66d, 0xb00327c8, 0xbf597fc7, 0xc6e00bf3, 0xd5a79147,
  0x06ca6351, 0x14292967, 0x27b70a85, 0x2e1b2138, 0x4d2c6dfc, 0x53380d13,
  0x650a7354, 0x766a0abb, 0x81c2c92e, 0x92722c85, 0xa2bfe8a1, 0xa81a664b,
  0xc24b8b70, 0xc76c51a3, 0xd192e819, 0xd6990624, 0xf40e3585, 0x106aa070,
  0x19a4c116, 0x1e376c08, 0x2748774c, 0x34b0bcb5, 0x391c0cb3, 0x4ed8aa4a,
  0x5b9cca4f, 0x682e6ff3, 0x748f82ee, 0x78a5636f, 0x84c87814, 0x8cc70208,
  0x90befffa, 0xa4506ceb, 0xbef9a3f7, 0xc67178f2]

/-- Extends the schedule by `count` words. -/
def extend : Nat → Array UInt32 → Array UInt32
  | 0, w => w
  | count + 1, w =>
    let n := w.size
    let x := w.getD (n - 15) 0
    let y := w.getD (n - 2) 0
    let low := rotateRight32 x 7 ^^^ rotateRight32 x 18 ^^^ x >>> 3
    let high := rotateRight32 y 17 ^^^ rotateRight32 y 19 ^^^ y >>> 10
    extend count (w.push (w.getD (n - 16) 0 + low + w.getD (n - 7) 0 + high))

def step (s : State) (constant word : UInt32) : State :=
  let sum := s.h + (rotateRight32 s.e 6 ^^^ rotateRight32 s.e 11 ^^^ rotateRight32 s.e 25) +
    ((s.e &&& s.f) ^^^ (~~~s.e &&& s.g)) + constant + word
  let majority := (s.a &&& s.b) ^^^ (s.a &&& s.c) ^^^ (s.b &&& s.c)
  let turned := rotateRight32 s.a 2 ^^^ rotateRight32 s.a 13 ^^^ rotateRight32 s.a 22
  ⟨sum + turned + majority, s.a, s.b, s.c, s.d + sum, s.e, s.f, s.g⟩

def compress (s : State) (block : Bytes) : State :=
  let schedule := extend 48 (wordsBE32 block)
  let r := (constants.foldl
    (fun (s, i) constant => (step s constant (schedule.getD i 0), i + 1)) (s, 0)).1
  ⟨s.a + r.a, s.b + r.b, s.c + r.c, s.d + r.d, s.e + r.e, s.f + r.f, s.g + r.g, s.h + r.h⟩

def State.toBytes (s : State) : Bytes :=
  [s.a, s.b, s.c, s.d, s.e, s.f, s.g, s.h].flatMap fun w => Bytes.ofNatBE 4 w.toNat

def digest (start : State) (message : Bytes) : Bytes :=
  (runBlocks 64 (Bytes.ofNatBE 8) compress start message).toBytes

end Sha256

/-- The SHA-224 digest, 28 bytes. -/
def sha224 (message : Bytes) : Bytes := (Sha256.digest Sha256.start224 message).take 28

/-- The SHA-256 digest, 32 bytes. -/
def sha256 (message : Bytes) : Bytes := (Sha256.digest Sha256.start256 message).take 32

end SecureBoot.Digest
