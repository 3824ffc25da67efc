import SecureBoot.Digest.Blocks

/-!
# SHA-1

Five words of state, eighty steps to a block over a schedule that extends the sixteen words of the
block.
-/

namespace SecureBoot.Digest.Sha1

structure State where
  a : UInt32
  b : UInt32
  c : UInt32
  d : UInt32
  e : UInt32

def start : State := ⟨0x67452301, 0xefcdab89, 0x98badcfe, 0x10325476, 0xc3d2e1f0⟩

/-- Extends the schedule by `count` words. -/
def extend : Nat → Array UInt32 → Array UInt32
  | 0, w => w
  | count + 1, w =>
    let n := w.size
    let word := w.getD (n - 3) 0 ^^^ w.getD (n - 8) 0 ^^^ w.getD (n - 14) 0 ^^^ w.getD (n - 16) 0
    extend count (w.push (rotateLeft32 word 1))

/-- The Boolean function of a step and its constant. -/
def mix (step : Nat) (s : State) : UInt32 :=
  match step / 20 with
  | 0 => ((s.b &&& s.c) ||| (~~~s.b &&& s.d)) + 0x5a827999
  | 1 => (s.b ^^^ s.c ^^^ s.d) + 0x6ed9eba1
  | 2 => ((s.b &&& s.c) ||| (s.b &&& s.d) ||| (s.c &&& s.d)) + 0x8f1bbcdc
  | _ => (s.b ^^^ s.c ^^^ s.d) + 0xca62c1d6

def step (s : State) (i : Nat) (word : UInt32) : State :=
  ⟨rotateLeft32 s.a 5 + mix i s + s.e + word, s.a, rotateLeft32 s.b 30, s.c, s.d⟩

def compress (s : State) (block : Bytes) : State :=
  let schedule := extend 64 (wordsBE32 block)
  let r := (schedule.foldl (fun (s, i) word => (step s i word, i + 1)) (s, 0)).1
  ⟨s.a + r.a, s.b + r.b, s.c + r.c, s.d + r.d, s.e + r.e⟩

end Sha1

/-- The SHA-1 digest, 20 bytes. -/
def sha1 (message : Bytes) : Bytes :=
  let s := runBlocks 64 (Bytes.ofNatBE 8) Sha1.compress Sha1.start message
  [s.a, s.b, s.c, s.d, s.e].flatMap fun w => Bytes.ofNatBE 4 w.toNat

end SecureBoot.Digest
