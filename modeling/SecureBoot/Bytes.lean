/-!
# Bytes

Every file, structure and signature of this library is a list of bytes, so that a law about a
format is a law about lists.

**Numbers** are written as a fixed count of base-256 digits, least significant first
(`ofNatLE`) or last (`ofNatBE`); what does not fit is cut off. Writing a number that was read from
as many bytes gives these bytes again (`ofNatLE_toNatLE`).

**Ranges.** `slice b start stop` is what `b` holds from `start` up to `stop`, shorter where `b`
ends earlier. `overwrite` replaces bytes in place and keeps the length when the range lies inside.

**Alignment.** `alignUp` is the next multiple; an alignment of 0 or 1 leaves the number alone.
-/

namespace SecureBoot

/-- A run of bytes. -/
abbrev Bytes := List UInt8

/-- The greatest value of a 32-bit field. -/
def maxWord : Nat := 0xffffffff

/-- Whether a number is a power of two. -/
def isPowerOfTwo (n : Nat) : Bool := n != 0 && 1 <<< n.log2 == n

/-- The least multiple of `alignment` that is not below `value`. -/
def alignUp (value alignment : Nat) : Nat :=
  if alignment ≤ 1 then value else (value + alignment - 1) / alignment * alignment

namespace Bytes

/-! ## Numbers -/

/-- The lowest `width` base-256 digits of a number, least significant first. -/
def ofNatLE : Nat → Nat → Bytes
  | 0, _ => []
  | width + 1, n => UInt8.ofNat n :: ofNatLE width (n / 256)

/-- The number whose base-256 digits these are, least significant first. -/
def toNatLE : Bytes → Nat
  | [] => 0
  | b :: rest => b.toNat + 256 * toNatLE rest

/-- The lowest `width` base-256 digits of a number, most significant first. -/
def ofNatBE (width n : Nat) : Bytes := (ofNatLE width n).reverse

/-- The number whose base-256 digits these are, most significant first. -/
def toNatBE (b : Bytes) : Nat := b.foldl (fun n digit => 256 * n + digit.toNat) 0

@[simp] theorem length_ofNatLE (width n : Nat) : (ofNatLE width n).length = width := by
  induction width generalizing n with
  | zero => rfl
  | succ width ih => simp [ofNatLE, ih]

@[simp] theorem length_ofNatBE (width n : Nat) : (ofNatBE width n).length = width := by
  simp [ofNatBE]

/-- Writing the number read from some bytes gives these bytes. -/
theorem ofNatLE_toNatLE (b : Bytes) : ofNatLE b.length (toNatLE b) = b := by
  induction b with
  | nil => rfl
  | cons x rest ih =>
    have hx : x.toNat < 256 := x.toNat_lt
    have hdiv : (x.toNat + 256 * toNatLE rest) / 256 = toNatLE rest := by omega
    have hdigit : UInt8.ofNat (x.toNat + 256 * toNatLE rest) = x := by
      apply UInt8.toNat.inj
      rw [UInt8.toNat_ofNat']
      omega
    simp only [toNatLE, List.length_cons, ofNatLE, hdiv, hdigit, ih]

/-! ## Ranges -/

/-- The bytes from `start` up to `stop`. -/
def slice (b : Bytes) (start stop : Nat) : Bytes := (b.drop start).take (stop - start)

theorem length_slice {b : Bytes} {start stop : Nat} (h : stop ≤ b.length) :
    (b.slice start stop).length = stop - start := by
  simp [slice]; omega

/-- Replaces as many bytes as `patch` has, from `offset` on. -/
def overwrite (b : Bytes) (offset : Nat) (patch : Bytes) : Bytes :=
  b.take offset ++ patch ++ b.drop (offset + patch.length)

theorem length_overwrite {b patch : Bytes} {offset : Nat} (h : offset + patch.length ≤ b.length) :
    (b.overwrite offset patch).length = b.length := by
  simp [overwrite]; omega

/-- The 16-bit word at `offset`, least significant byte first. -/
def u16 (b : Bytes) (offset : Nat) : UInt16 := UInt16.ofNat (toNatLE (b.slice offset (offset + 2)))

/-- The 32-bit word at `offset`, least significant byte first. -/
def u32 (b : Bytes) (offset : Nat) : UInt32 := UInt32.ofNat (toNatLE (b.slice offset (offset + 4)))

/-- Bytes that are all zero. -/
def zeros (count : Nat) : Bytes := List.replicate count 0

/-- Zero bytes are added until the length is `length`; longer bytes stay as they are. -/
def padTo (b : Bytes) (length : Nat) : Bytes := b ++ zeros (length - b.length)

/-- What precedes the first zero byte, or everything where there is none. -/
def beforeNul (b : Bytes) : Bytes := b.takeWhile (· != 0)

end Bytes

end SecureBoot
