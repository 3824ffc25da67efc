import SecureBoot.Bytes

/-!
# Base 64

Three bytes are written as four digits of six bits each. Where one or two bytes are left over, the
last group is filled up with padding marks, and the bits that no byte needs are zero. `decode?`
takes exactly what `encode` writes: no blanks, no missing padding, no other value of unused bits.
-/

namespace SecureBoot.Base64

/-- The value of a digit. -/
def digit? (byte : UInt8) : Option Nat :=
  let n := byte.toNat
  if 65 ≤ n ∧ n ≤ 90 then some (n - 65)
  else if 97 ≤ n ∧ n ≤ 122 then some (n - 97 + 26)
  else if 48 ≤ n ∧ n ≤ 57 then some (n - 48 + 52)
  else if n = 43 then some 62
  else if n = 47 then some 63
  else none

/-- The digit for a value below 64. -/
def digit (value : Nat) : UInt8 :=
  UInt8.ofNat
    (if value < 26 then 65 + value
    else if value < 52 then 97 + (value - 26)
    else if value < 62 then 48 + (value - 52)
    else if value = 62 then 43
    else 47)

/-- The padding mark. -/
def pad : UInt8 := 0x3d

def encode : Bytes → Bytes
  | [] => []
  | [a] => [digit (a.toNat / 4), digit (a.toNat % 4 * 16), pad, pad]
  | [a, b] =>
    [digit (a.toNat / 4), digit (a.toNat % 4 * 16 + b.toNat / 16), digit (b.toNat % 16 * 4), pad]
  | a :: b :: c :: rest =>
    digit (a.toNat / 4) :: digit (a.toNat % 4 * 16 + b.toNat / 16) ::
      digit (b.toNat % 16 * 4 + c.toNat / 64) :: digit (c.toNat % 64) :: encode rest

def decode? : Bytes → Option Bytes
  | [] => some []
  | [p, q, 0x3d, 0x3d] => do
    let x ← digit? p
    let y ← digit? q
    guard (y % 16 = 0)
    return [UInt8.ofNat (x * 4 + y / 16)]
  | [p, q, r, 0x3d] => do
    let x ← digit? p
    let y ← digit? q
    let z ← digit? r
    guard (z % 4 = 0)
    return [UInt8.ofNat (x * 4 + y / 16), UInt8.ofNat (y % 16 * 16 + z / 4)]
  | p :: q :: r :: s :: rest => do
    let x ← digit? p
    let y ← digit? q
    let z ← digit? r
    let w ← digit? s
    let tail ← decode? rest
    return UInt8.ofNat (x * 4 + y / 16) :: UInt8.ofNat (y % 16 * 16 + z / 4) ::
      UInt8.ofNat (z % 4 * 64 + w) :: tail
  | _ => none

theorem digit?_digit {value : Nat} (h : value < 64) : digit? (digit value) = some value := by
  revert value
  decide

theorem digit?_pad : digit? pad = none := by decide

end SecureBoot.Base64
