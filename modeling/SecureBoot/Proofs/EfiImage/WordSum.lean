import Mathlib
import SecureBoot.EfiImage.Checksum
import SecureBoot.Proofs.Bytes

/-!
# Sums of words with their carries

`addWords` adds every carry in again before it takes the next word, and `foldedSum` does so once
more at the end. `wordSum` is the plain sum of the words, of any size, and `folded` what is left of
a number once all carries have come back in.

**Theorem (`foldedSum_eq`).** Starting from a sum of 16 bits, adding words with their carries gives
the folded plain sum.

Adding a carry in again takes away a multiple of 65535, so what is left is known modulo 65535. It
does not lie above 65535, and is zero only if nothing but zeros was added: that tells 0 and 65535
apart.

**Machine words** (`foldedSum?_eq`). Between two words the sum has 16 bits, so no sum on the way
needs more than 17.
-/

namespace SecureBoot.EfiImage

variable {sum m n : Nat} {b : Bytes}

/-! ## Plain sums -/

/-- The sum of the 16-bit words of some bytes, of which an odd one at the end is left out. -/
def wordSum : Bytes → Nat
  | low :: high :: rest => low.toNat + 256 * high.toNat + wordSum rest
  | _ => 0

theorem wordSum_append (heven : 2 ∣ b.length) (c : Bytes) :
    wordSum (b ++ c) = wordSum b + wordSum c := by
  induction b using wordSum.induct with
  | case1 low high rest ih =>
    have hrest : 2 ∣ rest.length := (Nat.dvd_add_left (Nat.dvd_refl 2)).1 heven
    rw [List.cons_append, List.cons_append, wordSum, wordSum, ih hrest, ← Nat.add_assoc]
  | case2 b hshort =>
    match b, hshort, heven with
    | [], _, _ => exact (Nat.zero_add _).symm
    | [_], _, hodd => exact absurd (Nat.dvd_one.1 hodd) (by decide)
    | _ :: _ :: _, hshort, _ => exact absurd rfl (hshort _ _ _)

/-! ## Carries -/

/-- What is left of a number once all carries from its lowest 16 bits have been added in again. -/
def folded (n : Nat) : Nat := if n = 0 then 0 else (n - 1) % 0xffff + 1

theorem folded_le (n : Nat) : folded n ≤ 0xffff := by
  unfold folded
  split <;> omega

theorem folded_of_le (h : n ≤ 0xffff) : folded n = n := by
  unfold folded
  split <;> omega

/-- Adding in the carry of a part changes nothing. -/
theorem folded_carry_add (m n : Nat) : folded (m % 0x10000 + m / 0x10000 + n) = folded (m + n) := by
  unfold folded
  split <;> split <;> omega

theorem folded_folded_add (m n : Nat) : folded (folded m + n) = folded (m + n) := by
  unfold folded
  split <;> split <;> split <;> omega

/-- The carry of two sums of 16 bits fits beside their lowest 16 bits. -/
theorem carry_le (hsum : sum ≤ 0xffff) (low high : UInt8) :
    (sum + low.toNat + 256 * high.toNat) % 0x10000 +
      (sum + low.toNat + 256 * high.toNat) / 0x10000 ≤ 0xffff := by
  have hlow := low.toNat_lt
  have hhigh := high.toNat_lt
  omega

theorem addWords_eq (hsum : sum ≤ 0xffff) : addWords sum b = folded (sum + wordSum b) := by
  induction sum, b using addWords.induct with
  | case1 sum low high rest total ih =>
    rw [addWords, ih (carry_le hsum low high), folded_carry_add, wordSum]
    congr 1
    omega
  | case2 sum b hshort =>
    rw [addWords, wordSum, Nat.add_zero, folded_of_le hsum]
    · exact hshort
    · exact hshort

theorem addWords_le (hsum : sum ≤ 0xffff) : addWords sum b ≤ 0xffff := by
  rw [addWords_eq hsum]
  exact folded_le _

theorem foldedSum_eq (hsum : sum ≤ 0xffff) : foldedSum sum b = folded (sum + wordSum b) := by
  rw [foldedSum, Nat.div_eq_of_lt (Nat.lt_succ_of_le (addWords_le hsum)), Nat.add_zero,
    addWords_eq hsum]

theorem foldedSum_le (hsum : sum ≤ 0xffff) : foldedSum sum b ≤ 0xffff := by
  rw [foldedSum_eq hsum]
  exact folded_le _

/-! ## Machine words -/

/-- The sum of two 32-bit words, if it is one. -/
def add? (m n : Nat) : Option Nat := if m + n ≤ maxWord then some (m + n) else none

theorem add?_eq (h : m + n ≤ maxWord) : add? m n = some (m + n) := if_pos h

/-- What `addWords` computes, if every sum on the way is a 32-bit word. -/
def addWords? (sum : Nat) : Bytes → Option Nat
  | low :: high :: rest => do
    let total ← add? (low.toNat + 256 * high.toNat) sum
    addWords? (← add? (total % 0x10000) (total / 0x10000)) rest
  | _ => some sum

/-- What `foldedSum` computes, if every sum on the way is a 32-bit word. -/
def foldedSum? (sum : Nat) (b : Bytes) : Option Nat := do
  let total ← addWords? sum b
  add? total (total / 0x10000)

theorem addWords?_eq (hsum : sum ≤ 0xffff) : addWords? sum b = some (addWords sum b) := by
  induction sum, b using addWords.induct with
  | case1 sum low high rest total ih =>
    have hcarry := carry_le hsum low high
    have htotal : low.toNat + 256 * high.toNat + sum = total := by
      dsimp only [total]
      omega
    have hlow := low.toNat_lt
    have hhigh := high.toNat_lt
    rw [addWords?, add?_eq (by unfold maxWord; omega), htotal]
    change (add? (total % 0x10000) (total / 0x10000) >>= fun s => addWords? s rest) = _
    rw [add?_eq (hcarry.trans (by decide))]
    exact ih hcarry
  | case2 sum b hshort =>
    rw [addWords?, addWords]
    · exact hshort
    · exact hshort

theorem foldedSum?_eq (hsum : sum ≤ 0xffff) : foldedSum? sum b = some (foldedSum sum b) := by
  have hle : addWords sum b ≤ 0xffff := addWords_le hsum
  rw [foldedSum?, addWords?_eq hsum]
  exact add?_eq (by unfold maxWord; omega)

end SecureBoot.EfiImage
