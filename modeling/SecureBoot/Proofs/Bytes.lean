import Mathlib
import SecureBoot.Bytes

/-!
# Laws of bytes

**Byte by byte.** Two files are compared at their indices: `getElem?_slice` and
`getElem?_overwrite` say which byte of the old file stands at an index of the new one, and
`slice_congr` turns agreement at indices into equal slices. A field that was not written over
reads as before.

**Numbers.** What `ofNatLE` writes, `toNatLE` reads back modulo the width (`toNatLE_ofNatLE`), and
the words `u16` and `u32` see nothing but their own bytes.

**Alignment.** `alignUp` is the least multiple above, a fixed point on multiples.
-/

namespace SecureBoot

/-! ## Alignment -/

theorem le_alignUp (n a : Nat) : n ≤ alignUp n a := by
  unfold alignUp
  split
  · exact le_rfl
  · have h := Nat.div_add_mod (n + a - 1) a
    have hlt := Nat.mod_lt (n + a - 1) (y := a) (by omega)
    rw [Nat.mul_comm] at h
    omega

theorem alignUp_zero (a : Nat) : alignUp 0 a = 0 := by
  unfold alignUp
  split
  · rfl
  · rw [Nat.div_eq_of_lt (by omega), Nat.zero_mul]

theorem alignUp_lt_add {n a : Nat} (ha : 0 < a) : alignUp n a < n + a := by
  unfold alignUp
  split
  · omega
  · have h := Nat.div_mul_le_self (n + a - 1) a
    omega

theorem dvd_alignUp {n a : Nat} (ha : 1 < a) : a ∣ alignUp n a := by
  rw [alignUp, if_neg (by omega)]
  exact Dvd.intro_left _ rfl

/-- Aligning changes nothing exactly on multiples. -/
theorem alignUp_eq_self_iff {n a : Nat} (ha : 1 < a) : alignUp n a = n ↔ a ∣ n := by
  constructor
  · intro h
    rw [← h]
    exact dvd_alignUp ha
  · intro h
    obtain ⟨k, rfl⟩ := h
    rw [alignUp, if_neg (by omega), Nat.add_sub_assoc (by omega), Nat.mul_add_div (by omega),
      Nat.div_eq_of_lt (by omega), Nat.add_zero, Nat.mul_comm]

theorem alignUp_of_le_one {n a : Nat} (ha : a ≤ 1) : alignUp n a = n := by
  rw [alignUp, if_pos ha]

theorem alignUp_of_dvd {n a : Nat} (h : a ∣ n) : alignUp n a = n := by
  by_cases ha : a ≤ 1
  · exact alignUp_of_le_one ha
  · exact (alignUp_eq_self_iff (by omega)).2 h

@[simp] theorem alignUp_alignUp (n a : Nat) : alignUp (alignUp n a) a = alignUp n a := by
  by_cases ha : a ≤ 1
  · rw [alignUp_of_le_one ha, alignUp_of_le_one ha]
  · exact (alignUp_eq_self_iff (by omega)).2 (dvd_alignUp (by omega))

/-- Aligning commutes with adding a number that is aligned itself. -/
theorem alignUp_add {m n a : Nat} (h : alignUp m a = m) : alignUp (m + n) a = m + alignUp n a := by
  by_cases ha : a ≤ 1
  · rw [alignUp_of_le_one ha, alignUp_of_le_one ha]
  · obtain ⟨k, rfl⟩ := (alignUp_eq_self_iff (by omega)).1 h
    rw [alignUp, alignUp, if_neg ha, if_neg ha,
      show a * k + n + a - 1 = a * k + (n + a - 1) by omega, Nat.mul_add_div (by omega),
      Nat.add_mul, Nat.mul_comm k]

theorem alignUp_le_alignUp {m n : Nat} (h : m ≤ n) (a : Nat) : alignUp m a ≤ alignUp n a := by
  unfold alignUp
  split
  · exact h
  · exact Nat.mul_le_mul_right _ (Nat.div_le_div_right (by omega))

/-- Between two multiples there is room for what has room without rounding. -/
theorem add_alignUp_le {start size bound a : Nat} (hstart : alignUp start a = start)
    (hbound : alignUp bound a = bound) (hle : start + size ≤ bound) :
    start + alignUp size a ≤ bound := by
  rw [← alignUp_add hstart, ← hbound]
  exact alignUp_le_alignUp hle a

/-- Rounding takes less than the step from one multiple to another. -/
theorem add_alignUp_le_of_lt {start size middle bound a : Nat} (hmiddle : alignUp middle a = middle)
    (hbound : alignUp bound a = bound) (hle : start + size ≤ middle) (hlt : middle < bound) :
    start + alignUp size a ≤ bound := by
  by_cases ha : a ≤ 1
  · rw [alignUp_of_le_one ha]
    omega
  · have hone : 1 < a := by omega
    have hdvd := Nat.dvd_sub ((alignUp_eq_self_iff hone).1 hbound)
      ((alignUp_eq_self_iff hone).1 hmiddle)
    have hstep := Nat.le_of_dvd (by omega) hdvd
    have hround := alignUp_lt_add (n := size) (a := a) (by omega)
    omega

theorem foldl_max_le_iff {ns : List Nat} {start bound : Nat} :
    ns.foldl max start ≤ bound ↔ start ≤ bound ∧ ∀ n ∈ ns, n ≤ bound := by
  induction ns generalizing start with
  | nil => exact (and_iff_left nofun).symm
  | cons n rest ih => rw [List.foldl_cons, ih, max_le_iff, List.forall_mem_cons, and_assoc]

theorem le_foldl_max (ns : List Nat) (start : Nat) :
    start ≤ ns.foldl max start ∧ ∀ n ∈ ns, n ≤ ns.foldl max start :=
  foldl_max_le_iff.1 le_rfl

/-- The greatest of some multiples is one of them. -/
theorem alignUp_foldl_max {ns : List Nat} {start a : Nat} (hstart : alignUp start a = start)
    (hns : ∀ n ∈ ns, alignUp n a = n) : alignUp (ns.foldl max start) a = ns.foldl max start := by
  induction ns generalizing start with
  | nil => exact hstart
  | cons n rest ih =>
    rw [List.forall_mem_cons] at hns
    refine ih ?_ hns.2
    rcases max_choice start n with h | h <;> rw [h]
    · exact hstart
    · exact hns.1

namespace Bytes

/-! ## Indices -/

theorem getElem?_slice (x : Bytes) (start stop i : Nat) :
    (x.slice start stop)[i]? = if i < stop - start then x[start + i]? else none := by
  rw [slice, List.getElem?_take]
  split
  · rw [List.getElem?_drop]
  · rfl

/-- Files that agree at all indices of a range have the same slice there. -/
theorem slice_congr {x y : Bytes} {start stop : Nat}
    (h : ∀ i, start ≤ i → i < stop → x[i]? = y[i]?) : x.slice start stop = y.slice start stop := by
  apply List.ext_getElem?
  intro i
  rw [getElem?_slice, getElem?_slice]
  split
  · exact h _ (by omega) (by omega)
  · rfl

/-- Files with the same slice agree at all indices of the range. -/
theorem getElem?_eq_of_slice_eq {x y : Bytes} {start stop i : Nat}
    (h : x.slice start stop = y.slice start stop) (hstart : start ≤ i) (hstop : i < stop) :
    x[i]? = y[i]? := by
  have hbyte : (x.slice start stop)[i - start]? = (y.slice start stop)[i - start]? := by rw [h]
  rwa [getElem?_slice, getElem?_slice, if_pos (by omega), if_pos (by omega),
    Nat.add_sub_of_le hstart] at hbyte

/-- Slices of two files at different places, compared index by index. -/
theorem slice_congr_shift {x y : Bytes} {start stop start' stop' : Nat}
    (hlen : stop - start = stop' - start')
    (h : ∀ i, i < stop - start → x[start + i]? = y[start' + i]?) :
    x.slice start stop = y.slice start' stop' := by
  apply List.ext_getElem?
  intro i
  rw [getElem?_slice, getElem?_slice, ← hlen]
  split
  · exact h _ (by assumption)
  · rfl

theorem getElem?_overwrite {x patch : Bytes} {offset : Nat}
    (h : offset + patch.length ≤ x.length) (i : Nat) :
    (x.overwrite offset patch)[i]? =
      if i < offset then x[i]? else if i < offset + patch.length then patch[i - offset]?
      else x[i]? := by
  have hfront : (x.take offset).length = offset := by rw [List.length_take]; omega
  rw [overwrite, List.append_assoc]
  split
  · rw [List.getElem?_append_left (by omega), List.getElem?_take_of_lt (by assumption)]
  · rw [List.getElem?_append_right (by omega), hfront]
    split
    · rw [List.getElem?_append_left (by omega)]
    · rw [List.getElem?_append_right (by omega), List.getElem?_drop]
      congr 1
      omega

theorem getElem?_overwrite_of_disjoint {x patch : Bytes} {offset i : Nat}
    (h : offset + patch.length ≤ x.length) (hi : i < offset ∨ offset + patch.length ≤ i) :
    (x.overwrite offset patch)[i]? = x[i]? := by
  rw [getElem?_overwrite h]
  split
  · rfl
  · rw [if_neg (by omega)]

theorem slice_overwrite_self {x patch : Bytes} {offset : Nat}
    (h : offset + patch.length ≤ x.length) :
    (x.overwrite offset patch).slice offset (offset + patch.length) = patch := by
  apply List.ext_getElem?
  intro i
  rw [getElem?_slice, Nat.add_sub_cancel_left]
  split
  · rw [getElem?_overwrite h, if_neg (by omega), if_pos (by omega), Nat.add_sub_cancel_left]
  · rw [List.getElem?_eq_none (by omega)]

/-- A patch with the bytes that are there already changes nothing. -/
theorem overwrite_slice {x : Bytes} {offset stop : Nat} (h : offset ≤ stop) (hs : stop ≤ x.length) :
    x.overwrite offset (x.slice offset stop) = x := by
  have hlen : (x.slice offset stop).length = stop - offset := length_slice hs
  apply List.ext_getElem?
  intro i
  rw [getElem?_overwrite (by omega)]
  split
  · rfl
  · split
    · rw [getElem?_slice, if_pos (by omega)]
      congr 1
      omega
    · rfl

theorem overwrite_append {x y patch : Bytes} {offset : Nat} (h : offset + patch.length ≤ x.length) :
    (x ++ y).overwrite offset patch = x.overwrite offset patch ++ y := by
  rw [overwrite, overwrite, List.take_append_of_le_length (by omega),
    List.drop_append_of_le_length (by omega), List.append_assoc, List.append_assoc,
    List.append_assoc]

theorem take_overwrite {x : Bytes} {offset : Nat} (h : offset ≤ x.length) (patch : Bytes) :
    (x.overwrite offset patch).take offset = x.take offset := by
  rw [overwrite, List.append_assoc]
  exact List.take_left' (List.length_take_of_le h)

theorem drop_overwrite {x : Bytes} {offset : Nat} (h : offset ≤ x.length) (patch : Bytes) :
    (x.overwrite offset patch).drop (offset + patch.length) = x.drop (offset + patch.length) := by
  rw [overwrite]
  exact List.drop_left' (by rw [List.length_append, List.length_take_of_le h])

/-! ## Slices of pieces -/

theorem slice_zero (x : Bytes) (stop : Nat) : x.slice 0 stop = x.take stop := by
  rw [slice, List.drop_zero, Nat.sub_zero]

theorem slice_length (x : Bytes) (start : Nat) : x.slice start x.length = x.drop start := by
  rw [slice, List.take_of_length_le]
  rw [List.length_drop]

theorem slice_append_left {x y : Bytes} {start stop : Nat} (h : stop ≤ x.length) :
    (x ++ y).slice start stop = x.slice start stop :=
  slice_congr fun _ _ _ => List.getElem?_append_left (by omega)

theorem slice_append_right {x y : Bytes} {start stop : Nat} :
    (x ++ y).slice (x.length + start) (x.length + stop) = y.slice start stop :=
  slice_congr_shift (by omega) fun i _ => by
    rw [List.getElem?_append_right (by omega)]
    congr 1
    omega

theorem slice_append_mid (a x y : Bytes) :
    (a ++ (x ++ y)).slice a.length (a.length + x.length) = x := by
  rw [slice, List.drop_left, Nat.add_sub_cancel_left, List.take_left]

theorem slice_append_slice {x : Bytes} {start mid stop : Nat} (h : start ≤ mid) (h' : mid ≤ stop) :
    x.slice start mid ++ x.slice mid stop = x.slice start stop := by
  rw [slice, slice, slice, show stop - start = (mid - start) + (stop - mid) by omega, List.take_add,
    List.drop_drop, show start + (mid - start) = mid by omega]

theorem slice_slice {x : Bytes} {start stop a b : Nat} (h : start + b ≤ stop) :
    (x.slice start stop).slice a b = x.slice (start + a) (start + b) := by
  rw [slice, slice, slice, List.drop_take, List.drop_drop, List.take_take]
  congr 1
  omega

/-- A slice of full length lies inside. -/
theorem le_length_of_slice {x y : Bytes} {start stop : Nat} (h : x.slice start stop = y)
    (hy : y.length = stop - start) (hlt : start < stop) : stop ≤ x.length := by
  rw [← h, slice, List.length_take, List.length_drop] at hy
  omega

theorem slice_append_drop {x : Bytes} {start mid : Nat} (h : start ≤ mid) :
    x.slice start mid ++ x.drop mid = x.drop start := by
  rw [slice, show x.drop mid = (x.drop start).drop (mid - start) by
    rw [List.drop_drop, Nat.add_sub_of_le h], List.take_append_drop]

/-! ## Padding -/

@[simp] theorem length_zeros (n : Nat) : (zeros n).length = n := List.length_replicate

@[simp] theorem zeros_zero : zeros 0 = [] := rfl

theorem length_padTo (x : Bytes) (n : Nat) : (x.padTo n).length = max x.length n := by
  rw [padTo, List.length_append, length_zeros]
  omega

theorem padTo_of_length_le {x : Bytes} {n : Nat} (h : n ≤ x.length) : x.padTo n = x := by
  rw [padTo, Nat.sub_eq_zero_of_le h, zeros_zero, List.append_nil]

theorem getElem?_padTo_of_lt {x : Bytes} {n i : Nat} (h : i < x.length) :
    (x.padTo n)[i]? = x[i]? := List.getElem?_append_left h

/-! ## Texts -/

/-- Behind its first zero byte a text sees nothing. -/
theorem beforeNul_append {x : Bytes} (h : 0 ∈ x) (y : Bytes) :
    beforeNul (x ++ y) = beforeNul x := by
  induction x with
  | nil => cases h
  | cons byte rest ih =>
    unfold beforeNul at *
    by_cases hbyte : byte = 0
    · subst hbyte
      rfl
    · have hrest : 0 ∈ rest := by
        rcases List.mem_cons.1 h with h | h
        · exact absurd h.symm hbyte
        · exact h
      simp [hbyte, ih hrest]

theorem beforeNul_of_notMem {x : Bytes} (h : 0 ∉ x) (y : Bytes) :
    beforeNul (x ++ 0 :: y) = x := by
  rw [beforeNul, List.takeWhile_append_of_pos fun byte hbyte => ?_]
  · rw [List.takeWhile_cons_of_neg (by simp), List.append_nil]
  · have hne : byte ≠ 0 := fun h0 => h (h0 ▸ hbyte)
    simpa using hne

theorem beforeNul_eq_self {x : Bytes} (h : 0 ∉ x) : beforeNul x = x := by
  rw [beforeNul, List.takeWhile_eq_self_iff]
  intro byte hbyte
  have hne : byte ≠ 0 := fun h0 => h (h0 ▸ hbyte)
  simpa using hne

theorem beforeNul_padTo {x : Bytes} (h : 0 ∉ x) (n : Nat) : beforeNul (x.padTo n) = x := by
  rw [padTo, zeros]
  cases n - x.length with
  | zero => rw [List.replicate_zero, List.append_nil, beforeNul_eq_self h]
  | succ k => rw [List.replicate_succ, beforeNul_of_notMem h]

/-! ## Numbers -/

theorem toNatLE_lt (x : Bytes) : toNatLE x < 256 ^ x.length := by
  induction x with
  | nil => simp [toNatLE]
  | cons d rest ih =>
    have hd : d.toNat < 256 := d.toNat_lt
    rw [toNatLE, List.length_cons, Nat.pow_succ]
    omega

/-- Reading what was written gives the number, less what did not fit. -/
theorem toNatLE_ofNatLE (width n : Nat) : toNatLE (ofNatLE width n) = n % 256 ^ width := by
  induction width generalizing n with
  | zero => simp [ofNatLE, toNatLE, Nat.mod_one]
  | succ width ih =>
    have hdigit : (UInt8.ofNat n).toNat = n % 256 := UInt8.toNat_ofNat'
    rw [ofNatLE, toNatLE, ih, hdigit, Nat.pow_succ, Nat.mul_comm (256 ^ width), Nat.mod_mul]

theorem toNatLE_slice_lt (x : Bytes) (offset width : Nat) :
    toNatLE (x.slice offset (offset + width)) < 256 ^ width := by
  refine (toNatLE_lt _).trans_le (Nat.pow_le_pow_right (by decide) ?_)
  rw [slice, List.length_take]
  omega

/-! ## Words -/

theorem toNat_ofNat_of_le_maxWord {n : Nat} (h : n ≤ maxWord) : (UInt32.ofNat n).toNat = n :=
  UInt32.toNat_ofNat_of_lt' (Nat.lt_succ_of_le h)

theorem u16_congr {x y : Bytes} {offset : Nat}
    (h : ∀ i, offset ≤ i → i < offset + 2 → x[i]? = y[i]?) : x.u16 offset = y.u16 offset := by
  rw [u16, u16, slice_congr h]

theorem u32_congr {x y : Bytes} {offset : Nat}
    (h : ∀ i, offset ≤ i → i < offset + 4 → x[i]? = y[i]?) : x.u32 offset = y.u32 offset := by
  rw [u32, u32, slice_congr h]

theorem toNat_u16 (x : Bytes) (offset : Nat) :
    (x.u16 offset).toNat = toNatLE (x.slice offset (offset + 2)) := by
  rw [u16, UInt16.toNat_ofNat']
  exact Nat.mod_eq_of_lt (toNatLE_slice_lt x offset 2)

theorem toNat_u32 (x : Bytes) (offset : Nat) :
    (x.u32 offset).toNat = toNatLE (x.slice offset (offset + 4)) := by
  rw [u32, UInt32.toNat_ofNat']
  exact Nat.mod_eq_of_lt (toNatLE_slice_lt x offset 4)

/-- A word that was written is read back if it fits. -/
theorem u16_of_slice {x : Bytes} {offset n : Nat}
    (h : x.slice offset (offset + 2) = ofNatLE 2 n) (hn : n < 0x10000) :
    (x.u16 offset).toNat = n := by
  rw [toNat_u16, h, toNatLE_ofNatLE]
  exact Nat.mod_eq_of_lt hn

theorem u32_of_slice {x : Bytes} {offset n : Nat}
    (h : x.slice offset (offset + 4) = ofNatLE 4 n) (hn : n ≤ maxWord) :
    (x.u32 offset).toNat = n := by
  rw [toNat_u32, h, toNatLE_ofNatLE]
  exact Nat.mod_eq_of_lt (by unfold maxWord at hn; omega)

theorem u16_append_right {x y : Bytes} {offset : Nat} (h : x.length ≤ offset) :
    (x ++ y).u16 offset = y.u16 (offset - x.length) := by
  obtain ⟨k, rfl⟩ := Nat.exists_eq_add_of_le h
  rw [u16, u16, Nat.add_assoc, slice_append_right, Nat.add_sub_cancel_left]

theorem u32_append_right {x y : Bytes} {offset : Nat} (h : x.length ≤ offset) :
    (x ++ y).u32 offset = y.u32 (offset - x.length) := by
  obtain ⟨k, rfl⟩ := Nat.exists_eq_add_of_le h
  rw [u32, u32, Nat.add_assoc, slice_append_right, Nat.add_sub_cancel_left]

theorem u16_ofNatLE_append (w : UInt16) (y : Bytes) : (ofNatLE 2 w.toNat ++ y).u16 0 = w := by
  apply UInt16.toNat.inj
  apply u16_of_slice _ w.toNat_lt
  rw [slice_zero]
  exact List.take_left' (length_ofNatLE 2 _)

/-- Of a number that does not fit, the lower bytes are written. -/
theorem toNat_u32_ofNatLE_append_mod (n : Nat) (y : Bytes) :
    ((ofNatLE 4 n ++ y).u32 0).toNat = n % 2 ^ 32 := by
  rw [toNat_u32, slice_zero, List.take_left' (length_ofNatLE 4 n), toNatLE_ofNatLE]
  rfl

theorem toNat_u32_ofNatLE_append {n : Nat} (h : n ≤ maxWord) (y : Bytes) :
    ((ofNatLE 4 n ++ y).u32 0).toNat = n := by
  rw [toNat_u32_ofNatLE_append_mod]
  exact Nat.mod_eq_of_lt (Nat.lt_succ_of_le h)

theorem u32_ofNatLE_append (w : UInt32) (y : Bytes) : (ofNatLE 4 w.toNat ++ y).u32 0 = w :=
  UInt32.toNat.inj (toNat_u32_ofNatLE_append (Nat.le_of_lt_succ w.toNat_lt) y)

theorem u32_ofNatLE (w : UInt32) : (ofNatLE 4 w.toNat).u32 0 = w := by
  rw [← List.append_nil (ofNatLE 4 w.toNat), u32_ofNatLE_append]

/-- Writing a word that was read gives its bytes. -/
theorem ofNatLE_u16 {x : Bytes} {offset : Nat} (h : offset + 2 ≤ x.length) :
    ofNatLE 2 (x.u16 offset).toNat = x.slice offset (offset + 2) := by
  have hlength : (x.slice offset (offset + 2)).length = 2 := by
    rw [length_slice h, Nat.add_sub_cancel_left]
  have hdigits := ofNatLE_toNatLE (x.slice offset (offset + 2))
  rwa [hlength, ← toNat_u16] at hdigits

theorem ofNatLE_u32 {x : Bytes} {offset : Nat} (h : offset + 4 ≤ x.length) :
    ofNatLE 4 (x.u32 offset).toNat = x.slice offset (offset + 4) := by
  have hlength : (x.slice offset (offset + 4)).length = 4 := by
    rw [length_slice h, Nat.add_sub_cancel_left]
  have hdigits := ofNatLE_toNatLE (x.slice offset (offset + 4))
  rwa [hlength, ← toNat_u32] at hdigits

/-- A number that was written in place of another is read back, less what did not fit. -/
theorem u32_overwrite {x : Bytes} {offset : Nat} (h : offset + 4 ≤ x.length) (n : Nat) :
    (x.overwrite offset (ofNatLE 4 n)).u32 offset = UInt32.ofNat n := by
  have hin : offset + (ofNatLE 4 n).length ≤ x.length := by
    rw [length_ofNatLE]
    exact h
  have hslice := slice_overwrite_self hin
  rw [length_ofNatLE] at hslice
  apply UInt32.toNat.inj
  rw [toNat_u32, hslice, toNatLE_ofNatLE, UInt32.toNat_ofNat', show 256 ^ 4 = 2 ^ 32 from rfl]

end Bytes

end SecureBoot
