import Mathlib
import SecureBoot.Pe.Section
import SecureBoot.Proofs.Bytes

/-!
# Laws of section headers

A header that was written is read back (`decode_of_slice`), and so is a whole section table
(`decode_of_flatMap_encode`), if every name fills its field. The table is read from front to end in
one go, which gives the header at each of its places (`decodeTable_drop`).
-/

namespace SecureBoot.Pe.SectionHeader

/-- Whether the name fills the name field. -/
def HasWholeName (h : SectionHeader) : Prop := h.rawName.length = nameSize

theorem pointerToRawData_lt_rawStop_iff {h : SectionHeader} :
    h.pointerToRawData.toNat < h.rawStop ↔ h.sizeOfRawData ≠ 0 := by
  rw [rawStop, Nat.lt_add_right_iff_pos, Nat.pos_iff_ne_zero, Ne, Ne, ← UInt32.toNat_inj]
  rfl

theorem length_encode {h : SectionHeader} (hname : h.HasWholeName) : h.encode.length = size := by
  have hlength : h.rawName.length = 8 := hname
  simp [encode, size, hlength]

theorem hasWholeName_decode {x : Bytes} {offset : Nat} (h : offset + size ≤ x.length) :
    (decode x offset).HasWholeName := by
  rw [HasWholeName, decode, List.length_take, Bytes.length_slice h, Nat.add_sub_cancel_left]
  rfl

theorem decode_of_slice {x : Bytes} {offset : Nat} {h : SectionHeader} (hname : h.HasWholeName)
    (hx : x.slice offset (offset + size) = h.encode) : decode x offset = h := by
  have hlength : h.rawName.length = 8 := hname
  rw [decode, hx]
  simp [encode, nameSize, hlength, Bytes.u16_append_right, Bytes.u32_append_right,
    Bytes.u16_ofNatLE_append, Bytes.u32_ofNatLE_append, Bytes.u32_ofNatLE]

theorem decode_drop (x : Bytes) (offset : Nat) : decode (x.drop offset) 0 = decode x offset := by
  rw [decode, decode, Bytes.slice, Bytes.slice, List.drop_zero, Nat.zero_add, Nat.sub_zero,
    Nat.add_sub_cancel_left]

/-- Headers that follow one another are those at multiples of their size. -/
theorem decodeTable_drop (x : Bytes) (offset count : Nat) :
    decodeTable count (x.drop offset) =
      (List.range count).map fun i => decode x (offset + i * size) := by
  induction count generalizing offset with
  | zero => rfl
  | succ count ih =>
    rw [decodeTable, decode_drop, List.drop_drop, ih, List.range_succ_eq_map, List.map_cons,
      List.map_map, Nat.zero_mul, Nat.add_zero]
    congr 1
    apply List.map_congr_left
    intro i _
    rw [Function.comp_apply, Nat.succ_eq_add_one, Nat.add_one_mul, Nat.add_assoc, Nat.add_comm size]

theorem length_flatMap_encode {hs : List SectionHeader} (hnames : ∀ h ∈ hs, h.HasWholeName) :
    (hs.flatMap encode).length = hs.length * size := by
  induction hs with
  | nil => simp
  | cons h rest ih =>
    rw [List.forall_mem_cons] at hnames
    rw [List.flatMap_cons, List.length_append, length_encode hnames.1, ih hnames.2,
      List.length_cons, Nat.add_one_mul, Nat.add_comm]

/-- A section table that was written is read back. -/
theorem decode_of_flatMap_encode {x : Bytes} {offset : Nat} {hs : List SectionHeader}
    (hnames : ∀ h ∈ hs, h.HasWholeName)
    (hx : x.slice offset (offset + hs.length * size) = hs.flatMap encode) :
    (List.range hs.length).map (fun i => decode x (offset + i * size)) = hs := by
  induction hs generalizing offset with
  | nil => rfl
  | cons h rest ih =>
    rw [List.forall_mem_cons] at hnames
    rw [List.flatMap_cons, List.length_cons, Nat.add_one_mul,
      ← Bytes.slice_append_slice (show offset ≤ offset + size by omega) (by omega)] at hx
    have hlen := length_encode hnames.1
    have htake : (x.slice offset (offset + size)).length = h.encode.length := by
      have hwhole := congrArg List.length hx
      rw [List.length_append, List.length_append, length_flatMap_encode hnames.2, hlen,
        Bytes.slice, Bytes.slice, List.length_take, List.length_take, List.length_drop,
        List.length_drop] at hwhole
      rw [hlen, Bytes.slice, List.length_take, List.length_drop]
      omega
    obtain ⟨hhead, hrest⟩ := List.append_inj hx htake
    rw [List.length_cons, List.range_succ_eq_map, List.map_cons, List.map_map, Nat.zero_mul,
      Nat.add_zero, decode_of_slice hnames.1 hhead]
    congr 1
    rw [show offset + (rest.length * size + size) = offset + size + rest.length * size by omega]
      at hrest
    conv_rhs => rw [← ih hnames.2 hrest]
    apply List.map_congr_left
    intro i _
    rw [Function.comp_apply, show offset + (i + 1) * size = offset + size + i * size by
      rw [Nat.add_one_mul]; omega]

end SecureBoot.Pe.SectionHeader
