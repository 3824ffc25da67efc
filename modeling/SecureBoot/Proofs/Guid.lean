import Mathlib
import SecureBoot.Guid
import SecureBoot.Proofs.Bytes
import SecureBoot.Proofs.Text

/-!
# GUIDs on disk and as text

**On disk** a GUID is read from sixteen bytes alone and none of them is lost: what was written is
read back, whatever follows it (`ofBytes_toBytes_append`), and writing gives the bytes that were
read (`toBytes_ofBytes`).

**As text** a GUID is written in groups of lower-case digits (`isHyphenated_toText`), and this text
is read as the GUID (`parse?_toText`). So different GUIDs have different texts.
-/

namespace SecureBoot.Guid

/-! ## On disk -/

theorem ofBytes_toBytes_append (g : Guid) (rest : Bytes) : ofBytes (g.toBytes ++ rest) = g := by
  have hwords : g.toBytes ++ rest =
      Bytes.ofNatLE 4 g.data1.toNat ++ (Bytes.ofNatLE 2 g.data2.toNat ++
        (Bytes.ofNatLE 2 g.data3.toNat ++ (Bytes.ofNatBE 8 g.data4.toNat ++ rest))) := by
    simp only [toBytes, List.append_assoc]
  have hlast : (g.toBytes ++ rest).slice 8 16 = Bytes.ofNatBE 8 g.data4.toNat := by
    have hfront : (Bytes.ofNatLE 4 g.data1.toNat ++ Bytes.ofNatLE 2 g.data2.toNat ++
        Bytes.ofNatLE 2 g.data3.toNat).length = 8 := by simp
    have hmid := Bytes.slice_append_mid (Bytes.ofNatLE 4 g.data1.toNat ++
      Bytes.ofNatLE 2 g.data2.toNat ++ Bytes.ofNatLE 2 g.data3.toNat)
      (Bytes.ofNatBE 8 g.data4.toNat) rest
    rwa [hfront, Bytes.length_ofNatBE, ← List.append_assoc] at hmid
  have h1 : (g.toBytes ++ rest).u32 0 = g.data1 := by
    rw [hwords, Bytes.u32_ofNatLE_append]
  have h2 : (g.toBytes ++ rest).u16 4 = g.data2 := by
    rw [hwords, Bytes.u16_append_right (by simp), Bytes.length_ofNatLE, Bytes.u16_ofNatLE_append]
  have h3 : (g.toBytes ++ rest).u16 6 = g.data3 := by
    rw [hwords, Bytes.u16_append_right (by simp), Bytes.u16_append_right (by simp),
      Bytes.length_ofNatLE, Bytes.length_ofNatLE, Bytes.u16_ofNatLE_append]
  have h4 : UInt64.ofNat (Bytes.toNatLE ((g.toBytes ++ rest).slice 8 16).reverse) = g.data4 := by
    have hlt : g.data4.toNat < 256 ^ 8 := g.data4.toNat_lt
    rw [hlast, Bytes.ofNatBE, List.reverse_reverse, Bytes.toNatLE_ofNatLE, Nat.mod_eq_of_lt hlt,
      UInt64.ofNat_toNat]
  rw [ofBytes, h1, h2, h3, h4]

/-- Writing the GUID that was read gives the bytes that it was read from. -/
theorem toBytes_ofBytes {b : Bytes} (h : size ≤ b.length) : (ofBytes b).toBytes = b.take size := by
  have h16 : 16 ≤ b.length := h
  have hdigits := Bytes.ofNatLE_toNatLE (b.slice 8 16).reverse
  rw [List.length_reverse, Bytes.length_slice h16] at hdigits
  have hlast : Bytes.ofNatBE 8 (UInt64.ofNat (Bytes.toNatLE (b.slice 8 16).reverse)).toNat =
      b.slice 8 16 := by
    have hlt := Bytes.toNatLE_lt (b.slice 8 16).reverse
    rw [List.length_reverse, Bytes.length_slice h16] at hlt
    rw [UInt64.toNat_ofNat_of_lt' hlt, Bytes.ofNatBE, hdigits, List.reverse_reverse]
  rw [toBytes, ofBytes, Bytes.ofNatLE_u32 (by omega), Bytes.ofNatLE_u16 (by omega),
    Bytes.ofNatLE_u16 (by omega), hlast, Bytes.slice_append_slice (by omega) (by omega),
    Bytes.slice_append_slice (by omega) (by omega), Bytes.slice_append_slice (by omega) (by omega),
    Bytes.slice_zero]
  rfl

theorem sha256_ne_x509 : sha256 ≠ x509 := by decide

/-! ## As text -/

/-- Lower-case hexadecimal digits in groups of 8, 4, 4, 4 and 12, with hyphens between them. -/
def IsHyphenated (s : String) : Prop :=
  ∃ groups : List (List Char), groups.map List.length = [8, 4, 4, 4, 12] ∧
    (∀ group ∈ groups, ∀ c ∈ group, c ∈ Text.lowerDigits) ∧
    s = String.intercalate "-" (groups.map String.ofList)

/-- The groups of digits of a GUID. -/
def groups (g : Guid) : List (List Char) :=
  let last := Text.hexPlaces 16 g.data4.toNat
  [Text.hexPlaces 8 g.data1.toNat, Text.hexPlaces 4 g.data2.toNat, Text.hexPlaces 4 g.data3.toNat,
    last.take 4, last.drop 4]

theorem map_length_groups (g : Guid) : g.groups.map List.length = [8, 4, 4, 4, 12] := by
  simp [groups, Text.length_hexPlaces]

theorem toText_eq (g : Guid) : g.toText = String.intercalate "-" (g.groups.map String.ofList) := by
  have h1 := Text.toList_hexPadded 8 (by decide) g.data1.toNat_lt
  have h2 := Text.toList_hexPadded 4 (by decide) g.data2.toNat_lt
  have h3 := Text.toList_hexPadded 4 (by decide) g.data3.toNat_lt
  have h4 := Text.toList_hexPadded 16 (by decide) g.data4.toNat_lt
  simp only [toText, groups, List.map_cons, List.map_nil, ← h1, ← h2, ← h3, ← h4,
    String.ofList_toList]

theorem isHyphenated_toText (g : Guid) : IsHyphenated g.toText := by
  refine ⟨g.groups, g.map_length_groups, ?_, g.toText_eq⟩
  intro group hgroup c hc
  simp only [groups, List.mem_cons, List.not_mem_nil, or_false] at hgroup
  rcases hgroup with h | h | h | h | h <;> rw [h] at hc
  · exact Text.mem_lowerDigits_of_mem_hexPlaces hc
  · exact Text.mem_lowerDigits_of_mem_hexPlaces hc
  · exact Text.mem_lowerDigits_of_mem_hexPlaces hc
  · exact Text.mem_lowerDigits_of_mem_hexPlaces (List.mem_of_mem_take hc)
  · exact Text.mem_lowerDigits_of_mem_hexPlaces (List.mem_of_mem_drop hc)

theorem hexNumber?_groups (g : Guid) : Text.hexNumber? g.groups.flatten = some g.value := by
  have hnone : Text.hexNumber? [] = some 0 := rfl
  have h1 := Text.hexNumber?_append_hexPlaces hnone 8 g.data1.toNat_lt
  have h2 := Text.hexNumber?_append_hexPlaces h1 4 g.data2.toNat_lt
  have h3 := Text.hexNumber?_append_hexPlaces h2 4 g.data3.toNat_lt
  have h4 := Text.hexNumber?_append_hexPlaces h3 16 g.data4.toNat_lt
  have hflat : g.groups.flatten = [] ++ Text.hexPlaces 8 g.data1.toNat ++
      Text.hexPlaces 4 g.data2.toNat ++ Text.hexPlaces 4 g.data3.toNat ++
      Text.hexPlaces 16 g.data4.toNat := by
    simp [groups]
  rw [hflat, h4, value]
  simp only [Nat.shiftLeft_eq]
  congr 1
  omega

/-- Groups with hyphens between them are read as their digits. -/
theorem parse?_intercalate {groups : List (List Char)}
    (h : groups.map List.length = [8, 4, 4, 4, 12]) :
    parse? (String.intercalate "-" (groups.map String.ofList)) =
      (Text.hexNumber? groups.flatten).map ofValue := by
  obtain _ | ⟨a, _ | ⟨b, _ | ⟨c, _ | ⟨d, _ | ⟨e, _ | ⟨_, _⟩⟩⟩⟩⟩⟩ := groups <;>
    simp only [List.map_cons, List.map_nil, List.cons.injEq, reduceCtorEq, and_false, and_true]
      at h
  obtain ⟨ha, hb, hc, hd, he⟩ := h
  have hlist : (String.intercalate "-" ([a, b, c, d, e].map String.ofList)).toList =
      a ++ '-' :: (b ++ '-' :: (c ++ '-' :: (d ++ '-' :: e))) := by
    rw [String.toList_intercalate]
    simp [List.intercalate]
  have hlength : (a ++ '-' :: (b ++ '-' :: (c ++ '-' :: (d ++ '-' :: e)))).length = 36 := by
    simp [ha, hb, hc, hd, he]
  have hhyphens : [8, 13, 18, 23].all
      ((a ++ '-' :: (b ++ '-' :: (c ++ '-' :: (d ++ '-' :: e))))[·]? = some '-') := by
    simp [List.getElem?_append, List.getElem?_cons, ha, hb, hc, hd]
  have hdigits : ofDigits? (a ++ b ++ c ++ d ++ e) =
      (Text.hexNumber? [a, b, c, d, e].flatten).map ofValue := by
    rw [ofDigits?, if_pos (by simp [ha, hb, hc, hd, he])]
    simp
  rw [parse?, hlist, hlength, if_neg (by decide), if_neg (by simp), if_neg (by simp),
    ofHyphenated?, if_pos ⟨hlength, hhyphens⟩, ← hdigits]
  congr 1
  simp [List.drop_append, ha, hb, hc, hd, List.drop_of_length_le]

theorem parse?_toText (g : Guid) : parse? g.toText = some g := by
  rw [toText_eq, parse?_intercalate g.map_length_groups, hexNumber?_groups, Option.map_some,
    ofValue_value]

end SecureBoot.Guid
