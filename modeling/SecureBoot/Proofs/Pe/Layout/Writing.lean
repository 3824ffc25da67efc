import Mathlib
import SecureBoot.Proofs.Pe.Layout.Placement

/-!
# What writing a layout gives

`encode` puts the pieces together (`whole`) and then fills in fields (`patchAll`). Nothing of this
depends on the order of the steps: writing succeeds exactly when the layout `IsWritable`, and then
gives `written` (`encode_eq_ok_iff`).

**Fields.** Filling in changes the ranges of the fields and nothing else, and fields that lie apart
all stand in the result (`slice_patchAll`).
-/

namespace SecureBoot.Pe.Layout

/-! ## Filling in fields -/

section Fields

/-- Fills in fields, each at its offset. -/
def patchAll (fields : List (Nat × Bytes)) (x : Bytes) : Bytes :=
  fields.foldl (fun out field => out.overwrite field.1 field.2) x

/-- Whether all fields lie in the first `length` bytes. -/
def FieldsFit (fields : List (Nat × Bytes)) (length : Nat) : Prop :=
  ∀ field ∈ fields, field.1 + field.2.length ≤ length

/-- Whether two fields have no byte in common. -/
def Apart (p q : Nat × Bytes) : Prop := p.1 + p.2.length ≤ q.1 ∨ q.1 + q.2.length ≤ p.1

/-- Whether an index lies in none of the fields. -/
def Outside (fields : List (Nat × Bytes)) (i : Nat) : Prop :=
  ∀ field ∈ fields, i < field.1 ∨ field.1 + field.2.length ≤ i

variable {fields : List (Nat × Bytes)} {x y : Bytes}

theorem patch_eq_ok {offset : Nat} {bytes : Bytes} :
    patch x offset bytes = .ok y ↔
      offset + bytes.length ≤ x.length ∧ y = x.overwrite offset bytes := by
  rw [patch, check_eq_ok, Nat.not_lt, pure_eq_ok, eq_comm]

theorem foldlM_patch_eq_ok :
    fields.foldlM (fun out field => patch out field.1 field.2) x = .ok y ↔
      FieldsFit fields x.length ∧ y = patchAll fields x := by
  induction fields generalizing x with
  | nil =>
    rw [List.foldlM_nil, pure_eq_ok]
    exact ⟨fun h => ⟨fun _ hfield => (by cases hfield), h.symm⟩, fun h => h.2.symm⟩
  | cons field rest ih =>
    rw [List.foldlM_cons, bind_eq_ok, FieldsFit, List.forall_mem_cons]
    constructor
    · intro h
      obtain ⟨z, hz, hrest⟩ := h
      obtain ⟨hfit, rfl⟩ := patch_eq_ok.1 hz
      obtain ⟨hfits, hy⟩ := ih.1 hrest
      rw [Bytes.length_overwrite hfit] at hfits
      exact ⟨⟨hfit, hfits⟩, hy⟩
    · intro h
      obtain ⟨⟨hfit, hfits⟩, hy⟩ := h
      refine ⟨_, patch_eq_ok.2 ⟨hfit, rfl⟩, ih.2 ⟨?_, hy⟩⟩
      rw [Bytes.length_overwrite hfit]
      exact hfits

theorem length_patchAll (hfit : FieldsFit fields x.length) :
    (patchAll fields x).length = x.length := by
  induction fields generalizing x with
  | nil => rfl
  | cons field rest ih =>
    rw [FieldsFit, List.forall_mem_cons] at hfit
    have hlen := Bytes.length_overwrite hfit.1
    rw [patchAll, List.foldl_cons]
    exact (ih (by rw [hlen]; exact hfit.2)).trans hlen

theorem getElem?_patchAll (hfit : FieldsFit fields x.length) {i : Nat} (hi : Outside fields i) :
    (patchAll fields x)[i]? = x[i]? := by
  induction fields generalizing x with
  | nil => rfl
  | cons field rest ih =>
    rw [FieldsFit, List.forall_mem_cons] at hfit
    rw [Outside, List.forall_mem_cons] at hi
    have hlen := Bytes.length_overwrite hfit.1
    rw [patchAll, List.foldl_cons]
    exact (ih (by rw [hlen]; exact hfit.2) hi.2).trans
      (Bytes.getElem?_overwrite_of_disjoint hfit.1 hi.1)

/-- Fields that lie apart all stand in the result. -/
theorem slice_patchAll (hfit : FieldsFit fields x.length) (hapart : fields.Pairwise Apart)
    {field : Nat × Bytes} (hfield : field ∈ fields) :
    (patchAll fields x).slice field.1 (field.1 + field.2.length) = field.2 := by
  induction fields generalizing x with
  | nil => cases hfield
  | cons first rest ih =>
    rw [FieldsFit, List.forall_mem_cons] at hfit
    obtain ⟨hfirst, hrest⟩ := List.pairwise_cons.1 hapart
    have hlen := Bytes.length_overwrite hfit.1
    have hfits : FieldsFit rest (x.overwrite first.1 first.2).length := by
      rw [hlen]
      exact hfit.2
    rcases List.mem_cons.1 hfield with rfl | hmem
    · rw [patchAll, List.foldl_cons]
      refine (Bytes.slice_congr fun i hi hi' => getElem?_patchAll hfits ?_).trans
        (Bytes.slice_overwrite_self hfit.1)
      intro other hother
      rcases hfirst other hother with h | h <;> omega
    · exact ih hfits hrest hmem

theorem patchAll_patchAll (hfit : FieldsFit fields x.length) (hapart : fields.Pairwise Apart) :
    patchAll fields (patchAll fields x) = patchAll fields x := by
  have hlen := length_patchAll hfit
  have hthere : ∀ field ∈ fields,
      (patchAll fields x).overwrite field.1 field.2 = patchAll fields x := by
    intro field hfield
    conv_lhs => rw [← slice_patchAll hfit hapart hfield]
    exact Bytes.overwrite_slice (Nat.le_add_right _ _) (by rw [hlen]; exact hfit field hfield)
  generalize patchAll fields x = y at hthere
  clear hfit hapart hlen
  induction fields with
  | nil => rfl
  | cons field rest ih =>
    rw [List.forall_mem_cons] at hthere
    rw [patchAll, List.foldl_cons, hthere.1]
    exact ih hthere.2

/-- Fields of the front leave what follows alone. -/
theorem patchAll_append (hfit : FieldsFit fields x.length) (y : Bytes) :
    patchAll fields (x ++ y) = patchAll fields x ++ y := by
  induction fields generalizing x with
  | nil => rfl
  | cons field rest ih =>
    rw [FieldsFit, List.forall_mem_cons] at hfit
    rw [patchAll, List.foldl_cons, Bytes.overwrite_append hfit.1]
    exact ih (by rw [Bytes.length_overwrite hfit.1]; exact hfit.2)

end Fields

/-! ## The pieces together -/

variable (l : Layout)

/-- Where the headers end. -/
def headersStop : Nat := l.sizeOfHeaders l.sections.length

/-- The sections with their places. -/
def placedSections : List Section := placed l.fileAlignment.toNat l.headersStop l.sections

/-- The section table. -/
def table : Bytes := l.placedSections.flatMap (·.header.encode)

/-- The bytes of the sections. -/
def sectionBytes : Bytes := body l.fileAlignment.toNat l.headersStop l.sections

/-- Where the bytes of the sections end, with their padding. -/
def sectionsStop : Nat := l.headersStop + l.sectionBytes.length

/-- The symbols as written. -/
def symbolBytes : Bytes := (l.symbols.map SymbolTable.encode).getD []

/-- What follows the front. -/
def behindFront : Bytes :=
  l.table ++ (Bytes.zeros (l.headersStop - (l.front.length + l.table.length)) ++
    (l.sectionBytes ++ (l.symbolBytes ++ l.overlay)))

/-- The pieces in order, before any field is filled in. -/
def whole : Bytes := l.front ++ l.behindFront

/-- The fields to fill in. -/
def fields : List (Nat × Bytes) :=
  l.patches (if l.symbols.isSome then l.sectionsStop else 0)
    ((l.symbols.map SymbolTable.numberOfSymbols).getD 0) (l.sizeOfImage l.headersStop) l.headersStop

/-- The file that writing gives. -/
def written : Bytes := patchAll l.fields l.whole

/-- Whether every check of `encode` passes. -/
structure IsWritable : Prop where
  headers : l.checkHeaders = .ok ()
  places : ∃ placement, place l.fileAlignment.toNat l.headersStop l.sections = .ok placement
  symbols : l.symbols.isSome → l.sectionsStop ≤ maxWord
  length_le : l.whole.length ≤ maxWord
  image_le : l.sizeOfImage l.headersStop ≤ maxWord
  fields : FieldsFit l.fields l.whole.length

variable {l}

theorem symbolBytes_of_some {t : SymbolTable} (ht : l.symbols = some t) :
    l.symbolBytes = t.encode := by
  rw [symbolBytes, ht]
  rfl

theorem padTo_append_eq_whole {headers : List SectionHeader} {bytes : Bytes}
    (hplace : place l.fileAlignment.toNat l.headersStop l.sections = .ok (headers, bytes)) :
    Bytes.padTo (l.front ++ headers.flatMap SectionHeader.encode) l.headersStop ++
      (bytes ++ (l.symbolBytes ++ l.overlay)) = l.whole := by
  obtain ⟨rfl, rfl⟩ := place_eq_ok hplace
  rw [whole, behindFront, List.flatMap_map, Bytes.padTo, List.length_append, List.append_assoc,
    List.append_assoc]
  rfl

/-- Writing succeeds exactly when every check passes, and gives the pieces with the fields filled
in. -/
theorem encode_eq_ok_iff {y : Bytes} : l.encode = .ok y ↔ l.IsWritable ∧ y = l.written := by
  rw [encode, bind_eq_ok]
  constructor
  · intro h
    obtain ⟨_, hheaders, h⟩ := h
    obtain ⟨⟨headers, bytes⟩, hplace, h⟩ := bind_eq_ok.1 h
    obtain ⟨hsymbols, h⟩ := when_bind_eq_ok.1 h
    obtain ⟨_, hlength, h⟩ := bind_eq_ok.1 h
    obtain ⟨himage, h⟩ := check_bind_eq_ok.1 h
    have hwhole := padTo_append_eq_whole hplace
    have hbytes : bytes = l.sectionBytes := (place_eq_ok hplace).2
    rw [checkOffset_eq_ok, hbytes] at hsymbols
    change checkOffset "image" (Bytes.padTo _ l.headersStop ++
      (bytes ++ (l.symbolBytes ++ l.overlay))).length = .ok () at hlength
    rw [checkOffset_eq_ok, hwhole] at hlength
    change List.foldlM _ (Bytes.padTo _ l.headersStop ++ (bytes ++ (l.symbolBytes ++ l.overlay)))
      (l.patches (if l.symbols.isSome then l.headersStop + bytes.length else 0) _ _ _) =
        Except.ok y at h
    rw [hwhole, hbytes, foldlM_patch_eq_ok] at h
    exact ⟨{
      headers := hheaders
      places := ⟨_, hplace⟩
      symbols := hsymbols
      length_le := hlength
      image_le := Nat.not_lt.1 himage
      fields := h.1 }, h.2⟩
  · intro h
    obtain ⟨hwritable, rfl⟩ := h
    obtain ⟨⟨headers, bytes⟩, hplace⟩ := hwritable.places
    have hwhole := padTo_append_eq_whole hplace
    have hbytes : bytes = l.sectionBytes := (place_eq_ok hplace).2
    refine ⟨(), hwritable.headers, bind_eq_ok.2 ⟨(headers, bytes), hplace, ?_⟩⟩
    refine when_bind_eq_ok.2 ⟨?_, ?_⟩
    · rw [checkOffset_eq_ok, hbytes]
      exact hwritable.symbols
    · refine bind_eq_ok.2 ⟨(), ?_, check_bind_eq_ok.2 ⟨Nat.not_lt.2 hwritable.image_le, ?_⟩⟩
      · change checkOffset "image" (Bytes.padTo _ l.headersStop ++
          (bytes ++ (l.symbolBytes ++ l.overlay))).length = .ok ()
        rw [checkOffset_eq_ok, hwhole]
        exact hwritable.length_le
      · change List.foldlM _
          (Bytes.padTo _ l.headersStop ++ (bytes ++ (l.symbolBytes ++ l.overlay)))
          (l.patches (if l.symbols.isSome then l.headersStop + bytes.length else 0) _ _ _) = _
        rw [hwhole, hbytes, foldlM_patch_eq_ok]
        exact ⟨hwritable.fields, rfl⟩

end SecureBoot.Pe.Layout
