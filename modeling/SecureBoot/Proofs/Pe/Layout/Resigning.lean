import Mathlib
import SecureBoot.Proofs.EfiImage.Resigning
import SecureBoot.Proofs.Pe.Layout.Alike

/-!
# Editing files that differ by their signatures

What signing writes to, editing fills in anew: a checksum of zero and an absent certificate table.
So two layouts whose fronts differ in these fields only are written to the same file, or fail in the
same way, whatever sections are requested (`applySections_congr`).

**One file for both layouts** (`encode_resigned`). Fields that are filled in do not depend on what
stood there (`foldlM_patch_congr`), and everything else that is written comes from pieces that both
layouts share.
-/

namespace SecureBoot.Pe

namespace Layout

/-! ## Filling in fields -/

/-- What stood in the fields does not matter. -/
theorem foldlM_patch_congr {fields : List (Nat × Bytes)} {x y : Bytes}
    (hlength : y.length = x.length) (h : ∀ k, Outside fields k → y[k]? = x[k]?) :
    fields.foldlM (fun out field => patch out field.1 field.2) y =
      fields.foldlM (fun out field => patch out field.1 field.2) x := by
  induction fields generalizing x y with
  | nil => exact congrArg pure (List.ext_getElem? fun k => h k nofun)
  | cons field rest ih =>
    rw [List.foldlM_cons, List.foldlM_cons, patch, patch, hlength]
    by_cases hlt : x.length < field.1 + field.2.length
    · rw [if_pos hlt, if_pos hlt]
    · have hx := Nat.le_of_not_lt hlt
      have hy : field.1 + field.2.length ≤ y.length := hlength ▸ hx
      rw [if_neg hlt, if_neg hlt]
      refine ih ?_ fun k hk => ?_
      · rw [Bytes.length_overwrite hx, Bytes.length_overwrite hy, hlength]
      · rw [Bytes.getElem?_overwrite hx, Bytes.getElem?_overwrite hy]
        split
        · exact h k (List.forall_mem_cons.2 ⟨Or.inl (by assumption), hk⟩)
        · split
          · rfl
          · exact h k (List.forall_mem_cons.2 ⟨Or.inr (by omega), hk⟩)

/-! ## Layouts that differ by their signatures -/

variable {l : Layout} {front : Bytes} {r : SectionRequest}

/-- The layout with another front, signatures or not. -/
@[simps]
def resigned (l : Layout) (front : Bytes) (hadSignatures : Bool) : Layout :=
  { l with front, hadSignatures }

/-- Whether a front differs from that of a layout at most in the checksum and the directory entry of
the certificate table. -/
structure IsFrontOf (front : Bytes) (l : Layout) : Prop where
  length_eq : front.length = l.front.length
  agree : ∀ k, (k < l.optionalOffset + Headers.checksumField ∨
      l.optionalOffset + Headers.checksumField + 4 ≤ k) →
    (∀ offset ∈ l.certificateDirectoryOffset, k < offset ∨ offset + DataDirectory.width ≤ k) →
    front[k]? = l.front[k]?

theorem IsFrontOf.alike (h : IsFrontOf front l) (hadSignatures : Bool) :
    l.Alike (l.resigned front hadSignatures) where
  length_front := h.length_eq
  coffOffset := rfl
  certificateDirectoryOffset := rfl
  fileAlignment := rfl
  sectionAlignment := rfl
  sections := rfl

theorem IsFrontOf.addSection_resigned (h : IsFrontOf front l) (hadSignatures : Bool)
    (r : SectionRequest) : (l.resigned front hadSignatures).addSection r =
      ((l.addSection r).1.resigned front hadSignatures, (l.addSection r).2) := by
  have hsymbols : (l.resigned front hadSignatures).symbols = l.symbols := rfl
  rw [addSection, addSection, (h.alike hadSignatures).checkRequest r, hsymbols]
  cases l.checkRequest r with
  | error e => rfl
  | ok _ => rcases encodeName l.symbols r.name with ⟨_ | rawName, symbols⟩ <;> rfl

theorem IsFrontOf.addSection {l' : Layout} {e : Option Error} (h : IsFrontOf front l)
    (hadd : l.addSection r = (l', e)) : IsFrontOf front l' := by
  rw [Layout.addSection] at hadd
  split at hadd
  · cases hadd
    exact h
  · split at hadd <;> cases hadd <;> exact ⟨h.length_eq, h.agree⟩

/-- A place that nothing is filled in at. -/
theorem IsFrontOf.agree_of_outside (h : IsFrontOf front l) {pointer count image size k : Nat}
    (hk : Outside (l.patches pointer count image size) k) : front[k]? = l.front[k]? := by
  rw [Outside, patches, List.forall_mem_append] at hk
  have hchecksum := hk.1 (l.optionalOffset + Headers.checksumField, Bytes.ofNatLE 4 0) (by simp)
  refine h.agree k hchecksum fun offset ho => ?_
  have hdirectory := hk.2 (offset, Bytes.zeros DataDirectory.width) (by rw [ho]; simp)
  rwa [Bytes.length_zeros] at hdirectory

/-- Both are written to the same file. -/
theorem IsFrontOf.encode_resigned (h : IsFrontOf front l) (hadSignatures : Bool) :
    (l.resigned front hadSignatures).encode = l.encode := by
  have halike := h.alike hadSignatures
  have hsize := halike.sizeOfHeaders l.sections.length
  have himage : (l.resigned front hadSignatures).sizeOfImage = l.sizeOfImage := rfl
  have hpatches : (l.resigned front hadSignatures).patches = l.patches := rfl
  have hlength : ∀ (table rest : Bytes) (size : Nat),
      (Bytes.padTo (front ++ table) size ++ rest).length =
        (Bytes.padTo (l.front ++ table) size ++ rest).length := by
    intro table rest size
    simp only [List.length_append, Bytes.length_padTo, h.length_eq]
  have hfields : ∀ (table rest : Bytes) (size pointer count image : Nat),
      (l.patches pointer count image size).foldlM (fun out field => patch out field.1 field.2)
          (Bytes.padTo (front ++ table) size ++ rest) =
        (l.patches pointer count image size).foldlM (fun out field => patch out field.1 field.2)
          (Bytes.padTo (l.front ++ table) size ++ rest) := by
    intro table rest size pointer count image
    refine foldlM_patch_congr (hlength table rest size) fun k hk => ?_
    rw [Bytes.padTo, Bytes.padTo, List.length_append, List.length_append, h.length_eq]
    simp only [List.append_assoc]
    by_cases hin : k < l.front.length
    · rw [List.getElem?_append_left (h.length_eq ▸ hin), List.getElem?_append_left hin]
      exact h.agree_of_outside hk
    · have hle := Nat.le_of_not_lt hin
      rw [List.getElem?_append_right (h.length_eq ▸ hle), List.getElem?_append_right hle,
        h.length_eq]
  rw [encode, encode, halike.checkHeaders]
  simp only [resigned_sections, resigned_fileAlignment, resigned_symbols, resigned_overlay,
    resigned_front, hsize, himage, hpatches, hlength, hfields]

theorem IsFrontOf.edit_resigned (h : IsFrontOf front l) (hadSignatures : Bool)
    (requests : List SectionRequest) :
    ((l.resigned front hadSignatures).addSections requests >>= encode) =
      (l.addSections requests >>= encode) := by
  induction requests generalizing l with
  | nil => exact h.encode_resigned hadSignatures
  | cons r rest ih =>
    rw [addSections, addSections, h.addSection_resigned]
    rcases hadd : l.addSection r with ⟨l', _ | e⟩
    · exact ih (h.addSection hadd)
    · rfl

end Layout

/-- Executables with layouts that differ by their signatures are edited to the same file, or refused
with the same error. -/
theorem applySections_congr {x y front : Bytes} {l : Layout} {hadSignatures : Bool}
    (hx : Layout.decode x = .ok l) (hy : Layout.decode y = .ok (l.resigned front hadSignatures))
    (h : Layout.IsFrontOf front l) (requests : List SectionRequest) :
    applySections y requests = applySections x requests := by
  have hkept : Layout.IsFrontOf front (l.removeAll requests) := ⟨h.length_eq, h.agree⟩
  unfold applySections
  rw [hx, hy]
  refine bind_congr fun _ => bind_congr fun _ => ?_
  show (_ >>= Layout.encode) = (_ >>= Layout.encode)
  rw [Layout.foldl_removeSection, Layout.foldl_removeSection]
  exact hkept.edit_resigned hadSignatures requests

end SecureBoot.Pe
