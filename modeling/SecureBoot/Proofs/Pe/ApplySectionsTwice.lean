import Mathlib
import SecureBoot.Proofs.Pe.ApplySections
import SecureBoot.Proofs.Pe.Layout.Alike

/-!
# Placing the same sections again

Applying a request to its own result gives the same file again in exactly the cases that
`EndsAligned` lists (`applySections_again_iff`). In the others the last section with bytes has been
padded, and nothing but the file's end tells this padding from the overlay: the second time it
counts as overlay, and the section is padded once more.
-/

namespace SecureBoot.Pe

namespace Layout

open SymbolTable

variable {l edited : Layout} {requests : List SectionRequest} {h : Headers}

/-- Whether a request leaves no padding in front of the overlay: symbols stand in between, or the
last section with bytes needs none. A section that was asked for has its padding among its bytes. -/
def EndsAligned (l : Layout) (requests : List SectionRequest) : Prop :=
  l.symbols.isSome ∨
    (∃ r ∈ requests, SectionHeader.nameSize < (Text.encode r.name).length) ∨
    (∃ r ∈ requests, r.data ≠ []) ∨
    ∀ s ∈ lastWithBytes (l.kept requests), IsAligned l.fileAlignment s

/-! ## When there are symbols -/

theorem isSome_addSections (h : l.addSections requests = .ok edited) :
    edited.symbols.isSome ↔ l.symbols.isSome ∨
      ∃ r ∈ requests, SectionHeader.nameSize < (Text.encode r.name).length := by
  induction requests generalizing l with
  | nil =>
    cases h
    simp
  | cons r rest ih =>
    rw [addSections] at h
    split at h
    · cases h
    · rename_i middle hmiddle
      obtain ⟨rawName, symbols, -, hname, rfl⟩ := addSection_eq hmiddle
      rw [ih h]
      rcases encodeName_eq_ok hname with ⟨hle, -, rfl⟩ | ⟨hlt, _, table, -, -, -, rfl⟩
      · have hshort : ¬ SectionHeader.nameSize < (Text.encode r.name).length := by omega
        simp [hshort]
      · simp [hlt]

/-! ## When the last section is padded -/

theorem length_data_of_isServed {fileAlignment : UInt32} {r : SectionRequest} {s : Section}
    (hs : r.IsServed fileAlignment s) :
    s.data.length = alignUp r.data.length fileAlignment.toNat := by
  rw [hs.data, Bytes.length_padTo, Nat.max_eq_right (le_alignUp _ _)]

theorem isAligned_of_forall₂ {fileAlignment : UInt32} {added : List Section}
    (h : List.Forall₂ (·.IsServed fileAlignment) requests added) :
    ∀ s ∈ added, IsAligned fileAlignment s := by
  induction h with
  | nil =>
    intro s hs
    cases hs
  | cons hs _ ih =>
    rw [List.forall_mem_cons]
    refine ⟨?_, ih⟩
    rw [IsAligned, length_data_of_isServed hs, alignUp_alignUp]

theorem exists_of_mem_served {fileAlignment : UInt32} {added : List Section}
    (h : List.Forall₂ (·.IsServed fileAlignment) requests added) :
    ∀ s ∈ added, ∃ r ∈ requests, s.name = r.name := by
  induction h with
  | nil =>
    intro s hs
    cases hs
  | @cons r s rest added hs _ ih =>
    rw [List.forall_mem_cons]
    refine ⟨⟨r, List.mem_cons_self, hs.name⟩, ?_⟩
    intro t ht
    obtain ⟨q, hq, hname⟩ := ih t ht
    exact ⟨q, List.mem_cons_of_mem _ hq, hname⟩

theorem lastWithBytes_eq_none_iff {fileAlignment : UInt32} {added : List Section}
    (h : List.Forall₂ (·.IsServed fileAlignment) requests added) :
    lastWithBytes added = none ↔ ¬ ∃ r ∈ requests, r.data ≠ [] := by
  rw [lastWithBytes, List.getLast?_eq_none_iff]
  induction h with
  | nil => simp
  | @cons r s rest added hs _ ih =>
    have hdata : s.data = [] ↔ r.data = [] := by
      rw [← List.length_eq_zero_iff, length_data_of_isServed hs, ← List.length_eq_zero_iff]
      constructor
      · intro hzero
        have hle := le_alignUp r.data.length fileAlignment.toNat
        omega
      · intro hzero
        rw [hzero, alignUp_zero]
    by_cases hempty : s.data = []
    · rw [List.filter_cons_of_neg (by simp [hempty]), ih]
      simp [hdata.1 hempty]
    · rw [List.filter_cons_of_pos (by simp [hempty])]
      have hne : r.data ≠ [] := fun h => hempty (hdata.2 h)
      simp [hne]

/-- What follows the sections is read back as it was exactly where the request leaves no padding. -/
theorem overlay_reread_iff (hadd : (l.removeAll requests).addSections requests = .ok edited)
    (ha : (l.removeAll requests).Added requests edited) :
    edited.reread.overlay = edited.overlay ↔ l.EndsAligned requests := by
  obtain ⟨added, hsections, hserved⟩ := ha.sections
  have hsome : edited.symbols.isSome ↔ l.symbols.isSome ∨
      ∃ r ∈ requests, SectionHeader.nameSize < (Text.encode r.name).length :=
    isSome_addSections (l := l.removeAll requests) hadd
  have halignment : edited.fileAlignment = l.fileAlignment := by rw [ha.eq]; rfl
  rw [EndsAligned, ← or_assoc, ← hsome, reread]
  by_cases hsymbols : edited.symbols.isSome
  · simp [hsymbols]
  have hpadding : Bytes.zeros (edited.sectionsStop - edited.unpaddedStop) ++ edited.overlay =
      edited.overlay ↔ alignUp edited.unpaddedStop edited.fileAlignment.toNat =
        edited.unpaddedStop := by
    have hle := edited.unpaddedStop_le
    rw [alignUp_unpaddedStop, List.append_left_eq_self, ← List.length_eq_zero_iff,
      Bytes.length_zeros]
    omega
  simp only [hsymbols, false_or, Bool.false_eq_true, if_false]
  have hheaders : alignUp edited.headersStop edited.fileAlignment.toNat = edited.headersStop :=
    alignUp_alignUp _ _
  rw [hpadding, unpaddedStop, alignUp_lastStop_iff hheaders, hsections, lastWithBytes_append]
  have hnone := lastWithBytes_eq_none_iff hserved
  cases hlast : lastWithBytes added with
  | none =>
    have hempty := hnone.1 hlast
    rw [or_iff_right hempty, Option.none_or, removeAll_sections]
    cases lastWithBytes (l.kept requests) with
    | none => exact iff_of_true hheaders (fun s hs => by cases hs)
    | some s =>
      rw [halignment]
      exact ⟨fun hs t ht => by cases ht; exact hs, fun hs => hs s rfl⟩
  | some s =>
    have hdata : ∃ r ∈ requests, r.data ≠ [] := by
      by_contra hno
      rw [hnone.2 hno] at hlast
      cases hlast
    have hmem : s ∈ added := List.mem_of_mem_filter (List.mem_of_getLast? hlast)
    rw [halignment]
    exact iff_of_true (isAligned_of_forall₂ hserved s hmem) (Or.inl hdata)

/-! ## The second time -/

/-- The layout that the second request starts from is like that of the first. -/
theorem alike_reread (ha : (l.removeAll requests).Added requests edited)
    (hl : edited.Holds h) : (l.removeAll requests).Alike (edited.reread.removeAll requests) := by
  obtain ⟨added, hsections, hserved⟩ := ha.sections
  have heq := ha.eq
  have hkept : ∀ sections : List Section,
      (sections.filter fun s => s.name ∉ requests.map (·.name)).map (·.unplaced) =
        (sections.map (·.unplaced)).filter fun s => s.name ∉ requests.map (·.name) := by
    intro sections
    rw [List.filter_map]
    rfl
  have hadded : (added.filter fun s => s.name ∉ requests.map (·.name)) = [] := by
    rw [List.filter_eq_nil_iff]
    intro s hmem
    obtain ⟨r, hr, hname⟩ := exists_of_mem_served hserved s hmem
    rw [decide_eq_true_iff, not_not, hname]
    exact List.mem_map_of_mem hr
  exact {
    length_front := by
      rw [removeAll_front, removeAll_front, reread_front, length_patchAll hl.fieldsFit, heq,
        removeAll_front]
    coffOffset := by
      rw [removeAll_coffOffset, removeAll_coffOffset, reread_coffOffset, heq, removeAll_coffOffset]
    certificateDirectoryOffset := by
      rw [removeAll_certificateDirectoryOffset, removeAll_certificateDirectoryOffset,
        reread_certificateDirectoryOffset, heq, removeAll_certificateDirectoryOffset]
    fileAlignment := by
      rw [removeAll_fileAlignment, removeAll_fileAlignment, reread_fileAlignment, heq,
        removeAll_fileAlignment]
    sectionAlignment := by
      rw [removeAll_sectionAlignment, removeAll_sectionAlignment, reread_sectionAlignment, heq,
        removeAll_sectionAlignment]
    sections := by
      rw [removeAll_sections, removeAll_sections, kept, reread_sections, hkept, placedSections,
        map_unplaced_placed fun s hmem => (ha.isSound.sections s hmem).sizeOfRawData, ← hkept,
        hsections, List.filter_append, hadded, List.append_nil, removeAll_sections, kept,
        List.filter_filter]
      simp }

theorem encode_again (hs : l.IsSound)
    (hadd : (l.removeAll requests).addSections requests = .ok edited)
    (ha : (l.removeAll requests).Added requests edited) (hl : edited.Holds h)
    (hw : edited.IsWritable) :
    ∃ again, (edited.reread.removeAll requests).addSections requests = .ok again ∧
      (again.encode = .ok edited.written ↔ edited.reread.overlay = edited.overlay) := by
  have hsymbols : (edited.reread.removeAll requests).symbols = edited.symbols.map counted := by
    rw [removeAll_symbols, reread_symbols]
  have hfront : (edited.reread.removeAll requests).front = patchAll edited.fields edited.front := by
    rw [removeAll_front, reread_front]
  have hoverlay : (edited.reread.removeAll requests).overlay = edited.reread.overlay :=
    removeAll_overlay _ _
  generalize edited.reread.overlay = overlay at *
  have halike := alike_reread ha hl
  generalize edited.reread.removeAll requests = start at *
  obtain ⟨sections, hagain, halike⟩ := addSections_of_alike (hs.removeAll requests) halike hadd
    (by rw [hsymbols]; exact grow_counted _)
  refine ⟨_, hagain, ?_⟩
  rw [encode_eq_ok_iff, written_of_alike hl ha.isSound halike hsymbols hfront, hl.written_eq,
    List.append_cancel_left_eq, List.append_cancel_left_eq, List.append_cancel_left_eq, ← hoverlay]
  constructor
  · intro h
    obtain ⟨-, h⟩ := h
    exact h.symm
  · intro h
    exact ⟨isWritable_of_alike ha.isSound halike hsymbols h hw, h.symm⟩

end Layout

variable {x y : Bytes} {requests : List SectionRequest}

/-- Applying a request again gives the same file again exactly where it leaves no padding in front
of the overlay. -/
theorem applySections_again_iff {h : Headers} {l : Layout} (hx : IsEditable x h l)
    (hy : applySections x requests = .ok y)
    (hcount : (l.kept requests).length + requests.length ≤ 65535) :
    applySections y requests = .ok y ↔ l.EndsAligned requests := by
  obtain ⟨edited, hadd, hadded, hholds, hwritable, rfl⟩ := hx.edited hy
  have hlength := hadded.length_sections
  change _ = (l.kept requests).length + _ at hlength
  have hread := Layout.decode_written hholds hadded.isSound hwritable (by omega)
  obtain ⟨again, hagain, hwritten⟩ := Layout.encode_again hx.isSound hadd hadded hholds hwritable
  rw [applySections_eq_ok, ← Layout.overlay_reread_iff hadd hadded, ← hwritten]
  constructor
  · intro h
    obtain ⟨-, m, edited', hm, hedited', hencode⟩ := h
    rw [hread] at hm
    cases hm
    rw [hagain] at hedited'
    cases hedited'
    exact hencode
  · intro hencode
    exact ⟨(applySections_eq_ok.1 hy).1, _, again, hread, hagain, hencode⟩

/-- A request for a section with bytes can be applied to the small executable again and again. -/
theorem applySections_again_smallExecutable :
    ∃ y r, r.data ≠ [] ∧ applySections smallExecutable [r] = .ok y ∧
      applySections y [r] = .ok y := by
  obtain ⟨h, l, hx, hone, -⟩ := exists_isEditable_smallExecutable
  let r : SectionRequest := { name := ".b", virtualAddress := 0x2000, data := [7, 8] }
  obtain ⟨y, hy, -⟩ := exists_eq_ok_of_any (e := applySections smallExecutable [r])
    (p := fun _ => true) (by decide +kernel)
  have hkept : (l.kept [r]).length ≤ l.sections.length := List.length_filter_le _ _
  have hdata : r.data ≠ [] := by decide
  refine ⟨y, r, hdata, hy, ?_⟩
  rw [applySections_again_iff hx hy (show (l.kept [r]).length + 1 ≤ 65535 by omega)]
  exact Or.inr (Or.inr (Or.inl ⟨r, List.mem_singleton_self r, hdata⟩))

/-- Without a request the section of the small executable is padded anew each time. -/
theorem applySections_smallExecutable_again :
    ∃ y z, applySections smallExecutable [] = .ok y ∧ applySections y [] = .ok z ∧ z ≠ y := by
  obtain ⟨y, hy, hz⟩ := exists_eq_ok_of_any (e := applySections smallExecutable [])
    (p := fun y => (applySections y []).toOption.any fun z => z != y) (by decide +kernel)
  obtain ⟨z, hz, hne⟩ := exists_eq_ok_of_any hz
  exact ⟨y, z, hy, hz, by simpa using hne⟩

end SecureBoot.Pe
