import Mathlib
import SecureBoot.Proofs.Pe.Layout.Editing
import SecureBoot.Proofs.Pe.Layout.RoundTrip

/-!
# Placing sections into an executable

The executable that `applySections` gives can be read again, and has the sections that were asked
for: those of the old executable that no request names, each as it was but for its place in the
file, and then one for each request (`sections_of_applySections`).
-/

namespace SecureBoot.Pe

open Layout

variable {x y : Bytes} {requests : List SectionRequest}

/-- A request for sections is read, edited and written. -/
theorem applySections_eq_ok :
    applySections x requests = .ok y ↔
      ((∀ r ∈ requests, checkName r.name = .ok ()) ∧ checkDistinct [] requests = .ok ()) ∧
        ∃ l edited, Layout.decode x = .ok l ∧
          (l.removeAll requests).addSections requests = .ok edited ∧ edited.encode = .ok y := by
  rw [applySections, bind_eq_ok]
  constructor
  · intro h
    obtain ⟨_, hnames, h⟩ := h
    obtain ⟨_, hdistinct, h⟩ := bind_eq_ok.1 h
    obtain ⟨l, hl, h⟩ := bind_eq_ok.1 h
    obtain ⟨edited, hedited, h⟩ := bind_eq_ok.1 h
    rw [foldl_removeSection] at hedited
    exact ⟨⟨forM_eq_ok.1 hnames, hdistinct⟩, l, edited, hl, hedited, h⟩
  · intro h
    obtain ⟨⟨hnames, hdistinct⟩, l, edited, hl, hedited, h⟩ := h
    refine ⟨(), forM_eq_ok.2 hnames, ?_⟩
    refine bind_eq_ok.2 ⟨(), hdistinct, ?_⟩
    refine bind_eq_ok.2 ⟨l, hl, ?_⟩
    refine bind_eq_ok.2 ⟨edited, ?_, h⟩
    rw [foldl_removeSection]
    exact hedited

/-- An executable whose layout comes back when it is written: the PE header stands behind the DOS
header, the data directories lie inside the optional header, and a string table ends in a zero byte.
-/
structure IsEditable (x : Bytes) (h : Headers) (l : Layout) : Prop where
  headers : Headers.decode x = .ok h
  layout : Layout.decode x = .ok l
  le_peOffset : Headers.peOffsetField + 4 ≤ h.peOffset
  directories_le :
    h.directoriesOffset + h.numberOfDirectories * DataDirectory.width ≤ h.tableOffset
  endsInNul : ∀ t ∈ l.symbols, t.EndsInNul

theorem IsEditable.holds {h : Headers} {l : Layout} (hx : IsEditable x h l) : l.Holds h := by
  obtain ⟨g, certificates, hr⟩ := decode_eq_ok_iff.1 hx.layout
  have hg := Headers.decode_eq_ok_iff.2 hr.headers
  rw [hx.headers] at hg
  cases hg
  exact hr.holds hx.le_peOffset hx.directories_le

theorem IsEditable.isSound {h : Headers} {l : Layout} (hx : IsEditable x h l) : l.IsSound := by
  obtain ⟨g, certificates, hr⟩ := decode_eq_ok_iff.1 hx.layout
  exact hr.isSound hx.endsInNul

/-- What stands behind a successful request. -/
theorem IsEditable.edited {h : Headers} {l : Layout} (hx : IsEditable x h l)
    (hy : applySections x requests = .ok y) :
    ∃ edited, (l.removeAll requests).addSections requests = .ok edited ∧
      (l.removeAll requests).Added requests edited ∧ edited.Holds h ∧ edited.IsWritable ∧
      y = edited.written := by
  obtain ⟨-, m, edited, hm, hedited, hencode⟩ := applySections_eq_ok.1 hy
  rw [hx.layout] at hm
  cases hm
  have hadded := addSections_eq_ok (hx.isSound.removeAll requests) hedited
  obtain ⟨hwritable, hwritten⟩ := encode_eq_ok_iff.1 hencode
  exact ⟨edited, hedited, hadded, hadded.holds (hx.holds.removeAll requests), hwritable, hwritten⟩

/-- The result is editable too. It has the sections that no request is for, each as it was but for
its place, and then one for each request. -/
theorem IsEditable.applied {h : Headers} {l : Layout} (hx : IsEditable x h l)
    (hy : applySections x requests = .ok y)
    (hcount : (l.kept requests).length + requests.length ≤ 65535) :
    ∃ h' l' old new, IsEditable y h' l' ∧ l'.sections = old ++ new ∧
      old.map (·.unplaced) = (l.kept requests).map (·.unplaced) ∧
      List.Forall₂ (fun r s => s.name = r.name ∧ s.header.virtualAddress = r.virtualAddress ∧
        s.content = r.data) requests new := by
  obtain ⟨edited, -, hadded, hholds, hwritable, rfl⟩ := hx.edited hy
  have hsound := hadded.isSound
  have hlength := hadded.length_sections
  change _ = (l.kept requests).length + _ at hlength
  have hread := decode_written hholds hsound hwritable (by omega)
  have hheaders := reads_written hholds hsound hwritable (by omega)
  obtain ⟨added, hsections, hserved⟩ := hadded.sections
  have hsplit := placed_append edited.fileAlignment.toNat edited.headersStop (l.kept requests) added
  rw [show l.kept requests ++ added = edited.sections from hsections.symm] at hsplit
  refine ⟨edited.rereadHeaders h, edited.reread, _, _, ?_, hsplit, map_unplaced_placed ?_ _,
    (isServed_placed hserved _ _).imp ?_⟩
  · exact {
      headers := Headers.decode_eq_ok_iff.2 hheaders
      layout := hread
      le_peOffset := hholds.le_peOffset
      directories_le := hholds.directories_le
      endsInNul := fun t ht => (allWhole_counted hsound.symbols t ht).endsInNul }
  · intro s hs
    exact (hx.isSound.sections s (List.mem_of_mem_filter hs)).sizeOfRawData
  · intro r s hs
    exact ⟨hs.name, hs.virtualAddress, hs.content⟩

/-- The result has the sections that no request is for, each as it was but for its place, and then
one for each request. -/
theorem sections_of_applySections {h : Headers} {l : Layout} (hx : IsEditable x h l)
    (hy : applySections x requests = .ok y)
    (hcount : (l.kept requests).length + requests.length ≤ 65535) :
    ∃ l' old new, Layout.decode y = .ok l' ∧ l'.sections = old ++ new ∧
      old.map (·.unplaced) = (l.kept requests).map (·.unplaced) ∧
      List.Forall₂ (fun r s => s.name = r.name ∧ s.header.virtualAddress = r.virtualAddress ∧
        s.content = r.data) requests new := by
  obtain ⟨_, l', old, new, hy', hsections⟩ := hx.applied hy hcount
  exact ⟨l', old, new, hy'.layout, hsections⟩

/-- A small executable: one section of three bytes, in a file aligned to four. -/
def smallExecutable : Bytes :=
  [0x4d, 0x5a] ++ Bytes.zeros 58 ++ Bytes.ofNatLE 4 64 ++ [0x50, 0x45, 0, 0] ++
    Bytes.ofNatLE 2 0x8664 ++ Bytes.ofNatLE 2 1 ++ Bytes.zeros 12 ++ Bytes.ofNatLE 2 96 ++
    Bytes.zeros 2 ++
    Bytes.ofNatLE 2 0x10b ++ Bytes.zeros 30 ++ Bytes.ofNatLE 4 0x1000 ++ Bytes.ofNatLE 4 4 ++
    Bytes.zeros 20 ++ Bytes.ofNatLE 4 224 ++ Bytes.zeros 32 ++
    SectionHeader.encode {
      rawName := Bytes.padTo [0x2e, 0x61] SectionHeader.nameSize
      virtualSize := 3
      virtualAddress := 0x1000
      sizeOfRawData := 3
      pointerToRawData := 224 } ++
    [1, 2, 3]

theorem exists_isEditable_smallExecutable :
    ∃ h l, IsEditable smallExecutable h l ∧ l.sections.length = 1 ∧ l.symbols = none := by
  obtain ⟨h, hh, hplace⟩ := exists_eq_ok_of_any (e := Headers.decode smallExecutable)
    (p := fun h => decide (Headers.peOffsetField + 4 ≤ h.peOffset ∧
      h.directoriesOffset + h.numberOfDirectories * DataDirectory.width ≤ h.tableOffset))
    (by decide +kernel)
  obtain ⟨l, hl, hpieces⟩ := exists_eq_ok_of_any (e := Layout.decode smallExecutable)
    (p := fun l => decide (l.sections.length = 1 ∧ l.symbols = none)) (by decide +kernel)
  have hplace := of_decide_eq_true hplace
  have hpieces := of_decide_eq_true hpieces
  exact ⟨h, l, {
    headers := hh
    layout := hl
    le_peOffset := hplace.1
    directories_le := hplace.2
    endsInNul := fun t ht => by rw [hpieces.2] at ht; cases ht }, hpieces⟩

/-- A second section, under a name that takes a string table. -/
def secondSection : SectionRequest :=
  { name := ".longer.name", virtualAddress := 0x2000, data := [7, 8] }

/-- A section to stand in place of the one that the small executable has. -/
def replacingSection : SectionRequest := { name := ".a", virtualAddress := 0x3000, data := [9] }

theorem exists_isEditable_secondSection :
    ∃ x h l kept, applySections smallExecutable [secondSection] = .ok x ∧ IsEditable x h l ∧
      l.sections.map (·.name) = [".a", ".longer.name"] ∧ l.kept [replacingSection] = [kept] ∧
      kept.name = ".longer.name" ∧ kept.content = [7, 8] := by
  obtain ⟨h₀, l₀, hx₀, hone, -⟩ := exists_isEditable_smallExecutable
  obtain ⟨x, hx, hsections⟩ := exists_eq_ok_of_any
    (e := applySections smallExecutable [secondSection])
    (p := fun x => (Layout.decode x).toOption.any fun l : Layout =>
      decide (l.sections.map (·.name) = [".a", ".longer.name"] ∧
        (l.kept [replacingSection]).map (fun s => (s.name, s.content)) =
          [(".longer.name", [7, 8])]))
    (by decide +kernel)
  have hfew : (l₀.kept [secondSection]).length ≤ l₀.sections.length := List.length_filter_le _ _
  obtain ⟨h, l, -, -, heditable, -⟩ := hx₀.applied hx
    (show (l₀.kept [secondSection]).length + 1 ≤ 65535 by omega)
  rw [heditable.layout] at hsections
  obtain ⟨hnames, hpieces⟩ := of_decide_eq_true hsections
  obtain ⟨kept, hkept, hpiece⟩ := List.map_eq_singleton_iff.1 hpieces
  obtain ⟨hname, hcontent⟩ := Prod.mk.inj hpiece
  exact ⟨x, h, l, kept, hx, heditable, hnames, hkept, hname, hcontent⟩

/-- The small executable gets a second section, and then its first one is replaced: the second
stays, and the new one comes behind it. -/
theorem sections_of_smallExecutable :
    ∃ x h l y l' kept old new, applySections smallExecutable [secondSection] = .ok x ∧
      IsEditable x h l ∧ l.sections.map (·.name) = [".a", ".longer.name"] ∧
      l.kept [replacingSection] = [kept] ∧ kept.name = ".longer.name" ∧ kept.content = [7, 8] ∧
      applySections x [replacingSection] = .ok y ∧ Layout.decode y = .ok l' ∧
      l'.sections = old ++ new ∧ old.map (·.unplaced) = [kept.unplaced] ∧
      List.Forall₂ (fun r s => s.name = r.name ∧ s.header.virtualAddress = r.virtualAddress ∧
        s.content = r.data) [replacingSection] new := by
  obtain ⟨x, h, l, kept, hx, heditable, hnames, hkept, hpieces⟩ := exists_isEditable_secondSection
  obtain ⟨x', hx', hreplaced⟩ := exists_eq_ok_of_any
    (e := applySections smallExecutable [secondSection])
    (p := fun x => (applySections x [replacingSection]).toOption.any fun _ => true)
    (by decide +kernel)
  obtain rfl := Except.ok.inj (hx.symm.trans hx')
  obtain ⟨y, hy, -⟩ := exists_eq_ok_of_any hreplaced
  have hone : (l.kept [replacingSection]).length = 1 := by rw [hkept, List.length_singleton]
  obtain ⟨l', old, new, hl', hsplit, hold, hnew⟩ := sections_of_applySections heditable hy
    (show (l.kept [replacingSection]).length + 1 ≤ 65535 by omega)
  rw [hkept] at hold
  exact ⟨x, h, l, y, l', kept, old, new, hx, heditable, hnames, hkept, hpieces.1, hpieces.2, hy,
    hl', hsplit, hold, hnew⟩

end SecureBoot.Pe
