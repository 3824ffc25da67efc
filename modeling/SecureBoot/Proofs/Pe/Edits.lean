import Mathlib
import SecureBoot.Proofs.Pe.ApplySections

/-!
# Runs of edits

A layout is edited by any mix of removals and additions, some of which may fail. What is compared
when a section is added are the sections present at that moment only; that no two sections get into
each other's way later is a matter of the whole run.

**What was there before** a run and was never removed stands in front (`untouched`), what the run
has added stands behind it. The sections of an executable may share names and overlap among
themselves, so nothing is said about pairs of old sections.

**The invariant** (`Edited`) is that each added section is apart from all others. Removing keeps it,
because a sublist of pairs that are apart is one again; adding keeps it, because the request was
checked against everything present (`isApart_of_checkRequest`). The run follows by induction
(`edited_run`), and `isApart_of_run` tells it place by place.
-/

namespace SecureBoot.Pe

/-! ## Sections that are apart -/

/-- The addresses of the pages of a section. -/
def Section.pages (sectionAlignment : UInt32) (s : Section) : Set Nat :=
  Set.Ico s.header.virtualAddress.toNat
    (s.header.virtualAddress.toNat + alignUp s.header.span sectionAlignment.toNat)

/-- Two sections of different names that share no address. -/
structure Section.IsApart (sectionAlignment : UInt32) (s t : Section) : Prop where
  name : s.name ≠ t.name
  pages : Disjoint (s.pages sectionAlignment) (t.pages sectionAlignment)

theorem Section.IsApart.symm {sectionAlignment : UInt32} {s t : Section}
    (h : s.IsApart sectionAlignment t) : t.IsApart sectionAlignment s :=
  ⟨h.name.symm, h.pages.symm⟩

theorem Layout.Mapped.isDisjoint_iff (m n : Layout.Mapped) :
    m.isDisjoint n ↔ Disjoint (Set.Ico m.start m.stop) (Set.Ico n.start n.stop) := by
  simp only [isDisjoint, isEmpty, Bool.or_eq_true, decide_eq_true_eq, Set.Ico_disjoint_Ico]
  omega

namespace Layout

variable {l l' : Layout} {r : SectionRequest}

theorem span_requestedSection (h : r.data.length ≤ maxWord) (rawName : Bytes) :
    (l.requestedSection r rawName).header.span = r.data.length := by
  have hsize : (UInt32.ofNat r.data.length).toNat = r.data.length :=
    Bytes.toNat_ofNat_of_le_maxWord h
  show (if UInt32.ofNat r.data.length = 0 then _ else _) = _
  split
  · rename_i hzero
    rw [hzero] at hsize
    have hdata : r.data = [] := List.eq_nil_of_length_eq_zero hsize.symm
    show (UInt32.ofNat (Bytes.padTo r.data _).length).toNat = _
    rw [hdata, List.length_nil, alignUp_zero]
    rfl
  · exact hsize

/-- A request that was accepted is apart from every section that is there. -/
theorem isApart_of_checkRequest (h : l.checkRequest r = .ok ()) (rawName : Bytes) :
    ∀ s ∈ l.sections, s.IsApart l.sectionAlignment (l.requestedSection r rawName) := by
  intro s hs
  have haccepts := checkRequest_eq_ok_iff.1 h
  constructor
  · intro heq
    apply haccepts.isNew
    rw [section?, List.find?_isSome]
    exact ⟨s, hs, decide_eq_true heq⟩
  · have hdisjoint := (Mapped.isDisjoint_iff _ _).1 (haccepts.sections s hs)
    rw [Section.pages, Section.pages, span_requestedSection haccepts.length_le]
    exact hdisjoint.symm

/-! ## Runs -/

/-- A step of a run: to remove all sections of a name, or to try to add one. -/
inductive Edit where
  | remove (name : String)
  | add (request : SectionRequest)
  deriving DecidableEq, Repr

/-- The layout after a step, which for an addition that fails is what the attempt has left. -/
def edit (l : Layout) : Edit → Layout
  | .remove name => l.removeSection name
  | .add r => (l.addSection r).1

def run (l : Layout) (edits : List Edit) : Layout := edits.foldl edit l

/-- The sections that stand from before a run to its end. -/
def untouched (l : Layout) (edits : List Edit) : List Section :=
  l.sections.filter fun s => .remove s.name ∉ edits

/-- Whether a section is what one of these steps has asked for. -/
def IsRequested (fileAlignment : UInt32) (edits : List Edit) (s : Section) : Prop :=
  ∃ r, .add r ∈ edits ∧ r.IsServed fileAlignment s

theorem IsRequested.append {fileAlignment : UInt32} {edits : List Edit} {s : Section}
    (h : IsRequested fileAlignment edits s) (e : Edit) :
    IsRequested fileAlignment (edits ++ [e]) s := by
  obtain ⟨r, hr, hserved⟩ := h
  exact ⟨r, List.mem_append_left _ hr, hserved⟩

/-- An attempt to add a section may change the string table; if it succeeds, it also appends the
section. -/
theorem edit_add (l : Layout) (r : SectionRequest) :
    ∃ symbols, l.edit (.add r) = { l with symbols } ∨
      l.checkRequest r = .ok () ∧ ∃ rawName, encodeName l.symbols r.name = (.ok rawName, symbols) ∧
        l.edit (.add r) =
          { l with symbols, sections := l.sections ++ [l.requestedSection r rawName] } := by
  rw [edit, addSection]
  split
  · exact ⟨l.symbols, .inl rfl⟩
  · rename_i hcheck
    split
    · exact ⟨_, .inl rfl⟩
    · rename_i hname
      exact ⟨_, .inr ⟨hcheck, _, hname, rfl⟩⟩

/-- What a run has made of the layout `l`: the sections in `added` stand behind those that were not
touched, each is what a step has asked for, and is apart from all others. -/
structure Edited (l : Layout) (edits : List Edit) (added : List Section) (l' : Layout) : Prop where
  fileAlignment : l'.fileAlignment = l.fileAlignment
  sectionAlignment : l'.sectionAlignment = l.sectionAlignment
  sections : l'.sections = l.untouched edits ++ added
  requested : ∀ s ∈ added, IsRequested l.fileAlignment edits s
  apart_untouched : ∀ s ∈ l.untouched edits, ∀ t ∈ added, s.IsApart l.sectionAlignment t
  apart : added.Pairwise (Section.IsApart l.sectionAlignment)

theorem edited_start (l : Layout) : l.Edited [] [] l where
  fileAlignment := rfl
  sectionAlignment := rfl
  sections := by
    rw [untouched, List.append_nil]
    exact (List.filter_eq_self.2 fun _ _ => rfl).symm
  requested := nofun
  apart_untouched := nofun
  apart := List.Pairwise.nil

variable {edits : List Edit} {added : List Section}

theorem untouched_remove (l : Layout) (edits : List Edit) (name : String) :
    l.untouched (edits ++ [.remove name]) = (l.untouched edits).filter (·.name ≠ name) := by
  rw [untouched, untouched, List.filter_filter]
  apply List.filter_congr
  intro s _
  simp [not_or, and_comm]

theorem untouched_add (l : Layout) (edits : List Edit) (r : SectionRequest) :
    l.untouched (edits ++ [.add r]) = l.untouched edits := by
  apply List.filter_congr
  intro s _
  simp

theorem Edited.remove (h : l.Edited edits added l') (name : String) :
    l.Edited (edits ++ [.remove name]) (added.filter (·.name ≠ name)) (l'.edit (.remove name)) where
  fileAlignment := h.fileAlignment
  sectionAlignment := h.sectionAlignment
  sections := by
    rw [untouched_remove, ← List.filter_append, ← h.sections]
    rfl
  requested s hs := (h.requested s (List.mem_of_mem_filter hs)).append _
  apart_untouched s hs t ht := by
    rw [untouched_remove] at hs
    exact h.apart_untouched s (List.mem_of_mem_filter hs) t (List.mem_of_mem_filter ht)
  apart := h.apart.filter _

theorem Edited.add (h : l.Edited edits added l') (r : SectionRequest) :
    ∃ added', l.Edited (edits ++ [.add r]) added' (l'.edit (.add r)) := by
  obtain ⟨symbols, hedit | ⟨hcheck, rawName, -, hedit⟩⟩ := edit_add l' r
  · refine ⟨added, ?_⟩
    rw [hedit]
    exact {
      fileAlignment := h.fileAlignment
      sectionAlignment := h.sectionAlignment
      sections := by rw [untouched_add]; exact h.sections
      requested := fun s hs => (h.requested s hs).append _
      apart_untouched := by rw [untouched_add]; exact h.apart_untouched
      apart := h.apart }
  · have hapart := isApart_of_checkRequest hcheck rawName
    rw [h.sections, h.sectionAlignment] at hapart
    refine ⟨added ++ [l'.requestedSection r rawName], ?_⟩
    rw [hedit]
    exact {
      fileAlignment := h.fileAlignment
      sectionAlignment := h.sectionAlignment
      sections := by
        rw [untouched_add, ← List.append_assoc, ← h.sections]
      requested := fun s hs => by
        rcases List.mem_append.1 hs with hs | hs
        · exact (h.requested s hs).append _
        · rw [List.mem_singleton.1 hs, ← h.fileAlignment]
          exact ⟨r, List.mem_append_right _ List.mem_cons_self, isServed_requestedSection hcheck _⟩
      apart_untouched := fun s hs t ht => by
        rw [untouched_add] at hs
        rcases List.mem_append.1 ht with ht | ht
        · exact h.apart_untouched s hs t ht
        · rw [List.mem_singleton.1 ht]
          exact hapart s (List.mem_append_left _ hs)
      apart := by
        refine List.pairwise_append.2 ⟨h.apart, List.pairwise_singleton _ _, fun s hs t ht => ?_⟩
        rw [List.mem_singleton.1 ht]
        exact hapart s (List.mem_append_right _ hs) }

/-- Every run keeps the added sections apart from all others. -/
theorem edited_run (l : Layout) (edits : List Edit) :
    ∃ added, l.Edited edits added (l.run edits) := by
  induction edits using List.reverseRecOn with
  | nil => exact ⟨[], l.edited_start⟩
  | append_singleton edits e ih =>
    obtain ⟨added, h⟩ := ih
    rw [run, List.foldl_append]
    cases e with
    | remove name => exact ⟨_, h.remove name⟩
    | add r => exact h.add r

/-- Behind the sections that a run has not touched stand those that it has added. Each of them
differs in name and addresses from every other section, old or new. -/
theorem isApart_of_run (l : Layout) (edits : List Edit) :
    ∃ added, (l.run edits).sections = l.untouched edits ++ added ∧
      (∀ s ∈ added, IsRequested l.fileAlignment edits s) ∧
      ∀ i j s t, i ≠ j → (l.untouched edits).length ≤ i → (l.run edits).sections[i]? = some s →
        (l.run edits).sections[j]? = some t → s.name ≠ t.name ∧
          Disjoint (s.pages (l.run edits).sectionAlignment)
            (t.pages (l.run edits).sectionAlignment) := by
  obtain ⟨added, h⟩ := l.edited_run edits
  refine ⟨added, h.sections, h.requested, fun i j s t hne hi hs ht => ?_⟩
  rw [h.sections] at hs ht
  rw [h.sectionAlignment]
  rw [List.getElem?_append_right hi] at hs
  suffices hapart : s.IsApart l.sectionAlignment t from ⟨hapart.name, hapart.pages⟩
  by_cases hj : j < (l.untouched edits).length
  · rw [List.getElem?_append_left hj] at ht
    exact (h.apart_untouched t (List.mem_of_getElem? ht) s (List.mem_of_getElem? hs)).symm
  · rw [List.getElem?_append_right (Nat.le_of_not_lt hj)] at ht
    obtain ⟨hi', rfl⟩ := List.getElem?_eq_some_iff.1 hs
    obtain ⟨hj', rfl⟩ := List.getElem?_eq_some_iff.1 ht
    rcases Nat.lt_or_gt_of_ne hne with hlt | hlt
    · exact List.pairwise_iff_getElem.1 h.apart _ _ hi' hj' (by omega)
    · exact (List.pairwise_iff_getElem.1 h.apart _ _ hj' hi' (by omega)).symm

/-- Of two sections for the same page only the first finds a place beside the old section. -/
theorem isApart_of_run_smallExecutable :
    ∃ l s t, Layout.decode smallExecutable = .ok l ∧
      (l.run [.add ⟨".new", 0x2000, none, [1]⟩, .remove ".none",
        .add ⟨".newer", 0x2800, some 0x800, [2]⟩]).sections = [s, t] ∧
      s.name ≠ t.name ∧ Disjoint (s.pages l.sectionAlignment) (t.pages l.sectionAlignment) := by
  let edits : List Edit := [.add ⟨".new", 0x2000, none, [1]⟩, .remove ".none",
    .add ⟨".newer", 0x2800, some 0x800, [2]⟩]
  obtain ⟨l, hl, hrun⟩ := exists_eq_ok_of_any (e := Layout.decode smallExecutable)
    (p := fun l => (l.run edits).sections.length = 2 ∧ (l.untouched edits).length = 1)
    (by decide +kernel)
  obtain ⟨htwo, hone⟩ := of_decide_eq_true hrun
  obtain ⟨s, t, hst⟩ := List.length_eq_two.1 htwo
  obtain ⟨added, h⟩ := l.edited_run edits
  obtain ⟨-, -, -, hapart⟩ := isApart_of_run l edits
  have := hapart 1 0 t s (by decide) hone.le (by rw [hst]; rfl) (by rw [hst]; rfl)
  rw [h.sectionAlignment] at this
  exact ⟨l, s, t, hl, hst, this.1.symm, this.2.symm⟩

end Layout

end SecureBoot.Pe
