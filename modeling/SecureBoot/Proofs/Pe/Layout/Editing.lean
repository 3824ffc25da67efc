import Mathlib
import SecureBoot.Proofs.Pe.Layout.Reading

/-!
# What editing a layout gives

Every edit leaves the front alone and keeps a layout sound. Removing takes away the sections of all
requested names (`foldl_removeSection`), adding puts one section for each request behind those that
are there (`addSections_eq_ok`).
-/

namespace SecureBoot.Pe

/-- Whether a section is what a request asks for. -/
structure SectionRequest.IsServed (fileAlignment : UInt32) (r : SectionRequest) (s : Section) :
    Prop where
  name : s.name = r.name
  virtualAddress : s.header.virtualAddress = r.virtualAddress
  virtualSize : s.header.virtualSize = UInt32.ofNat r.data.length
  data : s.data = Bytes.padTo r.data (alignUp r.data.length fileAlignment.toNat)
  length_le : r.data.length ≤ maxWord

theorem SectionRequest.IsServed.content {fileAlignment : UInt32} {r : SectionRequest} {s : Section}
    (hs : r.IsServed fileAlignment s) : s.content = r.data := by
  have hsize : s.header.virtualSize.toNat = r.data.length := by
    rw [hs.virtualSize, Bytes.toNat_ofNat_of_le_maxWord hs.length_le]
  rw [Section.content, hs.data]
  split
  · rename_i hzero
    rw [hzero] at hsize
    rw [List.eq_nil_of_length_eq_zero hsize.symm, List.length_nil, alignUp_zero]
    rfl
  · rw [hsize, Bytes.padTo, List.take_left]

/-- A request stays served wherever the section is placed. -/
theorem SectionRequest.IsServed.placedAt {fileAlignment : UInt32} {r : SectionRequest} {s : Section}
    (hs : r.IsServed fileAlignment s) (offset : Nat) :
    r.IsServed fileAlignment (s.placedAt offset) where
  name := hs.name
  virtualAddress := hs.virtualAddress
  virtualSize := hs.virtualSize
  data := hs.data
  length_le := hs.length_le

namespace Layout

open SymbolTable

variable {l l' : Layout} {r : SectionRequest} {requests : List SectionRequest}

/-! ## Removing -/

/-- The sections that no request is for. -/
def kept (l : Layout) (requests : List SectionRequest) : List Section :=
  l.sections.filter fun s => s.name ∉ requests.map (·.name)

/-- The layout without the sections of any requested name. -/
@[simps]
def removeAll (l : Layout) (requests : List SectionRequest) : Layout :=
  { l with sections := l.kept requests }

theorem foldl_removeSection (l : Layout) (requests : List SectionRequest) :
    requests.foldl (fun l r => l.removeSection r.name) l = l.removeAll requests := by
  induction requests generalizing l with
  | nil => simp [removeAll, kept]
  | cons r rest ih =>
    rw [List.foldl_cons, ih, removeAll, removeAll, kept, kept, removeSection]
    simp only [List.filter_filter, List.map_cons, List.mem_cons, not_or, Bool.decide_and]
    congr 1
    apply List.filter_congr
    intro s _
    rw [Bool.and_comm]

theorem IsSound.removeAll (hl : l.IsSound) (requests : List SectionRequest) :
    (l.removeAll requests).IsSound where
  symbols := hl.symbols
  sections := fun s hs => hl.sections s (List.mem_of_mem_filter hs)

/-! ## Adding -/

theorem checkDisjoint_eq_ok {name other : String} {range otherRange : Mapped} :
    checkDisjoint name range other otherRange = .ok () ↔ range.isDisjoint otherRange := by
  unfold checkDisjoint
  split
  · exact ⟨fun _ => by assumption, fun _ => rfl⟩
  · exact ⟨nofun, fun h => absurd h (by assumption)⟩

/-- Whether a layout has a place for a request, and its name is new and can be stored. -/
structure Accepts (l : Layout) (r : SectionRequest) : Prop where
  name : checkName r.name = .ok ()
  isNew : ¬ (l.section? r.name).isSome
  isPowerOfTwo : isPowerOfTwo (r.explicitAlignment.getD l.sectionAlignment).toNat
  aligned : r.virtualAddress % r.explicitAlignment.getD l.sectionAlignment = 0
  size_le : alignUp r.data.length l.fileAlignment.toNat ≤ maxWord - r.virtualAddress.toNat
  headers : (l.mapped r.virtualAddress r.data.length).isDisjoint
    (l.mappedHeaders (l.sections.length + 1))
  sections : ∀ s ∈ l.sections, (l.mapped r.virtualAddress r.data.length).isDisjoint
    (l.mapped s.header.virtualAddress s.header.span)

theorem checkRequest_eq_ok_iff : l.checkRequest r = .ok () ↔ l.Accepts r := by
  rw [checkRequest, bind_eq_ok]
  constructor
  · intro h
    obtain ⟨_, hname, h⟩ := h
    obtain ⟨hnew, h⟩ := check_bind_eq_ok.1 h
    obtain ⟨halignment, h⟩ := check_bind_eq_ok.1 h
    obtain ⟨hsize, h⟩ := check_bind_eq_ok.1 h
    obtain ⟨_, hheaders, h⟩ := bind_eq_ok.1 h
    obtain ⟨hpower, haligned⟩ := Decidable.not_not.1 halignment
    exact {
      name := hname
      isNew := hnew
      isPowerOfTwo := hpower
      aligned := haligned
      size_le := Nat.not_lt.1 hsize
      headers := checkDisjoint_eq_ok.1 hheaders
      sections := fun s hs => checkDisjoint_eq_ok.1 (forM_eq_ok.1 h s hs) }
  · intro h
    refine ⟨(), h.name, check_bind_eq_ok.2 ⟨h.isNew, check_bind_eq_ok.2 ⟨?_, ?_⟩⟩⟩
    · exact not_not_intro ⟨h.isPowerOfTwo, h.aligned⟩
    · refine check_bind_eq_ok.2 ⟨Nat.not_lt.2 h.size_le, bind_eq_ok.2 ⟨(), ?_, ?_⟩⟩
      · exact checkDisjoint_eq_ok.2 h.headers
      · exact forM_eq_ok.2 fun s hs => checkDisjoint_eq_ok.2 (h.sections s hs)

theorem Accepts.length_le (h : l.Accepts r) : r.data.length ≤ maxWord := by
  have hsize := h.size_le
  have hle := le_alignUp r.data.length l.fileAlignment.toNat
  omega

theorem checkRequest_eq_ok (h : l.checkRequest r = .ok ()) :
    checkName r.name = .ok () ∧ r.data.length ≤ maxWord :=
  have haccepts := checkRequest_eq_ok_iff.1 h
  ⟨haccepts.name, haccepts.length_le⟩

/-- An attempt that succeeds appends one section, and may have added to the string table. -/
theorem addSection_eq (h : l.addSection r = (l', none)) :
    ∃ rawName symbols, l.checkRequest r = .ok () ∧
      encodeName l.symbols r.name = (.ok rawName, symbols) ∧
      l' = { l with symbols, sections := l.sections ++ [l.requestedSection r rawName] } := by
  rw [addSection] at h
  split at h
  · cases h
  · rename_i hcheck
    split at h
    · cases h
    · rename_i rawName symbols hname
      cases h
      exact ⟨rawName, symbols, hcheck, hname, rfl⟩

theorem isServed_requestedSection (h : l.checkRequest r = .ok ()) (rawName : Bytes) :
    r.IsServed l.fileAlignment (l.requestedSection r rawName) where
  name := rfl
  virtualAddress := rfl
  virtualSize := rfl
  data := rfl
  length_le := (checkRequest_eq_ok h).2

theorem isServed_placed {fileAlignment : UInt32} {sections : List Section}
    (h : List.Forall₂ (·.IsServed fileAlignment) requests sections) (alignment offset : Nat) :
    List.Forall₂ (·.IsServed fileAlignment) requests (placed alignment offset sections) := by
  induction h generalizing offset with
  | nil => exact List.Forall₂.nil
  | cons hs _ ih => exact List.Forall₂.cons (hs.placedAt offset) (ih _)

theorem isSound_addSection (hl : l.IsSound) (h : l.addSection r = (l', none)) : l'.IsSound := by
  obtain ⟨rawName, symbols, hcheck, hname, rfl⟩ := addSection_eq h
  have hwhole := allWhole_encodeName hl.symbols hname
  have hgrow := grow_encodeName hl.symbols hname
  refine { symbols := hwhole, sections := ?_ }
  intro s hs
  rcases List.mem_append.1 hs with hs | hs
  · exact (hl.sections s hs).of_grow hl.symbols hwhole hgrow
  · rw [List.mem_singleton.1 hs]
    exact {
      wholeName := length_encodeName hname
      name := sectionName_encodeName (isWhole_getD hl.symbols).lengthSize_le
        (checkRequest_eq_ok hcheck).1 hname
      sizeOfRawData := rfl }

/-- What a layout has become when requests were added to it. -/
structure Added (l : Layout) (requests : List SectionRequest) (l' : Layout) : Prop where
  eq : l' = { l with symbols := l'.symbols, sections := l'.sections }
  sections : ∃ added, l'.sections = l.sections ++ added ∧
    List.Forall₂ (·.IsServed l.fileAlignment) requests added
  isSound : l'.IsSound
  grow : Grow l.symbols l'.symbols

theorem addSections_eq_ok (hl : l.IsSound) (h : l.addSections requests = .ok l') :
    l.Added requests l' := by
  induction requests generalizing l with
  | nil =>
    cases h
    exact {
      eq := rfl
      sections := ⟨[], (List.append_nil _).symm, List.Forall₂.nil⟩
      isSound := hl
      grow := Grow.refl _ }
  | cons r rest ih =>
    rw [addSections] at h
    split at h
    · cases h
    · rename_i middle hmiddle
      have hsound := isSound_addSection hl hmiddle
      have hrest := ih hsound h
      obtain ⟨rawName, symbols, hcheck, hname, rfl⟩ := addSection_eq hmiddle
      obtain ⟨added, hadded, hserved⟩ := hrest.sections
      exact {
        eq := hrest.eq
        sections := by
          refine ⟨l.requestedSection r rawName :: added, ?_, ?_⟩
          · rw [hadded, List.append_assoc, List.singleton_append]
          · exact List.Forall₂.cons (isServed_requestedSection hcheck rawName) hserved
        isSound := hrest.isSound
        grow := (grow_encodeName hl.symbols hname).trans hrest.grow }

theorem Added.holds {h : Headers} (ha : l.Added requests l') (hl : l.Holds h) : l'.Holds h := by
  rw [ha.eq]
  exact {
    le_peOffset := hl.le_peOffset
    directories_le := hl.directories_le
    length_front := hl.length_front
    fixed := hl.fixed
    coffOffset := hl.coffOffset
    certificateDirectoryOffset := hl.certificateDirectoryOffset
    fileAlignment := hl.fileAlignment
    sectionAlignment := hl.sectionAlignment }

theorem Holds.removeAll {h : Headers} (hl : l.Holds h) (requests : List SectionRequest) :
    (l.removeAll requests).Holds h where
  le_peOffset := hl.le_peOffset
  directories_le := hl.directories_le
  length_front := hl.length_front
  fixed := hl.fixed
  coffOffset := hl.coffOffset
  certificateDirectoryOffset := hl.certificateDirectoryOffset
  fileAlignment := hl.fileAlignment
  sectionAlignment := hl.sectionAlignment

theorem Added.length_sections (ha : l.Added requests l') :
    l'.sections.length = l.sections.length + requests.length := by
  obtain ⟨added, hadded, hserved⟩ := ha.sections
  rw [hadded, List.length_append, hserved.length_eq]

end Layout

end SecureBoot.Pe
