import Mathlib
import SecureBoot.Proofs.FileOperations
import SecureBoot.Proofs.Pe.HeaderPages

/-!
# Room for the parts of a unified kernel

A kernel layout gives each of its four sections the bytes up to where the next one begins, and the
initial file system all addresses that are left. Content that has more bytes is refused before the
boot program is looked at. The section editor measures anew, and in other units:

* *pages*: two sections must not share a page of the boot program, whose size the layout does not
  know,
* *bytes in the file*: content is padded, and what comes out must leave the greatest address of all
  free.

**Who gets in whose way** follows from the alignment. Three of the sections start at a page, so of
two of them the earlier one ends in front of the later one, page by page. Only the generation data
may have an alignment of its own and start in the middle of a page, in which the command line still
lies, or spread over one more page, in which the kernel begins (`overlap_requests`). All others have
at least one page between them.

**Theorem (`hasRoom_requests`).** With content within the capacities the editor lacks room only if
rounding takes it (`HasRoom`), and where rounding takes it, there is no image. If the generation
data starts at a page, no two of the four sections overlap. Otherwise two of them can, and the last
one can be too long, both with content within its capacity (`lacksRoom_smallExecutable`).
-/

namespace SecureBoot

namespace Pe

/-- Whether the pages of a section end in front of another one, or one of the two has no content. -/
def SectionRequest.EndsBefore (sectionAlignment : UInt32) (r s : SectionRequest) : Prop :=
  r.data = [] ∨ s.data = [] ∨
    r.virtualAddress.toNat + alignUp r.data.length sectionAlignment.toNat ≤ s.virtualAddress.toNat

/-- Whether a section starts at a page or has an alignment of its own. -/
def SectionRequest.IsAtPage (sectionAlignment : UInt32) (r : SectionRequest) : Prop :=
  r.explicitAlignment = none →
    alignUp r.virtualAddress.toNat sectionAlignment.toNat = r.virtualAddress.toNat

/-- An error for want of room, because of the size of one of these sections or because two of them
overlap. -/
inductive LacksRoom (names : List String) : Error → Prop
  | size {name : String} (bytes limit : Nat) (hname : name ∈ names) :
      LacksRoom names (.sectionTooLarge name bytes limit)
  | overlap {name other : String} (start stop : Nat) (hname : name ∈ names)
      (hother : other ∈ names) : LacksRoom names (.sectionOverlap name other start stop)

namespace Layout

variable {l l' : Layout} {r t : SectionRequest} {requests before after : List SectionRequest}
  {names : List String} {e : Error}

/-- Whether sections in the order of their addresses have room: for their padded bytes in front of
the greatest address, and for their pages in front of the next one. -/
structure HasRoom (l : Layout) (requests : List SectionRequest) : Prop where
  size_le : ∀ r ∈ requests,
    alignUp r.data.length l.fileAlignment.toNat ≤ maxWord - r.virtualAddress.toNat
  endsBefore : requests.IsChain (SectionRequest.EndsBefore l.sectionAlignment)

/-! ## Pages -/

theorem isEmpty_mapped (l : Layout) (address : UInt32) (size : Nat) :
    (l.mapped address size).isEmpty ↔ size = 0 := by
  have hle := le_alignUp size l.sectionAlignment.toNat
  rw [Mapped.isEmpty, mapped, decide_eq_true_eq]
  dsimp only
  constructor
  · intro hstop
    omega
  · rintro rfl
    rw [alignUp_zero, Nat.add_zero]

theorem isDisjoint_mapped_iff (hlt : r.virtualAddress < t.virtualAddress) :
    (l.mapped t.virtualAddress t.data.length).isDisjoint
        (l.mapped r.virtualAddress r.data.length) ↔
      r.EndsBefore l.sectionAlignment t := by
  have hlt' : r.virtualAddress.toNat < t.virtualAddress.toNat := hlt
  have hle := le_alignUp t.data.length l.sectionAlignment.toNat
  have hempty : ∀ s : SectionRequest, s.data.length = 0 ↔ s.data = [] := fun s =>
    List.length_eq_zero_iff
  have ht := isEmpty_mapped l t.virtualAddress t.data.length
  have hr := isEmpty_mapped l r.virtualAddress r.data.length
  rw [hempty] at ht hr
  rw [Mapped.isDisjoint, Bool.or_eq_true, Bool.or_eq_true, Bool.or_eq_true, ht, hr,
    decide_eq_true_eq, decide_eq_true_eq, SectionRequest.EndsBefore, mapped, mapped]
  dsimp only
  constructor
  · rintro (((hdata | hdata) | hstop) | hstop)
    · exact .inr (.inl hdata)
    · exact .inl hdata
    · exfalso
      omega
    · exact .inr (.inr hstop)
  · rintro (hdata | hdata | hstop)
    · exact .inl (.inl (.inr hdata))
    · exact .inl (.inl (.inl hdata))
    · exact .inr hstop

/-! ## What the editor finds -/

theorem not_lacksRoom_of_checkName {name : String} (h : checkName name = .error e) :
    ¬ LacksRoom names e := by
  unfold checkName at h
  split_ifs at h <;> cases h <;> nofun

theorem not_lacksRoom_of_encodeName {symbols symbols' : Option SymbolTable} {name : String}
    (h : encodeName symbols name = (.error e, symbols')) : ¬ LacksRoom names e := by
  unfold encodeName at h
  dsimp only at h
  split_ifs at h
  · cases h
  · cases h
    nofun
  · cases h

theorem checkDisjoint_eq_error {name other : String} {range otherRange : Mapped} :
    checkDisjoint name range other otherRange = .error e ↔
      ¬ range.isDisjoint otherRange ∧ e = .sectionOverlap name other range.start range.stop := by
  unfold checkDisjoint
  split
  · exact ⟨nofun, fun h => absurd (by assumption) h.1⟩
  · exact ⟨fun h => by cases h; exact ⟨by assumption, rfl⟩, fun h => h.2 ▸ rfl⟩

/-- A request that is refused for want of room is aligned, and has more bytes than there are
addresses, or shares pages with a section that is there. -/
theorem lacksRoom_checkRequest (h : l.checkRequest r = .error e) (he : LacksRoom names e)
    (hheaders : "headers" ∉ names) :
    r.virtualAddress % r.explicitAlignment.getD l.sectionAlignment = 0 ∧
      (maxWord - r.virtualAddress.toNat < alignUp r.data.length l.fileAlignment.toNat ∧
          (∀ name other start stop, e ≠ .sectionOverlap name other start stop) ∨
        ∃ s ∈ l.sections, s.name ∈ names ∧
          ¬ (l.mapped r.virtualAddress r.data.length).isDisjoint
            (l.mapped s.header.virtualAddress s.header.span)) := by
  rw [checkRequest, bind_eq_error] at h
  rcases h with hname | ⟨_, -, h⟩
  · exact absurd he (not_lacksRoom_of_checkName hname)
  rcases check_bind_eq_error.1 h with ⟨-, rfl⟩ | ⟨-, h⟩
  · cases he
  rcases check_bind_eq_error.1 h with ⟨-, rfl⟩ | ⟨halignment, h⟩
  · cases he
  refine ⟨(Decidable.not_not.1 halignment).2, ?_⟩
  rcases check_bind_eq_error.1 h with ⟨hsize, rfl⟩ | ⟨-, h⟩
  · exact .inl ⟨hsize, fun _ _ _ _ heq => by cases heq⟩
  rcases bind_eq_error.1 h with h | ⟨_, -, h⟩
  · obtain ⟨-, rfl⟩ := checkDisjoint_eq_error.1 h
    cases he
    exact absurd ‹_› hheaders
  · obtain ⟨s, hs, h⟩ := exists_of_forM_eq_error h
    obtain ⟨hmeet, rfl⟩ := checkDisjoint_eq_error.1 h
    cases he
    exact .inr ⟨s, hs, ‹_›, hmeet⟩

theorem addSections_eq_error (h : l.addSections requests = .error e) :
    ∃ before r after middle, requests = before ++ r :: after ∧
      l.addSections before = .ok middle ∧ (middle.addSection r).2 = some e := by
  induction requests generalizing l with
  | nil => cases h
  | cons first rest ih =>
    rw [addSections] at h
    split at h
    · rename_i hfirst
      cases h
      exact ⟨[], first, rest, l, rfl, rfl, by rw [hfirst]⟩
    · rename_i next hnext
      obtain ⟨before, r, after, middle, rfl, hmiddle, he⟩ := ih h
      exact ⟨first :: before, r, after, middle, rfl, by rw [addSections, hnext]; exact hmiddle, he⟩

theorem mem_sections_of_addSections (h : l.addSections requests = .ok l') {s : Section}
    (hs : s ∈ l'.sections) :
    s ∈ l.sections ∨ ∃ r ∈ requests, s.name = r.name ∧
      s.header.virtualAddress = r.virtualAddress ∧ s.header.span = r.data.length := by
  induction requests generalizing l with
  | nil =>
    cases h
    exact .inl hs
  | cons first rest ih =>
    rw [addSections] at h
    split at h
    · cases h
    · rename_i next hnext
      obtain ⟨rawName, symbols, hcheck, -, rfl⟩ := addSection_eq hnext
      rcases ih h with hold | ⟨r, hr, hserved⟩
      · rcases List.mem_append.1 hold with hold | hnew
        · exact .inl hold
        · rw [List.mem_singleton.1 hnew]
          exact .inr ⟨first, List.mem_cons_self, rfl, rfl,
            span_requestedSection (checkRequest_eq_ok_iff.1 hcheck).length_le rawName⟩
      · exact .inr ⟨r, List.mem_cons_of_mem _ hr, hserved⟩

/-- Where the editor finds no room, sections in front of the one that is refused stand at pages or
have alignments of their own, and one of them is in its way, unless it is too long itself. -/
theorem exists_of_lacksRoom (hnames : ∀ s ∈ l.sections, s.name ∉ names)
    (hheaders : "headers" ∉ names) (h : l.addSections requests = .error e)
    (he : LacksRoom names e) :
    ∃ before r after, requests = before ++ r :: after ∧
      (∀ t ∈ r :: before, t.IsAtPage l.sectionAlignment) ∧
      (maxWord - r.virtualAddress.toNat < alignUp r.data.length l.fileAlignment.toNat ∧
          (∀ name other start stop, e ≠ .sectionOverlap name other start stop) ∨
        ∃ t ∈ before, ¬ (l.mapped r.virtualAddress r.data.length).isDisjoint
          (l.mapped t.virtualAddress t.data.length)) := by
  obtain ⟨before, r, after, middle, rfl, hmiddle, hr⟩ := addSections_eq_error h
  obtain ⟨symbols, added, hadded, -⟩ := eq_of_addSections hmiddle
  have hfile : middle.fileAlignment = l.fileAlignment := by rw [hadded]
  have hsection : middle.sectionAlignment = l.sectionAlignment := by rw [hadded]
  have hcheck : middle.checkRequest r = .error e := by
    rw [addSection] at hr
    split at hr
    · rename_i hcheck
      cases hr
      exact hcheck
    · split at hr
      · rename_i hname
        cases hr
        exact absurd he (not_lacksRoom_of_encodeName hname)
      · cases hr
  obtain ⟨haligned, hcase⟩ := lacksRoom_checkRequest hcheck he hheaders
  refine ⟨before, r, after, rfl, ?_, ?_⟩
  · intro t ht hnone
    rw [← hsection]
    rcases List.mem_cons.1 ht with rfl | ht
    · exact alignUp_virtualAddress_of_mod haligned hnone
    · obtain ⟨front, back, rfl⟩ := List.append_of_mem ht
      obtain ⟨earlier, hearlier, hserved, -⟩ := checkRequest_of_addSections hmiddle
      obtain ⟨_, _, rfl, -⟩ := eq_of_addSections hearlier
      have hpage := alignUp_virtualAddress hserved hnone
      rw [hsection]
      exact hpage
  · rcases hcase with ⟨hsize, hother⟩ | ⟨s, hs, hname, hmeet⟩
    · left
      rw [← hfile]
      exact ⟨hsize, hother⟩
    · rcases mem_sections_of_addSections hmiddle hs with hold | ⟨t, ht, -, haddress, hspan⟩
      · exact absurd hname (hnames s hold)
      · refine .inr ⟨t, ht, ?_⟩
        rw [haddress, hspan, mapped, mapped, hsection] at hmeet
        exact hmeet

theorem hasRoom_of_addSections
    (hascending : requests.IsChain fun r t => r.virtualAddress < t.virtualAddress)
    (h : l.addSections requests = .ok l') : l.HasRoom requests where
  size_le r hr := by
    obtain ⟨before, after, rfl⟩ := List.append_of_mem hr
    obtain ⟨middle, hmiddle, hcheck, -⟩ := checkRequest_of_addSections h
    obtain ⟨_, _, rfl, -⟩ := eq_of_addSections hmiddle
    exact (checkRequest_eq_ok_iff.1 hcheck).size_le
  endsBefore := by
    rw [List.isChain_iff_forall_rel_of_append_cons_cons] at hascending ⊢
    rintro r t before after rfl
    have hlt := hascending rfl
    rw [← isDisjoint_mapped_iff (l := l) hlt]
    rw [← List.singleton_append, ← List.append_assoc] at h
    obtain ⟨middle, hmiddle, hcheck, -⟩ := checkRequest_of_addSections h
    obtain ⟨earlier, -, hserved, rawName, hmem⟩ := checkRequest_of_addSections hmiddle
    have hdisjoint := (checkRequest_eq_ok_iff.1 hcheck).sections _ hmem
    rw [span_requestedSection (checkRequest_eq_ok_iff.1 hserved).length_le] at hdisjoint
    obtain ⟨_, _, rfl, -⟩ := eq_of_addSections hmiddle
    exact hdisjoint

end Layout

end Pe

open Pe

/-! ## Kernel layouts -/

namespace KernelLayout

variable {l : KernelLayout}

theorem validate_eq_ok :
    l.validate = .ok () ↔ l.cmdline < l.sbat ∧ l.sbat < l.linux ∧ l.linux < l.initrd := by
  have hascending : ∀ {name next : String} {address nextAddress : Nat}
      {rest : List (String × Nat)},
      checkAscending ((name, address) :: (next, nextAddress) :: rest) = .ok () ↔
        address < nextAddress ∧ checkAscending ((next, nextAddress) :: rest) = .ok () := by
    intro name next address nextAddress rest
    rw [checkAscending]
    split
    · exact (and_iff_right ‹_›).symm
    · exact ⟨nofun, fun h => absurd h.1 ‹_›⟩
  rw [validate, slots, hascending, hascending, hascending]
  exact ⟨fun h => ⟨h.1, h.2.1, h.2.2.1⟩, fun h => ⟨h.1, h.2.1, h.2.2, rfl⟩⟩

theorem checkCapacity_eq_ok {requests : List SectionRequest} :
    l.checkCapacity requests = .ok () ↔
      ∀ r ∈ requests, ∀ limit ∈ l.capacity? r.name, r.data.length ≤ limit := by
  rw [checkCapacity, forM_eq_ok]
  refine forall₂_congr fun r _ => ?_
  cases l.capacity? r.name with
  | none => exact ⟨nofun, fun _ => rfl⟩
  | some limit =>
    dsimp only
    rw [check_eq_ok, Nat.not_lt]
    exact ⟨fun h _ hlimit => Option.some.inj hlimit ▸ h.1, fun h => ⟨h _ rfl, rfl⟩⟩

end KernelLayout

namespace UnifiedKernel

variable {l : KernelLayout} {parts : Parts} {kernel initrd image : Bytes}
  {before after : List SectionRequest} {r t : SectionRequest} {sectionAlignment : UInt32}

/-- Content within the capacities ends in front of the next section. -/
theorem checkCapacity_requests :
    l.checkCapacity (requests l parts kernel initrd) = .ok () ↔
      (Text.encode parts.cmdline).length ≤ l.sbat.toNat - l.cmdline.toNat ∧
        (Text.encode parts.sbat).length ≤ l.linux.toNat - l.sbat.toNat ∧
        kernel.length ≤ l.initrd.toNat - l.linux.toNat ∧
        initrd.length ≤ maxWord + 1 - l.initrd.toNat := by
  have hcmdline : l.capacity? KernelLayout.cmdlineSection =
      some (l.sbat.toNat - l.cmdline.toNat) := rfl
  have hsbat : l.capacity? KernelLayout.sbatSection = some (l.linux.toNat - l.sbat.toNat) := rfl
  have hlinux : l.capacity? KernelLayout.linuxSection =
      some (l.initrd.toNat - l.linux.toNat) := rfl
  have hinitrd : l.capacity? KernelLayout.initrdSection =
      some (maxWord + 1 - l.initrd.toNat) := rfl
  rw [KernelLayout.checkCapacity_eq_ok, requests]
  simp only [List.forall_mem_cons, hcmdline, hsbat, hlinux, hinitrd, Option.mem_some_iff,
    forall_eq', List.not_mem_nil, false_imp_iff, implies_true, and_true]

theorem isChain_requests (hvalid : l.validate = .ok ()) :
    (requests l parts kernel initrd).IsChain fun r t => r.virtualAddress < t.virtualAddress := by
  obtain ⟨hsbat, hlinux, hinitrd⟩ := KernelLayout.validate_eq_ok.1 hvalid
  exact .cons_cons hsbat (.cons_cons hlinux (.cons_cons hinitrd (.singleton _)))

/-- Of the four sections, each with content within its capacity, only neighbours can share a page,
and only if the generation data does not start at a page. -/
theorem overlap_requests (hvalid : l.validate = .ok ())
    (hcapacity : l.checkCapacity (requests l parts kernel initrd) = .ok ())
    (hsplit : requests l parts kernel initrd = before ++ r :: after)
    (hpages : ∀ t ∈ r :: before, t.IsAtPage sectionAlignment) (ht : t ∈ before)
    (hmeet : ¬ t.EndsBefore sectionAlignment r) :
    (∃ front, before = front ++ [t]) ∧ ¬ sectionAlignment.toNat ∣ l.sbat.toNat := by
  obtain ⟨hsbat, hlinux, hinitrd⟩ := KernelLayout.validate_eq_ok.1 hvalid
  obtain ⟨hcmdlineSize, hsbatSize, hlinuxSize, -⟩ := checkCapacity_requests.1 hcapacity
  rw [UInt32.lt_iff_toNat_lt] at hsbat hlinux hinitrd
  have hends : t.virtualAddress.toNat + alignUp t.data.length sectionAlignment.toNat ≤
      r.virtualAddress.toNat → False := fun hle => hmeet (.inr (.inr hle))
  -- Each section is looked at when it is the one that is refused, with those in front of it.
  rcases before with _ | ⟨b₁, _ | ⟨b₂, _ | ⟨b₃, _ | ⟨b₄, before⟩⟩⟩⟩
  · cases ht
  · cases hsplit
    obtain rfl := List.mem_singleton.1 ht
    have hcmdlinePage := hpages _ (List.mem_cons_of_mem _ List.mem_cons_self) rfl
    dsimp only at hends hcmdlinePage
    refine ⟨⟨[], rfl⟩, fun hdvd => hends ?_⟩
    exact add_alignUp_le hcmdlinePage (alignUp_of_dvd hdvd) (by omega)
  · cases hsplit
    have hcmdlinePage := hpages _ (List.mem_cons_of_mem _ List.mem_cons_self) rfl
    have hlinuxPage := hpages _ List.mem_cons_self rfl
    rcases List.mem_pair.1 ht with rfl | rfl <;> dsimp only at hends hcmdlinePage hlinuxPage
    · exact absurd (add_alignUp_le hcmdlinePage hlinuxPage (by omega)) hends
    · refine ⟨⟨[_], rfl⟩, fun hdvd => hends ?_⟩
      exact add_alignUp_le (alignUp_of_dvd hdvd) hlinuxPage (by omega)
  · cases hsplit
    have hcmdlinePage := hpages _ (List.mem_cons_of_mem _ List.mem_cons_self) rfl
    have hlinuxPage := hpages _
      (List.mem_cons_of_mem _ (List.mem_cons_of_mem _ (List.mem_cons_of_mem _
        List.mem_cons_self))) rfl
    have hinitrdPage := hpages _ List.mem_cons_self rfl
    rcases List.mem_cons.1 ht with rfl | ht
    · dsimp only at hends hcmdlinePage hinitrdPage
      exact absurd (add_alignUp_le hcmdlinePage hinitrdPage (by omega)) hends
    rcases List.mem_pair.1 ht with rfl | rfl <;> dsimp only at hends hlinuxPage hinitrdPage
    · exact absurd (add_alignUp_le_of_lt hlinuxPage hinitrdPage (by omega) hinitrd) hends
    · exact absurd (add_alignUp_le hlinuxPage hinitrdPage (by omega)) hends
  · simp [requests] at hsplit

/-- Composing with content within the capacities means to remove, add and write sections. The editor
lacks room only if the sections have none after rounding, and if they have none then it does not
succeed. No two of the four overlap if the generation data starts at a page. -/
theorem hasRoom_requests {b : Layout} (hvalid : l.validate = .ok ())
    (hcapacity : l.checkCapacity (requests l parts kernel initrd) = .ok ())
    (hb : Layout.decode image = .ok b) :
    let rs := requests l parts kernel initrd
    applySections image rs = ((b.removeAll rs).addSections rs >>= Layout.encode) ∧
      (∀ e, (b.removeAll rs).addSections rs = .error e → LacksRoom (rs.map (·.name)) e →
        ¬ b.HasRoom rs) ∧
      (∀ edited, (b.removeAll rs).addSections rs = .ok edited → b.HasRoom rs) ∧
      (b.sectionAlignment.toNat ∣ l.sbat.toNat →
        ∀ name ∈ rs.map (·.name), ∀ other ∈ rs.map (·.name), ∀ start stop,
          (b.removeAll rs).addSections rs ≠ .error (.sectionOverlap name other start stop)) := by
  intro rs
  have hfresh : ∀ s ∈ (b.removeAll rs).sections, s.name ∉ rs.map (·.name) := fun s hs =>
    of_decide_eq_true (List.mem_filter.1 hs).2
  have hheaders : "headers" ∉ rs.map (·.name) := by
    change "headers" ∉ [KernelLayout.cmdlineSection, KernelLayout.sbatSection,
      KernelLayout.linuxSection, KernelLayout.initrdSection]
    decide
  have hascending : rs.IsChain fun r t => r.virtualAddress < t.virtualAddress :=
    isChain_requests hvalid
  -- What is in the way of a section stands right in front of it.
  have hneighbour : ∀ {before r after t}, rs = before ++ r :: after →
      (∀ t ∈ r :: before, t.IsAtPage b.sectionAlignment) → t ∈ before →
      ¬ (b.mapped r.virtualAddress r.data.length).isDisjoint
        (b.mapped t.virtualAddress t.data.length) →
      (∃ front, rs = front ++ t :: r :: after) ∧ ¬ t.EndsBefore b.sectionAlignment r ∧
        ¬ b.sectionAlignment.toNat ∣ l.sbat.toNat := by
    intro before r after t hsplit hpages ht hmeet
    have hlt : t.virtualAddress < r.virtualAddress := by
      rw [List.isChain_iff_pairwise, hsplit, List.pairwise_append] at hascending
      exact hascending.2.2 t ht r List.mem_cons_self
    rw [Layout.isDisjoint_mapped_iff hlt] at hmeet
    obtain ⟨⟨front, rfl⟩, hdvd⟩ := overlap_requests hvalid hcapacity hsplit hpages ht hmeet
    exact ⟨⟨front, by rw [hsplit, List.append_assoc]; rfl⟩, hmeet, hdvd⟩
  refine ⟨?_, fun e h he hroom => ?_, fun edited h => ?_,
    fun hdvd name hname other hother start stop h => ?_⟩
  · have hnames : rs.forM (fun r => checkName r.name) = .ok () := by
      change [KernelLayout.cmdlineSection, KernelLayout.sbatSection, KernelLayout.linuxSection,
        KernelLayout.initrdSection].forM checkName = .ok ()
      decide +kernel
    have hdistinct : checkDistinct [] rs = .ok () := rfl
    rw [applySections, hnames]
    change (checkDistinct [] rs >>= _) = _
    rw [hdistinct]
    change (Layout.decode image >>= _) = _
    rw [hb, ← Layout.foldl_removeSection]
    rfl
  · obtain ⟨before, r, after, hsplit, hpages, hcase⟩ :=
      Layout.exists_of_lacksRoom hfresh hheaders h he
    rcases hcase with ⟨hsize, -⟩ | ⟨t, ht, hmeet⟩
    · have hfits := hroom.size_le r
        (by rw [hsplit]; exact List.mem_append_right _ List.mem_cons_self)
      exact absurd hsize (Nat.not_lt.2 hfits)
    · obtain ⟨⟨front, hfront⟩, hnot, -⟩ := hneighbour hsplit hpages ht hmeet
      exact hnot (List.isChain_iff_forall_rel_of_append_cons_cons.1 hroom.endsBefore hfront)
  · have hroom := Layout.hasRoom_of_addSections hascending h
    exact ⟨hroom.size_le, hroom.endsBefore⟩
  · obtain ⟨before, r, after, hsplit, hpages, hcase⟩ :=
      Layout.exists_of_lacksRoom hfresh hheaders h (.overlap start stop hname hother)
    rcases hcase with ⟨-, hno⟩ | ⟨t, ht, hmeet⟩
    · exact hno name other start stop rfl
    · exact (hneighbour hsplit hpages ht hmeet).2.2 hdvd

/-- A byte in each of the four sections, at their usual addresses. -/
def smallRequests : List SectionRequest := requests {} ⟨"c", "s", "kernel", "initrd"⟩ [1] [1]

/-- The small executable has room for a byte in each section. -/
theorem hasRoom_requests_smallExecutable :
    ∃ b edited, Layout.decode smallExecutable = .ok b ∧
      ({} : KernelLayout).validate = .ok () ∧
      ({} : KernelLayout).checkCapacity smallRequests = .ok () ∧
      (b.removeAll smallRequests).addSections smallRequests = .ok edited ∧
      b.HasRoom smallRequests := by
  obtain ⟨b, hb, hadd⟩ := exists_eq_ok_of_any (e := Layout.decode smallExecutable)
    (p := fun b => ((b.removeAll smallRequests).addSections smallRequests).toOption.any
      fun _ => true) (by decide +kernel)
  obtain ⟨edited, hedited, -⟩ := exists_eq_ok_of_any hadd
  have hvalid : ({} : KernelLayout).validate = .ok () := by decide +kernel
  have hcapacity : ({} : KernelLayout).checkCapacity smallRequests = .ok () := by decide +kernel
  obtain ⟨-, -, hroom, -⟩ := hasRoom_requests hvalid hcapacity hb
  exact ⟨b, edited, hb, hvalid, hcapacity, hedited, hroom edited hedited⟩

/-- The generation data begins in the page of the command line, and the initial file system has the
last page of all. -/
def tightLayout : KernelLayout where
  sbat := 0x30200
  initrd := 0xfffff000

/-- A byte in each of the four sections of the tight layout. -/
def halfPage : List SectionRequest := requests tightLayout ⟨"c", "s", "kernel", "initrd"⟩ [1] [1]

/-- No command line, and as much as goes into the last page. -/
def lastPage : List SectionRequest :=
  requests tightLayout ⟨"", "s", "kernel", "initrd"⟩ [1] (Bytes.zeros 0x1000)

/-- All content is within the capacities, and yet the generation data is refused for the page of the
command line, and the initial file system for its size. -/
theorem lacksRoom_smallExecutable :
    ∃ b, Layout.decode smallExecutable = .ok b ∧ tightLayout.validate = .ok () ∧
      tightLayout.checkCapacity halfPage = .ok () ∧
      (b.removeAll halfPage).addSections halfPage =
        .error (.sectionOverlap ".sbat" ".cmdline" 0x30200 0x31200) ∧
      tightLayout.checkCapacity lastPage = .ok () ∧
      (b.removeAll lastPage).addSections lastPage =
        .error (.sectionTooLarge ".initrd" 0x1000 0xfff) := by
  obtain ⟨b, hb, hfails⟩ := exists_eq_ok_of_any (e := Layout.decode smallExecutable)
    (p := fun b => decide ((b.removeAll halfPage).addSections halfPage =
        .error (.sectionOverlap ".sbat" ".cmdline" 0x30200 0x31200) ∧
      (b.removeAll lastPage).addSections lastPage =
        .error (.sectionTooLarge ".initrd" 0x1000 0xfff))) (by decide +kernel)
  obtain ⟨hoverlap, hsize⟩ := of_decide_eq_true hfails
  exact ⟨b, hb, by decide +kernel, by decide +kernel, hoverlap, by decide +kernel, hsize⟩

end UnifiedKernel

end SecureBoot
