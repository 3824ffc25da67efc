import Mathlib
import SecureBoot.Proofs.FileOperations
import SecureBoot.Proofs.VendorTable

/-!
# Vendor tables that are set again and again

The vendor table of a boot loader is set by one update after the other. Each may fail, and then the
boot loader is as before. A file that the error holds is no part of it.

**Theorem (`lastUpdate_wins`).** After a run in which an update succeeded, the table that is read is
that of the last such update. Its section is the only one of its name. It stands at the address of
the last update that named one, or else where it stood in the beginning, and all other sections are
what they were in the beginning.

**The invariant** (`Carries`) tells what of the layout depends on the updates so far. A step keeps
it because the section editor drops every section of the name, puts one behind the others, and gives
an executable that can be edited again (`IsEditable.applied`).
-/

namespace SecureBoot.VendorDatabase

open DiskM Pe

variable {path : String} {d after : Disk} {x y : Bytes} {h : Headers} {l l' : Layout}

/-! ## Runs -/

/-- A call that sets the table: in the place of the one that is there, or at an address. -/
inductive Update where
  | inPlace (table : VendorTable)
  | atAddress (address : UInt32) (table : VendorTable)
  deriving DecidableEq, Repr

namespace Update

def table : Update → VendorTable
  | inPlace table | atAddress _ table => table

def address? : Update → Option UInt32
  | inPlace _ => none
  | atAddress address _ => some address

def run (path : String) : Update → DiskM Unit
  | inPlace table => set path table
  | atAddress address table => setAt path address table

end Update

/-- Updates one after another, each of which may fail. The first list holds those that succeeded,
the second one the errors of others, which can be let go of at any time. -/
inductive UpdateRun (path : String) (d : Disk) : List Update → List Failure → Disk → Prop
  | start : UpdateRun path d [] [] d
  | succeeded {done : List Update} {kept : List Failure} {u : Update} {d₁ d₂ : Disk} :
      UpdateRun path d done kept d₁ → u.run path d₁ = .ok () d₂ →
      UpdateRun path d (done ++ [u]) kept d₂
  | failed {done : List Update} {kept : List Failure} {u : Update} {f : Failure} {d₁ d₂ : Disk} :
      UpdateRun path d done kept d₁ → u.run path d₁ = .error f d₂ →
      UpdateRun path d done (f :: kept) d₂
  | released {done : List Update} {before after : List Failure} {f : Failure} {d₁ : Disk} :
      UpdateRun path d done (before ++ f :: after) d₁ →
      UpdateRun path d done (before ++ after) (d₁.release f)

/-- The updates of a list that succeed one after another, and the disk in the end. No error is
kept. -/
def updateAll (path : String) (d : Disk) (updates : List Update) : List Update × Disk :=
  updates.foldl (fun (done, d) u =>
    match u.run path d with
    | .ok _ after => (done ++ [u], after)
    | .error f after => (done, after.release f)) ([], d)

theorem updateRun_updateAll (path : String) (d : Disk) (updates : List Update) :
    UpdateRun path d (updateAll path d updates).1 [] (updateAll path d updates).2 := by
  suffices h : ∀ state : List Update × Disk, UpdateRun path d state.1 [] state.2 →
      UpdateRun path d (updates.foldl _ state).1 [] (updates.foldl _ state).2 from h ([], d) .start
  induction updates with
  | nil => exact fun _ h => h
  | cons u rest ih =>
    intro state h
    rw [List.foldl_cons]
    apply ih
    obtain ⟨done, d₁⟩ := state
    cases hrun : u.run path d₁ with
    | ok _ after =>
      simp only [hrun]
      exact h.succeeded hrun
    | error f after =>
      simp only [hrun]
      have hfailed : UpdateRun path d done ([] ++ [f]) after := h.failed hrun
      exact hfailed.released

/-! ## Sections of the table, and others -/

/-- The sections that do not hold the table. -/
def others (l : Layout) : List Pe.Section := l.sections.filter (·.name ≠ sectionName)

/-- The sections that hold it. -/
def tables (l : Layout) : List Pe.Section := l.sections.filter (·.name = sectionName)

/-- The address of the table that is read. -/
def tableAddress? (l : Layout) : Option UInt32 :=
  (l.section? sectionName).map (·.header.virtualAddress)

theorem section?_eq_head? : l.section? sectionName = (tables l).head? := by
  rw [Layout.section?, tables, List.head?_filter]

theorem tableSection_eq_ok {s : Pe.Section} (hl : Layout.decode x = .ok l) :
    tableSection x = .ok s ↔ l.section? sectionName = some s := by
  rw [tableSection, hl, bind_eq_ok]
  constructor
  · rintro ⟨_, hm, h⟩
    cases hm
    split at h
    · rename_i hsection
      cases h
      exact hsection
    · cases h
  · intro h
    exact ⟨l, rfl, by rw [h]; rfl⟩

/-- Bytes where the table is written at an address: they can be edited again, have one section of
the name, and the other sections of the old ones. -/
theorem isEditable_of_editedAt {s : FileStore} {address : UInt32} {table : VendorTable}
    (hread : s.read path = .ok x) (hx : IsEditable x h l) (hcount : (others l).length < 65535)
    (hy : editedAt s path address table = .ok y) :
    ∃ h' l' new data, IsEditable y h' l' ∧ tables l' = [new] ∧
      (others l').map (·.unplaced) = (others l).map (·.unplaced) ∧
      new.header.virtualAddress = address ∧ table.encode = .ok data ∧ new.content = data := by
  obtain ⟨data, hdata, hy⟩ := bind_eq_ok.1 hy
  rw [hread] at hy
  have hkept : l.kept [{ name := sectionName, virtualAddress := address, data }] = others l := by
    simp [Layout.kept, others]
  obtain ⟨h', l', old, new, hy', hsections, hold, hnew⟩ := hx.applied hy (by
    rw [hkept, List.length_singleton]
    omega)
  rw [hkept] at hold
  rcases hnew with _ | ⟨⟨hname, haddress, hcontent⟩, ⟨⟩⟩
  rename_i new
  replace hname : new.name = sectionName := hname
  have hnames : ∀ s ∈ old, s.name ≠ sectionName := by
    intro s hs
    have hmem : s.unplaced ∈ (others l).map (·.unplaced) := hold ▸ List.mem_map_of_mem hs
    obtain ⟨t, ht, hunplaced⟩ := List.mem_map.1 hmem
    have hsame : t.unplaced.name = s.unplaced.name := congrArg Pe.Section.name hunplaced
    have hother : t.name ≠ sectionName := of_decide_eq_true (List.mem_filter.1 ht).2
    exact fun hname => hother (hsame.trans hname)
  refine ⟨h', l', new, data, hy', ?_, ?_, haddress, hdata, hcontent⟩
  · rw [tables, hsections, List.filter_append, List.filter_eq_nil_iff.2 (by simpa using hnames)]
    simp [hname]
  · rw [others, hsections, List.filter_append, List.filter_eq_self.2 (by simpa using hnames)]
    simp [hname, hold]

/-! ## Single updates -/

namespace Update

/-- The executable after an update, computed in memory. -/
def content (s : FileStore) (path : String) : Update → Except Error Bytes
  | inPlace table => edited s path table
  | atAddress address table => editedAt s path address table

theorem ensures_run (u : Update) :
    (u.run path).Ensures d
      (fun _ s => s.DiffersInOneFile d.files ∧ (d.IsFreshFor [path] → ∃ content,
        u.content d.files path = .ok content ∧ s.Replaces d.files path content d.showsModes))
      (· = d.files) := by
  cases u with
  | inPlace table => exact ensures_set
  | atAddress address table => exact ensures_setAt

/-- Every update writes the table at some address: the one that it names, or that of the table that
is there. -/
theorem exists_editedAt {u : Update} {s : FileStore} (hread : s.read path = .ok x)
    (hl : Layout.decode x = .ok l) (hy : u.content s path = .ok y) :
    ∃ address, editedAt s path address u.table = .ok y ∧
      u.address?.or (tableAddress? l) = some address := by
  cases u with
  | atAddress address table => exact ⟨address, hy, rfl⟩
  | inPlace table =>
    obtain ⟨bytes, hbytes, hy⟩ := bind_eq_ok.1 hy
    rw [hread] at hbytes
    cases hbytes
    obtain ⟨found, hfound, hy⟩ := bind_eq_ok.1 hy
    refine ⟨found.header.virtualAddress, hy, ?_⟩
    rw [tableAddress?, (tableSection_eq_ok hl).1 hfound]
    rfl

end Update

/-! ## The invariant -/

/-- The address that the last update with one has named, or else the one at the start. -/
def lastAddress? (start : Option UInt32) (done : List Update) : Option UInt32 :=
  (done.filterMap (·.address?)).getLast?.or start

theorem lastAddress?_append (start : Option UInt32) (done : List Update) (u : Update) :
    lastAddress? start (done ++ [u]) = u.address?.or (lastAddress? start done) := by
  rw [lastAddress?, List.filterMap_append, List.getLast?_append, lastAddress?, ← Option.or_assoc]
  cases u <;> rfl

/-- What a layout has of the first one, and of the updates since. -/
structure Carries (l : Layout) (done : List Update) (l' : Layout) : Prop where
  others : (others l').map (·.unplaced) = (others l).map (·.unplaced)
  address : tableAddress? l' = lastAddress? (tableAddress? l) done
  table : ∀ u ∈ done.getLast?, ∃ s data,
    tables l' = [s] ∧ u.table.encode = .ok data ∧ s.content = data

theorem Carries.start (l : Layout) : Carries l [] l where
  others := rfl
  address := rfl
  table := nofun

theorem Carries.length_others {done : List Update} (hc : Carries l done l') :
    (VendorDatabase.others l').length = (VendorDatabase.others l).length := by
  simpa using congrArg List.length hc.others

/-- An update that succeeds is carried as well. -/
theorem Carries.update {done : List Update} {u : Update} {s : FileStore} (hc : Carries l done l')
    (hcount : l.sections.length < 65535) (hread : s.read path = .ok x) (hx : IsEditable x h l')
    (hy : u.content s path = .ok y) :
    ∃ h'' l'', IsEditable y h'' l'' ∧ Carries l (done ++ [u]) l'' := by
  obtain ⟨address, hy, haddress⟩ := u.exists_editedAt hread hx.layout hy
  have hle : (VendorDatabase.others l).length ≤ l.sections.length := List.length_filter_le _ _
  obtain ⟨h'', l'', new, data, hy', htables, hothers, hnew, hdata, hcontent⟩ :=
    isEditable_of_editedAt hread hx (by rw [hc.length_others]; omega) hy
  refine ⟨h'', l'', hy', ?_⟩
  exact {
    others := hothers.trans hc.others
    address := by
      rw [lastAddress?_append, ← hc.address, haddress, tableAddress?, section?_eq_head?, htables]
      exact congrArg some hnew
    table := by
      intro v hv
      rw [List.getLast?_append_of_ne_nil _ (List.cons_ne_nil _ _)] at hv
      cases hv
      exact ⟨new, data, htables, hdata, hcontent⟩ }

/-- A kept error holds a file under a made-up name at most. -/
def HoldsMadeUp (d : Disk) (f : Failure) : Prop :=
  ∀ place ∈ f.held, ∃ folder, ∃ e ∈ d.endings, place = folder ++ [Purpose.replacement.name e]

/-- Letting go of an error does not change what a path leads to in which no made-up name occurs. -/
theorem read_release {f : Failure} {s : FileStore} (hfresh : d.IsFreshFor [path])
    (hf : HoldsMadeUp d f) : (f.release s).read path = s.read path := by
  rw [Failure.release]
  cases hheld : f.held with
  | none => rfl
  | some place =>
    obtain ⟨folder, e, he, hname⟩ := hf place hheld
    have hslash := (Purpose.isFileName .replacement e).ne_slash
    have hpath := hfresh path List.mem_cons_self e he .replacement
    exact FileStore.read_remove (by simp [hname]) hslash hpath

theorem exists_carries_of_run {done : List Update} {kept : List Failure}
    (hread : d.files.read path = .ok x) (hx : IsEditable x h l) (hcount : l.sections.length < 65535)
    (hfresh : d.IsFreshFor [path]) (hrun : UpdateRun path d done kept after) :
    d.Continues after ∧ (∀ f ∈ kept, HoldsMadeUp d f) ∧ ∃ y h' l',
      after.files.read path = .ok y ∧ IsEditable y h' l' ∧ Carries l done l' := by
  induction hrun with
  | start => exact ⟨.refl d, nofun, x, h, l, hread, hx, .start l⟩
  | @succeeded done kept u d₁ d₂ _ hu ih =>
    obtain ⟨hcont, hkept, y, h', l', hy, hy', hc⟩ := ih
    have hstep : (u.run path).Ensures d₁ _ _ := u.ensures_run
    rw [Ensures, hu] at hstep
    obtain ⟨hcont', -, hstep⟩ := hstep
    obtain ⟨content, hcontent, hreplaces⟩ := hstep (hfresh.continue hcont)
    obtain ⟨h'', l'', hx'', hc''⟩ := hc.update hcount hy hy' hcontent
    exact ⟨hcont.trans hcont', hkept, content, h'', l'', hreplaces.read, hx'', hc''⟩
  | @failed done kept u f d₁ d₂ _ hu ih =>
    obtain ⟨hcont, hkept, y, h', l', hy, hy', hc⟩ := ih
    have hstep : (u.run path).Ensures d₁ _ _ := u.ensures_run
    rw [Ensures, hu] at hstep
    obtain ⟨hcont', s, hleaves, rfl⟩ := hstep
    have hf : HoldsMadeUp d f := fun place hplace => hcont.endings ▸ (hleaves.held place hplace).2
    -- What is read is there without the new file that the error may hold.
    have hsame : d₂.files.read path = d₁.files.read path := by
      rw [← hleaves.release, read_release hfresh hf]
    exact ⟨hcont.trans hcont', List.forall_mem_cons.2 ⟨hf, hkept⟩, y, h', l', hsame ▸ hy, hy', hc⟩
  | @released done before after f d₁ _ ih =>
    obtain ⟨hcont, hkept, y, h', l', hy, hy', hc⟩ := ih
    rw [List.forall_mem_append, List.forall_mem_cons] at hkept
    obtain ⟨hbefore, hf, hafter⟩ := hkept
    refine ⟨⟨hcont.scratch, hcont.endings, hcont.showsModes⟩,
      List.forall_mem_append.2 ⟨hbefore, hafter⟩, y, h', l', ?_, hy', hc⟩
    exact (read_release hfresh hf).trans hy

/-- **The last update wins.** After a run in which an update succeeded, however many failed and
whether their errors were kept or not, the table that is read is that of the last one to succeed.
Its section is the only one of its name and stands at the address that was named last, or where it
stood in the beginning. All other sections have kept their names, headers and bytes; only their
places in the file may be others. -/
theorem lastUpdate_wins {done : List Update} {last : Update} {kept : List Failure}
    (hread : d.files.read path = .ok x) (hx : IsEditable x h l) (hcount : l.sections.length < 65535)
    (hfresh : d.IsFreshFor [path]) (hrun : UpdateRun path d (done ++ [last]) kept after)
    (hlists : ∀ list ∈ last.table.lists, list.IsReachable ∧ list.IsReadable) :
    VendorDatabase.read after.files path = .ok last.table ∧
      ∃ y l' s, after.files.read path = .ok y ∧ Layout.decode y = .ok l' ∧
        l'.sections.filter (·.name = sectionName) = [s] ∧
        some s.header.virtualAddress = lastAddress? (tableAddress? l) (done ++ [last]) ∧
        (l'.sections.filter (·.name ≠ sectionName)).map (·.unplaced) =
          (l.sections.filter (·.name ≠ sectionName)).map (·.unplaced) := by
  obtain ⟨-, -, y, h', l', hy, hy', hc⟩ :=
    exists_carries_of_run hread hx hcount hfresh hrun
  obtain ⟨s, data, htables, hdata, hcontent⟩ := hc.table last (by simp)
  have hsection : l'.section? sectionName = some s := by rw [section?_eq_head?, htables]; rfl
  have hdecode := (VendorTable.decode_append_of_encode
    (fun list hlist => (hlists list hlist).1.isUniform) hdata []).1
    fun list hlist => (hlists list hlist).2
  rw [List.append_nil] at hdecode
  refine ⟨?_, y, l', s, hy, hy'.layout, htables, ?_, hc.others⟩
  · rw [VendorDatabase.read, hy]
    show (tableSection y >>= _) = _
    rw [(tableSection_eq_ok hy'.layout).2 hsection]
    show VendorTable.decode .little s.content = _
    rw [hcontent, hdecode]
  · rw [← hc.address, tableAddress?, hsection]
    rfl

open FileOperation in
/-- An update in place fails as long as there is no table, and succeeds behind one that has put an
empty table at an address. -/
theorem lastUpdate_wins_smallDisk :
    ∃ y l' s after, (updateAll "./boot.efi" smallDisk [.inPlace .smallTable,
        .atAddress 0x3000 {}, .inPlace .smallTable]).2 = after ∧
      VendorDatabase.read after.files "./boot.efi" = .ok .smallTable ∧
      after.files.read "./boot.efi" = .ok y ∧ Layout.decode y = .ok l' ∧
      l'.sections.filter (·.name = sectionName) = [s] ∧ s.header.virtualAddress = 0x3000 := by
  obtain ⟨h, l, hx, hone, -⟩ := exists_isEditable_smallExecutable
  have hread : smallDisk.files.read "./boot.efi" = .ok smallExecutable := by
    decide +kernel
  have hrun := updateRun_updateAll "./boot.efi" smallDisk [.inPlace .smallTable,
    .atAddress 0x3000 {}, .inPlace .smallTable]
  have hdone : (updateAll "./boot.efi" smallDisk [.inPlace .smallTable, .atAddress 0x3000 {},
      .inPlace .smallTable]).1 = [.atAddress 0x3000 {}] ++ [.inPlace .smallTable] := by
    decide +kernel
  rw [hdone] at hrun
  obtain ⟨htable, y, l', s, hy, hl', htables, haddress, -⟩ :=
    lastUpdate_wins hread hx (by omega) isFreshFor_smallDisk hrun fun list hlist =>
      ⟨VendorTable.isReachable_smallTable list hlist, by revert list; decide⟩
  exact ⟨y, l', s, _, rfl, htable, hy, hl', htables, Option.some_inj.1 haddress⟩

end SecureBoot.VendorDatabase
