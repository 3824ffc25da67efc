import Mathlib
import SecureBoot.Disk
import SecureBoot.Proofs.FileStore

/-!
# What commands do to a disk

A command ends with a value or with a failure, and both ends say something about the files.
`Ensures` tells the two together, for one disk to begin with, so that commands are put together from
what their steps ensure.

**After a failure** there can be one file more, which the error holds (`Failure.Leaves`). What a
command ensures of its failures is about the files without it.

**Main results.**

* `ensures_replace`: replacing a file puts the new content at its place and changes nothing else; if
  it fails, no file has changed.
* `ensures_withDirectory`: what a command with a directory of its own leaves is what it leaves apart
  from that directory.
-/

namespace SecureBoot

open FileStore (IsFileName IsGiven)

/-! ## Made-up names -/

theorem Purpose.isFileName (p : Purpose) (e : Ending) : IsFileName (p.name e) where
  named h := by
    have hlong : 3 ≤ (p.name e).toList.length := by
      cases p <;> simp [name, beginning]
    have hshort : ∀ name ∈ FileStore.unnamed, name.toList.length < 3 := by decide
    exact absurd (hshort _ h) (by omega)
  noSlash h := by
    have hplain := List.all_eq_true.1 e.isPlain
    rw [name, String.toList_append, List.mem_append] at h
    rcases h with h | h
    · cases p <;> exact absurd h (by decide)
    · exact absurd (hplain _ h) (by decide)

namespace Disk

/-- What stays as it is, however a command goes: the directory for scratch directories, the endings
of made-up names, and whether permissions can be looked at. -/
structure Continues (before after : Disk) : Prop where
  scratch : after.scratch = before.scratch
  endings : after.endings = before.endings
  showsModes : after.showsModes = before.showsModes

theorem Continues.refl (d : Disk) : d.Continues d := ⟨rfl, rfl, rfl⟩

theorem Continues.trans {a b c : Disk} (h : a.Continues b) (h' : b.Continues c) :
    a.Continues c where
  scratch := h'.scratch.trans h.scratch
  endings := h'.endings.trans h.endings
  showsModes := h'.showsModes.trans h.showsModes

/-- None of some paths mentions a name that may be made up. -/
def IsFreshFor (d : Disk) (paths : List String) : Prop :=
  ∀ path ∈ paths, ∀ e ∈ d.endings, ∀ p : Purpose, p.name e ∉ FileStore.names path

theorem IsFreshFor.continue {d after : Disk} {paths : List String} (h : d.IsFreshFor paths)
    (hafter : d.Continues after) : after.IsFreshFor paths :=
  fun path hpath e he p => h path hpath e (hafter.endings ▸ he) p

end Disk

/-! ## Failures -/

/-- What a failure leaves: files that are as in another store, but for the one that the error holds.
Only the error of a refused move holds one, which has a made-up name. -/
structure Failure.Leaves (f : Failure) (endings : List Ending) (s after : FileStore) : Prop where
  held : ∀ place ∈ f.held, (∃ path, f.error = .cannotReplace path) ∧
    ∃ folder, ∃ e ∈ endings, place = folder ++ [Purpose.replacement.name e]
  release : f.release after = s
  rest : after = s ∨ ∃ place ∈ f.held, ∃ file, after = s.put place (.file file)

namespace Failure.Leaves

variable {f : Failure} {endings : List Ending} {s after : FileStore}

theorem of_error (e : Error) (endings : List Ending) (s : FileStore) :
    Leaves { error := e } endings s s where
  held := nofun
  release := rfl
  rest := .inl rfl

/-- What is taken away besides the held file is gone after the release too. -/
theorem remove (h : f.Leaves endings s after) (place : Place) :
    f.Leaves endings (s.remove place) (after.remove place) where
  held := h.held
  release := by
    rw [← h.release, Failure.release, Failure.release]
    cases f.held with
    | none => rfl
    | some other => exact FileStore.remove_comm
  rest := by
    rcases h.rest with rfl | ⟨other, hother, file, rfl⟩
    · exact .inl rfl
    · rcases FileStore.remove_put_eq_or s place other (.file file) with heq | heq
      · exact .inl heq
      · exact .inr ⟨other, hother, file, heq⟩

end Failure.Leaves

namespace DiskM

variable {α β : Type} {d : Disk} {c : DiskM α} {done : α → FileStore → Prop}
  {failed : FileStore → Prop}

/-- What a command ensures from a disk: of its value and the files, or of the files that a failure
leaves. -/
def Ensures (c : DiskM α) (d : Disk) (done : α → FileStore → Prop) (failed : FileStore → Prop) :
    Prop :=
  match c d with
  | .ok a after => d.Continues after ∧ done a after.files
  | .error f after => d.Continues after ∧ ∃ s, f.Leaves d.endings s after.files ∧ failed s

/-- A command that gives a value of some kind or fails, and changes no file. -/
def Observes (c : DiskM α) (d : Disk) (seen : α → Prop) : Prop :=
  c.Ensures d (fun a s => seen a ∧ s = d.files) (· = d.files)

theorem Ensures.mono {done' : α → FileStore → Prop} {failed' : FileStore → Prop}
    (h : c.Ensures d done failed) (hdone : ∀ a s, done a s → done' a s)
    (hfailed : ∀ s, failed s → failed' s) : c.Ensures d done' failed' := by
  rw [Ensures] at h ⊢
  split <;> rename_i hrun <;> rw [hrun] at h
  · exact ⟨h.1, hdone _ _ h.2⟩
  · obtain ⟨hcont, s, hleaves, hs⟩ := h
    exact ⟨hcont, s, hleaves, hfailed s hs⟩

theorem Ensures.mono_failed {failed' : FileStore → Prop} (h : c.Ensures d done failed)
    (hfailed : ∀ s, failed s → failed' s) : c.Ensures d done failed' :=
  h.mono (fun _ _ hdone => hdone) hfailed

theorem ensures_pure {a : α} (h : done a d.files) : (pure a : DiskM α).Ensures d done failed :=
  ⟨.refl d, h⟩

theorem ensures_fail {e : Error} (h : failed d.files) :
    (fail e : DiskM α).Ensures d done failed := ⟨.refl d, d.files, .of_error e _ _, h⟩

theorem Ensures.bind {f : α → DiskM β} {between : α → FileStore → Prop}
    {done : β → FileStore → Prop} (h : c.Ensures d between failed)
    (hf : ∀ a d', d.Continues d' → between a d'.files → (f a).Ensures d' done failed) :
    (c >>= f).Ensures d done failed := by
  rw [Ensures] at h
  show match EStateM.bind c f d with | .ok a after => _ | .error _ after => _
  rw [EStateM.bind]
  cases hrun : c d with
  | error e d' =>
    rw [hrun] at h
    exact h
  | ok a d' =>
    rw [hrun] at h
    have hnext := hf a d' h.1 h.2
    rw [Ensures] at hnext
    show match f a d' with | .ok a after => _ | .error _ after => _
    cases hrun' : f a d' with
    | error failure after =>
      rw [hrun'] at hnext
      obtain ⟨hcont, s, hleaves, hs⟩ := hnext
      exact ⟨h.1.trans hcont, s, h.1.endings ▸ hleaves, hs⟩
    | ok b after =>
      rw [hrun'] at hnext
      exact ⟨h.1.trans hnext.1, hnext.2⟩

theorem Observes.bind {f : α → DiskM β} {seen : α → Prop} {done : β → FileStore → Prop}
    (h : c.Observes d seen) (hfailed : failed d.files)
    (hf : ∀ a d', d.Continues d' → d'.files = d.files → seen a → (f a).Ensures d' done failed) :
    (c >>= f).Ensures d done failed :=
  Ensures.bind (h.mono_failed fun _ hs => hs ▸ hfailed)
    fun a d' hd h => hf a d' hd h.2 h.1

theorem Observes.andThen {f : α → DiskM β} {seen : α → Prop} {seen' : β → Prop}
    (h : c.Observes d seen)
    (hf : ∀ a d', d'.files = d.files → seen a → (f a).Observes d' seen') :
    (c >>= f).Observes d seen' :=
  h.bind rfl fun a d' _ hfiles ha =>
    (hf a d' hfiles ha).mono (fun _ _ h => ⟨h.1, h.2.trans hfiles⟩) fun _ hs => hs.trans hfiles

/-! ## Single steps -/

theorem observes_pure {a : α} {seen : α → Prop} (h : seen a) : (pure a : DiskM α).Observes d seen :=
  ensures_pure ⟨h, rfl⟩

theorem observes_ofExcept (r : Except Error α) : (ofExcept r).Observes d fun a => r = .ok a := by
  cases r with
  | error e => exact ensures_fail rfl
  | ok a => exact observes_pure rfl

/-- A step that is permitted changes nothing; one that is refused leaves what the error says. -/
theorem ensures_permitOr {f : Failure} {s : FileStore} (h : f.Leaves d.endings s d.files)
    (hs : failed s) : (permitOr f).Ensures d (fun _ s' => s' = d.files) failed := by
  have hnext : d.Continues { d with refusals := d.refusals.tail } :=
    ⟨rfl, rfl, rfl⟩
  by_cases hrefused : d.refusals.head? = some true
  · have hrun : permitOr f d = .error f { d with refusals := d.refusals.tail } := by
      show (if _ then throw f else pure () : DiskM Unit) _ = _
      rw [if_pos hrefused]
      rfl
    rw [Ensures, hrun]
    exact ⟨hnext, s, h, hs⟩
  · have hrun : permitOr f d = .ok () { d with refusals := d.refusals.tail } := by
      show (if _ then throw f else pure () : DiskM Unit) _ = _
      rw [if_neg hrefused]
      rfl
    rw [Ensures, hrun]
    exact ⟨hnext, rfl⟩

theorem observes_permit (e : Error) : (permit e).Observes d fun _ => True := by
  have hpermit : (permit e).Ensures d (fun _ s => s = d.files) (· = d.files) :=
    ensures_permitOr (.of_error e _ _) rfl
  exact hpermit.mono (fun _ _ hs => ⟨trivial, hs⟩) fun _ hs => hs

theorem observes_files : files.Observes d fun s => s = d.files :=
  ⟨.refl d, rfl, rfl⟩

theorem ensures_get {f : Disk → DiskM α} (h : (f d).Ensures d done failed) :
    (get >>= f).Ensures d done failed := h

theorem ensures_files {f : FileStore → DiskM α} (h : (f d.files).Ensures d done failed) :
    (files >>= f).Ensures d done failed := h

theorem ensures_change {f : FileStore → FileStore} :
    (change f).Ensures d (fun _ s => s = f d.files) failed :=
  ⟨⟨rfl, rfl, rfl⟩, rfl⟩

theorem observes_read (path : String) :
    (read path).Observes d fun content => d.files.read path = .ok content := by
  refine (observes_permit _).andThen fun _ d' hd' _ => ?_
  refine observes_files.andThen fun s d'' _ hs => ?_
  rw [hs, hd']
  exact observes_ofExcept _

theorem ensures_overwrite {path : String} {content : Bytes} {noDirectory notFile : Error} :
    (overwrite path content noDirectory notFile).Ensures d
      (fun _ s => ∃ place, d.files.target? path = some place ∧
        s = d.files.put place (.file ⟨content, d.files.modeAt place FileStore.usualMode⟩))
      (· = d.files) := by
  refine observes_files.bind rfl fun s d₁ _ hd₁ hs => ?_
  rw [hs]
  refine (observes_ofExcept _).bind hd₁ fun after d₂ _ hd₂ hafter => ?_
  refine ensures_change.mono (fun _ s hs => ?_) fun _ h => h
  rw [hs]
  rw [FileStore.overwrite] at hafter
  split at hafter
  · rename_i place hplace
    cases hafter
    exact ⟨place, hplace, rfl⟩
  · cases hafter

/-- What an error leaves at a place is removed. -/
theorem Ensures.removingOnError {place : Place} (h : c.Ensures d done failed) :
    (removingOnError place c).Ensures d done fun s => ∃ s', failed s' ∧ s = s'.remove place := by
  rw [Ensures] at h
  cases hrun : c d with
  | ok a after =>
    have hsame : DiskM.removingOnError place c d = .ok a after := by
      simp only [DiskM.removingOnError, tryCatch, tryCatchThe, MonadExceptOf.tryCatch,
        EStateM.tryCatch, hrun]
    rw [hrun] at h
    rw [Ensures, hsame]
    exact h
  | error f after =>
    have hafter : DiskM.removingOnError place c d =
        .error f { after with files := after.files.remove place } := by
      simp only [DiskM.removingOnError, tryCatch, tryCatchThe, MonadExceptOf.tryCatch,
        EStateM.tryCatch, hrun]
      rfl
    rw [hrun] at h
    obtain ⟨hcont, s, hleaves, hs⟩ := h
    rw [Ensures, hafter]
    exact ⟨⟨hcont.scratch, hcont.endings, hcont.showsModes⟩, s.remove place, hleaves.remove place,
      s, hs, rfl⟩

theorem Ensures.removing {place : Place} (h : c.Ensures d done failed) :
    (removing place c).Ensures d (fun a s => ∃ s', done a s' ∧ s = s'.remove place)
      fun s => ∃ s', failed s' ∧ s = s'.remove place := by
  refine h.removingOnError.bind fun a d₁ _ ha => ?_
  refine ensures_change.bind fun _ d₂ _ hd₂ => ?_
  exact ensures_pure ⟨d₁.files, ha, hd₂⟩

/-! ## Made-up names -/

theorem firstFree?_eq_some {s : FileStore} {folder : Place} {p : Purpose}
    {endings : List Ending} {name : String} {count : Nat}
    (h : firstFree? s folder p endings = some (name, count)) :
    (∃ e ∈ endings, name = p.name e) ∧ s.isFree (folder ++ [name]) = true := by
  induction endings generalizing count with
  | nil => cases h
  | cons e endings ih =>
    rw [firstFree?] at h
    split at h
    · rename_i hfree
      cases h
      exact ⟨⟨e, List.mem_cons_self, rfl⟩, hfree⟩
    · obtain ⟨⟨_, _⟩, hlater, heq⟩ := Option.map_eq_some_iff.1 h
      cases heq
      obtain ⟨⟨e', he', hname⟩, hfree⟩ := ih hlater
      exact ⟨⟨e', List.mem_cons_of_mem _ he', hname⟩, hfree⟩

theorem ensures_create {folder : Place} {p : Purpose} {node : Node} :
    (create folder p node).Ensures d
      (fun name s => (∃ e ∈ d.endings, name = p.name e) ∧
        d.files.isFree (folder ++ [name]) = true ∧ s = d.files.put (folder ++ [name]) node)
      (· = d.files) := by
  refine (observes_permit _).bind rfl fun _ d₁ hcont hd₁ _ => ?_
  refine ensures_get ?_
  split
  · exact ensures_fail hd₁
  · rename_i name count hname
    obtain ⟨⟨e, he, hname⟩, hfree⟩ := firstFree?_eq_some hname
    rw [hd₁] at hfree
    have he : e ∈ d.endings := hcont.endings ▸ List.mem_of_mem_drop he
    exact ⟨⟨rfl, rfl, rfl⟩, ⟨e, he, hname⟩, hfree, by rw [← hd₁]⟩

/-! ## Replacing a file -/

/-- What a path leads to has the permissions that its place has. -/
theorem modeOver_of_find {s : FileStore} {path : String} {destination : Place} {f : File}
    (hfind : s.find path = .ok (.file f)) (htarget : s.target? path = some destination) :
    s.modeOver true destination = f.mode := by
  rw [FileStore.find_of_target? htarget] at hfind
  rw [FileStore.modeOver, if_pos rfl, FileStore.modeAt]
  cases hnode : s.node? destination with
  | none => simp [hnode] at hfind
  | some node => simp_all

/-- Where a path leads to no file there are no permissions to keep. -/
theorem modeOver_of_ne {s : FileStore} {path : String} {destination : Place}
    (hfind : ∀ f, s.find path ≠ .ok (.file f)) (htarget : s.target? path = some destination) :
    s.modeOver true destination = FileStore.privateMode := by
  rw [FileStore.modeOver, if_pos rfl, FileStore.modeAt]
  split
  · rename_i f hnode
    exact absurd (by rw [FileStore.find_of_target? htarget, hnode]) (hfind f)
  · rfl

/-- The new file gets the permissions of the file that it will replace. -/
theorem ensures_copyMode {s : FileStore} {path : String} {place : Place} {content : Bytes}
    (hd : d.files = s.put place (.file ⟨content, FileStore.privateMode⟩)) :
    (copyMode path place content).Ensures d
      (fun _ s' => ∃ mode, s' = s.put place (.file ⟨content, mode⟩) ∧
        ∀ destination, d.files.target? path = some destination →
          mode = d.files.modeOver d.showsModes destination)
      (fun s' => ∃ f, s' = s.put place (.file f)) := by
  refine ensures_get ?_
  cases hmodes : d.showsModes with
  | false => exact ensures_pure ⟨_, hd, fun _ _ => rfl⟩
  | true =>
    rw [if_pos rfl]
    split
    · rename_i node hfind
      refine (observes_permit _).bind ⟨_, hd⟩ fun _ d₁ _ hd₁ _ => ?_
      cases node with
      | file f =>
        refine ensures_change.mono (fun _ s' hs' => ⟨f.mode, ?_, fun destination htarget => ?_⟩)
          fun _ h => h
        · rw [hs', hd₁, hd, FileStore.put_put]
        · exact (modeOver_of_find hfind htarget).symm
      | directory =>
        refine ensures_pure ⟨_, hd₁.trans hd, fun destination htarget => ?_⟩
        exact (modeOver_of_ne (by simp [hfind]) htarget).symm
    · rename_i hfind
      refine ensures_pure ⟨_, hd, fun destination htarget => ?_⟩
      exact (modeOver_of_ne (fun f => hfind _) htarget).symm

/-- Up to the move, nothing but the file under the made-up name has changed. -/
theorem ensures_fill {s : FileStore} {path : String} {folder place : Place} {f : File}
    {content : Bytes} (hfree : s.node? place = none) (hgiven : ¬ IsGiven place)
    (hfolder : s.folder? path = some folder) (hd : d.files = s.put place (.file f)) :
    (fill path place content).Ensures d
      (fun _ s' => ∃ mode, s' = s.put place (.file ⟨content, mode⟩) ∧
        ∀ destination, s.fileIn? folder path = some destination →
          mode = s.modeOver d.showsModes destination)
      (fun s' => ∃ f, s' = s.put place (.file f)) := by
  have hdir : s.node? place ≠ some .directory := by simp [hfree]
  refine (observes_permit _).bind ⟨f, hd⟩ fun _ d₁ hcont₁ hd₁ _ => ?_
  refine ensures_change.bind fun _ d₂ hcont₂ hd₂ => ?_
  rw [hd₁, hd, FileStore.put_put] at hd₂
  refine (observes_permit _).bind ⟨_, hd₂⟩ fun _ d₃ hcont₃ hd₃ _ => ?_
  rw [hd₂] at hd₃
  refine (ensures_copyMode hd₃).mono ?_ fun _ h => h
  rintro _ s' ⟨mode, hs', hmode⟩
  refine ⟨mode, hs', fun destination hfile => ?_⟩
  rw [hd₃, FileStore.target?_put hdir hgiven hfolder] at hmode
  rw [hmode destination hfile, FileStore.modeOver_put hfree hgiven,
    ((hcont₁.trans hcont₂).trans hcont₃).showsModes]

/-- The new file takes the place that the path leads to, or stays with the error. -/
theorem ensures_moveOver {s : FileStore} {path : String} {folder : Place} {e : Ending} {f : File}
    (he : e ∈ d.endings) (hfree : s.isFree (folder ++ [Purpose.replacement.name e]) = true)
    (hd : d.files = s.put (folder ++ [Purpose.replacement.name e]) (.file f)) :
    (moveOver path folder (folder ++ [Purpose.replacement.name e])).Ensures d
      (fun _ s' => ∃ destination, s.fileIn? folder path = some destination ∧
        s' = s.put destination (.file f))
      (· = s) := by
  have hgiven : ¬ IsGiven (folder ++ [Purpose.replacement.name e]) :=
    (Purpose.isFileName _ e).not_isGiven
  generalize hplace : folder ++ [Purpose.replacement.name e] = place at *
  have hnone : s.node? place = none := FileStore.node?_of_isFree hfree (List.prefix_refl _) hgiven
  have hleaves : Failure.Leaves { error := .cannotReplace path, held := some place } d.endings s
      d.files := {
    held := fun _ h => ⟨⟨path, rfl⟩, folder, e, he, (Option.some.inj h).symm.trans hplace.symm⟩
    release := hd ▸ FileStore.remove_put_of_isFree hfree
    rest := .inr ⟨place, rfl, f, hd⟩ }
  refine ensures_files ?_
  have hsame : d.files.fileIn? folder path = s.fileIn? folder path := by
    rw [hd]
    exact FileStore.fileIn?_put (by simp [hnone]) hgiven
  rw [hsame]
  cases hfile : s.fileIn? folder path with
  | none => exact ⟨.refl d, s, hleaves, rfl⟩
  | some destination =>
    have hpermit : (permitOr _).Ensures d (fun _ s' => s' = d.files) (· = s) :=
      ensures_permitOr hleaves rfl
    refine hpermit.bind fun _ d₁ _ hd₁ => ?_
    refine ensures_change.mono (fun _ s' hs' => ⟨destination, rfl, ?_⟩) fun _ h => h
    rw [hs', hd₁, hd, FileStore.move_put_of_isFree hfree hgiven]

/-- Replacing a file puts the new content at its place and changes nothing else. -/
theorem ensures_replace {path : String} {content : Bytes} :
    (replace path content).Ensures d
      (fun _ s => s.Replaces d.files path content d.showsModes) (· = d.files) := by
  refine observes_files.bind rfl fun s d₁ hcont₁ hd₁ hs => ?_
  subst hs
  split
  case h_2 => exact ensures_fail hd₁
  rename_i folder hfolder
  refine (ensures_create.mono_failed fun _ h => h.trans hd₁).bind fun name d₂ hcont₂ hd₂ => ?_
  obtain ⟨⟨e, he, rfl⟩, hfree, hd₂⟩ := hd₂
  rw [hd₁] at hfree hd₂
  have hgiven : ¬ IsGiven (folder ++ [Purpose.replacement.name e]) :=
    (Purpose.isFileName _ e).not_isGiven
  have hnone : d.files.node? (folder ++ [Purpose.replacement.name e]) = none :=
    FileStore.node?_of_isFree hfree (List.prefix_refl _) hgiven
  refine Ensures.bind ((ensures_fill hnone hgiven hfolder hd₂).removingOnError.mono_failed ?_)
    fun _ d₃ hcont₃ hd₃ => ?_
  · rintro _ ⟨_, ⟨f, rfl⟩, rfl⟩
    exact FileStore.remove_put_of_isFree hfree
  obtain ⟨mode, hd₃, hmode⟩ := hd₃
  have he₃ : e ∈ d₃.endings := by rwa [(hcont₂.trans hcont₃).endings]
  refine (ensures_moveOver he₃ hfree hd₃).mono ?_ fun _ h => h
  rintro _ s' ⟨destination, hfile, rfl⟩
  refine ⟨destination, FileStore.target?_eq_some.2 ⟨folder, hfolder, hfile⟩, ?_⟩
  rw [hmode destination hfile, (hcont₁.trans hcont₂).showsModes]

/-! ## Directories for a while -/

/-- What a command with a directory of its own leaves is what it leaves apart from that directory,
which is new, empty, and under a name that was made up. -/
theorem ensures_withDirectory {p : Purpose} {command : String → DiskM α}
    (h : ∀ directory place e d', d.Continues d' → e ∈ d.endings → p.name e ∈ place →
      d'.files.HasScratch d.files directory place →
      (∀ name, IsFileName name → d'.files.node? (place ++ [name]) = none) →
      (command directory).Ensures d' (fun a s => done a (s.remove place))
        fun s => s.remove place = d.files) :
    (withDirectory p command).Ensures d done (· = d.files) := by
  refine ensures_get ?_
  refine observes_files.bind rfl fun s d₁ hcont₁ hd₁ hs => ?_
  subst hs
  split
  case h_2 => exact ensures_fail hd₁
  rename_i folder hfolder
  refine (ensures_create.mono_failed fun _ h => h.trans hd₁).bind fun name d₂ hcont₂ hd₂ => ?_
  obtain ⟨⟨e, he, rfl⟩, hfree, hd₂⟩ := hd₂
  rw [hd₁] at hfree hd₂
  have hscratch := FileStore.hasScratch_put (Purpose.isFileName p e) hfree hfolder
  rw [← hd₂] at hscratch
  refine (h _ _ e d₂ (hcont₁.trans hcont₂) (hcont₁.endings ▸ he) (by simp) hscratch
    fun _ hname => hd₂ ▸ FileStore.node?_put_of_isFree hfree hname).removing.mono ?_ ?_
  · rintro a _ ⟨s', hdone, rfl⟩
    exact hdone
  · rintro _ ⟨s', hs', rfl⟩
    exact hs'

/-- Writing into a directory makes one file there. -/
theorem ensures_writeInto {before : FileStore} {directory name : String} {content : Bytes}
    {place : Place} (hscratch : d.files.HasScratch before directory place) (hname : IsFileName name)
    (hfree : d.files.node? (place ++ [name]) ≠ some .directory) :
    (writeInto directory name content).Ensures d
      (fun path s => path = FileStore.join directory name ∧ s.HasScratch before directory place ∧
        ∃ mode, s = d.files.put (place ++ [name]) (.file ⟨content, mode⟩))
      (·.remove place = before) := by
  have hgiven : ¬ IsGiven (place ++ [name]) := hname.not_isGiven
  have hbelow : place <+: place ++ [name] := List.prefix_append _ _
  have htarget := FileStore.target?_join hname hscratch.found hfree
  refine (observes_permit _).bind hscratch.rest fun _ d₁ _ hd₁ _ => ?_
  refine (ensures_overwrite.mono_failed fun _ h => h ▸ hd₁ ▸ hscratch.rest).bind
    fun _ d₂ _ hd₂ => ?_
  obtain ⟨other, hother, hd₂⟩ := hd₂
  rw [hd₁, htarget] at hother
  cases hother
  rw [hd₁] at hd₂
  have hscratch₂ : d₂.files.HasScratch before directory place := hd₂ ▸ hscratch.put hbelow hfree
  have hfree₂ : d₂.files.node? (place ++ [name]) ≠ some .directory := by
    simp [hd₂, FileStore.node?_put_self hgiven]
  refine (observes_permit _).bind hscratch₂.rest fun _ d₃ _ hd₃ _ => ?_
  refine (ensures_overwrite.mono_failed fun _ h => h ▸ hd₃ ▸ hscratch₂.rest).bind
    fun _ d₄ _ hd₄ => ?_
  obtain ⟨other, hother, hd₄⟩ := hd₄
  rw [hd₃, FileStore.target?_join hname hscratch₂.found hfree₂] at hother
  cases hother
  rw [hd₃] at hd₄
  refine ensures_pure ⟨rfl, hd₄ ▸ hscratch₂.put hbelow hfree₂,
    d₂.files.modeAt (place ++ [name]) FileStore.usualMode, ?_⟩
  rw [hd₄, hd₂, FileStore.put_put]

end DiskM

end SecureBoot
