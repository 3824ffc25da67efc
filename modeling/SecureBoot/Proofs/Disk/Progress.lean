import Mathlib
import SecureBoot.Proofs.Disk

/-!
# Commands that nothing stops

Where no step is refused, a step can only fail for its own reason: a file that is not there, a
directory in the way, no name left. `Succeeds` says that a command has a good end, and what the disk
is like then.

**Replacing a file** needs a name that nothing bears. A disk that `CanReplace` has one, and keeps it
while files are written into a directory of their own (`succeeds_writeInto`).

**A directory for a while** needs a name too, so that a disk that `IsReady` has two.
-/

namespace SecureBoot

open FileStore (IsFileName IsGiven)

namespace Disk

/-- No step is refused, and the next name for a replacement is new. -/
structure CanReplace (d : Disk) : Prop where
  refusals : d.refusals = []
  ending : ∃ e rest, d.ahead = e :: rest ∧ d.files.Lacks (Purpose.replacement.name e)

/-- No step is refused, there is a place for scratch directories, and the next two names are new
whatever they are for. -/
structure IsReady (d : Disk) : Prop where
  refusals : d.refusals = []
  scratch : ∃ folder,
    d.files.directory? (FileStore.origin d.scratch) (FileStore.names d.scratch) = some folder
  endings : ∃ e e' rest, d.ahead = e :: e' :: rest ∧
    ∀ p : Purpose, d.files.Lacks (p.name e) ∧ d.files.Lacks (p.name e')

variable {d : Disk}

theorem IsReady.canReplace (h : d.IsReady) : d.CanReplace := by
  obtain ⟨e, e', rest, hahead, hnew⟩ := h.endings
  exact ⟨h.refusals, e, e' :: rest, hahead, (hnew .replacement).1⟩

/-- A name that is made up takes its ending from the front. -/
theorem ahead_succ {files : FileStore} {e : Ending} {rest : List Ending} (h : d.ahead = e :: rest) :
    { d with files, tried := d.tried + 1 }.ahead = rest := by
  show d.endings.drop (d.tried + 1) = rest
  have hdrop : d.endings.drop d.tried = e :: rest := h
  rw [List.drop_add_one_eq_tail_drop, hdrop, List.tail_cons]

theorem not_mem_of_lacks {name : String} {folder : Place} {node : Node} {e : Ending}
    (hdot : name.toList.head? ≠ some '.') (hfolder : d.files.node? folder = some node)
    (h : d.files.Lacks (Purpose.replacement.name e)) :
    Purpose.replacement.name e ∉ folder ++ [name] := by
  have hname := Purpose.isFileName .replacement e
  rw [List.mem_append, List.mem_singleton, not_or]
  refine ⟨h.not_mem hname.ne_slash hfolder, ?_⟩
  rintro rfl
  exact hdot (by simp [Purpose.name, Purpose.beginning])

/-- What is put into a directory leaves the name for a replacement new. -/
theorem CanReplace.put {name : String} {folder : Place} {node node' : Node} {after : Disk}
    (h : d.CanReplace) (hdot : name.toList.head? ≠ some '.')
    (hfolder : d.files.node? folder = some node')
    (hafter : after = { d with files := d.files.put (folder ++ [name]) node }) :
    after.CanReplace := by
  obtain ⟨e, rest, hahead, hnew⟩ := h.ending
  rw [hafter]
  exact ⟨h.refusals, e, rest, hahead, hnew.put (not_mem_of_lacks hdot hfolder hnew)⟩

end Disk

namespace DiskM

variable {α β : Type} {d : Disk} {c : DiskM α} {post : α → Disk → Prop}

/-- A command that has a good end, and what is so there. -/
def Succeeds (c : DiskM α) (d : Disk) (post : α → Disk → Prop) : Prop :=
  ∃ a after, c d = .ok a after ∧ post a after

theorem succeeds_pure {a : α} (h : post a d) : (pure a : DiskM α).Succeeds d post :=
  ⟨a, d, rfl, h⟩

theorem bind_eq {f : α → DiskM β} {a : α} {d' : Disk} (h : c d = .ok a d') :
    (c >>= f) d = f a d' := by
  show EStateM.bind c f d = _
  rw [EStateM.bind, h]

theorem Succeeds.step {f : α → DiskM β} {a : α} {d' : Disk} {post : β → Disk → Prop}
    (h : c d = .ok a d') (hf : (f a).Succeeds d' post) : (c >>= f).Succeeds d post := by
  rw [Succeeds, bind_eq h]
  exact hf

theorem Succeeds.bind {f : α → DiskM β} {post' : β → Disk → Prop} (h : c.Succeeds d post)
    (hf : ∀ a after, post a after → (f a).Succeeds after post') : (c >>= f).Succeeds d post' := by
  obtain ⟨a, after, hrun, ha⟩ := h
  exact .step hrun (hf a after ha)

theorem Succeeds.ensured {done : α → FileStore → Prop} {failed : FileStore → Prop}
    (h : c.Succeeds d post) (hc : c.Ensures d done failed) :
    c.Succeeds d fun a after => post a after ∧ done a after.files := by
  obtain ⟨a, after, hrun, ha⟩ := h
  rw [Ensures, hrun] at hc
  exact ⟨a, after, hrun, ha, hc.2⟩

/-! ## Single steps -/

theorem get_eq : (get : DiskM Disk) d = .ok d d := rfl

theorem files_eq : files d = .ok d.files d := rfl

theorem change_eq {f : FileStore → FileStore} :
    change f d = .ok () { d with files := f d.files } := rfl

theorem ofExcept_eq {r : Except Error α} {a : α} (h : r = .ok a) : ofExcept r d = .ok a d := by
  rw [h]
  rfl

theorem permitOr_eq {f : Failure} (h : d.refusals = []) : permitOr f d = .ok () d := by
  obtain ⟨files, scratch, endings, tried, refusals, showsModes⟩ := d
  cases h
  rfl

theorem permit_eq {e : Error} (h : d.refusals = []) : permit e d = .ok () d := permitOr_eq h

theorem read_eq {path : String} {content : Bytes} (hd : d.refusals = [])
    (h : d.files.read path = .ok content) : read path d = .ok content d := by
  rw [read, bind_eq (permit_eq hd), bind_eq files_eq, ofExcept_eq h]

theorem create_eq {folder : Place} {p : Purpose} {node : Node} {e : Ending} {rest : List Ending}
    (hd : d.refusals = []) (hahead : d.ahead = e :: rest) (hnew : d.files.Lacks (p.name e)) :
    create folder p node d = .ok (p.name e)
      { d with files := d.files.put (folder ++ [p.name e]) node, tried := d.tried + 1 } := by
  rw [create, bind_eq (permit_eq hd), bind_eq get_eq, hahead, firstFree?,
    if_pos (hnew.isFree folder)]
  rfl

theorem overwrite_eq {path : String} {content : Bytes} {noDirectory notFile : Error} {place : Place}
    (h : d.files.target? path = some place) :
    overwrite path content noDirectory notFile d =
      change (·.put place (.file ⟨content, d.files.modeAt place FileStore.usualMode⟩)) d := by
  have hafter : d.files.overwrite path content noDirectory notFile =
      .ok (d.files.put place (.file ⟨content, d.files.modeAt place FileStore.usualMode⟩)) := by
    rw [FileStore.overwrite, h]
  rw [overwrite, bind_eq files_eq, bind_eq (ofExcept_eq hafter)]
  rfl

theorem Succeeds.removingOnError {place : Place} (h : c.Succeeds d post) :
    (removingOnError place c).Succeeds d post := by
  obtain ⟨a, after, hrun, ha⟩ := h
  refine ⟨a, after, ?_, ha⟩
  simp only [DiskM.removingOnError, tryCatch, tryCatchThe, MonadExceptOf.tryCatch,
    EStateM.tryCatch, hrun]

/-! ## Replacing a file -/

theorem succeeds_copyMode {path : String} {place : Place} {content : Bytes}
    (hd : d.refusals = []) :
    (copyMode path place content).Succeeds d fun _ after => after.refusals = [] := by
  refine .step get_eq ?_
  split
  · split
    · refine .step (permit_eq hd) ?_
      split
      · exact ⟨(), _, rfl, hd⟩
      · exact succeeds_pure hd
    · exact succeeds_pure hd
  · exact succeeds_pure hd

theorem succeeds_fill {path : String} {place : Place} {content : Bytes} (hd : d.refusals = []) :
    (fill path place content).Succeeds d fun _ after => after.refusals = [] := by
  refine .step (permit_eq hd) ?_
  refine .step change_eq ?_
  exact .step (permit_eq hd) (succeeds_copyMode hd)

/-- A file can be replaced if its directory is there and no directory stands in its place. -/
theorem succeeds_replace {path : String} {content : Bytes} {place : Place} (h : d.CanReplace)
    (htarget : d.files.target? path = some place) :
    (replace path content).Succeeds d fun _ _ => True := by
  obtain ⟨folder, hfolder, hfile⟩ := FileStore.target?_eq_some.1 htarget
  obtain ⟨e, rest, hahead, hnew⟩ := h.ending
  have hgiven : ¬ IsGiven (folder ++ [Purpose.replacement.name e]) :=
    (Purpose.isFileName _ e).not_isGiven
  have hnone : d.files.node? (folder ++ [Purpose.replacement.name e]) = none :=
    FileStore.node?_of_isFree (hnew.isFree folder) (List.prefix_refl _) hgiven
  refine .step files_eq ?_
  rw [hfolder]
  refine .step (create_eq h.refusals hahead hnew) ?_
  generalize hmade : Disk.mk _ _ _ _ _ _ = d₁
  have hd₁ : d₁.refusals = [] := hmade ▸ h.refusals
  have hfiles₁ : d₁.files = d.files.put (folder ++ [Purpose.replacement.name e])
      (.file ⟨[], FileStore.privateMode⟩) := by rw [← hmade]
  refine (((succeeds_fill hd₁).ensured
    (ensures_fill hnone hgiven hfolder hfiles₁)).removingOnError).bind fun _ d' h' => ?_
  obtain ⟨hd', mode, hfiles, -⟩ := h'
  refine .step files_eq ?_
  rw [hfiles, FileStore.fileIn?_put (by simp [hnone]) hgiven, hfile]
  exact .step (permitOr_eq hd') ⟨(), _, rfl, trivial⟩

/-! ## Directories for a while -/

/-- A directory of its own is there for a command on a disk that is ready. -/
theorem succeeds_withDirectory {p : Purpose} {command : String → DiskM α} (h : d.IsReady)
    (hdot : ∀ e, (p.name e).toList.head? ≠ some '.')
    (hcommand : ∀ directory place e d', d'.CanReplace → e ∈ d.endings → p.name e ∈ place →
      d'.files.HasScratch d.files directory place →
      (∀ name, IsFileName name → d'.files.node? (place ++ [name]) = none) →
      (command directory).Succeeds d' fun _ _ => True) :
    (withDirectory p command).Succeeds d fun _ _ => True := by
  obtain ⟨folder, hfolder⟩ := h.scratch
  obtain ⟨e, e', rest, hahead, hnew⟩ := h.endings
  have hfree := (hnew p).1.isFree folder
  refine .step get_eq ?_
  refine .step files_eq ?_
  rw [hfolder]
  refine .step (create_eq h.refusals hahead (hnew p).1) ?_
  refine (Succeeds.removingOnError (hcommand _ (folder ++ [p.name e]) e _ ?_ ?_ ?_ ?_ ?_)).bind
    fun a d' _ => ⟨a, _, rfl, trivial⟩
  · have hdir := (FileStore.directory?_eq_some.1 hfolder).2
    refine ⟨h.refusals, e', rest, Disk.ahead_succ hahead, (hnew .replacement).2.put ?_⟩
    exact Disk.not_mem_of_lacks (hdot e) hdir (hnew .replacement).2
  · exact List.mem_of_mem_drop (hahead ▸ List.mem_cons_self : e ∈ d.ahead)
  · simp
  · exact FileStore.hasScratch_put (Purpose.isFileName p e) hfree hfolder
  · exact fun name hname => FileStore.node?_put_of_isFree hfree hname

/-- A file can be written into a directory where no other directory stands in its place. -/
theorem writeInto_eq {directory name : String} {content : Bytes} {place : Place}
    (hd : d.refusals = [])
    (hdirectory : d.files.directory? (FileStore.origin directory) (FileStore.names directory) =
      some place)
    (hname : IsFileName name) (hfree : d.files.node? (place ++ [name]) ≠ some .directory) :
    ∃ mode, writeInto directory name content d = .ok (FileStore.join directory name)
      { d with files := d.files.put (place ++ [name]) (.file ⟨content, mode⟩) } := by
  have htarget := FileStore.target?_join hname hdirectory hfree
  rw [writeInto, bind_eq (permit_eq hd), bind_eq ((overwrite_eq htarget).trans change_eq)]
  generalize hd' : Disk.mk _ _ _ _ _ _ = d'
  have hfiles : d'.files.node? (place ++ [name]) ≠ some .directory ∧
      d'.files.directory? (FileStore.origin directory) (FileStore.names directory) =
        some place := by
    rw [← hd']
    exact ⟨by simp [FileStore.node?_put_self hname.not_isGiven],
      FileStore.directory?_put hfree hdirectory⟩
  have htarget' := FileStore.target?_join hname hfiles.2 hfiles.1
  have hrefusals : d'.refusals = [] := hd' ▸ hd
  rw [bind_eq (permit_eq hrefusals), bind_eq ((overwrite_eq htarget').trans change_eq), ← hd']
  simp only [FileStore.put_put]
  exact ⟨_, rfl⟩

theorem succeeds_writeInto {before : FileStore} {directory name : String} {content : Bytes}
    {place : Place} (h : d.CanReplace) (hscratch : d.files.HasScratch before directory place)
    (hname : IsFileName name) (hdot : name.toList.head? ≠ some '.')
    (hfree : d.files.node? (place ++ [name]) ≠ some .directory) :
    (writeInto directory name content).Succeeds d fun _ after => after.CanReplace := by
  obtain ⟨mode, hrun⟩ := writeInto_eq h.refusals hscratch.found hname hfree
  exact ⟨_, _, hrun, h.put hdot (FileStore.directory?_eq_some.1 hscratch.found).2 rfl⟩

end DiskM

end SecureBoot
