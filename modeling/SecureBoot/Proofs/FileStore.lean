import Mathlib
import SecureBoot.FileStore
import SecureBoot.Proofs.Outcome

/-!
# Places and paths after a change

What is at a place does not depend on what is put elsewhere, and where a path leads does not depend
on what lies under a name that the path does not mention.

**Taking away** is how changes are told apart here. `s.remove place` is the store without a place
and all below it, so `s'.remove place = s` says that `s'` differs from `s` at most there: reading,
resolving and writing along paths that avoid the place go the same way in both.
-/

namespace SecureBoot.FileStore

variable {s : FileStore} {place other folder : Place} {node : Node} {path : String}

/-! ## What is at a place -/

theorem lookup_filter (keep : Place → Bool) (nodes : List (Place × Node)) (h : keep other = true) :
    (nodes.filter fun entry => keep entry.1).lookup other = nodes.lookup other := by
  induction nodes with
  | nil => rfl
  | cons entry rest ih =>
    obtain ⟨key, value⟩ := entry
    by_cases hkey : other = key
    · subst hkey
      simp [h]
    · have hne : (other == key) = false := beq_false_of_ne hkey
      cases hk : keep key <;> simp [List.lookup_cons, hk, hne, ih]

theorem node?_put_of_ne (h : other ≠ place) : (s.put place node).node? other = s.node? other := by
  have hne : (other == place) = false := beq_false_of_ne h
  have hl := lookup_filter (fun key => key ≠ place) s.nodes (decide_eq_true h)
  simp only [node?, put, List.lookup_cons, hne, hl]

/-- The working directory and the root are always there. -/
def IsGiven (place : Place) : Prop := place = [] ∨ place = rootPlace

theorem node?_put_self (h : ¬ IsGiven place) : (s.put place node).node? place = some node := by
  have h' : ¬ (place = [] ∨ place = rootPlace) := h
  rw [node?, if_neg h', put, List.lookup_cons_self]

theorem isPrefixOf_eq_false (h : ¬ place <+: other) : place.isPrefixOf other = false :=
  Bool.eq_false_iff.2 fun hp => h (List.isPrefixOf_iff_prefix.1 hp)

theorem node?_remove (h : ¬ place <+: other) : (s.remove place).node? other = s.node? other := by
  have hk : (!place.isPrefixOf other) = true := by rw [isPrefixOf_eq_false h, Bool.not_false]
  have hl := lookup_filter (fun key => !place.isPrefixOf key) s.nodes hk
  simp only [node?, remove, hl]

theorem modeAt_congr {t : FileStore} (h : s.node? place = t.node? place) (mode : Nat) :
    s.modeAt place mode = t.modeAt place mode := by
  rw [modeAt, modeAt, h]

/-! ## Taking away what was put -/

theorem remove_put_below (h : place <+: other) :
    (s.put other node).remove place = s.remove place := by
  have hne : ∀ entry ∈ s.nodes, (!place.isPrefixOf entry.1) = true → entry.1 ≠ other := by
    rintro entry - hkeep rfl
    simp [List.isPrefixOf_iff_prefix.2 h] at hkeep
  have hhead : place.isPrefixOf other = true := List.isPrefixOf_iff_prefix.2 h
  simp only [remove, put, List.filter_cons, hhead, Bool.not_true, Bool.false_eq_true, if_false,
    List.filter_filter, mk.injEq]
  exact List.filter_congr fun entry hentry => by
    by_cases hk : (!place.isPrefixOf entry.1) = true
    · simp [hk, hne entry hentry hk]
    · simp [hk]

theorem remove_put (h : ¬ place <+: other) :
    (s.put other node).remove place = (s.remove place).put other node := by
  simp only [remove, put, List.filter_cons, isPrefixOf_eq_false h, Bool.not_false, if_true,
    List.filter_filter, mk.injEq, List.cons.injEq, true_and]
  exact List.filter_congr fun entry _ => Bool.and_comm ..

/-- What is put somewhere is taken away with the place, or stays. -/
theorem remove_put_eq_or (s : FileStore) (place other : Place) (node : Node) :
    (s.put other node).remove place = s.remove place ∨
      (s.put other node).remove place = (s.remove place).put other node := by
  by_cases h : place <+: other
  · exact .inl (remove_put_below h)
  · exact .inr (remove_put h)

theorem remove_comm : (s.remove place).remove other = (s.remove other).remove place := by
  simp only [remove, List.filter_filter, mk.injEq]
  exact List.filter_congr fun entry _ => Bool.and_comm ..

theorem put_put {node' : Node} : (s.put place node).put place node' = s.put place node' := by
  simp only [put, List.filter_cons, ne_eq, not_true_eq_false, decide_false, Bool.false_eq_true,
    if_false, List.filter_filter, Bool.and_self]

theorem remove_eq_self (h : s.isFree place = true) : s.remove place = s := by
  obtain ⟨nodes⟩ := s
  exact congrArg mk (List.filter_eq_self.2 fun entry hentry => List.all_eq_true.1 h entry hentry)

/-- Nothing is below a free place either. -/
theorem node?_of_isFree (h : s.isFree place = true) (hbelow : place <+: other)
    (hgiven : ¬ IsGiven other) : s.node? other = none := by
  have hg : ¬ (other = [] ∨ other = rootPlace) := hgiven
  rw [node?, if_neg hg, List.lookup_eq_none_iff]
  intro entry hentry
  have hfree := List.all_eq_true.1 h entry hentry
  rw [bne_iff_ne]
  rintro rfl
  rw [List.isPrefixOf_iff_prefix.2 hbelow] at hfree
  cases hfree

theorem remove_put_of_isFree (h : s.isFree place = true) : (s.put place node).remove place = s :=
  (remove_put_below (List.prefix_refl place)).trans (remove_eq_self h)

theorem move_put_of_isFree {destination : Place} (h : s.isFree place = true)
    (hgiven : ¬ IsGiven place) : (s.put place node).move place destination =
      s.put destination node := by
  rw [move, node?_put_self hgiven]
  show ((s.put place node).remove place).put destination node = _
  rw [remove_put_of_isFree h]

/-! ## Names -/

/-- A name for a file: it stands for itself in every path. -/
structure IsFileName (name : String) : Prop where
  named : name ∉ unnamed
  noSlash : '/' ∉ name.toList

variable {name : String}

theorem IsFileName.ne_slash (h : IsFileName name) : name ≠ "/" := by
  rintro rfl
  exact h.noSlash (by decide)

theorem IsFileName.not_isGiven (h : IsFileName name) : ¬ IsGiven (folder ++ [name]) := by
  rintro (hnil | hroot)
  · simp at hnil
  · have := congrArg List.getLast? hroot
    simp [rootPlace, h.ne_slash] at this

theorem step_of_named (h : name ∉ unnamed) : step place name = place ++ [name] := by
  simp only [unnamed, List.mem_cons, List.not_mem_nil, or_false, not_or] at h
  simp [step, h]

theorem not_mem_of_mem_splitOn {cs piece : List Char} (h : piece ∈ cs.splitOn '/') :
    '/' ∉ piece := by
  induction cs generalizing piece with
  | nil =>
    simp only [List.splitOn_nil, List.mem_singleton] at h
    simp [h]
  | cons c cs ih =>
    rw [List.splitOn_cons_eq_if_modifyHead] at h
    split at h
    · rcases List.mem_cons.1 h with rfl | h
      · simp
      · exact ih h
    · rename_i hc
      obtain ⟨first, rest, hsplit⟩ := List.exists_cons_of_ne_nil (List.splitOn_ne_nil '/' cs)
      rw [hsplit, List.modifyHead_cons] at h
      rcases List.mem_cons.1 h with rfl | h
      · have hfirst : '/' ∉ first := ih (hsplit ▸ List.mem_cons_self)
        have hne : '/' ≠ c := fun e => hc (beq_iff_eq.2 e.symm)
        simp [hfirst, hne]
      · exact ih (hsplit ▸ List.mem_cons_of_mem _ h)

theorem noSlash_of_mem_names (h : name ∈ names path) : '/' ∉ name.toList := by
  obtain ⟨piece, hpiece, rfl⟩ := List.mem_map.1 h
  rw [String.toList_ofList]
  exact not_mem_of_mem_splitOn hpiece

theorem names_ne_nil : names path ≠ [] := by simp [names]

/-- The names on the way to a file are all but its own. -/
theorem folderNames_append {front : List String} (h : name ∉ unnamed) :
    folderNames (front ++ [name]) = front := by
  simp only [unnamed, List.mem_cons, List.not_mem_nil, or_false, not_or] at h
  simp [folderNames, h]

theorem mem_of_mem_folderNames {list : List String} (h : name ∈ folderNames list) :
    name ∈ list := by
  have h := List.mem_reverse.1 (List.dropLast_subset _ h)
  exact List.mem_reverse.1 ((List.dropWhile_suffix _).subset h)

/-! ## Where paths lead -/

theorem walk_append {front rest : List String} :
    s.walk place (front ++ rest) = (s.walk place front >>= fun q => s.walk q rest) := by
  induction front generalizing place with
  | nil => rfl
  | cons name front ih =>
    rw [List.cons_append, walk, walk]
    split
    · rfl
    · rfl
    · exact ih

theorem directory?_eq_some {origin : Place} {list : List String} :
    s.directory? origin list = some folder ↔
      s.walk origin list = .ok folder ∧ s.node? folder = some .directory := by
  rw [directory?]
  split
  · rename_i place hplace
    simp only [hplace, Option.ite_none_right_eq_some, Option.some.injEq, Except.ok.injEq]
    constructor
    · rintro ⟨h, rfl⟩
      exact ⟨rfl, h⟩
    · rintro ⟨rfl, h⟩
      exact ⟨h, rfl⟩
  · rename_i e he
    simp [he]

/-- One name further from a directory. -/
theorem walk_name {origin : Place} {front : List String}
    (h : s.directory? origin front = some folder) (hname : name ∉ unnamed) :
    s.walk origin (front ++ [name]) = .ok (folder ++ [name]) := by
  obtain ⟨hwalk, hdir⟩ := directory?_eq_some.1 h
  rw [walk_append, hwalk]
  show s.walk folder [name] = _
  simp only [walk, hdir, step_of_named hname]

theorem fileIn?_eq_some :
    s.fileIn? folder path = some place ↔
      ∃ front name, names path = front ++ [name] ∧ name ∉ unnamed ∧ place = folder ++ [name] ∧
        s.node? place ≠ some .directory := by
  obtain ⟨front, name, hnames⟩ := (List.eq_nil_or_concat' (names path)).resolve_left names_ne_nil
  have hlast : (names path).getLast?.getD "" = name := by simp [hnames]
  simp only [fileIn?, hlast, Option.ite_none_left_eq_some, not_or, Option.some.injEq]
  constructor
  · rintro ⟨⟨hnamed, hfree⟩, rfl⟩
    exact ⟨front, name, hnames, hnamed, rfl, hfree⟩
  · rintro ⟨front', name', hnames', hnamed, rfl, hfree⟩
    obtain ⟨-, h⟩ := List.append_inj' (hnames.symm.trans hnames') rfl
    obtain rfl := List.singleton_inj.1 h
    exact ⟨⟨hnamed, hfree⟩, rfl⟩

theorem target?_eq_some :
    s.target? path = some place ↔
      ∃ folder, s.folder? path = some folder ∧ s.fileIn? folder path = some place := by
  rw [target?]
  exact Option.bind_eq_some_iff

/-- The place to write to is the one that the path leads to. -/
theorem resolve_of_target? (h : s.target? path = some place) : s.resolve path = .ok place := by
  obtain ⟨folder, hfolder, hfile⟩ := target?_eq_some.1 h
  obtain ⟨front, name, hnames, hnamed, rfl, -⟩ := fileIn?_eq_some.1 hfile
  rw [folder?, hnames, folderNames_append hnamed] at hfolder
  rw [resolve, hnames]
  exact walk_name hfolder hnamed

theorem not_isGiven_of_target? (h : s.target? path = some place) : ¬ IsGiven place := by
  obtain ⟨folder, -, hfile⟩ := target?_eq_some.1 h
  obtain ⟨front, name, hnames, hnamed, rfl, -⟩ := fileIn?_eq_some.1 hfile
  have hmem : name ∈ names path := hnames ▸ List.mem_append_right front List.mem_cons_self
  exact IsFileName.not_isGiven ⟨hnamed, noSlash_of_mem_names hmem⟩

theorem ne_empty_of_target? (h : s.target? path = some place) : path ≠ "" := by
  rintro rfl
  obtain ⟨folder, -, hfile⟩ := target?_eq_some.1 h
  obtain ⟨front, name, hnames, hnamed, -, -⟩ := fileIn?_eq_some.1 hfile
  have hempty : names "" = [""] := by decide
  rw [hempty] at hnames
  obtain ⟨-, h⟩ := List.append_inj' (show [] ++ [""] = front ++ [name] from hnames) rfl
  obtain rfl := List.singleton_inj.1 h
  exact hnamed (by decide)

theorem find_of_resolve (hpath : path ≠ "") (h : s.resolve path = .ok place) :
    s.find path = match s.node? place with | some node => .ok node | none => .error .missing := by
  simp only [find, hpath, if_false, h]
  show (match s.node? place with | some node => _ | none => _) = _
  cases s.node? place <;> rfl

theorem find_of_target? (h : s.target? path = some place) :
    s.find path = match s.node? place with | some node => .ok node | none => .error .missing :=
  find_of_resolve (ne_empty_of_target? h) (resolve_of_target? h)

/-! ## Putting something where no directory is -/

theorem walk_put {origin : Place} {list : List String} (hfree : s.node? place ≠ some .directory)
    (h : s.walk origin list = .ok other) : (s.put place node).walk origin list = .ok other := by
  induction list generalizing origin with
  | nil => exact h
  | cons name list ih =>
    rw [walk] at h ⊢
    split at h
    · cases h
    · cases h
    · rename_i hdir
      have hne : origin ≠ place := by
        rintro rfl
        exact hfree hdir
      rw [node?_put_of_ne hne, hdir]
      exact ih h

theorem directory?_put {origin : Place} {list : List String}
    (hfree : s.node? place ≠ some .directory) (h : s.directory? origin list = some folder) :
    (s.put place node).directory? origin list = some folder := by
  obtain ⟨hwalk, hdir⟩ := directory?_eq_some.1 h
  have hne : folder ≠ place := by
    rintro rfl
    exact hfree hdir
  exact directory?_eq_some.2 ⟨walk_put hfree hwalk, (node?_put_of_ne hne).trans hdir⟩

theorem fileIn?_put {f : File} (hfree : s.node? place ≠ some .directory)
    (hgiven : ¬ IsGiven place) :
    (s.put place (.file f)).fileIn? folder path = s.fileIn? folder path := by
  have hsame : ∀ q, (s.put place (.file f)).node? q = some .directory ↔
      s.node? q = some .directory := by
    intro q
    by_cases hq : q = place
    · subst hq
      simp [node?_put_self hgiven, hfree]
    · rw [node?_put_of_ne hq]
  simp only [fileIn?, hsame]

theorem target?_put {f : File} (hfree : s.node? place ≠ some .directory)
    (hgiven : ¬ IsGiven place) (hfolder : s.folder? path = some folder) :
    (s.put place (.file f)).target? path = s.fileIn? folder path := by
  have hfolder' : (s.put place (.file f)).folder? path = some folder := directory?_put hfree hfolder
  rw [target?, hfolder']
  exact fileIn?_put hfree hgiven

theorem modeAt_put {content : Bytes} {mode : Nat} (hfree : s.node? place = none)
    (hgiven : ¬ IsGiven place) :
    (s.put place (.file ⟨content, mode⟩)).modeAt other mode = s.modeAt other mode := by
  by_cases hother : other = place
  · subst hother
    rw [modeAt, modeAt, node?_put_self hgiven, hfree]
  · exact modeAt_congr (node?_put_of_ne hother) mode

/-! ## Paths that avoid a name -/

section Avoiding

variable {hidden : String}

theorem not_mem_step (h : hidden ∉ place) (hname : hidden ≠ name) : hidden ∉ step place name := by
  rw [step]
  split_ifs
  · exact h
  · exact h
  · exact fun hmem => h (List.dropLast_subset _ hmem)
  · simp [h, hname]

theorem not_mem_origin (h : hidden ≠ "/") : hidden ∉ origin path := by
  rw [origin]
  split
  · simp [rootPlace, h]
  · simp

theorem not_mem_of_walk {list : List String} (h : hidden ∉ place) (hlist : hidden ∉ list)
    (hwalk : s.walk place list = .ok other) : hidden ∉ other := by
  induction list generalizing place with
  | nil =>
    cases hwalk
    exact h
  | cons name list ih =>
    rw [List.mem_cons, not_or] at hlist
    rw [walk] at hwalk
    split at hwalk
    · cases hwalk
    · cases hwalk
    · exact ih (not_mem_step h hlist.1) hlist.2 hwalk

variable (hplace : hidden ∈ place)

include hplace

theorem node?_remove_of_not_mem (h : hidden ∉ other) :
    (s.remove place).node? other = s.node? other :=
  node?_remove fun hunder => h (hunder.subset hplace)

theorem walk_remove {start : Place} {list : List String} (h : hidden ∉ start)
    (hlist : hidden ∉ list) : (s.remove place).walk start list = s.walk start list := by
  induction list generalizing start with
  | nil => rfl
  | cons name list ih =>
    rw [List.mem_cons, not_or] at hlist
    rw [walk, walk, node?_remove_of_not_mem hplace h]
    split
    · rfl
    · rfl
    · exact ih (not_mem_step h hlist.1) hlist.2

theorem directory?_remove {start : Place} {list : List String} (h : hidden ∉ start)
    (hlist : hidden ∉ list) : (s.remove place).directory? start list = s.directory? start list := by
  rw [directory?, directory?, walk_remove hplace h hlist]
  split
  · rename_i other hwalk
    rw [node?_remove_of_not_mem hplace (not_mem_of_walk h hlist hwalk)]
  · rfl

variable (hslash : hidden ≠ "/") (hpath : hidden ∉ names path)

include hslash hpath

theorem find_remove : (s.remove place).find path = s.find path := by
  have hresolve : (s.remove place).resolve path = s.resolve path :=
    walk_remove hplace (not_mem_origin hslash) hpath
  by_cases hempty : path = ""
  · rw [find, find, if_pos hempty, if_pos hempty]
    rfl
  cases hwalk : s.resolve path with
  | error e =>
    rw [find, find, hresolve, hwalk]
    rfl
  | ok other =>
    have hother := not_mem_of_walk (not_mem_origin hslash) hpath hwalk
    rw [find_of_resolve hempty hwalk, find_of_resolve hempty (hresolve.trans hwalk),
      node?_remove_of_not_mem hplace hother]

theorem read_remove : (s.remove place).read path = s.read path := by
  rw [read, read, find_remove hplace hslash hpath]

theorem target?_remove : (s.remove place).target? path = s.target? path := by
  have hfolder : (s.remove place).folder? path = s.folder? path :=
    directory?_remove hplace (not_mem_origin hslash) fun h => hpath (mem_of_mem_folderNames h)
  rw [target?, target?, hfolder]
  cases hsome : s.folder? path with
  | none => rfl
  | some folder =>
    obtain ⟨hwalk, -⟩ := directory?_eq_some.1 hsome
    have hmem : hidden ∉ folder :=
      not_mem_of_walk (not_mem_origin hslash) (fun h => hpath (mem_of_mem_folderNames h)) hwalk
    have hlast : hidden ∉ folder ++ [(names path).getLast?.getD ""] := by
      obtain ⟨front, last, hnames⟩ :=
        (List.eq_nil_or_concat' (names path)).resolve_left names_ne_nil
      rw [hnames] at hpath ⊢
      simp_all
    show fileIn? _ folder path = fileIn? _ folder path
    simp only [fileIn?, node?_remove_of_not_mem hplace hlast]

omit hplace in
theorem not_mem_of_target? (h : s.target? path = some other) : hidden ∉ other :=
  not_mem_of_walk (not_mem_origin hslash) hpath (resolve_of_target? h)

end Avoiding

/-! ## A name behind a path -/

theorem names_of_noSlash (h : '/' ∉ name.toList) : names name = [name] := by
  rw [names, List.splitOn_eq_singleton h, List.map_singleton, String.ofList_toList]

theorem origin_append (more : String) (h : path ≠ "") : origin (path ++ more) = origin path := by
  have hne : path.toList ≠ [] := fun hnil => h (String.toList_eq_nil_iff.1 hnil)
  rw [origin, origin, String.toList_append, List.head?_append_of_ne_nil _ hne]

theorem origin_of_noSlash (h : '/' ∉ name.toList) : origin name = [] := by
  rw [origin, if_neg]
  exact fun hhead => h (List.mem_of_head? hhead)

/-- Nothing behind a slash leads nowhere else. -/
theorem directory?_of_blank {origin : Place} {front : List String}
    (h : s.directory? origin (front ++ [""]) = some folder) :
    s.directory? origin front = some folder := by
  obtain ⟨hwalk, hdir⟩ := directory?_eq_some.1 h
  rw [walk_append] at hwalk
  obtain ⟨last, hfront, hlast⟩ := bind_eq_ok.1 hwalk
  rw [walk] at hlast
  split at hlast
  · cases hlast
  · cases hlast
  · cases hlast
    exact directory?_eq_some.2 ⟨hfront, hdir⟩

/-- A name behind the path of a directory leads from that directory. -/
theorem names_join (hname : IsFileName name)
    (h : s.directory? (origin path) (names path) = some folder) :
    ∃ front, names (join path name) = front ++ [name] ∧
      s.directory? (origin (join path name)) front = some folder := by
  have hsingle : name.toList.splitOn '/' = [name.toList] := List.splitOn_eq_singleton hname.noSlash
  by_cases hempty : path = ""
  · subst hempty
    have hjoin : join "" name = name := by simp [join]
    have hnames : names "" = [] ++ [""] := by decide
    rw [hjoin, names_of_noSlash hname.noSlash, origin_of_noSlash hname.noSlash]
    rw [hnames, origin_of_noSlash (by decide)] at h
    exact ⟨[], rfl, directory?_of_blank h⟩
  by_cases hslash : path.toList.getLast? = some '/'
  · obtain ⟨cs, hcs⟩ := List.getLast?_eq_some_iff.1 hslash
    have hjoin : join path name = path ++ name := by simp [join, hslash]
    have hnames : names path = names (String.ofList cs) ++ [""] := by
      rw [names, hcs, List.splitOn_append_cons_self, List.map_append, names, String.toList_ofList]
      rfl
    refine ⟨names (String.ofList cs), ?_, ?_⟩
    · rw [hjoin, names, String.toList_append, hcs, List.append_assoc, List.singleton_append,
        List.splitOn_append_cons_self, hsingle, List.map_append, List.map_singleton,
        String.ofList_toList, names, String.toList_ofList]
    · rw [hjoin, origin_append _ hempty]
      exact directory?_of_blank (hnames ▸ h)
  · have hjoin : join path name = path ++ "/" ++ name := by simp [join, hempty, hslash]
    refine ⟨names path, ?_, ?_⟩
    · rw [hjoin, names, String.toList_append, String.toList_append, List.append_assoc]
      show (List.splitOn '/' (path.toList ++ '/' :: name.toList)).map String.ofList = _
      rw [List.splitOn_append_cons_self, hsingle, List.map_append, List.map_singleton,
        String.ofList_toList, names]
    · rw [hjoin, String.append_assoc, origin_append _ hempty]
      exact h

theorem target?_join (hname : IsFileName name)
    (h : s.directory? (origin path) (names path) = some folder)
    (hfree : s.node? (folder ++ [name]) ≠ some .directory) :
    s.target? (join path name) = some (folder ++ [name]) := by
  obtain ⟨front, hnames, hdir⟩ := names_join hname h
  have hfile : s.fileIn? folder (join path name) = some (folder ++ [name]) :=
    fileIn?_eq_some.2 ⟨front, name, hnames, hname.named, rfl, hfree⟩
  refine target?_eq_some.2 ⟨folder, ?_, hfile⟩
  rw [folder?, hnames, folderNames_append hname.named]
  exact hdir

theorem directory?_join (hname : IsFileName name)
    (h : s.directory? (origin path) (names path) = some folder)
    (hdir : s.node? (folder ++ [name]) = some .directory) :
    s.directory? (origin (join path name)) (names (join path name)) = some (folder ++ [name]) := by
  obtain ⟨front, hnames, hfront⟩ := names_join hname h
  rw [hnames]
  exact directory?_eq_some.2 ⟨walk_name hfront hname.named, hdir⟩

theorem read_join {f : File} (hname : IsFileName name)
    (h : s.directory? (origin path) (names path) = some folder)
    (hfile : s.node? (folder ++ [name]) = some (.file f)) :
    s.read (join path name) = .ok f.content := by
  have htarget := target?_join hname h (by simp [hfile])
  rw [read, find_of_target? htarget, hfile]

/-! ## Names that nothing bears -/

/-- Nothing in a store bears a name. -/
def Lacks (s : FileStore) (name : String) : Prop := ∀ entry ∈ s.nodes, name ∉ entry.1

instance (s : FileStore) (name : String) : Decidable (s.Lacks name) :=
  inferInstanceAs (Decidable (∀ entry ∈ s.nodes, name ∉ entry.1))

theorem Lacks.put (h : s.Lacks name) (hplace : name ∉ place) : (s.put place node).Lacks name := by
  intro entry hentry
  rcases List.mem_cons.1 hentry with rfl | hentry
  · exact hplace
  · exact h entry (List.mem_of_mem_filter hentry)

theorem Lacks.isFree (h : s.Lacks name) (folder : Place) : s.isFree (folder ++ [name]) = true := by
  rw [FileStore.isFree, List.all_eq_true]
  intro entry hentry
  rw [isPrefixOf_eq_false, Bool.not_false]
  exact fun hunder => h entry hentry (hunder.subset (by simp))

/-- What is there does not lie below the name. -/
theorem Lacks.not_mem (h : s.Lacks name) (hname : name ≠ "/") (hnode : s.node? place = some node) :
    name ∉ place := by
  rw [node?] at hnode
  split at hnode
  · rename_i hgiven
    rcases hgiven with rfl | rfl <;> simp [rootPlace, hname]
  · obtain ⟨front, rest, hnodes, -⟩ := List.lookup_eq_some_iff.1 hnode
    exact h (place, node) (by simp [hnodes])

/-! ## Directories for a while -/

/-- One store has a directory that another one lacks, and is the same otherwise. -/
structure HasScratch (now before : FileStore) (directory : String) (place : Place) : Prop where
  found : now.directory? (origin directory) (names directory) = some place
  rest : now.remove place = before

theorem hasScratch_put (hname : IsFileName name) (hfree : s.isFree (folder ++ [name]) = true)
    (h : s.directory? (origin path) (names path) = some folder) :
    (s.put (folder ++ [name]) .directory).HasScratch s (join path name) (folder ++ [name]) := by
  have hgiven : ¬ IsGiven (folder ++ [name]) := hname.not_isGiven
  have hnone := node?_of_isFree hfree (List.prefix_refl _) hgiven
  exact ⟨directory?_join hname (directory?_put (by simp [hnone]) h) (node?_put_self hgiven),
    remove_put_of_isFree hfree⟩

/-- A new directory is empty. -/
theorem node?_put_of_isFree (hfree : s.isFree place = true) (hname : IsFileName name) :
    (s.put place node).node? (place ++ [name]) = none := by
  rw [node?_put_of_ne (by simp)]
  exact node?_of_isFree hfree (List.prefix_append _ _) hname.not_isGiven

theorem HasScratch.put {now before : FileStore} {directory : String}
    (h : now.HasScratch before directory place) (hbelow : place <+: other)
    (hfree : now.node? other ≠ some .directory) :
    (now.put other node).HasScratch before directory place :=
  ⟨directory?_put hfree h.found, (remove_put_below hbelow).trans h.rest⟩

/-- What the store with the directory holds elsewhere is what the other one holds. -/
theorem HasScratch.read {now before : FileStore} {directory hidden : String}
    (h : now.HasScratch before directory place) (hplace : hidden ∈ place) (hslash : hidden ≠ "/")
    (hpath : hidden ∉ names path) : now.read path = before.read path := by
  rw [← h.rest, read_remove hplace hslash hpath]

theorem HasScratch.target? {now before : FileStore} {directory hidden : String}
    (h : now.HasScratch before directory place) (hplace : hidden ∈ place) (hslash : hidden ≠ "/")
    (hpath : hidden ∉ names path) : now.target? path = before.target? path := by
  rw [← h.rest, target?_remove hplace hslash hpath]

/-! ## Replaced files -/

/-- The permissions of a new file: those of the file that is there, if they were seen, or else only
those of the owner. -/
def modeOver (s : FileStore) (seen : Bool) (place : Place) : Nat :=
  if seen then s.modeAt place privateMode else privateMode

/-- A new private file elsewhere does not count. -/
theorem modeOver_put {content : Bytes} {seen : Bool} (hfree : s.node? place = none)
    (hgiven : ¬ IsGiven place) :
    (s.put place (.file ⟨content, privateMode⟩)).modeOver seen other = s.modeOver seen other := by
  rw [modeOver, modeOver, modeAt_put hfree hgiven]

/-- One store is another one in which a file with some content has taken the place of what a path
leads to. -/
def Replaces (after before : FileStore) (path : String) (content : Bytes) (seen : Bool) : Prop :=
  ∃ place, before.target? path = some place ∧
    after = before.put place (.file ⟨content, before.modeOver seen place⟩)

/-- One store differs from another one in one file at most. -/
def DiffersInOneFile (after before : FileStore) : Prop :=
  after = before ∨ ∃ place f, after = before.put place (.file f)

variable {after before : FileStore} {content : Bytes} {seen : Bool}

theorem Replaces.read (h : after.Replaces before path content seen) :
    after.read path = .ok content := by
  obtain ⟨place, htarget, rfl⟩ := h
  have hgiven := not_isGiven_of_target? htarget
  obtain ⟨folder, hfolder, hfile⟩ := target?_eq_some.1 htarget
  obtain ⟨_, _, -, -, -, hfree⟩ := fileIn?_eq_some.1 hfile
  generalize hf : (⟨content, before.modeOver seen place⟩ : File) = f
  have htarget' : (before.put place (.file f)).target? path = some place :=
    (target?_put hfree hgiven hfolder).trans hfile
  rw [FileStore.read, find_of_target? htarget', node?_put_self hgiven, ← hf]

/-- Replacing a file elsewhere and taking away a place can be done in either order. -/
theorem Replaces.remove {hidden : String} (h : after.Replaces before path content seen)
    (hplace : hidden ∈ place) (hslash : hidden ≠ "/") (hpath : hidden ∉ names path) :
    (after.remove place).Replaces (before.remove place) path content seen := by
  obtain ⟨other, htarget, rfl⟩ := h
  have hmem : hidden ∉ other := not_mem_of_target? hslash hpath htarget
  have hother : ¬ place <+: other := fun hunder => hmem (hunder.subset hplace)
  refine ⟨other, (target?_remove hplace hslash hpath).trans htarget, ?_⟩
  rw [remove_put hother, modeOver, modeOver, modeAt_congr (node?_remove hother)]

theorem Replaces.differsInOneFile (h : after.Replaces before path content seen) :
    after.DiffersInOneFile before := by
  obtain ⟨place, -, hafter⟩ := h
  exact .inr ⟨place, _, hafter⟩

theorem DiffersInOneFile.remove (h : after.DiffersInOneFile before) (place : Place) :
    (after.remove place).DiffersInOneFile (before.remove place) := by
  rcases h with rfl | ⟨other, f, rfl⟩
  · exact .inl rfl
  · rcases remove_put_eq_or before place other (.file f) with heq | heq
    · exact .inl heq
    · exact .inr ⟨other, f, heq⟩

end SecureBoot.FileStore
