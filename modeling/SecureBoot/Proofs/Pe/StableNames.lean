import Mathlib
import SecureBoot.Proofs.Pe.Edits

/-!
# Stable names

A section with a long name refers to a text of the string table. So a table that takes in another
name must leave the texts that it has as they are.

**A text without an end** is what stands in the way. A string table of a file need not end in a zero
byte; its last text then runs to the end of the table, and `lookup?` takes it for a text like any
other. A new name is written right behind it, and becomes part of it.

**Theorem (`stable_names`).** The offset of an interned name always leads to the name, and so does
the name field of a section that was added. Every other text, and every other section name, stays as
it was if the table had the name already or if a zero byte ends the text; otherwise it is continued
by the new name. To intern the name again changes nothing if the table had it or ended in a zero
byte; otherwise the name is not found where it stands, and the table takes it in once more
(`Interned`, `AddsName`).

The tables are those of layouts (`IsReachable`): empty ones, those that were read, and what becomes
of them. They have room for their length, and end in a zero byte if they have nothing else
(`IsReachable.isCounted`).
-/

namespace SecureBoot.Pe

namespace SymbolTable

variable {t t' : SymbolTable}

/-! ## Tables of layouts -/

/-- A table that a layout may come to have. -/
inductive IsReachable : SymbolTable → Prop
  | empty : IsReachable empty
  | read {x : Bytes} {pointer count : Nat} {t : SymbolTable}
      (h : decode x pointer count = .ok (some t)) : IsReachable t
  | intern {t : SymbolTable} (ht : IsReachable t) (name : Bytes) : IsReachable (t.intern name).2

/-- A table with whole symbols and room for its length, whose last byte is zero if there is nothing
behind the length. -/
structure IsCounted (t : SymbolTable) : Prop where
  symbols_dvd : Headers.symbolSize ∣ t.symbols.length
  lengthSize_le : lengthSize ≤ t.strings.length
  endsInNul : t.texts = [] → t.EndsInNul

theorem IsCounted.isWhole (ht : t.IsCounted) (hends : t.EndsInNul) : t.IsWhole where
  symbols_dvd := ht.symbols_dvd
  lengthSize_le := ht.lengthSize_le
  endsInNul := hends

theorem IsWhole.isCounted (ht : t.IsWhole) : t.IsCounted where
  symbols_dvd := ht.symbols_dvd
  lengthSize_le := ht.lengthSize_le
  endsInNul := fun _ => ht.endsInNul

/-- A table of four bytes states a length of at most four. -/
theorem endsInNul_of_decode {x : Bytes} {pointer count : Nat}
    (h : decode x pointer count = .ok (some t)) (htexts : t.texts = []) : t.EndsInNul := by
  rcases decode_eq_ok_iff.1 h with ⟨-, hnone⟩ | ⟨-, strings, length, -, hroom, rfl, hstop, ht⟩
  · cases hnone
  cases ht
  have hle := List.drop_eq_nil_iff.1 htexts
  rw [Bytes.length_slice hstop, Nat.add_sub_cancel_left] at hle
  have hfour : max (x.u32 strings).toNat lengthSize = 4 := le_antisymm hle (Nat.le_max_right _ _)
  have hword : (x.u32 strings).toNat ≤ 4 := (Nat.le_max_left _ _).trans hfour.le
  rw [EndsInNul, hfour, ← Bytes.ofNatLE_u32 hroom]
  generalize (x.u32 strings).toNat = n at hword
  interval_cases n <;> rfl

theorem isCounted_of_decode {x : Bytes} {pointer count : Nat}
    (h : decode x pointer count = .ok (some t)) : t.IsCounted where
  symbols_dvd := (Layout.hasRoom_of_decode h).1
  lengthSize_le := (Layout.hasRoom_of_decode h).2
  endsInNul := endsInNul_of_decode h

theorem IsCounted.intern (ht : t.IsCounted) (name : Bytes) : (t.intern name).2.IsCounted := by
  rcases t.intern_snd name with h | h
  · rw [h]
    exact ht
  · rw [h]
    exact {
      symbols_dvd := ht.symbols_dvd
      lengthSize_le := by
        rw [List.length_append]
        exact ht.lengthSize_le.trans (Nat.le_add_right _ _)
      endsInNul := fun _ => by rw [EndsInNul, ← List.append_assoc, List.getLast?_concat] }

theorem IsReachable.isCounted (ht : t.IsReachable) : t.IsCounted := by
  induction ht with
  | empty => exact isWhole_empty.isCounted
  | read h => exact isCounted_of_decode h
  | intern _ name ih => exact ih.intern name

/-! ## Searching a table without an end -/

theorem find?_of_notMem {x : Bytes} (hx : 0 ∉ x) (name : Bytes) (offset : Nat) :
    find? name offset false (x ++ [0]) = none := by
  induction x generalizing offset with
  | nil => rfl
  | cons byte rest ih =>
    rw [List.mem_cons, not_or] at hx
    have hbyte : (byte == 0) = false := beq_false_of_ne fun h => hx.1 h.symm
    rw [List.cons_append, find?, Bool.false_and, if_neg Bool.false_ne_true, hbyte, ih hx.2]

/-- A name that continues the last text is not found there. -/
theorem find?_append_of_getLast?_ne {name x : Bytes} {offset : Nat} {atStart : Bool}
    (hname : 0 ∉ name) (hne : x ≠ []) (hlast : x.getLast? ≠ some 0)
    (h : find? name offset atStart x = none) :
    find? name offset atStart (x ++ (name ++ [0])) = none := by
  induction x generalizing offset atStart with
  | nil => exact absurd rfl hne
  | cons byte rest ih =>
    rw [find?] at h
    split at h
    · cases h
    rename_i hbegins
    have hnot : ¬ (atStart && beginsWith name (byte :: rest ++ (name ++ [0]))) = true := by
      by_cases hzero : 0 ∈ byte :: rest
      · rw [Bool.and_eq_true, beginsWith_iff] at hbegins ⊢
        rwa [Bytes.beforeNul_append hzero]
      · intro hboth
        have htext := beginsWith_iff.1 (Bool.and_eq_true_iff.1 hboth).2
        have hnotMem : 0 ∉ byte :: rest ++ name := by
          rw [List.mem_append, not_or]
          exact ⟨hzero, hname⟩
        rw [← List.append_assoc, Bytes.beforeNul_of_notMem hnotMem] at htext
        have hlength := congrArg List.length htext
        rw [List.length_append, List.length_cons] at hlength
        omega
    rw [List.cons_append, find?, ← List.cons_append, if_neg hnot]
    cases rest with
    | nil =>
      have hbyte : (byte == 0) = false := beq_false_of_ne fun h => hlast (by rw [h]; rfl)
      rw [hbyte]
      exact find?_of_notMem hname _ _
    | cons next rest =>
      rw [List.getLast?_cons_cons] at hlast
      exact ih (List.cons_ne_nil _ _) hlast h

/-! ## Interning -/

/-- What becomes of a table that a name is interned in: every text stays, or is continued by the
name. -/
structure Interned (t : SymbolTable) (name : String) (offset : Nat) (t' : SymbolTable) : Prop where
  named : t'.lookup? offset = some name
  stays : ∀ k s, t.lookup? k = some s → t' = t ∨ 0 ∈ t.strings.drop k → t'.lookup? k = some s
  runsOn : ∀ k s, t.lookup? k = some s → t' ≠ t → 0 ∉ t.strings.drop k →
    t'.lookup? k = some (s ++ name)
  found : t' = t ∨ t.EndsInNul → t'.intern (Text.encode name) = (offset, t')
  repeated : t' ≠ t → ¬ t.EndsInNul → t'.intern (Text.encode name) =
    (t'.strings.length, { t' with strings := t'.strings ++ (Text.encode name ++ [0]) })

theorem lookup?_append {k : Nat} {s : String} (hs : t.lookup? k = some s) {name : String}
    (hname : 0 ∉ Text.encode name) :
    lookup? { t with strings := t.strings ++ (Text.encode name ++ [0]) } k =
      some (if 0 ∈ t.strings.drop k then s else s ++ name) := by
  rw [lookup?_eq_some] at hs ⊢
  obtain ⟨⟨hk, hlt⟩, hs⟩ := hs
  rw [← drop_strings hk] at hs ⊢
  refine ⟨⟨hk, by rw [List.length_append]; omega⟩, ?_⟩
  dsimp only
  rw [List.drop_append_of_le_length hlt.le]
  split
  · rename_i hzero
    rw [Bytes.beforeNul_append hzero, hs]
  · rename_i hzero
    rw [Bytes.beforeNul_eq_self hzero] at hs
    have hboth : 0 ∉ t.strings.drop k ++ Text.encode name := by
      rw [List.mem_append, not_or]
      exact ⟨hzero, hname⟩
    rw [← List.append_assoc, Bytes.beforeNul_of_notMem hboth, Text.decode?_append hs]

theorem IsCounted.interned (ht : t.IsCounted) {name : String} (hname : checkName name = .ok ())
    {offset : Nat} (h : t.intern (Text.encode name) = (offset, t')) :
    t.Interned name offset t' := by
  have hzero := Layout.zero_notMem_of_checkName hname
  have hnamed := lookup?_intern ht.lengthSize_le hzero (Text.decode?_encode name)
  rw [h] at hnamed
  cases hfind : find? (Text.encode name) lengthSize true t.texts with
  | some found =>
    rw [intern_of_find?_eq_some hfind] at h
    cases h
    exact {
      named := hnamed
      stays := fun _ _ hs _ => hs
      runsOn := fun _ _ _ hne => absurd rfl hne
      found := fun _ => intern_of_find?_eq_some hfind
      repeated := fun hne => absurd rfl hne }
  | none =>
    have hinterned := h
    rw [intern_of_find?_eq_none hfind] at h
    cases h
    have hne : { t with strings := t.strings ++ (Text.encode name ++ [0]) } ≠ t := fun heq => by
      have hlength := congrArg (·.strings.length) heq
      simp at hlength
    exact {
      named := hnamed
      stays := fun k s hs hkept => by
        rw [lookup?_append hs hzero, if_pos (hkept.resolve_left hne)]
      runsOn := fun k s hs _ hopen => by
        rw [lookup?_append hs hzero, if_neg hopen]
      found := fun hends => by
        have hwhole := ht.isWhole (hends.resolve_left hne)
        have hagain := intern_of_grows hwhole hzero (Grows.refl _)
        rwa [hinterned] at hagain
      repeated := fun _ hends => by
        apply intern_of_find?_eq_none
        rw [texts_append ht.lengthSize_le]
        have htexts : t.texts ≠ [] := fun hnil => hends (ht.endsInNul hnil)
        refine find?_append_of_getLast?_ne hzero htexts (fun hlast => hends ?_) hfind
        rw [texts, List.getLast?_drop] at hlast
        split at hlast
        · cases hlast
        · exact hlast }

end SymbolTable

namespace Layout

open SymbolTable

variable {l l' : Layout} {symbols symbols' : Option SymbolTable}

/-! ## Names of sections -/

/-- Whether the tables of layouts, if there are any, are such tables. -/
def AllReachable (symbols : Option SymbolTable) : Prop := ∀ t ∈ symbols, t.IsReachable

theorem isReachable_getD (h : AllReachable symbols) : (symbols.getD empty).IsReachable := by
  cases symbols with
  | none => exact IsReachable.empty
  | some t => exact h t rfl

theorem allReachable_encodeName (h : AllReachable symbols) (name : String) :
    AllReachable (encodeName symbols name).2 := by
  have hinterned := (isReachable_getD h).intern (Text.encode name)
  rw [encodeName]
  split
  · exact h
  · dsimp only
    split
    · rintro t ⟨⟩
      exact hinterned
    · rintro t ⟨⟩
      exact hinterned

theorem allReachable_edit (h : AllReachable l.symbols) (e : Edit) :
    AllReachable (l.edit e).symbols := by
  cases e with
  | remove name => exact h
  | add r =>
    have hname := allReachable_encodeName h r.name
    rw [edit, addSection]
    split
    · exact h
    · split
      · rename_i herror
        rw [herror] at hname
        exact hname
      · rename_i hok
        rw [hok] at hname
        exact hname

theorem allReachable_run {x : Bytes} (hl : decode x = .ok l) (edits : List Edit) :
    AllReachable (l.run edits).symbols := by
  induction edits using List.reverseRecOn with
  | nil =>
    obtain ⟨h, certificates, hr⟩ := decode_eq_ok_iff.1 hl
    exact fun t ht => IsReachable.read (ht ▸ hr.symbols)
  | append_singleton edits e ih =>
    rw [run, List.foldl_append]
    exact allReachable_edit ih e

/-- Whether a name field refers to a text of the string table that no zero byte ends. -/
def RefersToOpenText (rawName : Bytes) (symbols : Option SymbolTable) : Prop :=
  ∃ digits offset, (Text.decodeLossy (Bytes.beforeNul rawName)).toList = '/' :: digits ∧
    Headers.decimalOffset? digits = some offset ∧ ∃ t ∈ symbols, 0 ∉ t.strings.drop offset

/-- What becomes of the names of a layout to which a section is added. -/
structure AddsName (l : Layout) (r : SectionRequest) (l' : Layout) : Prop where
  named : ∃ s, l'.sections = l.sections ++ [s] ∧ s.name = r.name ∧
    sectionName s.header.rawName l'.symbols = .ok r.name
  stays : ∀ s ∈ l.sections, ∀ name, sectionName s.header.rawName l.symbols = .ok name →
    l'.symbols = l.symbols ∨ ¬ RefersToOpenText s.header.rawName l.symbols →
    sectionName s.header.rawName l'.symbols = .ok name
  runsOn : ∀ s ∈ l.sections, ∀ name, sectionName s.header.rawName l.symbols = .ok name →
    l'.symbols ≠ l.symbols → RefersToOpenText s.header.rawName l.symbols →
    sectionName s.header.rawName l'.symbols = .ok (name ++ r.name)

/-- The name that a field has where another name was interned. -/
theorem sectionName_of_interned {t t' : SymbolTable} {name other : String} {offset : Nat}
    (h : t.Interned other offset t') {rawName : Bytes}
    (hname : sectionName rawName (some t) = .ok name) :
    (t' = t ∨ ¬ RefersToOpenText rawName (some t) → sectionName rawName (some t') = .ok name) ∧
      (t' ≠ t → RefersToOpenText rawName (some t) →
        sectionName rawName (some t') = .ok (name ++ other)) := by
  rcases sectionName_eq_ok.1 hname with ⟨digits, k, hdigits, hk, hlookup⟩ | ⟨hshort, heq⟩
  · rw [Option.bind_some] at hlookup
    refine ⟨fun hkept => ?_, fun hne hopen => ?_⟩
    · refine sectionName_eq_ok.2 (.inl ⟨digits, k, hdigits, hk, ?_⟩)
      rw [Option.bind_some]
      refine h.stays k name hlookup (hkept.imp_right fun hclosed => ?_)
      by_contra hzero
      exact hclosed ⟨digits, k, hdigits, hk, t, rfl, hzero⟩
    · refine sectionName_eq_ok.2 (.inl ⟨digits, k, hdigits, hk, ?_⟩)
      obtain ⟨digits', k', hdigits', hk', t₁, ht₁, hzero⟩ := hopen
      rw [hdigits] at hdigits'
      cases hdigits'
      rw [hk] at hk'
      cases hk'
      cases ht₁
      exact h.runsOn k name hlookup hne hzero
  · refine ⟨fun _ => sectionName_eq_ok.2 (.inr ⟨hshort, heq⟩), fun _ hopen => ?_⟩
    obtain ⟨digits, _, hdigits, -⟩ := hopen
    exact absurd hdigits (hshort digits)

theorem addsName_of_addSection {r : SectionRequest} (hl : AllReachable l.symbols)
    (h : l.addSection r = (l', none)) : l.AddsName r l' := by
  obtain ⟨rawName, symbols, hcheck, hname, rfl⟩ := addSection_eq h
  have hvalid := (checkRequest_eq_ok hcheck).1
  have hcounted := (isReachable_getD hl).isCounted
  have hkept : ∀ s ∈ l.sections, ∀ name, sectionName s.header.rawName l.symbols = .ok name →
      (symbols = l.symbols ∨ ¬ RefersToOpenText s.header.rawName l.symbols →
        sectionName s.header.rawName symbols = .ok name) ∧
      (symbols ≠ l.symbols → RefersToOpenText s.header.rawName l.symbols →
        sectionName s.header.rawName symbols = .ok (name ++ r.name)) := by
    intro s hs name hold
    rcases encodeName_eq_ok hname with ⟨-, -, rfl⟩ | ⟨-, offset, table, hintern, -, -, rfl⟩
    · exact ⟨fun _ => hold, fun hne => absurd rfl hne⟩
    · cases hsymbols : l.symbols with
      | none =>
        rw [hsymbols] at hold
        -- without a table only short names can be read
        rcases sectionName_eq_ok.1 hold with ⟨_, _, _, _, hlookup⟩ | hshort
        · cases hlookup
        · refine ⟨fun _ => sectionName_eq_ok.2 (.inr hshort), fun _ hopen => ?_⟩
          obtain ⟨_, _, _, _, _, ht, -⟩ := hopen
          cases ht
      | some t =>
        rw [hsymbols] at hold hintern hcounted
        simp only [Option.some.injEq, ne_eq]
        exact sectionName_of_interned (hcounted.interned hvalid hintern) hold
  exact {
    named := ⟨_, rfl, rfl, sectionName_encodeName hcounted.lengthSize_le hvalid hname⟩
    stays := fun s hs name hold => (hkept s hs name hold).1
    runsOn := fun s hs name hold => (hkept s hs name hold).2 }

/-- Interning a valid name gives its offset and changes no other text, unless that text has no end;
and so does adding a section of that name to an edited executable. -/
theorem stable_names {name : String} (hname : checkName name = .ok ()) :
    (∀ t offset t', SymbolTable.IsReachable t → t.intern (Text.encode name) = (offset, t') →
      t.Interned name offset t') ∧
    ∀ (x : Bytes) (l : Layout) (edits : List Edit) (r : SectionRequest) (l' : Layout),
      decode x = .ok l → r.name = name → (l.run edits).addSection r = (l', none) →
        (l.run edits).AddsName r l' :=
  ⟨fun _ _ _ ht h => ht.isCounted.interned hname h,
    fun _ _ edits _ _ hl _ h => addsName_of_addSection (allReachable_run hl edits) h⟩

/-- An executable whose only section has its name in a string table that does not end in a zero
byte. -/
def openTable : Bytes :=
  [[0x4d, 0x5a], Bytes.zeros 58, Bytes.ofNatLE 4 64, [0x50, 0x45, 0, 0],
    Bytes.ofNatLE 2 0x8664, Bytes.ofNatLE 2 1, Bytes.zeros 4, Bytes.ofNatLE 4 227, Bytes.zeros 4,
    Bytes.ofNatLE 2 96, Bytes.zeros 2,
    Bytes.ofNatLE 2 0x10b, Bytes.zeros 30, Bytes.ofNatLE 4 0x1000, Bytes.ofNatLE 4 4,
    Bytes.zeros 20, Bytes.ofNatLE 4 224, Bytes.zeros 32,
    SectionHeader.encode {
      rawName := Bytes.padTo (Text.encode "/4") SectionHeader.nameSize
      virtualSize := 3
      virtualAddress := 0x1000
      sizeOfRawData := 3
      pointerToRawData := 224 },
    [1, 2, 3], Bytes.ofNatLE 4 9, Text.encode "hello"].flatten

/-- A second name is interned behind the one that has continued the only text. -/
theorem stable_names_openTable :
    ∃ t l l', SymbolTable.decode openTable 227 0 = .ok (some t) ∧
      checkName ".longname" = .ok () ∧
      t.Interned ".longname" (t.intern (Text.encode ".longname")).1
        (t.intern (Text.encode ".longname")).2 ∧
      decode openTable = .ok l ∧
      (l.run [.add ⟨".longname", 0x2000, none, [1]⟩]).addSection
        ⟨".longer.name", 0x3000, none, [2]⟩ = (l', none) ∧
      (l.run [.add ⟨".longname", 0x2000, none, [1]⟩]).AddsName
        ⟨".longer.name", 0x3000, none, [2]⟩ l' := by
  let edits : List Edit := [.add ⟨".longname", 0x2000, none, [1]⟩]
  let r : SectionRequest := ⟨".longer.name", 0x3000, none, [2]⟩
  obtain ⟨symbols, hsymbols, hsome⟩ :=
    exists_eq_ok_of_any (e := SymbolTable.decode openTable 227 0) (p := (·.isSome))
      (by decide +kernel)
  obtain ⟨t, rfl⟩ := Option.isSome_iff_exists.1 hsome
  obtain ⟨l, hl, hadd⟩ := exists_eq_ok_of_any (e := decode openTable)
    (p := fun l => decide (((l.run edits).addSection r).2 = none)) (by decide +kernel)
  have hname : checkName ".longname" = .ok () := by decide +kernel
  have hadd : (l.run edits).addSection r = (_, none) := Prod.ext rfl (of_decide_eq_true hadd)
  exact ⟨t, l, _, hsymbols, hname,
    (stable_names hname).1 t _ _ (.read hsymbols) rfl, hl, hadd,
    (stable_names (by decide +kernel)).2 _ _ _ _ _ hl rfl hadd⟩

/-- The name that is added becomes part of the name in front of it, and is not found again. -/
theorem sectionName_openTable :
    ∃ l l', decode openTable = .ok l ∧
      l.addSection ⟨".longname", 0x2000, none, [1]⟩ = (l', none) ∧
      (∀ s ∈ l.sections, sectionName s.header.rawName l.symbols = .ok "hello" ∧
        sectionName s.header.rawName l'.symbols = .ok "hello.longname") ∧
      l.sections ≠ [] ∧ (encodeName l'.symbols ".longname").2 ≠ l'.symbols := by
  let r : SectionRequest := ⟨".longname", 0x2000, none, [1]⟩
  obtain ⟨l, hl, hnames⟩ := exists_eq_ok_of_any (e := decode openTable)
    (p := fun l => decide ((l.addSection r).2 = none ∧
      (∀ s ∈ l.sections, sectionName s.header.rawName l.symbols = .ok "hello" ∧
        sectionName s.header.rawName (l.addSection r).1.symbols = .ok "hello.longname") ∧
      l.sections ≠ [] ∧
      (encodeName (l.addSection r).1.symbols ".longname").2 ≠ (l.addSection r).1.symbols))
    (by decide +kernel)
  obtain ⟨hadd, hnames⟩ := of_decide_eq_true hnames
  exact ⟨l, _, hl, Prod.ext rfl hadd, hnames⟩

end Layout

end SecureBoot.Pe
