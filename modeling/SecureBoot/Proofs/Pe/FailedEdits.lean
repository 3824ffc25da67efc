import Mathlib
import SecureBoot.Proofs.Pe.ApplySections
import SecureBoot.Proofs.Pe.Edits

/-!
# Attempts that fail

An attempt to add a section can fail in many ways: for its name, its address, its size, for a
section that is there already, and for a name that no section header can refer to.

**All but the last** are found by looking at the layout, before anything is changed.

**The last** is found after the fact. A name of more than eight bytes goes into the string table
first; only then it shows whether the place it got there can be stated in the seven digits behind a
slash (`nameSize_lt_length_reference_iff`). If not, the name stays behind, and no section refers to
it (`StrandsName`).

**Theorem (`addSection_failed`).** A failed attempt leaves the layout exactly as it was, unless it
strands a name. Then the string table has grown by that name, and so has the file that the layout is
written to. All other failed attempts can be left out of a run of edits (`run_of_failed`).

A table in which names get stranded has ten million bytes or more. One that is read from a file can
be that long from the start (`addSection_longTable`).
-/

namespace SecureBoot.Pe

namespace Layout

open SymbolTable

variable {l l' : Layout} {r : SectionRequest} {e : Error} {t : SymbolTable}

/-! ## References to the string table -/

theorem length_reference (offset : Nat) :
    (Text.encode s!"/{offset}").length = (Nat.toDigits 10 offset).length + 1 := by
  have hascii : ∀ c ∈ '/' :: Nat.toDigits 10 offset, (String.utf8EncodeChar c).length = 1 := by
    intro c hc
    rw [String.length_utf8EncodeChar, Char.utf8Size_eq_one_iff]
    rcases List.mem_cons.1 hc with rfl | hc
    · decide
    · have hdigit := Nat.isDigit_of_mem_toDigits (by decide) (by decide) hc
      exact UInt32.le_trans (Char.isDigit_iff_toNat.1 hdigit).2 (by decide)
  rw [Text.encode, toList_reference, List.length_flatMap, List.map_congr_left hascii,
    List.map_const', List.sum_replicate, List.length_cons, smul_eq_mul, Nat.mul_one]

theorem nameSize_lt_length_reference_iff (offset : Nat) :
    SectionHeader.nameSize < (Text.encode s!"/{offset}").length ↔ 10 ^ 7 ≤ offset := by
  have hdigits := @Nat.length_toDigits_le_iff 10 offset 7 (by decide) (by decide)
  have hsize : SectionHeader.nameSize = 8 := rfl
  rw [length_reference, hsize]
  omega

/-! ## Stranded names -/

/-- Whether the attempt to add a section puts its name into a string table for nothing: the request
is fine, but the name is long and new to the table, which has no place left that a section header
can state. -/
structure StrandsName (l : Layout) (r : SectionRequest) (t : SymbolTable) : Prop where
  symbols : l.symbols = some t
  fits : l.checkRequest r = .ok ()
  long : SectionHeader.nameSize < (Text.encode r.name).length
  isNew : find? (Text.encode r.name) lengthSize true t.texts = none
  full : 10 ^ 7 ≤ t.strings.length

/-- The layout with a name more in its string table. -/
def withName (l : Layout) (t : SymbolTable) (name : Bytes) : Layout :=
  { l with symbols := some { t with strings := t.strings ++ (name ++ [0]) } }

/-- The error is found when the name is in the table already. -/
theorem StrandsName.addSection (h : l.StrandsName r t) :
    l.addSection r = (l.withName t (Text.encode r.name),
      some (.badSectionName r.name (.offsetTooLong t.strings.length))) := by
  rw [Layout.addSection, h.fits, encodeName, if_neg (Nat.not_le.2 h.long), h.symbols,
    Option.getD_some, intern_of_find?_eq_none h.isNew]
  dsimp only
  rw [if_pos ((nameSize_lt_length_reference_iff _).2 h.full)]
  rfl

theorem withName_ne (hl : l.symbols = some t) (name : Bytes) : l.withName t name ≠ l := by
  intro heq
  have hsymbols := congrArg Layout.symbols heq
  rw [hl] at hsymbols
  have hlength := congrArg (·.strings.length) (Option.some.inj hsymbols)
  simp at hlength

/-- An error that comes from the name comes with a change only if the name is new to a table that is
full. -/
theorem encodeName_eq_error {symbols symbols' : Option SymbolTable} {name : String}
    (h : encodeName symbols name = (.error e, symbols')) :
    SectionHeader.nameSize < (Text.encode name).length ∧ ∃ t ∈ symbols, symbols' = some t ∨
      find? (Text.encode name) lengthSize true t.texts = none ∧ 10 ^ 7 ≤ t.strings.length := by
  rw [encodeName] at h
  split at h
  · cases h
  · rename_i hlong
    refine ⟨Nat.not_le.1 hlong, ?_⟩
    cases symbols with
    | none =>
      -- In an empty table the name gets the first place, which a header can state.
      rw [Option.getD_none, intern_of_find?_eq_none rfl] at h
      cases h
    | some t =>
      refine ⟨t, rfl, ?_⟩
      cases hfind : find? (Text.encode name) lengthSize true t.texts with
      | some offset =>
        rw [Option.getD_some, intern_of_find?_eq_some hfind] at h
        dsimp only at h
        split at h
        · cases h
          exact .inl rfl
        · cases h
      | none =>
        rw [Option.getD_some, intern_of_find?_eq_none hfind] at h
        dsimp only at h
        split at h
        · rename_i hlength
          exact .inr ⟨rfl, (nameSize_lt_length_reference_iff _).1 hlength⟩
        · cases h

theorem eq_or_strandsName (h : l.addSection r = (l', some e)) :
    l' = l ∨ ∃ t, l.StrandsName r t := by
  rw [addSection] at h
  split at h
  · cases h
    exact .inl rfl
  · rename_i hcheck
    split at h
    · rename_i error symbols hname
      cases h
      obtain ⟨hlong, t, ht, rfl | ⟨hnew, hfull⟩⟩ := encodeName_eq_error hname
      · left
        rw [← ht]
      · exact .inr ⟨t, ⟨ht, hcheck, hlong, hnew, hfull⟩⟩
    · cases h

/-! ## What becomes of it -/

theorem length_of_encode {y : Bytes} (h : l.encode = .ok y) : y.length = l.whole.length := by
  obtain ⟨hwritable, rfl⟩ := encode_eq_ok_iff.1 h
  exact length_patchAll hwritable.fields

theorem length_whole_withName (hl : l.symbols = some t) (hlength : lengthSize ≤ t.strings.length)
    (name : Bytes) :
    (l.withName t name).whole.length = l.whole.length + name.length + 1 := by
  have hsymbols := symbolBytes_of_some hl
  have hsymbols' : (l.withName t name).symbolBytes =
      SymbolTable.encode { t with strings := t.strings ++ (name ++ [0]) } := symbolBytes_of_some rfl
  have hbehind : (l.withName t name).behindFront =
      l.table ++ (Bytes.zeros (l.headersStop - (l.front.length + l.table.length)) ++
        (l.sectionBytes ++ ((l.withName t name).symbolBytes ++ l.overlay))) := rfl
  have hfront : (l.withName t name).front = l.front := rfl
  rw [whole, whole, hbehind, behindFront, hsymbols, hsymbols', hfront]
  simp only [SymbolTable.encode, List.length_append, List.length_drop, Bytes.length_ofNatLE,
    List.length_singleton]
  omega

/-- A failed attempt to add a section leaves the layout exactly as it was, unless the name gets
stranded in the string table. It then stands at the end of the table, and the layout is written to a
file that is longer by the name. -/
theorem addSection_failed (h : l.addSection r = (l', some e)) :
    (l' = l ↔ ∀ t, ¬ l.StrandsName r t) ∧
      ∀ t, l.StrandsName r t →
        e = .badSectionName r.name (.offsetTooLong t.strings.length) ∧
        l' = l.withName t (Text.encode r.name) ∧
        ∀ y y', l.encode = .ok y → l'.encode = .ok y' →
          y'.length = y.length + (Text.encode r.name).length + 1 := by
  have hstrands : ∀ t, l.StrandsName r t →
      l' = l.withName t (Text.encode r.name) ∧
        e = .badSectionName r.name (.offsetTooLong t.strings.length) := by
    intro t ht
    rw [ht.addSection] at h
    cases h
    exact ⟨rfl, rfl⟩
  refine ⟨⟨fun heq t ht => ?_, fun hnone => ?_⟩, fun t ht => ?_⟩
  · exact withName_ne ht.symbols _ ((hstrands t ht).1.symm.trans heq)
  · rcases eq_or_strandsName h with heq | ⟨t, ht⟩
    · exact heq
    · exact absurd ht (hnone t)
  · obtain ⟨rfl, he⟩ := hstrands t ht
    refine ⟨he, rfl, fun y y' hy hy' => ?_⟩
    rw [length_of_encode hy, length_of_encode hy']
    exact length_whole_withName ht.symbols (le_trans (by decide) ht.full) _

/-- A request for a section that is there fails, and changes nothing. -/
theorem addSection_failed_smallExecutable :
    ∃ l e, Layout.decode smallExecutable = .ok l ∧
      l.addSection ⟨".a", 0x2000, none, [1]⟩ = (l, some e) := by
  obtain ⟨l, hl, hfails⟩ := exists_eq_ok_of_any (e := Layout.decode smallExecutable)
    (p := fun l => decide ((l.addSection ⟨".a", 0x2000, none, [1]⟩).2.isSome ∧ l.symbols = none))
    (by decide +kernel)
  obtain ⟨hfails, hnone⟩ := of_decide_eq_true hfails
  obtain ⟨e, he⟩ := Option.isSome_iff_exists.1 hfails
  have hadd : l.addSection ⟨".a", 0x2000, none, [1]⟩ = (_, some e) := Prod.ext rfl he
  have hkept := (addSection_failed hadd).1.2 fun t ht => by
    have hsome := ht.symbols
    rw [hnone] at hsome
    cases hsome
  exact ⟨l, e, hl, Prod.ext hkept he⟩

/-- An attempt that fails and strands no name can be left out of a run: whatever follows comes out
the same. -/
theorem run_of_failed {before after : List Edit}
    (hfails : ((l.run before).addSection r).2.isSome)
    (hname : ∀ t, ¬ (l.run before).StrandsName r t) :
    l.run (before ++ .add r :: after) = l.run (before ++ after) := by
  obtain ⟨e, he⟩ := Option.isSome_iff_exists.1 hfails
  have hkept : (l.run before).edit (.add r) = l.run before := by
    rcases eq_or_strandsName (Prod.ext rfl he) with heq | ⟨t, ht⟩
    · exact heq
    · exact absurd ht (hname t)
  rw [run, run, List.foldl_append, List.foldl_append, List.foldl_cons]
  change ((l.run before).edit (.add r)).run after = (l.run before).run after
  rw [hkept]

/-! ## A full table -/

/-- A string table behind the headers of a file without sections is read as it stands there. -/
theorem exists_reads_append {x strings : Bytes} {h : Headers} (hr : Headers.Reads x h)
    (hnone : h.numberOfSections = 0) (hcertificate : h.certificateDirectory = none)
    (hpointer : h.pointerToSymbolTable = x.length) (hcount : h.numberOfSymbols = 0)
    (htable : h.tableOffset = x.length)
    (hword : (strings.u32 0).toNat = strings.length) (hle : lengthSize ≤ strings.length) :
    ∃ l, Reads (x ++ strings) h none l ∧ l.sections = [] ∧ l.symbols = some ⟨[], strings⟩ ∧
      l.front = x := by
  have hfield := hr.field_le
  have hsections : ([] : List Section).map (·.header) = h.sections := by
    rw [← hr.sections, hnone]
    rfl
  have hlength : (x ++ strings).length = x.length + strings.length := List.length_append
  have hsymbols : SymbolTable.decode (x ++ strings) h.pointerToSymbolTable h.numberOfSymbols =
      .ok (some ⟨[], strings⟩) := by
    rw [hpointer, hcount, SymbolTable.decode_eq_ok_iff]
    refine .inr ⟨by omega, x.length, strings.length, by rw [Nat.zero_mul, Nat.add_zero], by omega,
      ?_, hlength.ge, ?_⟩
    · rw [Bytes.u32_append_right le_rfl, Nat.sub_self, hword, Nat.max_eq_left hle]
    · congr 2
      · rw [Bytes.slice, Nat.sub_self, List.take_zero]
      · rw [← hlength, Bytes.slice_length, List.drop_left]
  have hcertificates : certificateRange (x ++ strings) h = .ok none := by
    rw [certificateRange, hcertificate]
    rfl
  have hstand : ∀ s ∈ ([] : List Section),
      sectionName s.header.rawName (some ⟨[], strings⟩) = .ok s.name ∧ s.StandsIn (x ++ strings) :=
    fun s hs => absurd hs List.not_mem_nil
  obtain ⟨l, hl, hempty, hsome⟩ := exists_reads (hr.append hnone strings) hcertificates hsymbols
    hsections hstand (by omega)
  exact ⟨l, hl, hempty, hsome, by rw [hl.front, htable, List.take_left]⟩

/-- The headers of an executable without sections, whose string table stands right behind them. -/
def headersBeforeStrings : Bytes :=
  [[0x4d, 0x5a], Bytes.zeros 58, Bytes.ofNatLE 4 64, [0x50, 0x45, 0, 0],
    Bytes.ofNatLE 2 0x8664, Bytes.zeros 6, Bytes.ofNatLE 4 184, Bytes.zeros 4, Bytes.ofNatLE 2 96,
    Bytes.ofNatLE 2 0x22,
    Bytes.ofNatLE 2 0x10b, Bytes.zeros 30, Bytes.ofNatLE 4 0x1000, Bytes.ofNatLE 4 0x200,
    Bytes.zeros 20, Bytes.ofNatLE 4 0x200, Bytes.zeros 32].flatten

/-- A string table of ten million bytes, all texts empty. -/
def longStrings : Bytes := Bytes.ofNatLE lengthSize (10 ^ 7) ++ Bytes.zeros (10 ^ 7 - lengthSize)

/-- A section whose name takes the string table. -/
def longNamed : SectionRequest := ⟨".longname", 0x1000, none, [1]⟩

theorem length_longStrings : longStrings.length = 10 ^ 7 := by
  rw [longStrings, List.length_append, Bytes.length_ofNatLE, Bytes.length_zeros]
  rfl

theorem texts_longStrings : texts ⟨[], longStrings⟩ = Bytes.zeros (10 ^ 7 - lengthSize) :=
  List.drop_left' (Bytes.length_ofNatLE _ _)

/-- The attempt fails, and yet the layout is another one: its string table has the name. -/
theorem addSection_longTable :
    ∃ l l' e, Layout.decode (headersBeforeStrings ++ longStrings) = .ok l ∧
      l.addSection longNamed = (l', some e) ∧ l' ≠ l := by
  obtain ⟨h, hh, hfields⟩ := exists_eq_ok_of_any (e := Headers.decode headersBeforeStrings)
    (p := fun h => decide (h.numberOfSections = 0 ∧ h.certificateDirectory = none ∧
      h.pointerToSymbolTable = 184 ∧ h.numberOfSymbols = 0 ∧ h.tableOffset = 184 ∧
      h.fileAlignment = 0x200 ∧ h.sectionAlignment = 0x1000)) (by decide +kernel)
  obtain ⟨hnone, hcertificate, hpointer, hcount, htable, hfile, hsection⟩ :=
    of_decide_eq_true hfields
  have hlength : headersBeforeStrings.length = 184 := by decide +kernel
  have hword : (longStrings.u32 0).toNat = longStrings.length := by
    rw [length_longStrings]
    exact Bytes.toNat_u32_ofNatLE_append (by decide) _
  obtain ⟨l, hreads, hsections, hsymbols, hfront⟩ := exists_reads_append
    (Headers.decode_eq_ok_iff.1 hh) hnone hcertificate (hpointer.trans hlength.symm) hcount
    (htable.trans hlength.symm) hword (length_longStrings ▸ by decide)
  have hstrands : l.StrandsName longNamed ⟨[], longStrings⟩ := {
    symbols := hsymbols
    fits := by
      simp only [checkRequest, mapped, mappedHeaders, sizeOfHeaders, section?, hsections, hfront,
        hlength, hreads.fileAlignment, hreads.sectionAlignment, hfile, hsection]
      decide +kernel
    long := by decide +kernel
    isNew := by
      rw [texts_longStrings]
      exact find?_zeros (by decide +kernel) _ _ _
    full := length_longStrings.ge }
  exact ⟨l, _, _, decode_eq_ok_iff.2 ⟨h, none, hreads⟩, hstrands.addSection,
    withName_ne hsymbols _⟩

end Layout

end SecureBoot.Pe
