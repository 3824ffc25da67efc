import Mathlib
import SecureBoot.Pe.Layout.Editing
import SecureBoot.Proofs.Pe.SymbolTable

/-!
# Section names

A name field and a string table give a name (`sectionName`), a name gives a name field and a string
table (`encodeName`). The name comes back (`sectionName_encodeName`), whatever the string table
takes in later (`sectionName_of_grow`), and by then encoding it once more changes nothing
(`encodeName_of_grow`).

A name that a layout can make sense of also lets the headers be read
(`isNameReadable_of_sectionName`).
-/

namespace SecureBoot.Pe

namespace SymbolTable

/-- Whether a table, if there is one, is as files have it. -/
def AllWhole (symbols : Option SymbolTable) : Prop := ∀ t ∈ symbols, t.IsWhole

/-- Whether a table, if there is one, has grown into another. -/
def Grow (symbols symbols' : Option SymbolTable) : Prop :=
  ∀ t ∈ symbols, ∃ t' ∈ symbols', t.Grows t'

theorem Grow.refl (symbols : Option SymbolTable) : Grow symbols symbols :=
  fun t ht => ⟨t, ht, Grows.refl t⟩

theorem Grow.trans {s t u : Option SymbolTable} (h : Grow s t) (h' : Grow t u) : Grow s u := by
  intro a ha
  obtain ⟨b, hb, hab⟩ := h a ha
  obtain ⟨c, hc, hbc⟩ := h' b hb
  exact ⟨c, hc, hab.trans hbc⟩

theorem isWhole_getD {symbols : Option SymbolTable} (h : AllWhole symbols) :
    (symbols.getD empty).IsWhole := by
  cases symbols with
  | none => exact isWhole_empty
  | some t => exact h t rfl

end SymbolTable

/-! ## Offsets in names -/

namespace Headers

theorem decimalOffset?_of_isDigit {cs : List Char} (h : ∀ c ∈ cs, c.isDigit) :
    decimalOffset? cs = Text.decimal? cs := by
  unfold decimalOffset?
  split
  · exact absurd (h '+' List.mem_cons_self) (by decide)
  · rfl

/-- An offset that can be read has no character that was replaced, nor a slash. -/
theorem notMem_of_decimalOffset? {cs : List Char} {n : Nat} (h : decimalOffset? cs = some n)
    {c : Char} (hplus : c ≠ '+') (hc : c.isDigit = false) : c ∉ cs := by
  intro hmem
  unfold decimalOffset? at h
  split at h
  · rcases List.mem_cons.1 hmem with rfl | hmem
    · exact hplus rfl
    · rw [Text.isDigit_of_decimal? h c hmem] at hc
      cases hc
  · rw [Text.isDigit_of_decimal? h c hmem] at hc
    cases hc

end Headers

namespace Layout

open SymbolTable

/-! ## Reading names -/

theorem sectionName_eq_ok {rawName : Bytes} {symbols : Option SymbolTable} {name : String} :
    sectionName rawName symbols = .ok name ↔
      (∃ digits offset, (Text.decodeLossy (Bytes.beforeNul rawName)).toList = '/' :: digits ∧
        Headers.decimalOffset? digits = some offset ∧
        symbols.bind (·.lookup? offset) = some name) ∨
      ((∀ digits, (Text.decodeLossy (Bytes.beforeNul rawName)).toList ≠ '/' :: digits) ∧
        Text.decodeLossy (Bytes.beforeNul rawName) = name) := by
  rw [sectionName]
  split
  · rename_i digits hdigits
    constructor
    · intro h
      split at h
      · cases h
      · rename_i offset hoffset
        split at h
        · cases h
        · rename_i long hlong
          cases h
          exact Or.inl ⟨digits, offset, hdigits, hoffset, hlong⟩
    · intro h
      rcases h with ⟨digits', offset, hdigits', hoffset, hlong⟩ | ⟨hno, -⟩
      · rw [hdigits] at hdigits'
        cases hdigits'
        rw [hoffset]
        dsimp only
        rw [hlong]
        rfl
      · exact absurd hdigits (hno digits)
  · rename_i hno
    rw [pure_eq_ok]
    constructor
    · intro h
      exact Or.inr ⟨hno, h⟩
    · intro h
      rcases h with ⟨digits, _, hdigits, -⟩ | ⟨-, h⟩
      · exact absurd hdigits (hno digits)
      · exact h

theorem sectionName_of_grow {rawName : Bytes} {symbols symbols' : Option SymbolTable}
    {name : String} (hwhole : AllWhole symbols) (hwhole' : AllWhole symbols')
    (hgrow : Grow symbols symbols') (h : sectionName rawName symbols = .ok name) :
    sectionName rawName symbols' = .ok name := by
  rw [sectionName_eq_ok] at h ⊢
  rcases h with ⟨digits, offset, hdigits, hoffset, hlookup⟩ | h
  · obtain ⟨t, ht, hname⟩ := Option.bind_eq_some_iff.1 hlookup
    obtain ⟨t', ht', hgrows⟩ := hgrow t ht
    refine Or.inl ⟨digits, offset, hdigits, hoffset, Option.bind_eq_some_iff.2 ⟨t', ht', ?_⟩⟩
    exact lookup?_of_grows (hwhole t ht) (hwhole' t' ht') hgrows hname
  · exact Or.inr h

theorem lookup?_of_sectionName {rest : Bytes} {symbols : Option SymbolTable} {name : String}
    (h : sectionName (0x2f :: rest) symbols = .ok name) :
    ∃ offset,
      Headers.decimalOffset? (Text.decodeLossy (Bytes.beforeNul rest)).toList = some offset ∧
      ∃ t ∈ symbols, t.lookup? offset = some name := by
  have hraw : Bytes.beforeNul (0x2f :: rest) = 0x2f :: Bytes.beforeNul rest := rfl
  have hshort := Text.toList_decodeLossy_slash (Bytes.beforeNul rest)
  rw [sectionName_eq_ok, hraw, hshort] at h
  rcases h with ⟨digits, offset, hdigits, hoffset, hlookup⟩ | ⟨hno, -⟩
  · cases hdigits
    obtain ⟨t, ht, hname⟩ := Option.bind_eq_some_iff.1 hlookup
    exact ⟨offset, hoffset, t, ht, hname⟩
  · exact absurd rfl (hno _)

theorem exists_slash_of_nameOffset? {rawName : Bytes} {offset : Nat}
    (h : Headers.nameOffset? rawName = some offset) : ∃ rest, rawName = 0x2f :: rest := by
  unfold Headers.nameOffset? at h
  split at h
  · exact ⟨_, rfl⟩
  · exact ⟨_, rfl⟩
  · cases h

/-- A name that a layout can read is readable where the string table stands in a file. -/
theorem isNameReadable_of_sectionName {x rawName : Bytes} {symbols : Option SymbolTable}
    {name : String} {strings : Nat} (hwhole : AllWhole symbols)
    (hx : ∀ t ∈ symbols, t.strings <+: x.drop strings)
    (h : sectionName rawName symbols = .ok name) :
    Headers.isNameReadable x strings rawName = true := by
  cases rawName with
  | nil => rfl
  | cons first rest =>
    by_cases hslash : first = 0x2f
    swap
    · rw [Headers.isNameReadable, if_neg (by simpa using hslash)]
    subst hslash
    obtain ⟨offset, hoffset, t, ht, hname⟩ := lookup?_of_sectionName h
    have hstrict := Text.decode?_of_notMem
      (Headers.notMem_of_decimalOffset? hoffset (c := Char.ofNat 0xfffd) (by decide) (by decide))
    -- a second slash would stand in front of the digits
    have hsecond : Headers.nameOffset? (0x2f :: rest) = some offset := by
      unfold Headers.nameOffset?
      split
      · rename_i more hmore
        cases hmore
        exfalso
        refine Headers.notMem_of_decimalOffset? hoffset (c := '/') (by decide) (by decide) ?_
        have hraw' : Bytes.beforeNul (0x2f :: more) = 0x2f :: Bytes.beforeNul more := rfl
        rw [hraw', Text.toList_decodeLossy_slash]
        exact List.mem_cons_self
      · rename_i more _ hmore
        cases hmore
        rw [hstrict]
        exact hoffset
      · rename_i hno
        exact absurd rfl (hno rest)
    obtain ⟨⟨hle, hlt⟩, htext⟩ := lookup?_eq_some.1 hname
    obtain ⟨behind, hbehind⟩ := hx t ht
    have hends : (t.strings.drop offset).getLast? = some 0 := by
      rw [List.getLast?_drop, if_neg (by omega)]
      exact (hwhole t ht).endsInNul
    rw [← drop_strings hle] at htext
    rw [Headers.isNameReadable, if_pos List.head?_cons, hsecond]
    dsimp only
    rw [← List.drop_drop, ← hbehind, List.drop_append_of_le_length (by omega),
      Bytes.beforeNul_append (List.mem_of_getLast? hends), htext]
    cases hdrop : t.strings.drop offset with
    | nil => rw [hdrop] at hends; cases hends
    | cons byte more => rfl

/-! ## Writing names -/

theorem checkName_eq_ok {name : String} :
    checkName name = .ok () ↔ name.isEmpty = false ∧ Char.ofNat 0 ∉ name.toList ∧
      name.toList.head? ≠ some '/' := by
  rw [checkName, check_eq_ok, check_eq_ok, check_eq_ok, Bool.not_eq_true, Bool.not_eq_true]
  simp [pure_eq_ok]

theorem zero_notMem_of_checkName {name : String} (h : checkName name = .ok ()) :
    0 ∉ Text.encode name := Text.zero_notMem_encode (checkName_eq_ok.1 h).2.1

/-- What a name field says that refers to the string table. -/
theorem toList_reference (offset : Nat) : s!"/{offset}".toList = '/' :: Nat.toDigits 10 offset := by
  rw [String.toList_append]
  exact congrArg ('/' :: ·) Nat.toList_repr

/-- The three outcomes of writing a name: it is short, refers to the string table, or is refused. -/
theorem encodeName_eq_ok {symbols symbols' : Option SymbolTable} {name : String} {rawName : Bytes}
    (h : encodeName symbols name = (.ok rawName, symbols')) :
    ((Text.encode name).length ≤ SectionHeader.nameSize ∧
      rawName = Bytes.padTo (Text.encode name) SectionHeader.nameSize ∧ symbols' = symbols) ∨
    (SectionHeader.nameSize < (Text.encode name).length ∧
      ∃ offset table, (symbols.getD empty).intern (Text.encode name) = (offset, table) ∧
        (Text.encode s!"/{offset}").length ≤ SectionHeader.nameSize ∧
        rawName = Bytes.padTo (Text.encode s!"/{offset}") SectionHeader.nameSize ∧
        symbols' = some table) := by
  rw [encodeName] at h
  split at h
  · rename_i hshort
    cases h
    exact Or.inl ⟨hshort, rfl, rfl⟩
  · rename_i hlong
    generalize hintern : (symbols.getD empty).intern (Text.encode name) = interned at h
    obtain ⟨offset, table⟩ := interned
    dsimp only at h
    by_cases hfits : SectionHeader.nameSize < (Text.encode s!"/{offset}").length
    · rw [if_pos hfits] at h
      cases h
    · rw [if_neg hfits] at h
      cases h
      exact Or.inr ⟨by omega, offset, table, rfl, by omega, rfl, rfl⟩

variable {symbols symbols' : Option SymbolTable} {name : String} {rawName : Bytes}

theorem length_encodeName (h : encodeName symbols name = (.ok rawName, symbols')) :
    rawName.length = SectionHeader.nameSize := by
  rcases encodeName_eq_ok h with ⟨hle, rfl, -⟩ | ⟨-, offset, table, -, hle, rfl, -⟩
  · rw [Bytes.length_padTo, Nat.max_eq_right hle]
  · rw [Bytes.length_padTo, Nat.max_eq_right hle]

theorem allWhole_encodeName (hwhole : AllWhole symbols)
    (h : encodeName symbols name = (.ok rawName, symbols')) : AllWhole symbols' := by
  rcases encodeName_eq_ok h with ⟨-, -, rfl⟩ | ⟨-, offset, table, hintern, -, -, rfl⟩
  · exact hwhole
  · intro t ht
    cases ht
    have hinterned := isWhole_intern (isWhole_getD hwhole) (Text.encode name)
    rwa [hintern] at hinterned

theorem grow_encodeName (hwhole : AllWhole symbols)
    (h : encodeName symbols name = (.ok rawName, symbols')) : Grow symbols symbols' := by
  rcases encodeName_eq_ok h with ⟨-, -, rfl⟩ | ⟨-, offset, table, hintern, -, -, rfl⟩
  · exact Grow.refl _
  · intro t ht
    have hgrows := grows_intern (isWhole_getD hwhole) (Text.encode name)
    rw [hintern, ht] at hgrows
    exact ⟨table, rfl, hgrows⟩

/-- The name comes back. -/
theorem sectionName_encodeName (hle : lengthSize ≤ (symbols.getD empty).strings.length)
    (hname : checkName name = .ok ()) (h : encodeName symbols name = (.ok rawName, symbols')) :
    sectionName rawName symbols' = .ok name := by
  have hzero := zero_notMem_of_checkName hname
  rw [sectionName_eq_ok]
  rcases encodeName_eq_ok h with ⟨-, rfl, -⟩ | ⟨-, offset, table, hintern, -, rfl, rfl⟩
  · rw [Bytes.beforeNul_padTo hzero, Text.decodeLossy_encode]
    refine Or.inr ⟨?_, rfl⟩
    intro digits hdigits
    apply (checkName_eq_ok.1 hname).2.2
    rw [hdigits, List.head?_cons]
  · have hdigit : ∀ c ∈ Nat.toDigits 10 offset, c.isDigit := fun c hc =>
      Nat.isDigit_of_mem_toDigits (by decide) (by decide) hc
    have hreference : 0 ∉ Text.encode s!"/{offset}" := by
      apply Text.zero_notMem_encode
      rw [toList_reference, List.mem_cons, not_or]
      exact ⟨by decide, fun hmem => absurd (hdigit _ hmem) (by decide)⟩
    have hlookup := lookup?_intern hle hzero (Text.decode?_encode name)
    rw [hintern] at hlookup
    rw [Bytes.beforeNul_padTo hreference, Text.decodeLossy_encode, toList_reference]
    refine Or.inl ⟨_, offset, rfl, ?_, hlookup⟩
    rw [Headers.decimalOffset?_of_isDigit hdigit, Text.decimal?_toDigits]

/-- Writing the name again changes nothing, whatever the string table has taken in since. -/
theorem encodeName_of_grow (hwhole : AllWhole symbols) (hname : checkName name = .ok ())
    (h : encodeName symbols name = (.ok rawName, symbols')) {later : Option SymbolTable}
    (hgrow : Grow symbols' later) : encodeName later name = (.ok rawName, later) := by
  have hzero := zero_notMem_of_checkName hname
  rcases encodeName_eq_ok h with ⟨hle, rfl, -⟩ | ⟨hlt, offset, table, hintern, hle, rfl, rfl⟩
  · rw [encodeName, if_pos hle]
  · obtain ⟨t, ht, hgrows⟩ := hgrow table rfl
    cases ht
    have hgrows : ((symbols.getD empty).intern (Text.encode name)).2.Grows t := by rwa [hintern]
    have hagain := intern_of_grows (isWhole_getD hwhole) hzero hgrows
    rw [hintern] at hagain
    rw [encodeName, if_neg (by omega), Option.getD_some, hagain]
    dsimp only
    rw [if_neg (by omega)]

end Layout

end SecureBoot.Pe
