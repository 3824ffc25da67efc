import Mathlib
import SecureBoot.Pe.SymbolTable
import SecureBoot.Proofs.Bytes
import SecureBoot.Proofs.Outcome
import SecureBoot.Proofs.Text

/-!
# Laws of the string table

**Texts stay.** A string table that ends in a zero byte can grow without any text in it changing
(`lookup?_of_grows`), and without any search coming out differently (`find?_append`).

**Interned names are found again.** The offset that `intern` gives leads to the name
(`lookup?_intern`), and interning the name again in whatever the table has grown to gives the same
offset and adds nothing (`intern_of_grows`).
-/

namespace SecureBoot.Pe.SymbolTable

/-! ## Growing tables -/

/-- The texts, without the length in front of them. -/
def texts (t : SymbolTable) : Bytes := t.strings.drop lengthSize

/-- Whether the table ends with a zero byte. -/
def EndsInNul (t : SymbolTable) : Prop := t.strings.getLast? = some 0

/-- A table as files have it: whole symbols, room for the length, and every text at its end. -/
structure IsWhole (t : SymbolTable) : Prop where
  symbols_dvd : Headers.symbolSize ∣ t.symbols.length
  lengthSize_le : lengthSize ≤ t.strings.length
  endsInNul : t.EndsInNul

/-- Whether one table has grown into another. -/
def Grows (t t' : SymbolTable) : Prop := t'.symbols = t.symbols ∧ t.texts <+: t'.texts

theorem Grows.refl (t : SymbolTable) : t.Grows t := ⟨rfl, List.prefix_refl _⟩

theorem Grows.trans {t u v : SymbolTable} (h : t.Grows u) (h' : u.Grows v) : t.Grows v :=
  ⟨h'.1.trans h.1, h.2.trans h'.2⟩

theorem isWhole_empty : empty.IsWhole where
  symbols_dvd := Nat.dvd_zero _
  lengthSize_le := le_rfl
  endsInNul := rfl

theorem length_strings {t : SymbolTable} (hle : lengthSize ≤ t.strings.length) :
    t.strings.length = lengthSize + t.texts.length := by
  rw [texts, List.length_drop]
  omega

/-- The texts are empty or end in a zero byte. -/
theorem IsWhole.texts_eq {t : SymbolTable} (ht : t.IsWhole) :
    t.texts.getLast? = some 0 ∨ t.texts = [] := by
  by_cases h : t.strings.length ≤ lengthSize
  · right
    exact List.drop_eq_nil_of_le h
  · left
    rw [texts, List.getLast?_drop, if_neg h]
    exact ht.endsInNul

theorem drop_strings {t : SymbolTable} {offset : Nat} (h : lengthSize ≤ offset) :
    t.strings.drop offset = t.texts.drop (offset - lengthSize) := by
  rw [texts, List.drop_drop, Nat.add_sub_of_le h]

/-! ## Looking up -/

theorem lookup?_eq_some {t : SymbolTable} {offset : Nat} {s : String} :
    t.lookup? offset = some s ↔
      (lengthSize ≤ offset ∧ offset < t.strings.length) ∧
        Text.decode? (Bytes.beforeNul (t.texts.drop (offset - lengthSize))) = some s := by
  rw [lookup?]
  split
  · exact ⟨nofun, fun h => absurd h.1 (by omega)⟩
  · rw [drop_strings (by omega)]
    exact ⟨fun h => ⟨by omega, h⟩, fun h => h.2⟩

/-- Behind every place of a table that ends in a zero byte there is one. -/
theorem zero_mem_drop {x : Bytes} {k : Nat} (hx : x.getLast? = some 0) (hk : k < x.length) :
    0 ∈ x.drop k := by
  apply List.mem_of_getLast?
  rw [List.getLast?_drop, if_neg (by omega), hx]

theorem lookup?_of_grows {t t' : SymbolTable} {offset : Nat} {s : String} (ht : t.IsWhole)
    (ht' : t'.IsWhole) (h : t.Grows t') (hs : t.lookup? offset = some s) :
    t'.lookup? offset = some s := by
  rw [lookup?_eq_some] at hs ⊢
  obtain ⟨⟨hle, hlt⟩, hs⟩ := hs
  obtain ⟨more, hmore⟩ := h.2
  have hlength := congrArg List.length hmore
  rw [List.length_append] at hlength
  have hstrings := length_strings ht.lengthSize_le
  have hstrings' := length_strings ht'.lengthSize_le
  refine ⟨⟨hle, by omega⟩, ?_⟩
  have hends : t.texts.getLast? = some 0 := by
    rcases ht.texts_eq with hends | hnil
    · exact hends
    · rw [hnil, List.length_nil] at hstrings
      omega
  rw [← hmore, List.drop_append_of_le_length (by omega),
    Bytes.beforeNul_append (zero_mem_drop hends (by omega)), hs]

/-! ## Searching -/

/-- A name is looked for as a whole text. -/
theorem beginsWith_iff {name x : Bytes} : beginsWith name x = true ↔ Bytes.beforeNul x = name := by
  rw [beginsWith, beq_iff_eq, Bytes.beforeNul, Bytes.beforeNul, ← List.take_takeWhile]
  constructor
  · intro h
    have hlen := congrArg List.length h
    rw [List.length_take] at hlen
    rwa [List.take_of_length_le (by omega)] at h
  · intro h
    rw [h, List.take_of_length_le (by omega)]

/-- What stands behind the last text is searched only after the texts. -/
theorem find?_append {name x : Bytes} {offset : Nat} {atStart : Bool}
    (hx : x.getLast? = some 0 ∨ x = [] ∧ atStart = true) (y : Bytes) :
    find? name offset atStart (x ++ y) =
      (find? name offset atStart x).or (find? name (offset + x.length) true y) := by
  induction x generalizing offset atStart with
  | nil =>
    rcases hx with hx | ⟨-, rfl⟩
    · cases hx
    · rfl
  | cons byte rest ih =>
    have hends : (byte :: rest).getLast? = some 0 := by
      rcases hx with hx | ⟨hnil, -⟩
      · exact hx
      · cases hnil
    have hbegins : beginsWith name (byte :: rest ++ y) = beginsWith name (byte :: rest) := by
      rw [Bool.eq_iff_iff, beginsWith_iff, beginsWith_iff,
        Bytes.beforeNul_append (List.mem_of_getLast? hends)]
    have hrest : rest.getLast? = some 0 ∨ rest = [] ∧ (byte == 0) = true := by
      cases rest with
      | nil => exact Or.inr ⟨rfl, by simpa using hends⟩
      | cons next rest => exact Or.inl (by rwa [List.getLast?_cons_cons] at hends)
    rw [List.cons_append, find?, find?, ← List.cons_append, hbegins, ih hrest]
    split
    · rfl
    · rw [List.length_cons, Nat.add_right_comm offset 1, Nat.add_assoc offset]

/-- A search finds a whole text. -/
theorem beforeNul_of_find? {name x : Bytes} {offset found : Nat} {atStart : Bool}
    (h : find? name offset atStart x = some found) :
    ∃ k, k < x.length ∧ found = offset + k ∧ Bytes.beforeNul (x.drop k) = name := by
  induction x generalizing offset atStart with
  | nil => cases h
  | cons byte rest ih =>
    rw [find?] at h
    split at h
    · rename_i hbegins
      cases h
      rw [Bool.and_eq_true] at hbegins
      exact ⟨0, Nat.succ_pos _, rfl, beginsWith_iff.1 hbegins.2⟩
    · obtain ⟨k, hk, hfound, htext⟩ := ih h
      exact ⟨k + 1, Nat.succ_lt_succ hk, by omega, htext⟩

theorem find?_zeros {name : Bytes} (hname : name ≠ []) (offset n : Nat) (atStart : Bool) :
    find? name offset atStart (Bytes.zeros n) = none := by
  rw [Option.eq_none_iff_forall_ne_some]
  intro found hfound
  obtain ⟨k, -, -, htext⟩ := beforeNul_of_find? hfound
  apply hname
  rw [← htext, Bytes.zeros, List.drop_replicate]
  cases n - k <;> rfl

/-! ## Interning -/

variable {t : SymbolTable} {name : Bytes}

theorem intern_of_find?_eq_some {offset : Nat}
    (h : find? name lengthSize true t.texts = some offset) : t.intern name = (offset, t) := by
  rw [texts] at h
  rw [intern, h]

theorem intern_of_find?_eq_none (h : find? name lengthSize true t.texts = none) :
    t.intern name = (t.strings.length, { t with strings := t.strings ++ (name ++ [0]) }) := by
  rw [texts] at h
  rw [intern, h]

/-- A table stays as it is, or takes in the name and a zero byte. -/
theorem intern_snd (t : SymbolTable) (name : Bytes) :
    (t.intern name).2 = t ∨
      (t.intern name).2 = { t with strings := t.strings ++ (name ++ [0]) } := by
  cases hfind : find? name lengthSize true t.texts with
  | some offset => exact .inl (by rw [intern_of_find?_eq_some hfind])
  | none => exact .inr (by rw [intern_of_find?_eq_none hfind])

theorem texts_append (hle : lengthSize ≤ t.strings.length) (more : Bytes) :
    texts { t with strings := t.strings ++ more } = t.texts ++ more :=
  List.drop_append_of_le_length hle

theorem grows_intern (ht : t.IsWhole) (name : Bytes) : t.Grows (t.intern name).2 := by
  rcases t.intern_snd name with h | h
  · rw [h]
    exact Grows.refl t
  · rw [h]
    refine ⟨rfl, ?_⟩
    rw [texts_append ht.lengthSize_le]
    exact List.prefix_append _ _

theorem isWhole_intern (ht : t.IsWhole) (name : Bytes) : (t.intern name).2.IsWhole := by
  rcases t.intern_snd name with h | h
  · rw [h]
    exact ht
  · rw [h]
    exact {
      symbols_dvd := ht.symbols_dvd
      lengthSize_le := by
        rw [List.length_append]
        exact ht.lengthSize_le.trans (Nat.le_add_right _ _)
      endsInNul := by rw [EndsInNul, ← List.append_assoc, List.getLast?_concat] }

/-- The offset of an interned name leads to the name. -/
theorem lookup?_intern (hle : lengthSize ≤ t.strings.length) {s : String} (hzero : 0 ∉ name)
    (hs : Text.decode? name = some s) :
    (t.intern name).2.lookup? (t.intern name).1 = some s := by
  have hlength := length_strings hle
  rw [lookup?_eq_some]
  cases hfind : find? name lengthSize true t.texts with
  | some offset =>
    obtain ⟨k, hk, rfl, htext⟩ := beforeNul_of_find? hfind
    rw [intern_of_find?_eq_some hfind]
    refine ⟨⟨Nat.le_add_right _ _, by rw [hlength]; exact Nat.add_lt_add_left hk _⟩, ?_⟩
    rw [Nat.add_sub_cancel_left, htext, hs]
  | none =>
    rw [intern_of_find?_eq_none hfind]
    refine ⟨⟨hle, by simp⟩, ?_⟩
    rw [texts_append hle, hlength, Nat.add_sub_cancel_left, List.drop_left,
      Bytes.beforeNul_of_notMem hzero, hs]

/-- Interning again what a table has grown from gives the same offset and adds nothing. -/
theorem intern_of_grows (ht : t.IsWhole) (hzero : 0 ∉ name) {t' : SymbolTable}
    (h : (t.intern name).2.Grows t') : t'.intern name = ((t.intern name).1, t') := by
  apply intern_of_find?_eq_some
  obtain ⟨more, hmore⟩ := h.2
  have htexts : t.texts.getLast? = some 0 ∨ t.texts = [] ∧ true = true :=
    ht.texts_eq.imp id fun hnil => ⟨hnil, rfl⟩
  rw [← hmore]
  cases hfind : find? name lengthSize true t.texts with
  | some offset =>
    rw [intern_of_find?_eq_some hfind, find?_append htexts, hfind, Option.some_or]
  | none =>
    have hbegins : beginsWith name (name ++ 0 :: more) = true := by
      rw [beginsWith_iff, Bytes.beforeNul_of_notMem hzero]
    have hhere : ∀ offset, find? name offset true (name ++ 0 :: more) = some offset := by
      intro offset
      cases hx : name ++ 0 :: more with
      | nil => simp at hx
      | cons byte rest => rw [find?, ← hx, hbegins, Bool.and_true, if_pos rfl]
    rw [intern_of_find?_eq_none hfind, texts_append ht.lengthSize_le, List.append_assoc,
      List.append_assoc, find?_append htexts, hfind, Option.none_or, List.singleton_append, hhere,
      length_strings ht.lengthSize_le]

/-! ## Writing and reading -/

/-- The table as it is read back: its length is what it says in front. -/
def counted (t : SymbolTable) : SymbolTable :=
  { t with strings := Bytes.ofNatLE lengthSize t.strings.length ++ t.texts }

theorem texts_counted (t : SymbolTable) : t.counted.texts = t.texts :=
  List.drop_left' (Bytes.length_ofNatLE _ _)

theorem length_strings_counted (ht : t.IsWhole) :
    t.counted.strings.length = t.strings.length := by
  rw [counted, List.length_append, Bytes.length_ofNatLE, length_strings ht.lengthSize_le]

theorem isWhole_counted (ht : t.IsWhole) : t.counted.IsWhole where
  symbols_dvd := ht.symbols_dvd
  lengthSize_le := by
    rw [length_strings_counted ht]
    exact ht.lengthSize_le
  endsInNul := by
    rw [EndsInNul, counted]
    rcases ht.texts_eq with hends | hnil
    · rw [List.getLast?_append, hends, Option.some_or]
    · rw [hnil, List.append_nil, length_strings ht.lengthSize_le, hnil]
      rfl

theorem grows_counted (t : SymbolTable) : t.Grows t.counted :=
  ⟨rfl, by rw [texts_counted]⟩

theorem length_encode (ht : t.IsWhole) :
    t.encode.length = t.symbols.length + t.strings.length := by
  rw [encode, List.length_append, List.length_append, Bytes.length_ofNatLE,
    length_strings ht.lengthSize_le, texts, Nat.add_assoc]

theorem encode_eq (t : SymbolTable) : t.encode = t.symbols ++ t.counted.strings :=
  List.append_assoc _ _ _

/-- Reading succeeds where there is no table, or where all of it lies inside the file. -/
theorem decode_eq_ok_iff {x : Bytes} {pointer count : Nat} {r : Option SymbolTable} :
    decode x pointer count = .ok r ↔
      (pointer = 0 ∧ r = none) ∨
      (pointer ≠ 0 ∧ ∃ strings length, strings = pointer + count * Headers.symbolSize ∧
        strings + lengthSize ≤ x.length ∧ length = max (x.u32 strings).toNat lengthSize ∧
        strings + length ≤ x.length ∧
        r = some ⟨x.slice pointer strings, x.slice strings (strings + length)⟩) := by
  rw [decode]
  split
  · rename_i hzero
    rw [pure_eq_ok]
    exact ⟨fun h => Or.inl ⟨hzero, h.symm⟩, fun h => h.elim (·.2.symm) (absurd hzero ·.1)⟩
  · rename_i hpointer
    dsimp only
    rw [check_bind_eq_ok, check_bind_eq_ok, pure_eq_ok]
    constructor
    · intro h
      obtain ⟨hroom, hstop, rfl⟩ := h
      exact Or.inr ⟨hpointer, _, _, rfl, by omega, rfl, by omega, rfl⟩
    · intro h
      rcases h with ⟨hzero, -⟩ | ⟨-, strings, length, rfl, hroom, rfl, hstop, rfl⟩
      · exact absurd hzero hpointer
      · exact ⟨by omega, by omega, rfl⟩

theorem stop_le_of_decode {x : Bytes} {pointer count : Nat} {t : SymbolTable}
    (h : decode x pointer count = .ok (some t)) :
    pointer + t.symbols.length + t.strings.length ≤ x.length := by
  rcases decode_eq_ok_iff.1 h with ⟨-, hnone⟩ | ⟨-, strings, length, rfl, hroom, rfl, hstop, ht⟩
  · cases hnone
  · cases ht
    rw [Bytes.length_slice (by omega), Bytes.length_slice hstop]
    omega

/-- Symbols and strings that were written are read back. -/
theorem decode_of_slice {x : Bytes} {pointer : Nat} (ht : t.IsWhole)
    (hlength : t.strings.length ≤ maxWord) (hpointer : pointer ≠ 0)
    (hx : x.slice pointer (pointer + t.encode.length) = t.encode) :
    decode x pointer t.numberOfSymbols = .ok (some t.counted) := by
  have hcount : t.numberOfSymbols * Headers.symbolSize = t.symbols.length :=
    Nat.div_mul_cancel ht.symbols_dvd
  have hmin : 4 ≤ t.strings.length := ht.lengthSize_le
  have hwhole := length_encode ht
  have hstop := Bytes.le_length_of_slice hx (Nat.add_sub_cancel_left _ _).symm (by omega)
  rw [hwhole] at hstop hx
  have hjoin := Bytes.slice_append_slice (x := x)
    (show pointer ≤ pointer + t.symbols.length by omega)
    (show _ ≤ pointer + (t.symbols.length + t.strings.length) by omega)
  rw [hx, encode_eq, ← Nat.add_assoc] at hjoin
  obtain ⟨hsymbols, hstrings⟩ :=
    List.append_inj hjoin (by rw [Bytes.length_slice (by omega)]; omega)
  have hword : (x.u32 (pointer + t.symbols.length)).toNat = t.strings.length := by
    apply Bytes.u32_of_slice _ hlength
    have hfour := Bytes.slice_slice (x := x) (a := 0)
      (show pointer + t.symbols.length + 4 ≤ pointer + t.symbols.length + t.strings.length by omega)
    rw [hstrings, Bytes.slice_zero, Nat.add_zero] at hfour
    rw [← hfour]
    exact List.take_left' (Bytes.length_ofNatLE _ _)
  rw [decode_eq_ok_iff, hcount]
  refine Or.inr ⟨hpointer, _, t.strings.length, rfl, ?_, ?_, by omega, ?_⟩
  · change _ + 4 ≤ _
    omega
  · rw [hword, Nat.max_eq_left ht.lengthSize_le]
  · rw [hsymbols, hstrings]
    rfl

end SecureBoot.Pe.SymbolTable
