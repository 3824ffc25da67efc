import Mathlib
import SecureBoot.Proofs.Pe.Layout.Geometry

/-!
# Bounds of reading and writing a layout

The ranges that reading and writing touch are stated by the file itself: by the offset of the PE
mark, the size of the optional header, its magic and its number of directories.

**Reading** (`decode_eq_outOfBounds_iff`). Every piece but the front is looked for only after its
end was compared with that of the file. With a section in the table the front lies inside the file
too. A file without sections may put the table behind its end, and then the front is not all there.

**Writing** fills in seven fields. They lie in front of the section table exactly if the optional
header, by the size that is stated for it, has room for them (`Headers.HoldsFields`). Reading does
not ask for this, since it takes the fields from where they usually are. Where there is room,
filling in leaves the section table and all that follows alone and never runs out of bytes
(`staysInside_encode`).
-/

namespace SecureBoot.Pe

/-! ## Steps that stay inside -/

/-- Whether a computation never fails because a step would have left the bytes. -/
def StaysInside {α : Type} (e : Except Error α) : Prop :=
  ∀ start size available, e ≠ .error (.outOfBounds start size available)

section StaysInside

variable {α β : Type} {e : Except Error α} {f : α → Except Error β}

theorem staysInside_ok (a : α) : StaysInside (.ok a : Except Error α) := by
  intro start size available h
  cases h

/-- Whether an error says that a step would have left the bytes. -/
def isOutOfBounds : Error → Bool
  | .outOfBounds _ _ _ => true
  | _ => false

theorem staysInside_error {error : Error} (herror : isOutOfBounds error = false) :
    StaysInside (.error error : Except Error α) := by
  intro start size available h
  cases h
  cases herror

/-- If the first step stays inside, it is the rest that leaves. -/
theorem StaysInside.bind_eq_error (he : StaysInside e) {start size available : Nat} :
    (e >>= f) = .error (.outOfBounds start size available) ↔
      ∃ a, e = .ok a ∧ f a = .error (.outOfBounds start size available) := by
  cases e with
  | error error =>
    have hne : error ≠ .outOfBounds start size available :=
      fun h => he _ _ _ (congrArg Except.error h)
    exact ⟨fun h => absurd (Except.error.inj h) hne, fun h => by obtain ⟨_, h, -⟩ := h; cases h⟩
  | ok a => exact ⟨fun h => ⟨a, rfl, h⟩, fun h => by obtain ⟨_, h, hf⟩ := h; cases h; exact hf⟩

theorem StaysInside.bind (he : StaysInside e) (hf : ∀ a, e = .ok a → StaysInside (f a)) :
    StaysInside (e >>= f) := by
  intro start size available h
  obtain ⟨a, ha, hleaves⟩ := he.bind_eq_error.1 h
  exact hf a ha start size available hleaves

theorem StaysInside.check {p : Prop} [Decidable p] {error : Error} {rest : Except Error α}
    (herror : StaysInside (.error error : Except Error α)) (hrest : StaysInside rest) :
    StaysInside (if p then throw error else rest) := by
  split
  · exact herror
  · exact hrest

theorem StaysInside.when {p : Prop} [Decidable p] {e : Except Error Unit}
    {jump : Unit → Except Error β} (he : StaysInside e) (hjump : StaysInside (jump ())) :
    StaysInside (if p then (e >>= jump) else jump ()) := by
  split
  · exact he.bind fun _ _ => hjump
  · exact hjump

theorem StaysInside.mapM {g : α → Except Error β} (hg : ∀ a, StaysInside (g a)) (xs : List α) :
    StaysInside (xs.mapM g) := by
  induction xs with
  | nil =>
    rw [List.mapM_nil]
    exact staysInside_ok []
  | cons x rest ih =>
    rw [List.mapM_cons]
    exact (hg x).bind fun _ _ => ih.bind fun _ _ => staysInside_ok _

end StaysInside

namespace Layout

variable {x y : Bytes} {h : Headers} {certificates : Option DataDirectory} {l : Layout}

/-! ## Reading -/

theorem staysInside_decodeHeaders (x : Bytes) : StaysInside (Headers.decode x) := by
  rw [Headers.decode]
  split
  · exact staysInside_error rfl
  · exact staysInside_error rfl
  · exact staysInside_ok _

theorem staysInside_certificateRange (x : Bytes) (h : Headers) :
    StaysInside (certificateRange x h) := by
  rw [certificateRange]
  split
  · exact staysInside_ok _
  · split
    · exact staysInside_ok _
    · exact .check (staysInside_error rfl) (staysInside_ok _)

theorem staysInside_decodeSymbols (x : Bytes) (pointer count : Nat) :
    StaysInside (SymbolTable.decode x pointer count) := by
  rw [SymbolTable.decode]
  split
  · exact staysInside_ok _
  · exact .check (staysInside_error rfl) (.check (staysInside_error rfl) (staysInside_ok _))

theorem staysInside_sectionName (rawName : Bytes) (symbols : Option SymbolTable) :
    StaysInside (sectionName rawName symbols) := by
  rw [sectionName]
  split
  · split
    · exact staysInside_error rfl
    · split
      · exact staysInside_error rfl
      · exact staysInside_ok _
  · exact staysInside_ok _

theorem staysInside_readSection (x : Bytes) (symbols : Option SymbolTable)
    (header : SectionHeader) : StaysInside (readSection x symbols header) := by
  rw [readSection]
  refine (staysInside_sectionName _ _).bind fun name _ => ?_
  split
  · exact staysInside_ok _
  · exact .check (staysInside_error rfl) (staysInside_ok _)

/-- Reading leaves the file only for the front of a file without sections. -/
theorem decode_eq_outOfBounds_iff {start size available : Nat} :
    decode x = .error (.outOfBounds start size available) ↔
      ∃ h certificates symbols, Headers.decode x = .ok h ∧
        certificateRange x h = .ok certificates ∧
        SymbolTable.decode x h.pointerToSymbolTable h.numberOfSymbols = .ok symbols ∧
        h.numberOfSections = 0 ∧ x.length < h.tableOffset ∧
        start = 0 ∧ size = h.tableOffset ∧ available = x.length := by
  rw [decode, (staysInside_decodeHeaders x).bind_eq_error]
  constructor
  · intro hx
    obtain ⟨h, hh, hx⟩ := hx
    obtain ⟨certificates, hcertificates, hx⟩ :=
      (staysInside_certificateRange x h).bind_eq_error.1 hx
    obtain ⟨symbols, hsymbols, hx⟩ := (staysInside_decodeSymbols x _ _).bind_eq_error.1 hx
    obtain ⟨sections, -, hx⟩ :=
      (StaysInside.mapM (staysInside_readSection x symbols) _).bind_eq_error.1 hx
    by_cases hlt : x.length < h.tableOffset
    · rw [if_pos hlt] at hx
      cases hx
      refine ⟨h, certificates, symbols, hh, hcertificates, hsymbols, ?_, hlt, rfl, rfl, rfl⟩
      have htable := (Headers.decode_eq_ok_iff.1 hh).table_le
      exact htable.resolve_right fun hle => Nat.not_lt.2 ((Nat.le_add_right _ _).trans hle) hlt
    · rw [if_neg hlt] at hx
      cases hx
  · intro hx
    obtain ⟨h, certificates, symbols, hh, hcertificates, hsymbols, hnone, hlt, rfl, rfl, rfl⟩ := hx
    have hsections : h.sections = [] := by
      rw [← (Headers.decode_eq_ok_iff.1 hh).sections, hnone]
      rfl
    refine ⟨h, hh, ?_⟩
    refine (staysInside_certificateRange x h).bind_eq_error.2 ⟨certificates, hcertificates, ?_⟩
    refine (staysInside_decodeSymbols x _ _).bind_eq_error.2 ⟨symbols, hsymbols, ?_⟩
    rw [hsections]
    exact if_pos hlt

/-- Every range that a layout was read from lies inside the file. -/
structure IsWithinFile (x : Bytes) (h : Headers) (certificates : Option DataDirectory)
    (l : Layout) : Prop where
  front_le : h.tableOffset ≤ x.length
  tableStop_le : h.tableStop ≤ x.length
  certificates_le : ∀ d ∈ certificates, d.stop ≤ x.length
  symbols_le : h.pointerToSymbolTable ≠ 0 →
    h.stringsOffset + max (x.u32 h.stringsOffset).toNat SymbolTable.lengthSize ≤ x.length
  sections_le : ∀ s ∈ l.sections, s.header.sizeOfRawData ≠ 0 → s.header.rawStop ≤ x.length
  tailStart_le : tailStart x h l.sections l.symbols ≤ x.length

theorem stop_le_of_certificateRange (hc : certificateRange x h = .ok certificates) :
    ∀ d ∈ certificates, d.stop ≤ x.length := by
  intro d hd
  rw [certificateRange] at hc
  split at hc
  · cases hc
    cases hd
  · split at hc
    · cases hc
      cases hd
    · obtain ⟨hle, hc⟩ := check_eq_ok.1 hc
      cases hc
      cases hd
      exact Nat.not_lt.1 hle

/-- The symbols, and behind them a string table of the length that it states, but at least as long
as the length field. -/
theorem le_length_of_decodeSymbols
    (hs : SymbolTable.decode x h.pointerToSymbolTable h.numberOfSymbols = .ok l.symbols)
    (hpointer : h.pointerToSymbolTable ≠ 0) :
    h.stringsOffset + max (x.u32 h.stringsOffset).toNat SymbolTable.lengthSize ≤ x.length := by
  rcases SymbolTable.decode_eq_ok_iff.1 hs with ⟨hzero, -⟩ |
    ⟨-, strings, length, rfl, -, rfl, hle, -⟩
  · exact absurd hzero hpointer
  · exact hle

theorem Reads.isWithinFile (hr : Reads x h certificates l) : l.IsWithinFile x h certificates := by
  have hsections : ∀ s ∈ l.sections, s.header.sizeOfRawData ≠ 0 → s.header.rawStop ≤ x.length := by
    intro s hs hne
    have hstands := (hr.section_stands s hs).2
    rw [Section.StandsIn, if_neg hne] at hstands
    exact hstands.1
  refine ⟨hr.front_le, ?_, stop_le_of_certificateRange hr.certificateTable,
    le_length_of_decodeSymbols hr.symbols, hsections, ?_⟩
  · rcases hr.headers.table_le with hnone | hle
    · rw [Headers.tableStop, hnone, Nat.zero_mul]
      exact hr.front_le
    · exact hle
  · rw [tailStart, foldl_max_le_iff]
    refine ⟨Nat.min_le_right _ _, fun n hn => ?_⟩
    rcases List.mem_append.1 hn with hn | hn
    · obtain ⟨s, hs, rfl⟩ := List.mem_map.1 hn
      obtain ⟨hs, hne⟩ := List.mem_filter.1 hs
      exact hsections s hs (of_decide_eq_true hne)
    · obtain ⟨t, ht, rfl⟩ := Option.map_eq_some_iff.1 (Option.mem_toList.1 hn)
      exact hr.symbolsStop_le t ht

/-! ## Writing -/

theorem staysInside_checkOffset (name : String) (offset : Nat) :
    StaysInside (checkOffset name offset) := .check (staysInside_error rfl) (staysInside_ok _)

theorem staysInside_checkHeaders (l : Layout) : StaysInside l.checkHeaders := by
  rw [checkHeaders]
  split
  · exact staysInside_ok _
  · exact .check (staysInside_error rfl) (staysInside_ok _)

theorem staysInside_place (fileAlignment offset : Nat) (sections : List Section) :
    StaysInside (place fileAlignment offset sections) := by
  induction sections generalizing offset with
  | nil => exact staysInside_ok _
  | cons s rest ih =>
    rw [place]
    split
    · exact (ih _).bind fun _ _ => staysInside_ok _
    · exact (staysInside_checkOffset _ _).bind fun _ _ => (ih _).bind fun _ _ => staysInside_ok _

theorem staysInside_encode (hfit : FieldsFit l.fields l.whole.length) : StaysInside l.encode := by
  rw [encode]
  refine l.staysInside_checkHeaders.bind fun _ _ => ?_
  refine (staysInside_place _ _ _).bind fun placement hplace => ?_
  obtain ⟨headers, bytes⟩ := placement
  have hwhole := padTo_append_eq_whole hplace
  obtain ⟨-, hbytes⟩ := place_eq_ok hplace
  refine .when (staysInside_checkOffset _ _) ?_
  refine (staysInside_checkOffset _ _).bind fun _ _ => .check (staysInside_error rfl) ?_
  change StaysInside (List.foldlM _
    (Bytes.padTo _ l.headersStop ++ (bytes ++ (l.symbolBytes ++ l.overlay)))
    (l.patches (if l.symbols.isSome then l.headersStop + bytes.length else 0) _ _ _))
  rw [hwhole, hbytes]
  change StaysInside (l.fields.foldlM (fun out field => patch out field.1 field.2) l.whole)
  rw [foldlM_patch_eq_ok.2 ⟨hfit, rfl⟩]
  exact staysInside_ok _

/-- Fields that lie in the front leave what follows it alone. -/
theorem behindFront_of_encode (hfit : FieldsFit l.fields l.front.length) (hy : l.encode = .ok y) :
    y.length = l.whole.length ∧ y.drop l.front.length = l.behindFront := by
  obtain ⟨-, rfl⟩ := encode_eq_ok_iff.1 hy
  have hlength := length_patchAll hfit
  rw [written, whole, patchAll_append hfit, List.length_append, List.length_append, hlength]
  exact ⟨rfl, List.drop_left' hlength⟩

/-! ## Reading, then writing -/

/-- Reading leaves the file only for the front of a file without sections. What it gives was read
from inside the file. On writing, after any edits, the fields lie in front of the section table if
and only if the optional header has room for them; then writing does not run out of bytes, and
leaves the section table and all that follows as the pieces have it. -/
theorem bounds_of_decode (x : Bytes) :
    (∀ start size available, decode x = .error (.outOfBounds start size available) ↔
      ∃ h certificates symbols, Headers.decode x = .ok h ∧
        certificateRange x h = .ok certificates ∧
        SymbolTable.decode x h.pointerToSymbolTable h.numberOfSymbols = .ok symbols ∧
        h.numberOfSections = 0 ∧ x.length < h.tableOffset ∧
        start = 0 ∧ size = h.tableOffset ∧ available = x.length) ∧
    ∀ l, decode x = .ok l → ∃ h certificates, Headers.decode x = .ok h ∧
      certificateRange x h = .ok certificates ∧ l.IsWithinFile x h certificates ∧
      ∀ edits, (FieldsFit (l.run edits).fields h.tableOffset ↔ h.HoldsFields) ∧
        (h.HoldsFields →
          (∀ start size available,
            (l.run edits).encode ≠ .error (.outOfBounds start size available)) ∧
          ∀ y, (l.run edits).encode = .ok y → y.length = (l.run edits).whole.length ∧
            y.drop h.tableOffset = (l.run edits).behindFront) := by
  refine ⟨fun start size available => decode_eq_outOfBounds_iff, fun l hl => ?_⟩
  obtain ⟨h, certificates, hr⟩ := decode_eq_ok_iff.1 hl
  refine ⟨h, certificates, Headers.decode_eq_ok_iff.2 hr.headers, hr.certificateTable,
    hr.isWithinFile, fun edits => ?_⟩
  -- A run of edits keeps the front, and with it the places of the fields.
  obtain ⟨symbols, sections, hrun⟩ := l.run_eq edits
  have hfront : (l.run edits).front.length = h.tableOffset := by
    rw [hrun]
    exact (congrArg List.length hr.front).trans (List.length_take_of_le hr.front_le)
  have hiff : FieldsFit (l.run edits).fields h.tableOffset ↔ h.HoldsFields := by
    apply fieldsFit_iff
    · rw [hrun]
      exact hr.coffOffset
    · rw [hrun]
      exact hr.certificateDirectoryOffset
  refine ⟨hiff, fun hholds => ?_⟩
  have hfit := hiff.2 hholds
  rw [← hfront] at hfit ⊢
  refine ⟨staysInside_encode fun field hfield => (hfit field hfield).trans ?_,
    fun y hy => behindFront_of_encode hfit hy⟩
  rw [whole, List.length_append]
  exact Nat.le_add_right _ _

/-- The small executable has room for all fields; a section that is added stands in the file as it
was placed. -/
theorem bounds_of_decode_smallExecutable :
    ∃ h l y, Headers.decode smallExecutable = .ok h ∧ decode smallExecutable = .ok l ∧
      h.HoldsFields ∧ (l.run [.add ⟨".new", 0x2000, none, [1]⟩]).encode = .ok y ∧
      y.drop h.tableOffset = (l.run [.add ⟨".new", 0x2000, none, [1]⟩]).behindFront := by
  obtain ⟨h, hh, hroom⟩ := exists_eq_ok_of_any (e := Headers.decode smallExecutable)
    (p := fun h => decide (h.sizeOfOptionalHeader = 96 ∧ h.numberOfDirectories = 0))
    (by decide +kernel)
  obtain ⟨hsize, hnumber⟩ := of_decide_eq_true hroom
  have hholds : h.HoldsFields :=
    ⟨by rw [hsize]; decide, fun hlt => absurd hlt (by rw [hnumber]; decide)⟩
  obtain ⟨l, hl, hrun⟩ := exists_eq_ok_of_any (e := decode smallExecutable)
    (p := fun l => (l.run [.add ⟨".new", 0x2000, none, [1]⟩]).encode.toOption.any fun _ => true)
    (by decide +kernel)
  obtain ⟨y, hy, -⟩ := exists_eq_ok_of_any hrun
  obtain ⟨h', -, hh', -, -, hwrites⟩ := (bounds_of_decode smallExecutable).2 l hl
  rw [hh] at hh'
  cases hh'
  exact ⟨h, l, y, hh, hl, hholds, hy, (((hwrites _).2 hholds).2 y hy).2⟩

/-- An executable whose optional header ends in front of the directory entry for the certificate
table, which so is the name of its section. -/
def narrowExecutable : Bytes :=
  [[0x4d, 0x5a], Bytes.zeros 58, Bytes.ofNatLE 4 64, [0x50, 0x45, 0, 0],
    Bytes.ofNatLE 2 0x8664, Bytes.ofNatLE 2 1, Bytes.zeros 12, Bytes.ofNatLE 2 128, Bytes.zeros 2,
    Bytes.ofNatLE 2 0x10b, Bytes.zeros 30, Bytes.ofNatLE 4 0x1000, Bytes.ofNatLE 4 4,
    Bytes.zeros 20, Bytes.ofNatLE 4 256, Bytes.zeros 28, Bytes.ofNatLE 4 5, Bytes.zeros 32,
    SectionHeader.encode {
      rawName := Bytes.padTo (Text.encode "a") SectionHeader.nameSize
      virtualSize := 3
      virtualAddress := 0x1000
      sizeOfRawData := 3
      pointerToRawData := 256 },
    [1, 2, 3]].flatten

/-- Headers without sections, whose section table is said to begin behind the file. -/
def bareHeaders : Bytes :=
  [[0x4d, 0x5a], Bytes.zeros 58, Bytes.ofNatLE 4 64, [0x50, 0x45, 0, 0],
    Bytes.ofNatLE 2 0x8664, Bytes.zeros 14, Bytes.ofNatLE 2 97, Bytes.zeros 2,
    Bytes.ofNatLE 2 0x10b, Bytes.zeros 94].flatten

/-- Writing clears the name of the section, and reading runs out of bytes for the front. -/
theorem outside_narrowExecutable_bareHeaders :
    (∃ h l y, Headers.decode narrowExecutable = .ok h ∧ decode narrowExecutable = .ok l ∧
      l.sections.map (·.name) = ["a"] ∧ l.encode = .ok y ∧
      (h.sectionAt y 0).rawName = Bytes.zeros SectionHeader.nameSize) ∧
    decode bareHeaders = .error (.outOfBounds 0 185 184) := by
  refine ⟨?_, by decide +kernel⟩
  obtain ⟨h, hh, htable⟩ := exists_eq_ok_of_any (e := Headers.decode narrowExecutable)
    (p := fun h => decide (h.tableOffset = 216)) (by decide +kernel)
  obtain ⟨l, hl, hpieces⟩ := exists_eq_ok_of_any (e := decode narrowExecutable)
    (p := fun l => decide (l.sections.map (·.name) = ["a"]) &&
      l.encode.toOption.any fun y => decide ((SectionHeader.decode y 216).rawName =
        Bytes.zeros SectionHeader.nameSize)) (by decide +kernel)
  rw [Bool.and_eq_true] at hpieces
  obtain ⟨y, hy, hname⟩ := exists_eq_ok_of_any hpieces.2
  refine ⟨h, l, y, hh, hl, of_decide_eq_true hpieces.1, hy, ?_⟩
  have hsection : h.sectionAt y 0 = SectionHeader.decode y 216 := by
    rw [Headers.sectionAt, of_decide_eq_true htable, Nat.zero_mul]
  rw [hsection]
  exact of_decide_eq_true hname

end Layout

end SecureBoot.Pe
