import Mathlib
import SecureBoot.Text.Hex
import SecureBoot.Text.Utf8

/-!
# Laws of text

Text in UTF-8 reads back, strictly (`decode?_encode`) and with replacement (`decodeLossy_encode`),
and a number in decimal digits reads back (`decimal?_toDigits`). Section names are stored in one of
these two ways. A number in hexadecimal digits, padded to a width, is written in as many places, and
reads back (`hexNumber?_append_hexPlaces`).
-/

namespace SecureBoot.Text

/-! ## Bytes of one character -/

-- Makes the equations once; otherwise all proofs that follow wait for them side by side.
attribute [local simp] utf8Pieces

theorem toNat_ofNat_of_lt {n : Nat} (h : n < 256) : (UInt8.ofNat n).toNat = n := by
  rw [UInt8.toNat_ofNat']
  exact Nat.mod_eq_of_lt h

theorem utf8Lead_one {n : Nat} (h : n < 0x80) :
    utf8Lead (UInt8.ofNat n) = .complete (Char.ofNat n) := by
  rw [utf8Lead, toNat_ofNat_of_lt (by omega)]
  exact if_pos h

theorem utf8Lead_two {k : Nat} (h : 2 ≤ k) (h' : k < 0x20) :
    utf8Lead (UInt8.ofNat (k + 0xc0)) = .pending ⟨1, k, 0x80, 0xbf⟩ := by
  rw [utf8Lead, toNat_ofNat_of_lt (by omega), if_neg (by omega), if_neg (by omega),
    if_pos (by omega), Nat.add_sub_cancel]

theorem utf8Lead_three {k : Nat} (h : k < 0x10) :
    utf8Lead (UInt8.ofNat (k + 0xe0)) =
      .pending ⟨2, k, if k = 0 then 0xa0 else 0x80, if k = 0xd then 0x9f else 0xbf⟩ := by
  interval_cases k <;> rfl

theorem utf8Lead_four {k : Nat} (h : k ≤ 4) :
    utf8Lead (UInt8.ofNat (k + 0xf0)) =
      .pending ⟨3, k, if k = 0 then 0x90 else 0x80, if k = 4 then 0x8f else 0xbf⟩ := by
  interval_cases k <;> rfl

theorem utf8Pieces_pending {byte : UInt8} {p : Utf8Pending} (h : utf8Lead byte = .pending p)
    (rest : Bytes) : utf8Pieces none (byte :: rest) = utf8Pieces (some p) rest := by
  simp [h]

/-- A byte in the middle of a character. -/
theorem utf8Pieces_more {p : Utf8Pending} {k : Nat} (hp : 1 < p.missing) (hk : k < 64)
    (h : p.least ≤ k + 0x80) (h' : k + 0x80 ≤ p.greatest) (rest : Bytes) :
    utf8Pieces (some p) (UInt8.ofNat (k + 0x80) :: rest) =
      utf8Pieces (some ⟨p.missing - 1, 64 * p.value + k, 0x80, 0xbf⟩) rest := by
  rw [utf8Pieces, toNat_ofNat_of_lt (by omega), if_pos ⟨h, h'⟩]
  dsimp only
  rw [if_neg (by omega), Nat.add_sub_cancel]

theorem utf8Pieces_last {p : Utf8Pending} {k : Nat} (hp : p.missing ≤ 1) (hk : k < 64)
    (h : p.least ≤ k + 0x80) (h' : k + 0x80 ≤ p.greatest) (rest : Bytes) :
    utf8Pieces (some p) (UInt8.ofNat (k + 0x80) :: rest) =
      some (Char.ofNat (64 * p.value + k)) :: utf8Pieces none rest := by
  rw [utf8Pieces, toNat_ofNat_of_lt (by omega), if_pos ⟨h, h'⟩]
  dsimp only
  rw [if_pos hp, Nat.add_sub_cancel]

theorem utf8Pieces_encodeChar (c : Char) (rest : Bytes) :
    utf8Pieces none (String.utf8EncodeChar c ++ rest) = some c :: utf8Pieces none rest := by
  have hc : Char.ofNat c.val.toNat = c := Char.ofNat_toNat c
  have hvalid : c.val.toNat < 0xd800 ∨ 0xdfff < c.val.toNat ∧ c.val.toNat < 0x110000 := c.valid
  simp only [String.utf8EncodeChar]
  generalize c.val.toNat = v at hc hvalid
  -- One case for each number of bytes.
  by_cases h₁ : v ≤ 0x7f
  · rw [if_pos h₁, List.singleton_append, utf8Pieces, utf8Lead_one (by omega), hc]
  by_cases h₂ : v ≤ 0x7ff
  · rw [if_neg h₁, if_pos h₂, Nat.mod_eq_of_lt (show v / 64 < 0x20 by omega)]
    simp only [List.cons_append, List.nil_append]
    rw [utf8Pieces_pending (utf8Lead_two (by omega) (by omega)),
      utf8Pieces_last (by simp) (by omega) (by simp) (by dsimp only; omega)]
    dsimp only
    rw [show 64 * (v / 64) + v % 64 = v by omega, hc]
  by_cases h₃ : v ≤ 0xffff
  · rw [if_neg h₁, if_neg h₂, if_pos h₃, Nat.mod_eq_of_lt (show v / 4096 < 0x10 by omega)]
    simp only [List.cons_append, List.nil_append]
    rw [utf8Pieces_pending (utf8Lead_three (by omega)),
      utf8Pieces_more (by simp) (by omega) (by dsimp only; split <;> omega)
        (by dsimp only; split <;> omega),
      utf8Pieces_last (by simp) (by omega) (by simp) (by dsimp only; omega)]
    dsimp only
    rw [show 64 * (64 * (v / 4096) + v / 64 % 64) + v % 64 = v by omega, hc]
  · rw [if_neg h₁, if_neg h₂, if_neg h₃, Nat.mod_eq_of_lt (show v / 262144 < 0x08 by omega)]
    simp only [List.cons_append, List.nil_append]
    rw [utf8Pieces_pending (utf8Lead_four (by omega)),
      utf8Pieces_more (by simp) (by omega) (by dsimp only; split <;> omega)
        (by dsimp only; split <;> omega),
      utf8Pieces_more (by simp) (by omega) (by simp) (by dsimp only; omega),
      utf8Pieces_last (by simp) (by omega) (by simp) (by dsimp only; omega)]
    dsimp only
    rw [show 64 * (64 * (64 * (v / 262144) + v / 4096 % 64) + v / 64 % 64) + v % 64 = v by omega,
      hc]

/-! ## Texts -/

/-- Behind bytes of whole characters reading begins anew. -/
theorem utf8Pieces_append {p : Option Utf8Pending} {x : Bytes} (h : none ∉ utf8Pieces p x)
    (y : Bytes) : utf8Pieces p (x ++ y) = utf8Pieces p x ++ utf8Pieces none y := by
  induction x generalizing p with
  | nil =>
    cases p with
    | none => rfl
    | some p => exact absurd List.mem_cons_self h
  | cons byte rest ih =>
    cases p with
    | none =>
      rw [utf8Pieces] at h
      rw [List.cons_append, utf8Pieces, utf8Pieces]
      split at h
      · rw [ih fun hmem => h (List.mem_cons_of_mem _ hmem), List.cons_append]
      · exact ih h
      · exact absurd List.mem_cons_self h
    | some p =>
      rw [utf8Pieces] at h
      rw [List.cons_append, utf8Pieces, utf8Pieces]
      split at h
      · rename_i hrange
        rw [if_pos hrange, if_pos hrange]
        dsimp only at h ⊢
        split at h
        · rename_i hlast
          rw [if_pos hlast, if_pos hlast, ih fun hmem => h (List.mem_cons_of_mem _ hmem),
            List.cons_append]
        · rename_i hmore
          rw [if_neg hmore, if_neg hmore, ih h]
      · exact absurd List.mem_cons_self h

theorem utf8Pieces_encode (s : String) : utf8Pieces none (encode s) = s.toList.map some := by
  unfold encode
  induction s.toList with
  | nil => rfl
  | cons c rest ih => rw [List.flatMap_cons, utf8Pieces_encodeChar, ih, List.map_cons]

theorem decode?_encode (s : String) : decode? (encode s) = some s := by
  have hsome : (s.toList.map some).mapM id = some s.toList := by
    induction s.toList with
    | nil => rfl
    | cons c rest ih => simp [List.mapM_cons, ih]
  rw [decode?, utf8Pieces_encode, hsome, Option.map_some, String.ofList_toList]

/-- A text is read off pieces that are all characters. -/
theorem utf8Pieces_of_decode? {x : Bytes} {s : String} (h : decode? x = some s) :
    utf8Pieces none x = s.toList.map some := by
  obtain ⟨cs, hcs, rfl⟩ := Option.map_eq_some_iff.1 h
  rw [String.toList_ofList]
  clear h
  generalize utf8Pieces none x = pieces at hcs
  induction pieces generalizing cs with
  | nil =>
    obtain rfl : [] = cs := by simpa using hcs
    rfl
  | cons p rest ih =>
    simp only [List.mapM_cons, id, Option.bind_eq_bind, Option.bind_eq_some_iff] at hcs
    obtain ⟨c, rfl, ds, hds, hcons⟩ := hcs
    obtain rfl : c :: ds = cs := by simpa using hcons
    rw [List.map_cons, ih ds hds]

theorem decode?_append {x : Bytes} {s : String} (h : decode? x = some s) (t : String) :
    decode? (x ++ encode t) = some (s ++ t) := by
  have hpieces := utf8Pieces_of_decode? h
  have hnone : none ∉ utf8Pieces none x := by simp [hpieces]
  have hboth : utf8Pieces none (x ++ encode t) = utf8Pieces none (encode (s ++ t)) := by
    rw [utf8Pieces_append hnone, hpieces, utf8Pieces_encode, utf8Pieces_encode,
      String.toList_append, List.map_append]
  rw [decode?, hboth]
  exact decode?_encode (s ++ t)

/-- Where strict reading succeeds, reading with replacement gives the same. -/
theorem decodeLossy_of_decode? {x : Bytes} {s : String} (h : decode? x = some s) :
    decodeLossy x = s := by
  have hget : (fun p : Option Char => p.getD (Char.ofNat 0xfffd)) ∘ some = id := rfl
  rw [decodeLossy, utf8Pieces_of_decode? h, List.map_map, hget, List.map_id, String.ofList_toList]

/-- Where reading with replacement has nothing to replace, strict reading gives the same. -/
theorem decode?_of_notMem {x : Bytes} (h : Char.ofNat 0xfffd ∉ (decodeLossy x).toList) :
    decode? x = some (decodeLossy x) := by
  rw [decodeLossy, String.toList_ofList] at h
  rw [decode?, decodeLossy, Option.map_eq_some_iff]
  refine ⟨_, ?_, rfl⟩
  generalize utf8Pieces none x = pieces at h
  induction pieces with
  | nil => rfl
  | cons p rest ih =>
    rw [List.map_cons, List.mem_cons, not_or] at h
    cases p with
    | none => exact absurd rfl h.1
    | some c => simp [List.mapM_cons, ih h.2]

theorem toList_decodeLossy_slash (x : Bytes) :
    (decodeLossy (0x2f :: x)).toList = '/' :: (decodeLossy x).toList := by
  have hlead : utf8Lead 0x2f = .complete '/' := rfl
  rw [decodeLossy, decodeLossy, String.toList_ofList, String.toList_ofList, utf8Pieces, hlead]
  rfl

theorem decodeLossy_encode (s : String) : decodeLossy (encode s) = s :=
  decodeLossy_of_decode? (decode?_encode s)

/-- A byte that is a character by itself is written for this character only. -/
theorem notMem_encode {s : String} {c : Char} (hc : c.val.toNat < 0x80) (h : c ∉ s.toList) :
    UInt8.ofNat c.val.toNat ∉ encode s := by
  intro hmem
  obtain ⟨d, hd, hbyte⟩ := List.mem_flatMap.1 hmem
  apply h
  have hvalid : d.val.toNat < 0xd800 ∨ 0xdfff < d.val.toNat ∧ d.val.toNat < 0x110000 := d.valid
  have heq : ∀ n, n < 256 → UInt8.ofNat c.val.toNat = UInt8.ofNat n → n = c.val.toNat :=
    fun n hn hofNat => by
      rw [← toNat_ofNat_of_lt hn, ← hofNat, toNat_ofNat_of_lt (by omega)]
  have hsame : d.val.toNat = c.val.toNat := by
    simp only [String.utf8EncodeChar] at hbyte
    split at hbyte
    · exact heq _ (by omega) (List.mem_singleton.1 hbyte)
    · exfalso
      split at hbyte
      · simp only [List.mem_cons, List.not_mem_nil, or_false] at hbyte
        rcases hbyte with h0 | h0 <;> have := heq _ (by omega) h0 <;> omega
      split at hbyte
      · simp only [List.mem_cons, List.not_mem_nil, or_false] at hbyte
        rcases hbyte with h0 | h0 | h0 <;> have := heq _ (by omega) h0 <;> omega
      · simp only [List.mem_cons, List.not_mem_nil, or_false] at hbyte
        rcases hbyte with h0 | h0 | h0 | h0 <;> have := heq _ (by omega) h0 <;> omega
  rwa [← Char.ext (UInt32.toNat_inj.1 hsame)]

theorem zero_notMem_encode {s : String} (h : Char.ofNat 0 ∉ s.toList) : 0 ∉ encode s :=
  notMem_encode (by decide) h

/-! ## Decimal digits -/

/-- Digits spell the number that their values add up to. -/
theorem decimal?_of_isDigit {cs : List Char} (hne : cs ≠ []) (h : ∀ c ∈ cs, c.isDigit) :
    decimal? cs = some (Nat.ofDigitChars 10 cs 0) := by
  rw [decimal?, if_neg (by simpa using hne)]
  clear hne
  generalize 0 = start
  induction cs generalizing start with
  | nil => simp
  | cons c rest ih =>
    rw [List.foldlM_cons, if_pos (h c List.mem_cons_self), Nat.ofDigitChars_cons]
    exact ih (fun d hd => h d (List.mem_cons_of_mem _ hd)) _

theorem isDigit_of_decimal? {cs : List Char} {n : Nat} (h : decimal? cs = some n) :
    ∀ c ∈ cs, c.isDigit := by
  rw [decimal?] at h
  split at h
  · cases h
  clear * - h
  generalize 0 = start at h
  induction cs generalizing start with
  | nil =>
    intro c hc
    cases hc
  | cons d rest ih =>
    rw [List.foldlM_cons] at h
    by_cases hd : d.isDigit
    · rw [if_pos hd] at h
      rw [List.forall_mem_cons]
      exact ⟨hd, ih _ h⟩
    · rw [if_neg hd] at h
      cases h

theorem decimal?_toDigits (n : Nat) : decimal? (Nat.toDigits 10 n) = some n := by
  rw [decimal?_of_isDigit Nat.toDigits_ne_nil fun c hc =>
    Nat.isDigit_of_mem_toDigits (by decide) (by decide) hc, Nat.ofDigitChars_ten_toDigits]

/-! ## Hexadecimal digits -/

variable {width n : Nat}

/-- The digits of a number in base 16 in some places. -/
def hexPlaces : Nat → Nat → List Char
  | 0, _ => []
  | width + 1, n => hexPlaces width (n / 16) ++ [Nat.digitChar (n % 16)]

theorem length_hexPlaces (width n : Nat) : (hexPlaces width n).length = width := by
  induction width generalizing n with
  | zero => rfl
  | succ width ih => rw [hexPlaces, List.length_append, ih, List.length_singleton]

theorem hexPlaces_zero (width : Nat) : hexPlaces width 0 = List.replicate width '0' := by
  induction width with
  | zero => rfl
  | succ width ih =>
    rw [hexPlaces, Nat.zero_div, ih, List.replicate_succ']
    rfl

/-- A number for which there are places enough fills them all. -/
theorem toList_hexPadded (width : Nat) (hwidth : 0 < width) (h : n < 16 ^ width) :
    (hexPadded width n).toList = hexPlaces width n := by
  obtain ⟨width, rfl⟩ := Nat.exists_eq_add_of_lt hwidth
  rw [Nat.zero_add] at h ⊢
  clear hwidth
  rw [hexPadded, String.toList_ofList]
  induction width generalizing n with
  | zero =>
    have hn : n < 16 := h
    rw [Nat.toDigits_of_lt_base hn, hexPlaces, Nat.mod_eq_of_lt hn]
    rfl
  | succ width ih =>
    rw [hexPlaces]
    by_cases hn : n < 16
    · rw [Nat.toDigits_of_lt_base hn, Nat.div_eq_of_lt hn, hexPlaces_zero, Nat.mod_eq_of_lt hn]
      rfl
    · rw [← ih (by rw [pow_succ] at h; omega),
        Nat.toDigits_of_base_le (by decide) (Nat.not_lt.1 hn), List.length_append,
        List.length_singleton, Nat.add_sub_add_right, List.append_assoc]

/-- The digits of lower case. -/
def lowerDigits : List Char := "0123456789abcdef".toList

theorem digitChar_mem_lowerDigits {d : Nat} (h : d < 16) : Nat.digitChar d ∈ lowerDigits := by
  interval_cases d <;> decide

theorem hexValue?_digitChar {d : Nat} (h : d < 16) : hexValue? (Nat.digitChar d) = some d := by
  interval_cases d <;> rfl

theorem mem_lowerDigits_of_mem_hexPlaces {c : Char} (h : c ∈ hexPlaces width n) :
    c ∈ lowerDigits := by
  induction width generalizing n with
  | zero => cases h
  | succ width ih =>
    rcases List.mem_append.1 h with h | h
    · exact ih h
    · rw [List.mem_singleton.1 h]
      exact digitChar_mem_lowerDigits (Nat.mod_lt n (by decide))

/-- Places behind other digits continue their number. -/
theorem hexNumber?_append_hexPlaces {cs : List Char} {m : Nat} (hcs : hexNumber? cs = some m)
    (width : Nat) (h : n < 16 ^ width) :
    hexNumber? (cs ++ hexPlaces width n) = some (16 ^ width * m + n) := by
  induction width generalizing n with
  | zero =>
    obtain rfl : n = 0 := by simpa using h
    rw [hexPlaces, List.append_nil, hcs, pow_zero, one_mul, Nat.add_zero]
  | succ width ih =>
    have hfront := ih (n := n / 16) (by rw [pow_succ] at h; omega)
    rw [hexNumber?] at hfront
    have hlast := hexValue?_digitChar (Nat.mod_lt n (y := 16) (by decide))
    rw [hexPlaces, ← List.append_assoc, hexNumber?, List.foldlM_append, hfront]
    show ((hexValue? (Nat.digitChar (n % 16))).map _ >>= some) = _
    rw [hlast]
    show some (16 * (16 ^ width * m + n / 16) + n % 16) = _
    have hn := Nat.div_add_mod n 16
    rw [pow_succ]
    congr 1
    lia

end SecureBoot.Text
