import Mathlib
import SecureBoot.Der.Reading
import SecureBoot.Proofs.Bytes

/-!
# Laws of elements

**An element read is told apart** into its identifier octet, its length and its content
(`next?_eq_some`), and all laws follow from this.

**What follows an element does not matter** for reading it (`next?_append`).

**Elements that were written are read back**, one (`next?_element`) or a row of them
(`elements?_encode`), under lenient rules and as long as lengths fit eight octets. So no two rows
are written the same way (`flatten_encode_inj`).

**What was read strictly is written the same way** (`flatten_encode_of_elements?`), since there is
only one form for a length.
-/

namespace SecureBoot

/-! ## Numbers, most significant digit first -/

theorem Bytes.toNatBE_eq (x : Bytes) : toNatBE x = toNatLE x.reverse := by
  rw [toNatBE, ← List.foldr_reverse]
  induction x.reverse with
  | nil => rfl
  | cons d rest ih => rw [List.foldr_cons, ih, toNatLE, Nat.add_comm]

theorem Bytes.toNatBE_ofNatBE (width n : Nat) : toNatBE (ofNatBE width n) = n % 256 ^ width := by
  rw [toNatBE_eq, ofNatBE, List.reverse_reverse, toNatLE_ofNatLE]

theorem Bytes.ofNatBE_toNatBE (x : Bytes) : ofNatBE x.length (toNatBE x) = x := by
  have h := ofNatLE_toNatLE x.reverse
  rw [List.length_reverse] at h
  rw [ofNatBE, toNatBE_eq, h, List.reverse_reverse]

namespace Der

/-! ## What is read -/

variable {rules : Rules} {x rest : Bytes} {n : Nat} {e : Element}

/-- A length is one octet, or an octet that counts the digits behind it. -/
theorem nextLength?_eq_some : nextLength? rules x = some (n, rest) ↔
    (∃ first < 128, x = first :: rest ∧ n = first.toNat) ∨
      ∃ first digits, ¬ first < 128 ∧ x = first :: (digits ++ rest) ∧
        digits.length = first.toNat - 128 ∧ rules.acceptsDigits digits = true ∧
          n = Bytes.toNatBE digits := by
  constructor
  · intro h
    cases x with
    | nil => cases h
    | cons first tail =>
      rw [nextLength?] at h
      split at h
      · rename_i hshort
        obtain ⟨rfl, rfl⟩ := Prod.mk.inj (Option.some.inj h)
        exact .inl ⟨first, hshort, rfl, rfl⟩
      · rename_i hlong
        dsimp only at h
        split at h
        · rename_i hdigits
          obtain ⟨rfl, rfl⟩ := Prod.mk.inj (Option.some.inj h)
          exact .inr ⟨first, _, hlong, by rw [List.take_append_drop], hdigits.1, hdigits.2, rfl⟩
        · cases h
  · rintro (⟨first, hshort, rfl, rfl⟩ | ⟨first, digits, hlong, rfl, hlength, haccepts, rfl⟩)
    · rw [nextLength?, if_pos hshort]
    · rw [nextLength?, if_neg hlong, ← hlength]
      dsimp only
      rw [List.take_left, List.drop_left, if_pos ⟨rfl, haccepts⟩]

/-- An element is its identifier octet, the length of its content, and the content. -/
theorem next?_eq_some : next? rules x = some (e, rest) ↔
    ∃ tail, x = e.tag :: tail ∧ rules.acceptsTag e.tag = true ∧
      nextLength? rules tail = some (e.content.length, e.content ++ rest) := by
  constructor
  · intro h
    cases x with
    | nil => cases h
    | cons tag tail =>
      rw [next?] at h
      split at h
      swap
      · cases h
      rename_i htag
      split at h
      · cases h
      · rename_i length body hlength
        split at h
        · rename_i hle
          cases h
          refine ⟨tail, rfl, htag, ?_⟩
          rw [List.take_append_drop, List.length_take, Nat.min_eq_left hle, hlength]
        · cases h
  · rintro ⟨tail, rfl, htag, hlength⟩
    have hle : e.content.length ≤ (e.content ++ rest).length := by simp
    rw [next?, if_pos htag, hlength]
    dsimp only
    rw [if_pos hle, List.take_left, List.drop_left]

/-! ## What follows -/

theorem nextLength?_append (h : nextLength? rules x = some (n, rest)) (more : Bytes) :
    nextLength? rules (x ++ more) = some (n, rest ++ more) := by
  rw [nextLength?_eq_some] at h ⊢
  rcases h with ⟨first, hshort, rfl, hn⟩ | ⟨first, digits, hlong, rfl, hdigits⟩
  · exact .inl ⟨first, hshort, rfl, hn⟩
  · exact .inr ⟨first, digits, hlong, by rw [List.cons_append, List.append_assoc], hdigits⟩

theorem next?_append (h : next? rules x = some (e, rest)) (more : Bytes) :
    next? rules (x ++ more) = some (e, rest ++ more) := by
  obtain ⟨tail, rfl, htag, hlength⟩ := next?_eq_some.1 h
  refine next?_eq_some.2 ⟨tail ++ more, rfl, htag, ?_⟩
  rw [← List.append_assoc]
  exact nextLength?_append hlength more

/-! ## Written elements -/

theorem lt_pow_digitCount (n : Nat) : n < 256 ^ digitCount n := by
  have hlog : n < 2 ^ (n.log2 + 1) := Nat.lt_log2_self
  refine hlog.trans_le ?_
  rw [digitCount, show 256 = 2 ^ 8 from rfl, ← Nat.pow_mul]
  apply Nat.pow_le_pow_right (by decide)
  omega

theorem digitCount_le {n : Nat} (h : n < 2 ^ 64) : digitCount n ≤ 8 := by
  have hlog : n.log2 < 64 := by
    by_cases hzero : n = 0
    · rw [hzero]
      decide
    · exact (Nat.log2_lt hzero).2 h
  rw [digitCount]
  omega

theorem nextLength?_encodeLength (h : n < 2 ^ 64) (rest : Bytes) :
    nextLength? .lenient (encodeLength n ++ rest) = some (n, rest) := by
  have hbyte : ∀ m, m < 256 → (UInt8.ofNat m).toNat = m := fun m hm => by
    rw [UInt8.toNat_ofNat']
    exact Nat.mod_eq_of_lt hm
  rw [nextLength?_eq_some, encodeLength]
  split
  · rename_i hshort
    refine .inl ⟨UInt8.ofNat n, ?_, rfl, (hbyte n (by omega)).symm⟩
    rw [UInt8.lt_iff_toNat_lt, hbyte n (by omega)]
    exact hshort
  · have hcount := digitCount_le h
    have hfirst := hbyte (128 + digitCount n) (by omega)
    have hdigits : (Bytes.ofNatBE (digitCount n) n).length = digitCount n :=
      Bytes.length_ofNatBE _ _
    refine .inr ⟨UInt8.ofNat (128 + digitCount n), Bytes.ofNatBE (digitCount n) n, ?_, rfl, ?_,
      ?_, ?_⟩
    · rw [UInt8.lt_iff_toNat_lt, hfirst]
      simp
    · rw [hfirst, hdigits, Nat.add_sub_cancel_left]
    · simpa [Rules.acceptsDigits, hdigits] using hcount
    · rw [Bytes.toNatBE_ofNatBE, Nat.mod_eq_of_lt (lt_pow_digitCount n)]

theorem next?_element {tag : UInt8} {content : Bytes} (h : content.length < 2 ^ 64) (rest : Bytes) :
    next? .lenient (element tag content ++ rest) = some (⟨tag, content⟩, rest) := by
  refine next?_eq_some.2 ⟨encodeLength content.length ++ (content ++ rest), ?_, rfl,
    nextLength?_encodeLength h _⟩
  rw [element, Element.encode, List.cons_append, List.cons_append, List.append_assoc]

/-- A row of elements that were written is cut into what they were written as. -/
theorem pieces?_encode {es : List Element} (h : ∀ e ∈ es, e.content.length < 2 ^ 64) :
    pieces? .lenient (es.map Element.encode).flatten = some (es.map fun e => (e, e.encode)) := by
  induction es with
  | nil => rw [List.map_nil, List.flatten_nil, pieces?, List.map_nil]
  | cons e rest ih =>
    rw [List.forall_mem_cons] at h
    have hnext : next? .lenient (((e :: rest).map Element.encode).flatten) =
        some (e, (rest.map Element.encode).flatten) := by
      rw [List.map_cons, List.flatten_cons]
      exact next?_element h.1 _
    have hsplit : ((e :: rest).map Element.encode).flatten =
        e.encode ++ (rest.map Element.encode).flatten := by
      rw [List.map_cons, List.flatten_cons]
    generalize ((e :: rest).map Element.encode).flatten = x at hnext hsplit ⊢
    cases x with
    | nil => cases hnext
    | cons tag tail =>
      rw [pieces?]
      split
      · rename_i hnone
        rw [hnext] at hnone
        cases hnone
      · rename_i e' rest' hsome
        rw [hnext] at hsome
        cases hsome
        have hlength := congrArg List.length hsplit
        rw [List.length_cons, List.length_append] at hlength
        rw [ih h.2, Option.map_some, List.map_cons, hlength, Nat.add_sub_cancel, hsplit,
          List.take_left]

theorem elements?_encode {es : List Element} (h : ∀ e ∈ es, e.content.length < 2 ^ 64) :
    elements? .lenient (es.map Element.encode).flatten = some es := by
  rw [elements?, pieces?_encode h, Option.map_some, List.map_map]
  exact congrArg some (List.map_id es)

/-! ## One way to write -/

theorem length_lt_length_element (tag : UInt8) (content : Bytes) :
    content.length < (element tag content).length := by
  simp [element, Element.encode]

/-- The content of an element is shorter than the row that the element stands in. -/
theorem length_content_lt {es : List Element} {e : Element} (he : e ∈ es) :
    e.content.length < (es.map Element.encode).flatten.length :=
  (length_lt_length_element e.tag e.content).trans_le
    (List.sublist_flatten_of_mem (List.mem_map_of_mem (f := Element.encode) he)).length_le

theorem flatten_encode_inj {es es' : List Element}
    (hlength : (es.map Element.encode).flatten.length < 2 ^ 64)
    (h : (es.map Element.encode).flatten = (es'.map Element.encode).flatten) : es = es' := by
  have hread := elements?_encode fun e he => (length_content_lt he).trans hlength
  have hread' := @elements?_encode es' fun e he =>
    (length_content_lt he).trans (h ▸ hlength)
  rw [h, hread'] at hread
  exact (Option.some.inj hread).symm

theorem Element.encode_inj {e e' : Element} (hlength : e.encode.length < 2 ^ 64)
    (h : e.encode = e'.encode) : e = e' := by
  have hrow : ([e].map Element.encode).flatten = ([e'].map Element.encode).flatten := by
    simpa using h
  exact List.singleton_inj.1 (flatten_encode_inj (by simpa using hlength) hrow)

/-- A length that is read strictly has its only form. -/
theorem eq_of_nextLength?_strict (h : nextLength? .strict x = some (n, rest)) :
    x = encodeLength n ++ rest ∧ n ≤ maxStrictLength := by
  have hmax : 128 ≤ maxStrictLength := by decide
  rcases nextLength?_eq_some.1 h with ⟨first, hshort, rfl, rfl⟩ |
    ⟨first, digits, hlong, rfl, hlength, haccepts, rfl⟩
  · have hshort : first.toNat < 128 := UInt8.lt_iff_toNat_lt.1 hshort
    rw [encodeLength, if_pos hshort, UInt8.ofNat_toNat]
    exact ⟨rfl, hshort.le.trans hmax⟩
  · simp only [Rules.acceptsDigits, Bool.and_eq_true, decide_eq_true_eq, beq_iff_eq] at haccepts
    obtain ⟨⟨⟨-, hlarge⟩, hcount⟩, hle⟩ := haccepts
    have hfirst : 128 ≤ first.toNat := Nat.not_lt.1 fun hlt => hlong (UInt8.lt_iff_toNat_lt.2 hlt)
    refine ⟨?_, hle⟩
    rw [encodeLength, if_neg (Nat.not_lt.2 hlarge), ← hcount, Bytes.ofNatBE_toNatBE, hlength,
      Nat.add_sub_of_le hfirst, UInt8.ofNat_toNat, List.cons_append]

/-- An element that is read strictly is written as it was. -/
theorem eq_of_next?_strict (h : next? .strict x = some (e, rest)) : x = e.encode ++ rest := by
  obtain ⟨tail, rfl, -, hlength⟩ := next?_eq_some.1 h
  rw [(eq_of_nextLength?_strict hlength).1, Element.encode, List.cons_append, List.cons_append,
    List.append_assoc]

theorem length_content_le_of_next?_strict (h : next? .strict x = some (e, rest)) :
    e.content.length ≤ maxStrictLength := by
  obtain ⟨tail, -, -, hlength⟩ := next?_eq_some.1 h
  exact (eq_of_nextLength?_strict hlength).2

theorem next?_of_single? (h : single? rules x = some e) :
    next? rules x = some (e, []) := by
  rw [single?] at h
  split at h
  · rename_i hnext
    cases h
    exact hnext
  · cases h

theorem eq_of_single?_strict (h : single? .strict x = some e) :
    x = e.encode := by
  rw [eq_of_next?_strict (next?_of_single? h), List.append_nil]

theorem length_lt_of_single?_strict (h : single? .strict x = some e) : x.length < 2 ^ 64 := by
  have hmax : maxStrictLength + 10 < 2 ^ 64 := by decide
  have hcontent := length_content_le_of_next?_strict (next?_of_single? h)
  have hcount := digitCount_le (hcontent.trans_lt ((Nat.le_add_right _ 10).trans_lt hmax))
  have hlength : (encodeLength e.content.length).length ≤ 9 := by
    rw [encodeLength]
    split
    · simp
    · rw [List.length_cons, Bytes.length_ofNatBE]
      omega
  rw [eq_of_single?_strict h, Element.encode, List.cons_append, List.length_cons,
    List.length_append]
  omega

/-- A row that is read strictly is written as it was. -/
theorem flatten_encode_of_elements? {x : Bytes} {es : List Element}
    (h : elements? .strict x = some es) : (es.map Element.encode).flatten = x := by
  induction hlength : x.length using Nat.strong_induction_on generalizing x es with
  | _ length ih =>
    rw [elements?, Option.map_eq_some_iff] at h
    obtain ⟨pieces, hpieces, rfl⟩ := h
    cases x with
    | nil =>
      rw [pieces?] at hpieces
      cases hpieces
      rfl
    | cons tag tail =>
      rw [pieces?] at hpieces
      split at hpieces
      · cases hpieces
      · rename_i e rest hnext
        obtain ⟨others, hothers, rfl⟩ := Option.map_eq_some_iff.1 hpieces
        have hrest := ih rest.length (hlength ▸ length_next? hnext)
          (by rw [elements?, hothers, Option.map_some]) rfl
        rw [List.map_cons, List.map_cons, List.flatten_cons, hrest, ← eq_of_next?_strict hnext]

/-! ## Rows -/

/-- An element around a row of elements. -/
def row (tag : UInt8) (es : List Element) : Element := ⟨tag, (es.map Element.encode).flatten⟩

theorem row_inj {tag : UInt8} {es es' : List Element}
    (hlength : (row tag es).content.length < 2 ^ 64) : row tag es' = row tag es ↔ es' = es := by
  constructor
  · intro h
    exact (flatten_encode_inj hlength (congrArg Element.content h).symm).symm
  · rintro rfl
    rfl

theorem length_lt_of_mem_row {tag : UInt8} {es : List Element} {e : Element} (he : e ∈ es)
    (hlength : (row tag es).content.length < 2 ^ 64) : e.content.length < 2 ^ 64 :=
  (length_content_lt he).trans hlength

theorem eq_row_of_inside? {tag : UInt8} {e : Element} {es : List Element}
    (h : e.inside? .strict tag = some es) : e = row tag es := by
  rw [Element.inside?] at h
  split at h
  · rename_i htag
    rw [row, flatten_encode_of_elements? h, ← htag]
  · cases h

theorem eq_of_contentOf? {tag : UInt8} {e : Element} {content : Bytes}
    (h : e.contentOf? tag = some content) : e = ⟨tag, content⟩ := by
  rw [Element.contentOf?] at h
  split at h
  · rename_i htag
    cases h
    rw [← htag]
  · cases h

end Der

end SecureBoot
