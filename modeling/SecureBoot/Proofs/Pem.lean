import Mathlib
import SecureBoot.Pem
import SecureBoot.Proofs.Outcome
import SecureBoot.Proofs.Text

/-!
# Documents that were written are read back

**Theorem (`Pem.read?_encode`).** A PEM document that was written is read as the same label and
data, if the label has no dash and no blank at its ends.

Reading looks for a mark and never goes back, so that it can miss one that begins while another
match is being tried. This does not happen here: all marks begin with a dash, and between them there
is none (`cut?_append`). A label has none by assumption, and digits are no dashes. They are no line
ends either, so that leaving these out gives back the digits that were broken into lines
(`filter_digitLines`), and from the digits the data (`Base64.decode?_encode`).
-/

namespace SecureBoot

/-! ## Base 64 -/

namespace Base64

theorem digit_ne_pad {value : Nat} (h : value < 64) : digit value ≠ pad := by
  intro heq
  have hvalue := digit?_digit h
  rw [heq, digit?_pad] at hvalue
  cases hvalue

/-- What was written is read back, group by group. -/
theorem decode?_encode (x : Bytes) : decode? (encode x) = some x := by
  induction x using encode.induct with
  | case1 => rfl
  | case2 a =>
    have ha := a.toNat_lt
    have hp := digit?_digit (show a.toNat / 4 < 64 by omega)
    have hq := digit?_digit (show a.toNat % 4 * 16 < 64 by omega)
    rw [encode, pad, decode?]
    refine bind_eq_some.2 ⟨_, hp, ?_⟩
    refine bind_eq_some.2 ⟨_, hq, ?_⟩
    refine guard_bind_eq_some.2 ⟨by omega, ?_⟩
    rw [show a.toNat / 4 * 4 + a.toNat % 4 * 16 / 16 = a.toNat by omega, UInt8.ofNat_toNat]
    rfl
  | case3 a b =>
    have ha := a.toNat_lt
    have hb := b.toNat_lt
    have hp := digit?_digit (show a.toNat / 4 < 64 by omega)
    have hq := digit?_digit (show a.toNat % 4 * 16 + b.toNat / 16 < 64 by omega)
    have hr := digit?_digit (show b.toNat % 16 * 4 < 64 by omega)
    rw [encode, pad, decode?]
    · refine bind_eq_some.2 ⟨_, hp, ?_⟩
      refine bind_eq_some.2 ⟨_, hq, ?_⟩
      refine bind_eq_some.2 ⟨_, hr, ?_⟩
      refine guard_bind_eq_some.2 ⟨by omega, ?_⟩
      rw [show a.toNat / 4 * 4 + (a.toNat % 4 * 16 + b.toNat / 16) / 16 = a.toNat by omega,
        show (a.toNat % 4 * 16 + b.toNat / 16) % 16 * 16 + b.toNat % 16 * 4 / 4 = b.toNat by omega,
        UInt8.ofNat_toNat, UInt8.ofNat_toNat]
      rfl
    · exact digit_ne_pad (by omega)
  | case4 a b c rest ih =>
    have ha := a.toNat_lt
    have hb := b.toNat_lt
    have hc := c.toNat_lt
    have hp := digit?_digit (show a.toNat / 4 < 64 by omega)
    have hq := digit?_digit (show a.toNat % 4 * 16 + b.toNat / 16 < 64 by omega)
    have hr := digit?_digit (show b.toNat % 16 * 4 + c.toNat / 64 < 64 by omega)
    have hs := digit?_digit (show c.toNat % 64 < 64 by omega)
    have hpad : digit (c.toNat % 64) ≠ pad := digit_ne_pad (by omega)
    rw [encode, decode?]
    · refine bind_eq_some.2 ⟨_, hp, ?_⟩
      refine bind_eq_some.2 ⟨_, hq, ?_⟩
      refine bind_eq_some.2 ⟨_, hr, ?_⟩
      refine bind_eq_some.2 ⟨_, hs, ?_⟩
      refine bind_eq_some.2 ⟨_, ih, ?_⟩
      rw [show a.toNat / 4 * 4 + (a.toNat % 4 * 16 + b.toNat / 16) / 16 = a.toNat by omega,
        show (a.toNat % 4 * 16 + b.toNat / 16) % 16 * 16 + (b.toNat % 16 * 4 + c.toNat / 64) / 4 =
          b.toNat by omega,
        show (b.toNat % 16 * 4 + c.toNat / 64) % 4 * 64 + c.toNat % 64 = c.toNat by omega,
        UInt8.ofNat_toNat, UInt8.ofNat_toNat, UInt8.ofNat_toNat]
      rfl
    · exact fun _ h _ => hpad h
    · exact fun h _ => hpad h

theorem isDigit_of_mem_encode {x : Bytes} {byte : UInt8} (h : byte ∈ encode x) :
    byte = pad ∨ ∃ value < 64, byte = digit value := by
  induction x using encode.induct with
  | case1 => cases h
  | case2 a =>
    have ha := a.toNat_lt
    simp only [encode, List.mem_cons, List.not_mem_nil, or_false] at h
    rcases h with rfl | rfl | rfl | rfl
    · exact .inr ⟨_, by omega, rfl⟩
    · exact .inr ⟨_, by omega, rfl⟩
    · exact .inl rfl
    · exact .inl rfl
  | case3 a b =>
    have ha := a.toNat_lt
    have hb := b.toNat_lt
    simp only [encode, List.mem_cons, List.not_mem_nil, or_false] at h
    rcases h with rfl | rfl | rfl | rfl
    · exact .inr ⟨_, by omega, rfl⟩
    · exact .inr ⟨_, by omega, rfl⟩
    · exact .inr ⟨_, by omega, rfl⟩
    · exact .inl rfl
  | case4 a b c rest ih =>
    have ha := a.toNat_lt
    have hb := b.toNat_lt
    have hc := c.toNat_lt
    simp only [encode, List.mem_cons] at h
    rcases h with rfl | rfl | rfl | rfl | h
    · exact .inr ⟨_, by omega, rfl⟩
    · exact .inr ⟨_, by omega, rfl⟩
    · exact .inr ⟨_, by omega, rfl⟩
    · exact .inr ⟨_, by omega, rfl⟩
    · exact ih h

theorem notMem_encode {byte : UInt8} (hdigit : digit? byte = none) (hpad : byte ≠ pad) (x : Bytes) :
    byte ∉ encode x := by
  intro h
  rcases isDigit_of_mem_encode h with rfl | ⟨value, hvalue, rfl⟩
  · exact hpad rfl
  · rw [digit?_digit hvalue] at hdigit
    cases hdigit

end Base64

namespace Pem

/-! ## Marks -/

variable {mark x rest : Bytes} {first : UInt8}

/-- A scan passes over what has no byte that the mark begins with. -/
theorem cutFrom?_append (hfirst : mark.head? = some first) (hx : first ∉ x) (seen : Bytes) :
    cutFrom? mark 0 seen (x ++ rest) = cutFrom? mark 0 (x.reverse ++ seen) rest := by
  induction x generalizing seen with
  | nil => rfl
  | cons byte x ih =>
    rw [List.mem_cons, not_or] at hx
    have hne : ¬ mark.head? = some byte := by
      rw [hfirst]
      exact fun heq => hx.1 (Option.some.inj heq)
    have hlength : ¬ 0 = mark.length := by
      rintro hzero
      rw [List.eq_nil_of_length_eq_zero hzero.symm] at hfirst
      cases hfirst
    rw [List.cons_append, cutFrom?, ← List.head?_eq_getElem?, if_neg hne, if_neg hne,
      if_neg hlength, ih hx.2, List.reverse_cons, List.append_assoc]
    rfl

/-- A scan that has seen the front of a mark finds the mark. -/
theorem cutFrom?_mark {front back : Bytes} (hback : back ≠ []) (seen rest : Bytes) :
    cutFrom? (front ++ back) front.length (front.reverse ++ seen) (back ++ rest) =
      some (seen.reverse, rest) := by
  induction back generalizing front with
  | nil => exact absurd rfl hback
  | cons byte back ih =>
    have hbyte : (front ++ byte :: back)[front.length]? = some byte := by simp
    rw [List.cons_append, cutFrom?, if_pos hbyte]
    split
    · rename_i hlength
      obtain rfl : back = [] := by simpa using hlength
      have hseen : (byte :: (front.reverse ++ seen)).drop (front ++ [byte]).length = seen := by
        rw [← List.cons_append, List.drop_left' (by simp)]
      rw [hseen]
      rfl
    · rename_i hlength
      have hnext := @ih (front ++ [byte]) (by rintro rfl; simp at hlength)
      simpa using hnext

theorem cut?_append (hfirst : mark.head? = some first) (hx : first ∉ x) :
    cut? mark (x ++ (mark ++ rest)) = some (x, rest) := by
  have hmark : mark ≠ [] := by
    rintro rfl
    cases hfirst
  have hfound := @cutFrom?_mark [] mark hmark x.reverse rest
  rw [List.reverse_reverse] at hfound
  rw [cut?, cutFrom?_append hfirst hx, List.append_nil]
  exact hfound

/-! ## Lines -/

theorem flatten_lines {width : Nat} (hwidth : width ≠ 0) (x : Bytes) :
    (lines width x).flatten = x := by
  fun_induction lines width x with
  | case1 x h =>
    rw [List.isEmpty_iff] at h
    exact (h.resolve_right hwidth).symm
  | case2 x h ih => rw [List.flatten_cons, ih, List.take_append_drop]

/-- The lines of digits of a document, with the line end in front of them. -/
def digitLines (data : Bytes) : Bytes :=
  [lineFeed] ++ (lines lineWidth (Base64.encode data)).flatMap (· ++ [lineFeed])

theorem mem_digitLines {data : Bytes} {byte : UInt8} (h : byte ∈ digitLines data) :
    byte = lineFeed ∨ byte ∈ Base64.encode data := by
  rw [digitLines, List.mem_append, List.mem_flatMap] at h
  rcases h with h | ⟨line, hline, h⟩
  · exact .inl (List.mem_singleton.1 h)
  · rcases List.mem_append.1 h with h | h
    · right
      rw [← flatten_lines (show lineWidth ≠ 0 by decide) (Base64.encode data)]
      exact List.mem_flatten.2 ⟨line, hline, h⟩
    · exact .inl (List.mem_singleton.1 h)

theorem dash_notMem_digitLines (data : Bytes) : 0x2d ∉ digitLines data := by
  intro h
  rcases mem_digitLines h with h | h
  · cases h
  · exact Base64.notMem_encode (by decide) (by decide) data h

theorem filter_digitLines (data : Bytes) :
    (digitLines data).filter (!isLineEnd ·) = Base64.encode data := by
  have hdigit : ∀ byte ∈ Base64.encode data, isLineEnd byte = false := by
    intro byte hbyte
    have hfeed : byte ≠ lineFeed := by
      rintro rfl
      exact Base64.notMem_encode (by decide) (by decide) data hbyte
    have hreturn : byte ≠ carriageReturn := by
      rintro rfl
      exact Base64.notMem_encode (by decide) (by decide) data hbyte
    simp [isLineEnd, hfeed, hreturn]
  have hflatten := flatten_lines (show lineWidth ≠ 0 by decide) (Base64.encode data)
  have hline : ∀ line ∈ lines lineWidth (Base64.encode data),
      (line ++ [lineFeed]).filter (!isLineEnd ·) = line := by
    intro line hline
    have hself : line.filter (!isLineEnd ·) = line := List.filter_eq_self.2 fun byte hbyte => by
      rw [hdigit byte (hflatten ▸ List.mem_flatten.2 ⟨line, hline, hbyte⟩), Bool.not_false]
    rw [List.filter_append, hself]
    exact List.append_nil line
  rw [digitLines, List.filter_append, List.filter_flatMap, List.flatMap_congr hline,
    List.flatMap_id', hflatten]
  rfl

/-! ## The whole -/

/-- A label that stands between dashes as it is. -/
structure IsLabel (label : String) : Prop where
  noDash : '-' ∉ label.toList
  trimmed : Text.trimBlanks label = label

theorem trimBlanks_blank (s : String) : Text.trimBlanks (" " ++ s) = Text.trimBlanks s := by
  have hblank : Text.isBlank ' ' = true := by decide
  rw [Text.trimBlanks, String.toList_append]
  show String.ofList (((' ' :: s.toList).dropWhile _).reverse.dropWhile _).reverse = _
  rw [List.dropWhile_cons_of_pos hblank, Text.trimBlanks]

theorem encode_eq (p : Pem) : p.encode = beginMark ++ (Text.encode (" " ++ p.label) ++ (dashes ++
    (digitLines p.data ++ (endMark ++ (Text.encode (" " ++ p.label) ++ (dashes ++ [])))))) := by
  simp [encode, digitLines]

/-- A document that was written is read back. -/
theorem read?_encode {p : Pem} (h : IsLabel p.label) : read? p.encode = some p := by
  have hdash : 0x2d ∉ Text.encode (" " ++ p.label) := by
    refine @Text.notMem_encode _ '-' (by decide) ?_
    rw [String.toList_append, List.mem_append, not_or]
    exact ⟨by decide, h.noDash⟩
  obtain ⟨label, hlabel⟩ : ∃ label, Text.encode (" " ++ p.label) = label := ⟨_, rfl⟩
  have hdecode : Text.decode? label = some (" " ++ p.label) := hlabel ▸ Text.decode?_encode _
  rw [hlabel] at hdash
  have hend : cut? dashes (label ++ (dashes ++ [])) = some (label, []) := cut?_append rfl hdash
  have hbody : cut? endMark (digitLines p.data ++ (endMark ++ (label ++ (dashes ++ [])))) =
      some (digitLines p.data, label ++ (dashes ++ [])) :=
    cut?_append rfl (dash_notMem_digitLines p.data)
  have hlabelCut := @cut?_append dashes label
    (digitLines p.data ++ (endMark ++ (label ++ (dashes ++ [])))) _ rfl hdash
  have hbegin := @cut?_append beginMark []
    (label ++ (dashes ++ (digitLines p.data ++ (endMark ++ (label ++ (dashes ++ [])))))) _ rfl
    List.not_mem_nil
  have hdata : Base64.decode? ((digitLines p.data).filter (!isLineEnd ·)) = some p.data := by
    rw [filter_digitLines, Base64.decode?_encode]
  rw [encode_eq, hlabel]
  refine bind_eq_some.2 ⟨_, hbegin, ?_⟩
  refine bind_eq_some.2 ⟨_, hlabelCut, ?_⟩
  refine bind_eq_some.2 ⟨_, hdecode, ?_⟩
  refine bind_eq_some.2 ⟨_, hbody, ?_⟩
  refine bind_eq_some.2 ⟨_, hend, ?_⟩
  refine bind_eq_some.2 ⟨_, hdata, ?_⟩
  rw [trimBlanks_blank, h.trimmed]
  rfl

end Pem

end SecureBoot
