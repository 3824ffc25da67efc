import SecureBoot.Der

/-!
# Reading elements

**Two strictnesses.** Under `.strict` rules a length must be in its shortest form and take at most
four octets, and the identifier octet must be one of the known ones. Under `.lenient` rules a length
may take up to eight octets in any form, and every identifier octet will do.

`next?` takes one element off the front, `elements?` cuts all bytes into elements. Both give `none`
where the bytes are no such thing.
-/

namespace SecureBoot.Der

inductive Rules where
  | strict
  | lenient
  deriving DecidableEq, Repr

/-- The greatest length that strict reading takes. -/
def maxStrictLength : Nat := 0x0fffffff

/-- Universal identifier octets that strict reading knows. -/
def knownUniversalTags : List UInt8 :=
  [0x01, 0x02, 0x03, 0x04, 0x05, 0x06, 0x09, 0x0a, 0x0c, 0x12, 0x13, 0x14, 0x15, 0x16, 0x17, 0x18,
    0x1a, 0x1e, 0x30, 0x31]

/-- Whether an identifier octet may stand in front of an element. Numbers above thirty would take
more octets and are not known to strict reading. -/
def Rules.acceptsTag (rules : Rules) (tag : UInt8) : Bool :=
  match rules with
  | .lenient => true
  | .strict => tag.toNat % 32 != 31 && (64 ≤ tag.toNat || knownUniversalTags.contains tag)

/-- Whether a length may be written with these digits. -/
def Rules.acceptsDigits (rules : Rules) (digits : Bytes) : Bool :=
  match rules with
  | .lenient => digits.length ≤ 8
  | .strict =>
    let n := Bytes.toNatBE digits
    1 ≤ digits.length && 128 ≤ n && digits.length == digitCount n && n ≤ maxStrictLength

/-- Takes a length off the front. -/
def nextLength? (rules : Rules) : Bytes → Option (Nat × Bytes)
  | [] => none
  | first :: rest =>
    if first < 128 then some (first.toNat, rest)
    else
      let count := first.toNat - 128
      let digits := rest.take count
      if digits.length = count ∧ rules.acceptsDigits digits then
        some (Bytes.toNatBE digits, rest.drop count)
      else none

/-- Takes an element off the front. -/
def next? (rules : Rules) : Bytes → Option (Element × Bytes)
  | [] => none
  | tag :: rest =>
    if rules.acceptsTag tag then
      match nextLength? rules rest with
      | none => none
      | some (length, body) =>
        if length ≤ body.length then some (⟨tag, body.take length⟩, body.drop length) else none
    else none

theorem length_nextLength? {rules : Rules} {b rest : Bytes} {n : Nat}
    (h : nextLength? rules b = some (n, rest)) : rest.length < b.length := by
  cases b with
  | nil => simp [nextLength?] at h
  | cons first tail =>
    simp only [nextLength?] at h
    split at h
    · simp only [Option.some.injEq, Prod.mk.injEq] at h
      simp [← h.2]
    · split at h
      · simp only [Option.some.injEq, Prod.mk.injEq] at h
        simp only [← h.2, List.length_drop, List.length_cons]
        omega
      · simp at h

theorem length_next? {rules : Rules} {b rest : Bytes} {e : Element}
    (h : next? rules b = some (e, rest)) : rest.length < b.length := by
  cases b with
  | nil => simp [next?] at h
  | cons tag tail =>
    simp only [next?] at h
    split at h
    · split at h
      · simp at h
      · rename_i length body hlength
        have hbody := length_nextLength? hlength
        split at h
        · simp only [Option.some.injEq, Prod.mk.injEq] at h
          simp only [← h.2, List.length_drop, List.length_cons]
          omega
        · simp at h
    · simp at h

/-- Cuts bytes into elements, each with its encoding as found. -/
def pieces? (rules : Rules) (b : Bytes) : Option (List (Element × Bytes)) :=
  match b with
  | [] => some []
  | tag :: tail =>
    match h : next? rules (tag :: tail) with
    | none => none
    | some (e, rest) =>
      (pieces? rules rest).map ((e, (tag :: tail).take (tail.length + 1 - rest.length)) :: ·)
termination_by b.length
decreasing_by exact length_next? h

/-- Cuts bytes into elements. -/
def elements? (rules : Rules) (b : Bytes) : Option (List Element) :=
  (pieces? rules b).map (·.map Prod.fst)

/-- The only element of some bytes. -/
def single? (rules : Rules) (b : Bytes) : Option Element :=
  match next? rules b with
  | some (e, []) => some e
  | _ => none

/-- The elements inside an element of a given kind. -/
def Element.inside? (rules : Rules) (tag : UInt8) (e : Element) : Option (List Element) :=
  if e.tag = tag then elements? rules e.content else none

/-- The content of an element of a given kind. -/
def Element.contentOf? (tag : UInt8) (e : Element) : Option Bytes :=
  if e.tag = tag then some e.content else none

end SecureBoot.Der
