import SecureBoot.Der.Reading

/-!
# Moments

Certificates say from when to when they hold, in one of two forms: with two digits for the year,
which mean the years 1950 to 2049, or with four. Both end with the letter Z.
-/

namespace SecureBoot

/-- A second of the calendar. -/
structure Moment where
  year : Nat
  month : Nat
  day : Nat
  hour : Nat
  minute : Nat
  second : Nat
  deriving DecidableEq, Inhabited, Repr

namespace Moment

def isLeapYear (year : Nat) : Bool := year % 4 == 0 && (year % 100 != 0 || year % 400 == 0)

def daysInMonth (year month : Nat) : Nat :=
  if month = 2 then (if isLeapYear year then 29 else 28)
  else if month ∈ [4, 6, 9, 11] then 30
  else 31

/-- Whether the calendar has such a second. -/
def isReal (m : Moment) : Bool :=
  1 ≤ m.month && m.month ≤ 12 && 1 ≤ m.day && m.day ≤ daysInMonth m.year m.month && m.hour ≤ 23 &&
    m.minute ≤ 59 && m.second ≤ 59

/-- The digits of a moment as one number; an earlier moment has a smaller one. -/
def stamp (m : Moment) : Nat :=
  ((((m.year * 100 + m.month) * 100 + m.day) * 100 + m.hour) * 100 + m.minute) * 100 + m.second

instance : LE Moment := ⟨fun m n => m.stamp ≤ n.stamp⟩

instance (m n : Moment) : Decidable (m ≤ n) := inferInstanceAs (Decidable (m.stamp ≤ n.stamp))

/-! ## Reading -/

/-- The number that decimal digits spell. -/
def digits? (b : Bytes) : Option Nat :=
  b.foldlM (fun n byte =>
    if 48 ≤ byte ∧ byte ≤ 57 then some (10 * n + (byte.toNat - 48)) else none) 0

/-- The moment of a year and ten digits behind it, and the letter Z at the end. -/
def ofYear? (year : Nat) (rest : Bytes) : Option Moment := do
  guard (rest.length = 11 ∧ rest[10]? = some 0x5a)
  let m : Moment := {
    year
    month := ← digits? (rest.slice 0 2)
    day := ← digits? (rest.slice 2 4)
    hour := ← digits? (rest.slice 4 6)
    minute := ← digits? (rest.slice 6 8)
    second := ← digits? (rest.slice 8 10) }
  guard m.isReal
  return m

/-- The moment that an element of one of the two forms states. -/
def ofElement? (e : Der.Element) : Option Moment := do
  if e.tag = Der.Tag.utcTime then
    let year ← digits? (e.content.take 2)
    ofYear? (if 50 ≤ year then 1900 + year else 2000 + year) (e.content.drop 2)
  else
    guard (e.tag = Der.Tag.generalizedTime)
    let year ← digits? (e.content.take 4)
    ofYear? year (e.content.drop 4)

end Moment

end SecureBoot
