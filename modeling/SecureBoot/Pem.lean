import SecureBoot.Text.Base64
import SecureBoot.Text.Blank
import SecureBoot.Text.Utf8

/-!
# PEM

Text around binary data: a line `-----BEGIN label-----`, the data in base 64, a line
`-----END label-----`.

**Writing** breaks the digits into lines of sixty-four and puts no line end behind the last line.

**Reading** is generous about what stands around the data. It looks for the first begin mark, takes
what comes before the next dashes as the label, and what comes before the next end mark as the
digits, line ends left out; behind the end mark only some further dashes are asked for, the label
there may be any. The digits themselves must be exact. The strict form of a chain of certificates is
in `SecureBoot.Pem.Chain`.
-/

namespace SecureBoot

/-- Labelled data. -/
structure Pem where
  label : String
  data : Bytes
  deriving DecidableEq, Inhabited, Repr

namespace Pem

/-- The dashes around a label. -/
def dashes : Bytes := Text.encode "-----"

/-- What a label follows at the beginning. -/
def beginMark : Bytes := Text.encode "-----BEGIN"

/-- What a label follows at the end. -/
def endMark : Bytes := Text.encode "-----END"

def lineFeed : UInt8 := 0x0a

def carriageReturn : UInt8 := 0x0d

def isLineEnd (byte : UInt8) : Bool := byte == lineFeed || byte == carriageReturn

/-- Digits on a line. -/
def lineWidth : Nat := 64

/-! ## Writing -/

/-- Cuts bytes into lines of a width; the last may be shorter. -/
def lines (width : Nat) (b : Bytes) : List Bytes :=
  if b.isEmpty ∨ width = 0 then [] else b.take width :: lines width (b.drop width)
termination_by b.length
decreasing_by
  rename_i h
  simp only [List.isEmpty_iff, not_or] at h
  have := List.length_pos_iff.mpr h.1
  simp only [List.length_drop]
  omega

def encode (p : Pem) : Bytes :=
  let label := Text.encode (" " ++ p.label)
  beginMark ++ label ++ dashes ++ [lineFeed] ++
    (lines lineWidth (Base64.encode p.data)).flatMap (· ++ [lineFeed]) ++
    endMark ++ label ++ dashes

/-! ## Reading -/

/-- Scans for a mark and never goes back: of what precedes the next byte, `seen` in reverse, the
last `matched` bytes are the beginning of the mark. -/
def cutFrom? (mark : Bytes) (matched : Nat) (seen : Bytes) : Bytes → Option (Bytes × Bytes)
  | [] => none
  | byte :: rest =>
    let matched :=
      if mark[matched]? = some byte then matched + 1
      else if mark.head? = some byte then 1
      else 0
    if matched = mark.length then some (((byte :: seen).drop mark.length).reverse, rest)
    else cutFrom? mark matched (byte :: seen) rest

/-- What stands before a mark, and what behind it. -/
def cut? (mark b : Bytes) : Option (Bytes × Bytes) := cutFrom? mark 0 [] b

def read? (b : Bytes) : Option Pem := do
  let (_, afterBegin) ← cut? beginMark b
  let (label, afterLabel) ← cut? dashes afterBegin
  let label ← Text.decode? label
  let (digits, afterEnd) ← cut? endMark afterLabel
  let _ ← cut? dashes afterEnd
  let data ← Base64.decode? (digits.filter (!isLineEnd ·))
  return ⟨Text.trimBlanks label, data⟩

end Pem

end SecureBoot
