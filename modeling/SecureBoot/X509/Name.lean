import SecureBoot.Der.Oid

/-!
# Names

The issuer and the subject of a certificate are names: a row of sets of attributes, each a kind and
a value. The order inside a set means nothing: strict reading puts it in ascending order, and
refuses two equal attributes in one set.
-/

namespace SecureBoot.X509

/-- A kind and a value, such as a common name. -/
structure Attribute where
  kind : Oid
  value : Der.Element
  deriving DecidableEq, Inhabited, Repr

namespace Attribute

def encode (a : Attribute) : Bytes := Der.sequence [a.kind.encode, a.value.encode]

def ofElement? (rules : Der.Rules) (e : Der.Element) : Option Attribute := do
  let [kind, value] ← e.inside? rules Der.Tag.sequence | none
  let kind ← Oid.ofElement? kind
  guard (rules = .lenient ∨ kind.isWellFormed)
  return ⟨kind, value⟩

end Attribute

/-- Whether one encoding stands before another, byte by byte. -/
def precedes : Bytes → Bytes → Bool
  | [], _ => true
  | _ :: _, [] => false
  | a :: rest, b :: rest' => a < b || (a == b && precedes rest rest')

/-- Encodings in ascending order. -/
def ascending (encodings : List Bytes) : List Bytes := encodings.mergeSort precedes

structure Name where
  parts : List (List Attribute)
  deriving DecidableEq, Inhabited, Repr

namespace Name

def encode (n : Name) : Bytes :=
  Der.sequence (n.parts.map fun part => Der.set (part.map Attribute.encode))

/-- Reads the attributes of one set. -/
def part? (rules : Der.Rules) (e : Der.Element) : Option (List Attribute) := do
  let part ← (← e.inside? rules Der.Tag.set).mapM (Attribute.ofElement? rules)
  match rules with
  | .lenient => return part
  | .strict =>
    guard part.Nodup
    return part.mergeSort fun a b => precedes a.encode b.encode

def ofElement? (rules : Der.Rules) (e : Der.Element) : Option Name := do
  return ⟨← (← e.inside? rules Der.Tag.sequence).mapM (part? rules)⟩

end Name

end SecureBoot.X509
