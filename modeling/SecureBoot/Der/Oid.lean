import SecureBoot.Der.Reading

/-!
# Object identifiers

Kinds of things are named by object identifiers, rows of numbers such as 2.5.29.19. An identifier is
kept as the content of its element: the first two numbers share the first octet, each further one is
written in base 128 with the top bit set in all octets but its last.
-/

namespace SecureBoot

/-- An object identifier in its written form. -/
structure Oid where
  content : Bytes
  deriving DecidableEq, Inhabited, Repr

namespace Oid

/-- A number in base 128, the top bit set in all octets but the last. -/
def base128 (n : Nat) : Bytes :=
  (List.range (n.log2 / 7 + 1)).reverse.map fun place =>
    UInt8.ofNat (n >>> (7 * place) % 128 + if place = 0 then 0 else 128)

/-- The identifier that these numbers spell. -/
def ofArcs : List Nat → Oid
  | first :: second :: rest => ⟨base128 (40 * first + second) ++ rest.flatMap base128⟩
  | _ => ⟨[]⟩

def encode (o : Oid) : Bytes := Der.element Der.Tag.objectIdentifier o.content

def ofElement? (e : Der.Element) : Option Oid :=
  (e.contentOf? Der.Tag.objectIdentifier).map Oid.mk

/-! ## Well-formed identifiers -/

/-- Whether every number ends, and takes at most five octets of which the last is below sixteen.
`taken` octets of the current number have been seen. -/
def endsArcs (taken : Nat) : Bytes → Bool
  | [] => taken == 0
  | octet :: rest =>
    if 4 ≤ taken ∧ 16 ≤ octet then false
    else endsArcs (if octet < 128 then 0 else taken + 1) rest

/-- The identifiers that strict reading takes: three to thirty-nine octets, the first two numbers at
most 2 and 39. -/
def isWellFormed (o : Oid) : Bool :=
  match o.content with
  | first :: rest => 2 ≤ rest.length && rest.length ≤ 38 && first < 120 && endsArcs 0 rest
  | [] => false

/-! ## Signatures -/

def data : Oid := ofArcs [1, 2, 840, 113549, 1, 7, 1]
def signedData : Oid := ofArcs [1, 2, 840, 113549, 1, 7, 2]
def contentType : Oid := ofArcs [1, 2, 840, 113549, 1, 9, 3]
def messageDigest : Oid := ofArcs [1, 2, 840, 113549, 1, 9, 4]

/-- The content of a signature over an executable. -/
def indirectData : Oid := ofArcs [1, 3, 6, 1, 4, 1, 311, 2, 1, 4]

/-- The description of the program that was signed. -/
def programInfo : Oid := ofArcs [1, 3, 6, 1, 4, 1, 311, 2, 1, 12]

/-- The description of an executable whose digest was signed. -/
def imageData : Oid := ofArcs [1, 3, 6, 1, 4, 1, 311, 2, 1, 15]

/-! ## Algorithms -/

def rsaEncryption : Oid := ofArcs [1, 2, 840, 113549, 1, 1, 1]
def sha1 : Oid := ofArcs [1, 3, 14, 3, 2, 26]

/-- The identifiers of RSA, of signing with it, and of its paddings begin so. -/
def rsaFamily : Oid := ofArcs [1, 2, 840, 113549, 1, 1]

/-- The identifiers of signing on elliptic curves begin so. -/
def ecdsaFamily : Oid := ofArcs [1, 2, 840, 10045, 4]

/-- The identifiers of the newer digests begin so. -/
def digestFamily : Oid := ofArcs [2, 16, 840, 1, 101, 3, 4, 2]

/-! ## Certificates -/

def basicConstraints : Oid := ofArcs [2, 5, 29, 19]
def extendedKeyUsage : Oid := ofArcs [2, 5, 29, 37]
def codeSigning : Oid := ofArcs [1, 3, 6, 1, 5, 5, 7, 3, 3]
def timeStamping : Oid := ofArcs [1, 3, 6, 1, 5, 5, 7, 3, 8]

/-- A certificate for this use signs nothing that outlives it. -/
def lifetimeSigning : Oid := ofArcs [1, 3, 6, 1, 4, 1, 311, 10, 3, 13]

end Oid

end SecureBoot
