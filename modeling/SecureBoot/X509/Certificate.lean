import SecureBoot.X509.Moment
import SecureBoot.X509.Name

/-!
# Certificates

`Certificate.decode?` reads an X.509 certificate, strictly or leniently (`Der.Rules`). Strict
reading decides which bytes may be enrolled as a certificate; lenient reading serves where
certificates are looked up in a signature. No signature is checked here, and the two signature
algorithms that a certificate states need not agree.

**Writing again** (`encode`) gives the distinguished encoding of what was read. It is the bytes
read, except where these spell out a value that goes without saying (the first version, an extension
that is not critical), have the attributes of a name in another order, or hold numbered fields that
have no meaning in their place.
-/

namespace SecureBoot.X509

/-- An algorithm and its parameters, if any. -/
structure Algorithm where
  oid : Oid
  parameters : Option Der.Element := none
  deriving DecidableEq, Inhabited, Repr

namespace Algorithm

def encode (a : Algorithm) : Bytes :=
  Der.sequence [a.oid.encode, (a.parameters.map Der.Element.encode).getD []]

def ofElement? (rules : Der.Rules) (e : Der.Element) : Option Algorithm := do
  let oid :: parameters ← e.inside? rules Der.Tag.sequence | none
  let oid ← Oid.ofElement? oid
  guard (rules = .lenient ∨ oid.isWellFormed)
  guard (parameters.length ≤ 1)
  return ⟨oid, parameters.head?⟩

end Algorithm

/-- Bits in bytes; so many of the last byte do not count. -/
structure BitString where
  unused : UInt8
  bytes : Bytes
  deriving DecidableEq, Inhabited, Repr

namespace BitString

def content (s : BitString) : Bytes := s.unused :: s.bytes

def ofContent? : Bytes → Option BitString
  | [] => none
  | unused :: bytes => if unused ≤ 7 ∧ (unused = 0 ∨ bytes ≠ []) then some ⟨unused, bytes⟩ else none

def ofElement? (e : Der.Element) : Option BitString := do
  ofContent? (← e.contentOf? Der.Tag.bitString)

end BitString

/-- The key of the subject. -/
structure PublicKey where
  algorithm : Algorithm
  key : BitString
  deriving DecidableEq, Inhabited, Repr

namespace PublicKey

def encode (k : PublicKey) : Bytes :=
  Der.sequence [k.algorithm.encode, Der.element Der.Tag.bitString k.key.content]

def ofElement? (rules : Der.Rules) (e : Der.Element) : Option PublicKey := do
  let [algorithm, key] ← e.inside? rules Der.Tag.sequence | none
  return ⟨← Algorithm.ofElement? rules algorithm, ← BitString.ofElement? key⟩

end PublicKey

structure Extension where
  kind : Oid
  critical : Bool := false
  value : Bytes
  deriving DecidableEq, Inhabited, Repr

namespace Extension

def encode (x : Extension) : Bytes :=
  Der.sequence [x.kind.encode, if x.critical then Der.element Der.Tag.boolean [0xff] else [],
    Der.octetString x.value]

def boolean? (e : Der.Element) : Option Bool := do
  match ← e.contentOf? Der.Tag.boolean with
  | [0x00] => return false
  | [0xff] => return true
  | _ => none

def ofElement? (rules : Der.Rules) (e : Der.Element) : Option Extension := do
  let kind :: fields ← e.inside? rules Der.Tag.sequence | none
  let kind ← Oid.ofElement? kind
  guard (rules = .lenient ∨ kind.isWellFormed)
  match fields with
  | [value] => return { kind, value := ← value.contentOf? Der.Tag.octetString }
  | [critical, value] =>
    return {
      kind
      critical := ← boolean? critical
      value := ← value.contentOf? Der.Tag.octetString }
  | _ => none

end Extension

/-- From when to when a certificate holds, both in the form they were stated in. -/
structure Validity where
  notBefore : Der.Element
  notAfter : Der.Element
  deriving DecidableEq, Inhabited, Repr

namespace Validity

def encode (v : Validity) : Bytes := Der.sequence [v.notBefore.encode, v.notAfter.encode]

/-- The earliest year that strict reading takes. -/
def firstYear : Nat := 1970

/-- Whether an element states a moment that may bound the validity. -/
def isBound (rules : Der.Rules) (e : Der.Element) : Bool :=
  match Moment.ofElement? e with
  | none => false
  | some moment => rules = .lenient || firstYear ≤ moment.year

def ofElement? (rules : Der.Rules) (e : Der.Element) : Option Validity := do
  let [notBefore, notAfter] ← e.inside? rules Der.Tag.sequence | none
  guard (isBound rules notBefore && isBound rules notAfter)
  return ⟨notBefore, notAfter⟩

end Validity

structure Certificate where
  /-- Zero for the first version. -/
  version : Nat := 0
  serial : Bytes
  signature : Algorithm
  issuer : Name
  validity : Validity
  subject : Name
  publicKey : PublicKey
  issuerId : Option BitString := none
  subjectId : Option BitString := none
  extensions : Option (List Extension) := none
  signatureAlgorithm : Algorithm
  signatureValue : BitString
  deriving DecidableEq, Inhabited, Repr

namespace Certificate

/-! ## Writing -/

def encodeToBeSigned (c : Certificate) : Bytes :=
  Der.sequence [
    if c.version = 0 then [] else Der.context 0 [Der.smallInteger c.version],
    Der.element Der.Tag.integer c.serial,
    c.signature.encode,
    c.issuer.encode,
    c.validity.encode,
    c.subject.encode,
    c.publicKey.encode,
    (c.issuerId.map fun s => Der.element (Der.Tag.contextPrimitive 1) s.content).getD [],
    (c.subjectId.map fun s => Der.element (Der.Tag.contextPrimitive 2) s.content).getD [],
    (c.extensions.map fun xs => Der.context 3 [Der.sequence (xs.map Extension.encode)]).getD []]

def encode (c : Certificate) : Bytes :=
  Der.sequence [c.encodeToBeSigned, c.signatureAlgorithm.encode,
    Der.element Der.Tag.bitString c.signatureValue.content]

/-! ## Reading -/

/-- Whether an identifier octet is that of a numbered field. -/
def isContext (tag : UInt8) : Bool := 0x80 ≤ tag && tag < 0xc0

/-- The field of a number, and the elements behind it. Fields of smaller numbers in front of it are
passed over. -/
def takeContext (number : Nat) : List Der.Element → Option Der.Element × List Der.Element
  | [] => (none, [])
  | e :: rest =>
    let found := e.tag.toNat % 32
    if isContext e.tag ∧ found = number then (some e, rest)
    else if isContext e.tag ∧ found < number then takeContext number rest
    else (none, e :: rest)

/-- The greatest version number. -/
def lastVersion : UInt8 := 2

def version? (rules : Der.Rules) (field : Der.Element) : Option Nat := do
  let [number] ← field.inside? rules (Der.Tag.context 0) | none
  let [version] ← number.contentOf? Der.Tag.integer | none
  guard (version ≤ lastVersion)
  return version.toNat

/-- Bytes that strict reading allows for a serial number. -/
def maxSerialLength : Nat := 21

/-- Whether an integer is written with as few bytes as its sign allows. -/
def isMinimalInteger : Bytes → Bool
  | [] => false
  | [_] => true
  | first :: second :: _ => !(first == 0x00 && second < 0x80) && !(first == 0xff && 0x80 ≤ second)

def serial? (rules : Der.Rules) (e : Der.Element) : Option Bytes := do
  let serial ← e.contentOf? Der.Tag.integer
  guard (rules = .lenient ∨ (isMinimalInteger serial ∧ serial.length ≤ maxSerialLength))
  return serial

/-- An identifier of the issuer or the subject, a field that holds bits without an element of its
own around them. -/
def uniqueId? (number : Nat) (field : Option Der.Element) : Option (Option BitString) :=
  match field with
  | none => some none
  | some e => (e.contentOf? (Der.Tag.contextPrimitive number)).bind fun content =>
    (BitString.ofContent? content).map some

def extensions? (rules : Der.Rules) (field : Option Der.Element) :
    Option (Option (List Extension)) :=
  match field with
  | none => some none
  | some e => do
    let [row] ← e.inside? rules (Der.Tag.context 3) | none
    let extensions ← (← row.inside? rules Der.Tag.sequence).mapM (Extension.ofElement? rules)
    return some extensions

/-- Reads a certificate that fills all of the bytes. -/
def decode? (rules : Der.Rules) (b : Bytes) : Option Certificate := do
  let [toBeSigned, signatureAlgorithm, signatureValue] ←
    (← Der.single? rules b).inside? rules Der.Tag.sequence | none
  let fields ← toBeSigned.inside? rules Der.Tag.sequence
  let (versionField, fields) := takeContext 0 fields
  let version ← match versionField with
    | none => some 0
    | some field => version? rules field
  let serial :: signature :: issuer :: validity :: subject :: publicKey :: fields := fields | none
  let (issuerId, fields) := takeContext 1 fields
  let (subjectId, fields) := takeContext 2 fields
  let (extensions, fields) := takeContext 3 fields
  guard fields.isEmpty
  return {
    version
    serial := ← serial? rules serial
    signature := ← Algorithm.ofElement? rules signature
    issuer := ← Name.ofElement? rules issuer
    validity := ← Validity.ofElement? rules validity
    subject := ← Name.ofElement? rules subject
    publicKey := ← PublicKey.ofElement? rules publicKey
    issuerId := ← uniqueId? 1 issuerId
    subjectId := ← uniqueId? 2 subjectId
    extensions := ← extensions? rules extensions
    signatureAlgorithm := ← Algorithm.ofElement? rules signatureAlgorithm
    signatureValue := ← BitString.ofElement? signatureValue }

/-! ## What a certificate may be used for -/

/-- The value of the first extension of a kind. -/
def extension? (c : Certificate) (kind : Oid) : Option Bytes :=
  ((c.extensions.getD []).find? (·.kind = kind)).map (·.value)

/-- Whether the subject may issue certificates. -/
def isAuthority (c : Certificate) : Bool :=
  match c.extension? .basicConstraints with
  | none => false
  | some value =>
    match (Der.single? .lenient value).bind (·.inside? .lenient Der.Tag.sequence) with
    | some (first :: _) => first == ⟨Der.Tag.boolean, [0xff]⟩
    | _ => false

/-- Whether the certificate ends every chain: an authority that issued its own certificate. -/
def isRoot (c : Certificate) : Bool := c.isAuthority && c.subject == c.issuer

/-- The uses that the certificate is limited to, if it states any. -/
def usages? (c : Certificate) : Option (List Oid) := do
  let value ← c.extension? .extendedKeyUsage
  let row ← (← Der.single? .lenient value).inside? .lenient Der.Tag.sequence
  row.mapM Oid.ofElement?

/-- Whether the certificate names a use. -/
def hasUsage (c : Certificate) (use : Oid) : Bool := ((c.usages?).getD []).contains use

end Certificate

end SecureBoot.X509
