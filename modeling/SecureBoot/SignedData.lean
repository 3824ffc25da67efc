import SecureBoot.X509.Certificate

/-!
# Signed data

The common shape of signatures and of certificate bundles: digest algorithms, a content, a set of
certificates and a set of signers. A bundle is signed data without content and signers.

Reading is lenient about how lengths are written, and ignores whatever follows the outermost
element. The certificates stay bytes as they were found, since their issuers signed these bytes.
-/

namespace SecureBoot

/-- Which certificate a signer used. -/
inductive SignerId where
  | issuerAndSerial (issuer : X509.Name) (serial : Bytes)
  | keyId (id : Bytes)
  deriving DecidableEq, Inhabited, Repr

structure SignerInfo where
  version : Nat
  signerId : SignerId
  digestAlgorithm : X509.Algorithm
  /-- What the signature is made over, without identifier octet and length. -/
  attributes : Bytes
  signatureAlgorithm : X509.Algorithm
  signature : Bytes
  deriving DecidableEq, Inhabited, Repr

structure SignedData where
  version : Nat
  digestAlgorithms : List X509.Algorithm
  contentType : Oid
  content : Option Der.Element
  /-- The certificates as found. -/
  certificates : List Bytes
  signers : List SignerInfo
  deriving DecidableEq, Inhabited, Repr

/-- The elements inside an element of a given kind, leniently. -/
def Der.Element.row? (tag : UInt8) (e : Der.Element) : Option (List Der.Element) :=
  e.inside? .lenient tag

namespace SignedData

/-! ## Algorithms -/

/-- Whether an identifier is one of a family of them. -/
def isIn (family oid : Oid) : Bool :=
  family.content.isPrefixOf oid.content && family.content.length < oid.content.length

/-- Whether an algorithm may stand in a signature: a digest without parameters, or a way to sign. -/
def isKnown (a : X509.Algorithm) : Bool :=
  if a.oid = Oid.sha1 ∨ isIn Oid.digestFamily a.oid then
    a.parameters == some ⟨Der.Tag.null, []⟩
  else isIn Oid.rsaFamily a.oid || isIn Oid.ecdsaFamily a.oid

def algorithm? (e : Der.Element) : Option X509.Algorithm := do
  let a ← X509.Algorithm.ofElement? .lenient e
  guard (isKnown a)
  return a

/-! ## Signers -/

/-- The greatest version number in use. -/
def lastVersion : UInt8 := 5

def version? (e : Der.Element) : Option Nat := do
  let [version] ← e.contentOf? Der.Tag.integer | none
  guard (version ≤ lastVersion)
  return version.toNat

/-- An issuer with a serial number goes with version one only. -/
def signerId? (version : Nat) (e : Der.Element) : Option SignerId := do
  if e.tag = Der.Tag.contextPrimitive 0 then return .keyId e.content
  let [issuer, serial] ← e.row? Der.Tag.sequence | none
  guard (version = 1)
  return .issuerAndSerial (← X509.Name.ofElement? .lenient issuer)
    (← serial.contentOf? Der.Tag.integer)

def signer? (e : Der.Element) : Option SignerInfo := do
  let version :: signerId :: digest :: attributes :: algorithm :: signature :: _ ←
    e.row? Der.Tag.sequence | none
  let version ← version? version
  return {
    version
    signerId := ← signerId? version signerId
    digestAlgorithm := ← algorithm? digest
    attributes := ← attributes.contentOf? (Der.Tag.context 0)
    signatureAlgorithm := ← algorithm? algorithm
    signature := ← signature.contentOf? Der.Tag.octetString }

/-! ## The whole -/

/-- Takes the field of a kind off the front, if it is there. -/
def takeField (tag : UInt8) : List Der.Element → Option Der.Element × List Der.Element
  | e :: rest => if e.tag = tag then (some e, rest) else (none, e :: rest)
  | [] => (none, [])

/-- The certificates in the set of them; members of another form are passed over. -/
def certificates? (field : Option Der.Element) : Option (List Bytes) :=
  match field with
  | none => some []
  | some e => (Der.pieces? .lenient e.content).map fun pieces =>
    (pieces.filter (·.1.tag = Der.Tag.sequence)).map Prod.snd

/-- The kind of content, and the element that is the content. -/
def content? (e : Der.Element) : Option (Oid × Option Der.Element) := do
  let kind :: wrapped ← e.row? Der.Tag.sequence | none
  let kind ← Oid.ofElement? kind
  match wrapped with
  | [] => return (kind, none)
  | wrapper :: _ =>
    let [content] ← wrapper.row? (Der.Tag.context 0) | none
    return (kind, some content)

/-- Reads signed data. The set of certificates may be missing where somebody signed. -/
def decode? (b : Bytes) : Option SignedData := do
  let (whole, _) ← Der.next? .lenient b
  let kind :: wrapper :: _ ← whole.row? Der.Tag.sequence | none
  guard ((← Oid.ofElement? kind) = Oid.signedData)
  let body :: _ ← wrapper.row? (Der.Tag.context 0) | none
  let version :: algorithms :: content :: fields ← body.row? Der.Tag.sequence | none
  let (contentType, content) ← content? content
  let (certificates, fields) := takeField (Der.Tag.context 0) fields
  let (_, fields) := takeField (Der.Tag.context 1) fields
  let signers :: _ := fields | none
  let signers ← (← signers.row? Der.Tag.set).mapM signer?
  guard (certificates.isSome ∨ signers ≠ [])
  return {
    version := ← version? version
    digestAlgorithms := ← (← algorithms.row? Der.Tag.set).mapM algorithm?
    contentType
    content
    certificates := ← certificates? certificates
    signers }

end SignedData

end SecureBoot
