import SecureBoot.CodeSigning
import SecureBoot.Rsa
import SecureBoot.SignedData
import SecureBoot.WinCertificate

/-!
# Signatures over executables

A signature over an executable is signed data whose content is a **statement**: a description of the
kind of file and the digest of the image. One signer signs some attributes, among them the digest of
the statement.

`decode` reads the structure, `verify` checks what it says: that everything names one digest
algorithm, that the image has the stated digest, that the statement has the digest in the
attributes, that the key of the signer's certificate made the signature over the attributes, and
that the certificate was fit to sign now. Nobody asks who issued the certificate.
-/

namespace SecureBoot

/-- What is signed: the digest of an image. -/
structure Statement where
  digestAlgorithm : X509.Algorithm
  digest : Bytes
  /-- The statement as written, of which the signer states the digest. -/
  encoding : Bytes
  deriving DecidableEq, Inhabited, Repr

/-- A signature as found in the certificate table. -/
structure Authenticode where
  signed : SignedData
  statement : Option Statement
  deriving DecidableEq, Inhabited, Repr

namespace Statement

/-- Reads a description of an executable: some flags, then a field that nobody uses. -/
def isDescription (e : Der.Element) : Bool :=
  match e.row? Der.Tag.sequence with
  | some (kind :: value :: _) =>
    Oid.ofElement? kind == some Oid.imageData && value.tag == Der.Tag.sequence
  | _ => false

def ofElement? (e : Der.Element) : Option Statement := do
  let description :: info :: _ ← e.row? Der.Tag.sequence | none
  guard (isDescription description)
  let algorithm :: digest :: _ ← info.row? Der.Tag.sequence | none
  return ⟨← SignedData.algorithm? algorithm, ← digest.contentOf? Der.Tag.octetString, e.content⟩

end Statement

namespace Authenticode

/-! ## Reading -/

/-- The statement in signed data. Content of another kind is a string of octets and states
nothing; plain data may be missing altogether. -/
def statement? (signed : SignedData) : Option (Option Statement) :=
  match signed.content with
  | none => if signed.contentType = Oid.data then some none else none
  | some content =>
    if signed.contentType = Oid.indirectData then (Statement.ofElement? content).map some
    else (content.contentOf? Der.Tag.octetString).map fun _ => none

def decode? (b : Bytes) : Option Authenticode := do
  let signed ← SignedData.decode? b
  return ⟨signed, ← statement? signed⟩

def decode (b : Bytes) : Except Error Authenticode :=
  match decode? b with
  | some a => .ok a
  | none => .error .badAuthenticode

/-- The digest of the image that the signature was made over. -/
def fileHash (a : Authenticode) : Option Bytes := a.statement.map (·.digest)

/-- The digest algorithm that the signature names first. -/
def digestAlgorithm (a : Authenticode) : Except Error DigestAlgorithm :=
  match a.signed.digestAlgorithms with
  | first :: _ => DigestAlgorithm.ofOid first.oid
  | [] => .error .noDigestAlgorithm

/-! ## Attributes -/

/-- The first value of an attribute of the signer. -/
def signerAttribute? (attributes : Bytes) (kind : Oid) : Option Der.Element := do
  let row ← Der.elements? .lenient attributes
  row.findSome? fun e =>
    match e.row? Der.Tag.sequence with
    | some [name, values] =>
      if Oid.ofElement? name = some kind then
        ((values.row? Der.Tag.set).getD []).head?
      else none
    | _ => none

/-! ## Verifying -/

/-- The certificates that can be read. -/
def readable (certificates : List Bytes) : List X509.Certificate :=
  certificates.filterMap (X509.Certificate.decode? .lenient)

/-- Whether a certificate is the one that a signer names. -/
def isOf (id : SignerId) (c : X509.Certificate) : Bool :=
  match id with
  | .issuerAndSerial issuer serial => c.issuer == issuer && c.serial == serial
  | .keyId _ => false

/-- Whether a certificate held when it signed: now, or before, if the time of signing was attested
and the certificate lets signatures outlive it. -/
def isTimely (c : X509.Certificate) (bundle : List X509.Certificate) (now : Moment) : Bool :=
  match Moment.ofElement? c.validity.notBefore, Moment.ofElement? c.validity.notAfter with
  | some start, some stop =>
    start ≤ now &&
      (now ≤ stop || (bundle.any (·.hasUsage .timeStamping) && !c.hasUsage .lifetimeSigning))
  | _, _ => false

/-- The key of a certificate, if it is an RSA key. -/
def rsaKey? (c : X509.Certificate) : Option Rsa.PublicKey := do
  guard (c.publicKey.algorithm.oid = Oid.rsaEncryption)
  Rsa.PublicKey.decode? c.publicKey.key.bytes

/-- Whether the signature is sound for an image with a digest. -/
def isSound (a : Authenticode) (imageDigest : Bytes) (now : Moment) : Bool := Option.isSome do
  let statement ← a.statement
  let [signer] := a.signed.signers | none
  guard (a.signed.version = 1)
  guard (a.signed.digestAlgorithms = [signer.digestAlgorithm])
  guard (statement.digestAlgorithm = signer.digestAlgorithm)
  guard (statement.digest = imageDigest)
  let algorithm ← (DigestAlgorithm.ofOid signer.digestAlgorithm.oid).toOption
  let bundle := readable a.signed.certificates
  let certificate ← bundle.find? (isOf signer.signerId)
  let key ← rsaKey? certificate
  guard (Rsa.verify key algorithm (Der.element Der.Tag.set signer.attributes) signer.signature)
  let stated ← signerAttribute? signer.attributes .messageDigest
  guard (stated = ⟨Der.Tag.octetString, algorithm.digest statement.encoding⟩)
  guard (certificate.maySignCode bundle && isTimely certificate bundle now)

def verify (a : Authenticode) (imageDigest : Bytes) (now : Moment) : Except Error Unit :=
  if a.isSound imageDigest now then .ok () else .error .badAuthenticode

end Authenticode

/-! ## Entries of the certificate table -/

namespace WinCertificate

def authenticode (w : WinCertificate) : Except Error Authenticode :=
  Authenticode.decode w.certificate

/-- The digest of the image that the signature was made over. -/
def fileHash (w : WinCertificate) : Except Error (Option Bytes) := do
  return (← w.authenticode).fileHash

def digestAlgorithm (w : WinCertificate) : Except Error DigestAlgorithm := do
  (← w.authenticode).digestAlgorithm

end WinCertificate

end SecureBoot
