import SecureBoot.Authenticode
import SecureBoot.Text.Utf8

/-!
# Making signatures

`Recipe.signature?` writes the signed data for an image digest. What varies is the digest, the
algorithm, the certificates, and the name of the program if one is given; the rest is fixed text.
The signature is made over the attributes written as a set.
-/

namespace SecureBoot.Authenticode

/-- What a signature is made from. -/
structure Recipe where
  algorithm : DigestAlgorithm
  /-- The digest of the image. -/
  fileHash : Bytes
  programName : Option String
  key : Rsa.PrivateKey
  /-- The certificate of the key. -/
  signingCertificate : X509.Certificate
  /-- The certificates to put into the signature, as they are. -/
  certificates : List Bytes
  deriving DecidableEq, Inhabited, Repr

/-- The algorithms that can sign. -/
def signingAlgorithms : List DigestAlgorithm :=
  [.sha224, .sha256, .sha384, .sha512, .sha3_256, .sha3_384, .sha3_512]

/-! ## Fixed parts -/

/-- A link that has to be there and leads nowhere. -/
def obsoleteLink : Bytes :=
  Der.element (Der.Tag.context 2)
    (Der.element (Der.Tag.contextPrimitive 0) (Text.encodeUtf16 "<<<Obsolete>>>"))

/-- The description of the file: flags and a link. -/
def fileDescription : Bytes :=
  Der.sequence [Oid.imageData.encode,
    Der.sequence [Der.element Der.Tag.bitString [0x05, 0x80], Der.context 0 [obsoleteLink]]]

/-! ## Parts that vary -/

/-- An algorithm without parameters. -/
def algorithmIdentifier (oid : Oid) : Bytes := Der.sequence [oid.encode, Der.null]

/-- The statement that an image has a digest. -/
def statementOf (algorithm : Oid) (fileHash : Bytes) : Bytes :=
  fileDescription ++ Der.sequence [algorithmIdentifier algorithm, Der.octetString fileHash]

/-- An attribute of the signer with one value. -/
def attributeOf (kind : Oid) (value : Bytes) : Bytes := Der.sequence [kind.encode, Der.set [value]]

/-- The name of a program as attributes have it. A name is refused if its units, taken with their
bytes swapped, are no text. -/
def programText? : Option String → Option Bytes
  | none => some []
  | some name =>
    let text := Text.encodeUtf16 name
    if Text.isUtf16LE text then
      some (Der.context 0 [Der.element (Der.Tag.contextPrimitive 0) text])
    else none

/-- The attributes of the signer: the kind of content, the program, the digest of the statement. -/
def attributesOf (program statementDigest : Bytes) : Bytes :=
  attributeOf .contentType Oid.indirectData.encode ++
    attributeOf .programInfo (Der.sequence [program, Der.context 1 [obsoleteLink]]) ++
    attributeOf .messageDigest (Der.octetString statementDigest)

/-! ## The whole -/

namespace Recipe

/-- The signer: its certificate, the attributes, and the signature over them. -/
def signer (r : Recipe) (algorithm : Bytes) (attributes signature : Bytes) : Bytes :=
  let c := r.signingCertificate
  Der.sequence [
    Der.smallInteger 1,
    Der.sequence [c.issuer.encode, Der.element Der.Tag.integer c.serial],
    algorithm,
    Der.context 0 [attributes],
    algorithmIdentifier .rsaEncryption,
    Der.octetString signature]

/-- The signed data, or `none` where the recipe cannot sign. -/
def signature? (r : Recipe) : Option Bytes := do
  guard (r.algorithm ∈ signingAlgorithms)
  let oid ← r.algorithm.oid?
  let statement := statementOf oid r.fileHash
  let attributes := attributesOf (← programText? r.programName) (r.algorithm.digest statement)
  let signature ← Rsa.sign? r.key r.algorithm (Der.element Der.Tag.set attributes)
  let algorithm := algorithmIdentifier oid
  return Der.sequence [
    Oid.signedData.encode,
    Der.context 0 [Der.sequence [
      Der.smallInteger 1,
      Der.set [algorithm],
      Der.sequence [Oid.indirectData.encode, Der.context 0 [Der.sequence [statement]]],
      Der.context 0 r.certificates,
      Der.context 1 [],
      Der.set [r.signer algorithm attributes signature]]]]

end Recipe

end SecureBoot.Authenticode
