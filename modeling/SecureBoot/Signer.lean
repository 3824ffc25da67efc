import SecureBoot.Authenticode.Building
import SecureBoot.Bundle
import SecureBoot.EfiImage.Certificates
import SecureBoot.EfiImage.Checksum
import SecureBoot.FileStore
import SecureBoot.PrivateKey

/-!
# Signing images

A signer has a key, a bundle of certificates of which the first belongs to the key, and what else
goes into its signatures.

**Signing an image** (`signImage`) drops the signatures that no longer match, keeps the others, and
appends one made with the algorithm of those kept or, where there are none, with that of the signer.
The checksum is computed last.
-/

namespace SecureBoot

structure Signer where
  /-- The certificates as found. -/
  bundle : List Bytes
  key : PrivateKey
  algorithm : DigestAlgorithm := .sha256
  programName : Option String := none
  deriving DecidableEq, Inhabited, Repr

namespace Signer

/-! ## Certificates -/

/-- Whether some bytes are a certificate that does not end every chain. -/
def isBelowRoot (certificate : Bytes) : Bool :=
  (X509.Certificate.decode? .lenient certificate).any (!·.isRoot)

/-- The certificates that go into a signature: those of the bundle that lead to a root, or all of
them if there are none. -/
def certificates (s : Signer) : List Bytes :=
  let chain := s.bundle.filter isBelowRoot
  if chain.isEmpty then s.bundle else chain

/-! ## Signatures -/

/-- The recipe for a signature: the key must be an RSA key, and the first certificate that can be
read must be fit for signing code. -/
def recipe? (s : Signer) (fileHash : Bytes) (algorithm : DigestAlgorithm) :
    Option Authenticode.Recipe := do
  let readable := Authenticode.readable s.bundle
  let signingCertificate ← readable.head?
  guard (signingCertificate.maySignCode readable)
  let .rsa key := s.key | none
  return {
    algorithm, fileHash, key, signingCertificate
    programName := s.programName
    certificates := s.certificates }

/-- The signature for an image digest. -/
def signatureFor (s : Signer) (fileHash : Bytes) (algorithm : DigestAlgorithm) :
    Except Error WinCertificate :=
  match (s.recipe? fileHash algorithm).bind (·.signature?) with
  | some certificate => .ok { certificate }
  | none => .error .badAuthenticode

/-! ## Images -/

/-- The bytes of a signed image, for the bytes of an image. -/
def signImage (s : Signer) (image : Bytes) : Except Error Bytes := do
  let cleaned := (← (← EfiImage.decode image).dropStale).getD image
  let current ← EfiImage.decode cleaned
  let algorithm := (← current.digestAlgorithm).getD s.algorithm
  let fileHash ← current.digest algorithm
  let signature ← s.signatureFor fileHash algorithm
  let signed ← EfiImage.decode (← current.setSignatures [signature])
  if (← signed.embeddedDigest) ≠ some fileHash then throw .digestChanged
  return signed.withChecksum

/-! ## Files -/

def readPem (files : FileStore) (path : String) : Except Error Pem := do
  match Pem.read? (← files.read path) with
  | some pem => return pem
  | none => throw (.badPem path)

/-- The certificates in a file: a bundle, or a chain of certificates. -/
def readBundle (files : FileStore) (path : String) : Except Error (List Bytes) := do
  let pem ← readPem files path
  let bundle ←
    if pem.label = "PKCS7" then pure pem.data
    else if pem.label = "CERTIFICATE" then Bundle.ofPem (← files.read path)
    else throw (.unexpectedPemLabel pem.label path)
  match SignedData.decode? bundle with
  | some signed => return signed.certificates
  | none => throw (.badBundle path)

/-- The signer with some certificates and the key from a file. -/
def withKey (bundle : List Bytes) (key : Pem) (path : String) : Except Error Signer :=
  match PrivateKey.ofPem? key with
  | some key => .ok { bundle, key }
  | none => .error (.badPrivateKey path)

end Signer

end SecureBoot
