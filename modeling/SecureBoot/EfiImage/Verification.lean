import SecureBoot.EfiImage.Digest
import SecureBoot.EfiImage.Checksum

/-!
# Verifying an image

An image is verified if it is signed at all and every signature is sound for its digest now.
`checkReport` computes what a report on the image would show, and fails where that does.
-/

namespace SecureBoot.EfiImage

/-- Checks a signature against the image. -/
def verifySignature (i : EfiImage) (now : Moment) (w : WinCertificate) : Except Error Unit := do
  let imageDigest ← i.digest (← w.digestAlgorithm)
  (← w.authenticode).verify imageDigest now

def verify (i : EfiImage) (now : Moment) : Except Error Unit := do
  if i.signatures.isEmpty then throw .noDigestAlgorithm
  i.signatures.forM (i.verifySignature now)

/-- Computes what a report shows: in a detailed one the digest of the image and the digest that the
signatures state, and always the digest algorithm. -/
def checkReport (i : EfiImage) (detailed : Bool) : Except Error Unit := do
  if detailed then
    let _ ← i.digest .sha256
    let _ ← i.embeddedDigest
  let _ ← i.digestAlgorithm

end SecureBoot.EfiImage
