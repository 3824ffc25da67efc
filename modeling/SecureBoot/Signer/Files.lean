import SecureBoot.Disk
import SecureBoot.SignedOutput
import SecureBoot.Signer

/-!
# Signing files
-/

namespace SecureBoot.Signer

/-- Reads the certificates and then the key. -/
def load (certificates key : String) : DiskM Signer := do
  DiskM.permit (.unreadable certificates)
  let bundle ← DiskM.ofExcept (readBundle (← DiskM.files) certificates)
  DiskM.permit (.unreadable key)
  let pem ← DiskM.ofExcept (readPem (← DiskM.files) key)
  DiskM.ofExcept (withKey bundle pem key)

/-- Signs an image in a file; gives the path written. -/
def signFile (s : Signer) (image : String) (output : SignedOutput) : DiskM String := do
  let signed ← DiskM.ofExcept (s.signImage (← DiskM.read image))
  let path := output.resolve image
  DiskM.replace path signed
  return path

/-- Signs an image in a file with certificates and a key from files; gives the path written. -/
def resign (image certificates key : String) (output : SignedOutput) : DiskM String := do
  (← load certificates key).signFile image output

end SecureBoot.Signer
