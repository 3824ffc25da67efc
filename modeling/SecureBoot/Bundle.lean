import SecureBoot.Error
import SecureBoot.Pem.Chain
import SecureBoot.SignedData

/-!
# Certificate bundles

A bundle is signed data that nobody signed: it only carries certificates. `Bundle.ofPem` makes one
from a chain of certificates in PEM. The certificates form a set, so they are written in ascending
order, and no two of them may be equal. A bundle is not longer than what can be read strictly.
-/

namespace SecureBoot.Bundle

/-- The certificate at the front of some data. -/
def certificateOf? (data : Bytes) : Option X509.Certificate := do
  let (_, rest) ← Der.next? .strict data
  X509.Certificate.decode? .strict (data.take (data.length - rest.length))

/-- Signed data with nothing but certificates. -/
def encode (certificates : List Bytes) : Bytes :=
  Der.sequence [
    Oid.signedData.encode,
    Der.context 0 [Der.sequence [
      Der.smallInteger 1,
      Der.set [],
      Der.sequence [Oid.data.encode],
      Der.context 0 certificates,
      Der.set []]]]

/-- The bundle of the certificates in a PEM file. -/
def ofPem? (pem : Bytes) : Option Bytes := do
  let certificates ← (← Pem.Chain.read? pem).mapM certificateOf?
  let encodings := X509.ascending (certificates.map X509.Certificate.encode)
  guard encodings.Nodup
  let bundle := encode encodings
  guard (bundle.length ≤ Der.maxStrictLength)
  return bundle

def ofPem (pem : Bytes) : Except Error Bytes :=
  match ofPem? pem with
  | some bundle => .ok bundle
  | none => .error .cannotEncodeBundle

end SecureBoot.Bundle
