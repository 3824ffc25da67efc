import SecureBoot.Pem
import SecureBoot.Rsa

/-!
# Private keys

A key file is PEM with one of three labels: `PRIVATE KEY` wraps a key together with the identifier
of its kind, `RSA PRIVATE KEY` and `EC PRIVATE KEY` hold the key alone. Keys of elliptic curves can
be read, but only RSA keys sign.
-/

namespace SecureBoot

inductive PrivateKey where
  | rsa (key : Rsa.PrivateKey)
  /-- A key on an elliptic curve. -/
  | curve
  deriving DecidableEq, Inhabited, Repr

namespace PrivateKey

/-- The identifier of keys on elliptic curves. -/
def curveKey : Oid := Oid.ofArcs [1, 2, 840, 10045, 2, 1]

/-- Keys of the Edwards and Montgomery curves have a number each behind this. -/
def namedCurveFamily : Oid := Oid.ofArcs [1, 3, 101]

/-- Reads a key on an elliptic curve: version one, the secret, then optional fields. -/
def decodeCurve? (b : Bytes) : Option PrivateKey := do
  let version :: secret :: _ ← (← Der.single? .lenient b).inside? .lenient Der.Tag.sequence | none
  guard (version = ⟨Der.Tag.integer, [1]⟩)
  let _ ← secret.contentOf? Der.Tag.octetString
  return .curve

def decodeRsa? (b : Bytes) : Option PrivateKey := (Rsa.PrivateKey.decode? b).map .rsa

/-- Reads a wrapped key: a version, the kind of key, and the key itself. -/
def decodeWrapped? (b : Bytes) : Option PrivateKey := do
  let version :: algorithm :: key :: _ ←
    (← Der.single? .lenient b).inside? .lenient Der.Tag.sequence | none
  let _ ← version.contentOf? Der.Tag.integer
  let kind :: _ ← algorithm.inside? .lenient Der.Tag.sequence | none
  let kind ← Oid.ofElement? kind
  let key ← key.contentOf? Der.Tag.octetString
  if kind = Oid.rsaEncryption then decodeRsa? key
  else if kind = curveKey then decodeCurve? key
  else do
    guard (namedCurveFamily.content.isPrefixOf kind.content)
    return .curve

def ofPem? (p : Pem) : Option PrivateKey :=
  match p.label with
  | "PRIVATE KEY" => decodeWrapped? p.data
  | "RSA PRIVATE KEY" => decodeRsa? p.data
  | "EC PRIVATE KEY" => decodeCurve? p.data
  | _ => none

end PrivateKey

end SecureBoot
