/-!
# Digest algorithms

The hash functions that signatures may name. Which of them an image digest is computed with, and
which of them can sign, is decided where that is done.
-/

namespace SecureBoot

inductive DigestAlgorithm where
  | md5
  | sha1
  | sha224
  | sha256
  | sha384
  | sha512
  | sha3_256
  | sha3_384
  | sha3_512
  deriving DecidableEq, Inhabited, Repr

/-- The name that messages use. -/
def DigestAlgorithm.name : DigestAlgorithm → String
  | .md5 => "MD5"
  | .sha1 => "SHA1"
  | .sha224 => "SHA2_224"
  | .sha256 => "SHA2_256"
  | .sha384 => "SHA2_384"
  | .sha512 => "SHA2_512"
  | .sha3_256 => "SHA3_256"
  | .sha3_384 => "SHA3_384"
  | .sha3_512 => "SHA3_512"

end SecureBoot
