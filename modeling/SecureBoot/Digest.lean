import SecureBoot.Digest.Algorithm
import SecureBoot.Digest.Md5
import SecureBoot.Digest.Sha1
import SecureBoot.Digest.Sha256
import SecureBoot.Digest.Sha512
import SecureBoot.Digest.Sha3

/-!
# Digests by algorithm
-/

namespace SecureBoot

/-- The digest of a message. -/
def DigestAlgorithm.digest : DigestAlgorithm → Bytes → Bytes
  | .md5 => Digest.md5
  | .sha1 => Digest.sha1
  | .sha224 => Digest.sha224
  | .sha256 => Digest.sha256
  | .sha384 => Digest.sha384
  | .sha512 => Digest.sha512
  | .sha3_256 => Digest.sha3_256
  | .sha3_384 => Digest.sha3_384
  | .sha3_512 => Digest.sha3_512

end SecureBoot
