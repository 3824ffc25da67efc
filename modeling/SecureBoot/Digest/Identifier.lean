import SecureBoot.Der.Oid
import SecureBoot.Digest
import SecureBoot.Error

/-!
# Identifiers of digest algorithms

Signatures name their digest by an object identifier. A few identifiers of the same families stand
for something else, or for nothing; `DigestAlgorithm.ofOid` refuses these.
-/

namespace SecureBoot.DigestAlgorithm

/-- The algorithms in the family of the newer digests, and their numbers there. -/
def numbered : List (DigestAlgorithm × Nat) :=
  [(.sha256, 1), (.sha384, 2), (.sha512, 3), (.sha224, 4), (.sha3_256, 8), (.sha3_384, 9),
    (.sha3_512, 10)]

/-- The identifier of an algorithm; there is none for MD5 here. -/
def oid? (a : DigestAlgorithm) : Option Oid :=
  if a = .sha1 then some .sha1
  else (numbered.lookup a).map fun number => ⟨Oid.digestFamily.content ++ Oid.base128 number⟩

/-- All algorithms that have an identifier. -/
def identified : List DigestAlgorithm := .sha1 :: numbered.map Prod.fst

def ofOid (oid : Oid) : Except Error DigestAlgorithm :=
  match identified.find? (·.oid? = some oid) with
  | some a => .ok a
  | none => .error .unknownDigestAlgorithm

end SecureBoot.DigestAlgorithm
