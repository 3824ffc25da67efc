import SecureBoot.EfiImage

/-!
# Digest of an image

What a signature states is the digest of the image without the parts that signing changes: the
headers without the checksum and without the directory entry of the certificate table, then the
bytes of the sections by their place in the file, then what follows, without the certificate table.

**What follows** begins at the sum of the sizes of headers and sections. That is the end of the last
section where headers and sections leave no gaps and do not overlap.
-/

namespace SecureBoot.EfiImage

/-- The algorithms that an image digest can be computed with. -/
def imageAlgorithms : List DigestAlgorithm := [.md5, .sha1, .sha256, .sha384, .sha512]

/-- The headers, less checksum and directory entry. -/
def headerInput (i : EfiImage) : Except Error Bytes := do
  let front ← i.raw.range 0 i.checksum.offset .imageHeader
  let middle ← i.raw.range (i.checksum.offset + checksumSize) i.certificateDirectory.offset
    .imageHeader
  let rest ← i.raw.range i.certificateDirectory.stop i.headers.sizeOfHeaders.toNat .imageHeader
  return front ++ middle ++ rest

/-- The sections that have bytes in the file, by their place there. -/
def sectionsInOrder (h : Pe.Headers) : List Pe.SectionHeader :=
  (h.sections.filter (·.sizeOfRawData ≠ 0)).mergeSort fun s t =>
    s.pointerToRawData ≤ t.pointerToRawData

/-- The bytes of the sections. -/
def sectionInput (i : EfiImage) : Except Error Bytes := do
  let pieces ← (sectionsInOrder i.headers).mapM fun s =>
    i.raw.range s.pointerToRawData.toNat s.rawStop .sectionData
  return pieces.flatten

/-- The sum of the sizes of headers and sections. -/
def digestedSize (h : Pe.Headers) : Nat :=
  (h.sections.map (·.sizeOfRawData.toNat)).foldl (· + ·) h.sizeOfHeaders.toNat

/-- What follows the sections, less the certificate table. -/
def trailingInput (i : EfiImage) : Except Error Bytes := do
  let start := digestedSize i.headers
  let size := i.raw.length
  if size ≤ start then return []
  match i.certificateTable with
  | none => return i.raw.drop start
  | some table =>
    let before ← i.raw.range start table.offset .overlay
    let behind ← i.raw.range table.stop size .overlay
    return before ++ behind

/-- Everything that the digest covers. -/
def digestInput (i : EfiImage) : Except Error Bytes := do
  return (← i.headerInput) ++ (← i.sectionInput) ++ (← i.trailingInput)

def digest (i : EfiImage) (a : DigestAlgorithm) : Except Error Bytes := do
  if a ∉ imageAlgorithms then throw (.unsupportedDigest a)
  return a.digest (← i.digestInput)

/-! ## Digests that the signatures state -/

/-- The digest that all of these signatures state, given that of the signatures before them. -/
def agreedHash (first : Option Bytes) : List WinCertificate → Except Error (Option Bytes)
  | [] => return first
  | w :: rest => do
    match ← w.fileHash, first with
    | none, _ => agreedHash first rest
    | some hash, none => agreedHash (some hash) rest
    | some hash, some first =>
      if hash ≠ first then throw (.badImage (.differentHashes hash first))
      agreedHash (some first) rest

/-- The digest that the signatures of an image state; two of them must not differ. -/
def embeddedDigest (i : EfiImage) : Except Error (Option Bytes) := agreedHash none i.signatures

/-- The digest algorithm of the first signature. -/
def digestAlgorithm (i : EfiImage) : Except Error (Option DigestAlgorithm) :=
  i.signatures.head?.mapM WinCertificate.digestAlgorithm

end SecureBoot.EfiImage
