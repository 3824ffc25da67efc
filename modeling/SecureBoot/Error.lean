import SecureBoot.Digest.Algorithm
import SecureBoot.Guid
import SecureBoot.Text.Quoted

/-!
# Errors

An error is a cause with the values that explain it. `Error.kind` sorts the causes into four broad
classes and `Error.message` puts them into words; nothing else in the library makes up text for a
failure.

**Out of bounds.** `outOfBounds` stands apart from the other causes: it says that a step would have
to touch bytes that the file does not have, at a place where the format offers no check that could
have refused the file before.
-/

namespace SecureBoot

/-- Broad classes of failures. -/
inductive ErrorKind where
  /-- A missing or malformed certificate, GUID, key or executable. -/
  | input
  /-- A corrupt or truncated binary structure. -/
  | format
  /-- A failure to write files. -/
  | resource
  /-- Overlapping sections, oversized payloads, signing failures. -/
  | securityInvariant
  deriving DecidableEq, Repr

/-- A structure that ended before all of its bytes were there. -/
inductive Part where
  | signatureListHeader
  | signatureList
  | vendorHeader
  | vendorTable
  | certificateTable
  | symbolTable
  | stringTable
  | sectionData
  | winCertificate
  | checksum
  | certificateDirectory
  | overlay
  | imageHeader
  deriving DecidableEq, Repr

def Part.name : Part → String
  | .signatureListHeader => "signature list header"
  | .signatureList => "signature list"
  | .vendorHeader => "vendor cert header"
  | .vendorTable => "vendor cert table"
  | .certificateTable => "certificate table"
  | .symbolTable => "symbol table"
  | .stringTable => "string table"
  | .sectionData => "section data"
  | .winCertificate => "WIN_CERTIFICATE"
  | .checksum => "checksum"
  | .certificateDirectory => "certificate data directory"
  | .overlay => "overlay"
  | .imageHeader => "image header"

/-- Two sizes that should agree and do not. -/
inductive SizeFault where
  /-- The list at `base` declares fewer bytes than its headers take. -/
  | listBelowHeader (base declared headers : Nat)
  /-- The entries of a certificate list are too small for an owner. -/
  | x509Entry (base size : Nat)
  /-- The entries of a digest list have another size than an owner and a digest. -/
  | sha256Entry (base size expected : Nat)
  /-- The entries do not fill the list evenly. -/
  | unevenEntries (base bytes size : Nat)
  /-- The allowed signatures do not begin right behind the header. -/
  | dbOffset (found expected : Nat)
  /-- The revoked signatures do not begin right behind the allowed ones. -/
  | dbxOffset (found start size : Nat)
  deriving DecidableEq, Repr

def SizeFault.message : SizeFault → String
  | .listBelowHeader base declared headers =>
    s!"list at {Text.hexMarked base} declares {Text.hexMarked declared} bytes, less than its " ++
      s!"{Text.hexMarked headers} byte header"
  | .x509Entry base size =>
    s!"x509 list at {Text.hexMarked base} has signature size {Text.hexMarked size}"
  | .sha256Entry base size expected =>
    s!"sha256 list at {Text.hexMarked base} has signature size {Text.hexMarked size}, " ++
      s!"expected {Text.hexMarked expected}"
  | .unevenEntries base bytes size =>
    s!"list at {Text.hexMarked base} holds {Text.hexMarked bytes} entry bytes, " ++
      s!"not a multiple of signature size {Text.hexMarked size}"
  | .dbOffset found expected =>
    s!"db offset {Text.hexMarked found}, expected {Text.hexMarked expected}"
  | .dbxOffset found start size =>
    s!"dbx offset {Text.hexMarked found} does not follow db " ++
      s!"[{Text.hexMarked start} + {Text.hexMarked size}]"

/-- What makes a section name unusable. -/
inductive NameFault where
  | empty
  | zeroByte
  | leadingSlash
  /-- The reference into the string table is no number. -/
  | badOffset
  /-- The string table has no text at the offset. -/
  | noEntry
  /-- The reference takes more than the eight bytes of a name field. -/
  | offsetTooLong (offset : Nat)
  deriving DecidableEq, Repr

def NameFault.message : NameFault → String
  | .empty => "empty name"
  | .zeroByte => "contains a NUL byte"
  | .leadingSlash => "a leading '/' marks a string table reference"
  | .badOffset => "bad string table offset"
  | .noEntry => "no such string table entry"
  | .offsetTooLong offset => s!"string table offset {offset} does not fit"

/-- What makes an executable unusable as a signed image. -/
inductive ImageFault where
  /-- An entry of the certificate table is shorter than its own header. -/
  | certificateLength (length offset : Nat)
  | digestAlgorithmCount (count : Nat)
  | signerCount (count : Nat)
  /-- The signer names another digest algorithm than the signature as a whole. -/
  | digestAlgorithmsDiffer
  /-- The file ends before its headers and sections do. -/
  | corruptHeaders
  /-- Two signatures were made over different digests. -/
  | differentHashes (found first : Bytes)
  deriving DecidableEq, Repr

/-- Bytes as a bracketed list of hexadecimal numbers. -/
def hexList (b : Bytes) : String :=
  "[" ++ String.intercalate ", " (b.map fun byte => Text.hex byte.toNat) ++ "]"

def ImageFault.message : ImageFault → String
  | .certificateLength length offset =>
    s!"invalid WIN_CERTIFICATE length {Text.hexMarked length} at {Text.hexMarked offset}"
  | .digestAlgorithmCount count => s!"invalid digest algorithms numbers: {count}"
  | .signerCount count => s!"invalid signer_info numbers: {count}"
  | .digestAlgorithmsDiffer => "digest algorithm not consistent"
  | .corruptHeaders =>
    "file size lesser than the end of the last section, corrupt headers."
  | .differentHashes found first =>
    s!"signature with different hash {hexList found} and {hexList first}"

/-- Everything that can go wrong. -/
inductive Error where
  | notFound (path : String)
  | unreadable (path : String)
  | badPem (path : String)
  | unexpectedPemLabel (label path : String)
  | invalidGuid (text : String)
  | invalidCertificate (path : String)
  | badPrivateKey (path : String)
  | badBundle (path : String)
  | notExecutable
  | badImage (fault : ImageFault)
  | missingOptionalHeader
  | badSectionName (name : String) (fault : NameFault)
  | badAlignment (name : String) (alignment virtualAddress : UInt32)
  | duplicateSection (name : String)
  | missingSection (name : String)
  | mixedSignatureSize (expected actual : Nat)
  | truncated (part : Part) (offset needed available : Nat)
  | unknownSignatureType (guid : Guid)
  | sizeMismatch (fault : SizeFault)
  | badWinCertificate
  | unknownDigestAlgorithm
  | cannotCreateTemporary
  | cannotWrite (path : String)
  | cannotReplace (path : String)
  | sectionOverlap (name other : String) (start stop : Nat)
  | sectionTooLarge (name : String) (size limit : Nat)
  | headersOverflow (sizeOfHeaders firstAddress : Nat)
  | digestChanged
  | cannotEncodeBundle
  | badAuthenticode
  | unsupportedDigest (algorithm : DigestAlgorithm)
  | noDigestAlgorithm
  | outOfBounds (offset needed available : Nat)
  deriving DecidableEq, Repr

namespace Error

def kind : Error → ErrorKind
  | notFound _ | unreadable _ | badPem _ | unexpectedPemLabel .. | invalidGuid _
  | invalidCertificate _ | badPrivateKey _ | badBundle _ | notExecutable | badImage _
  | missingOptionalHeader | badSectionName .. | badAlignment .. | duplicateSection _
  | missingSection _ | mixedSignatureSize .. => .input
  | truncated .. | unknownSignatureType _ | sizeMismatch _ | badWinCertificate
  | unknownDigestAlgorithm | outOfBounds .. => .format
  | cannotCreateTemporary | cannotWrite _ | cannotReplace _ => .resource
  | sectionOverlap .. | sectionTooLarge .. | headersOverflow .. | digestChanged
  | cannotEncodeBundle | badAuthenticode | unsupportedDigest _ | noDigestAlgorithm =>
    .securityInvariant

def message : Error → String
  | notFound path => s!"No such file {path}"
  | unreadable path => s!"Failed to read file {path}"
  | badPem path => s!"Failed to decode pem file {path}"
  | unexpectedPemLabel label path => s!"Unexpected pem label {label} in {path}"
  | invalidGuid text => s!"Invalid GUID {Text.quoted text}"
  | invalidCertificate path => s!"Invalid X.509 certificate in {path}"
  | badPrivateKey path => s!"Parse private key failed, path: {path}"
  | badBundle path => s!"Parse certificate failed, path: {path}"
  | notExecutable => "Failed to decode to a PE/COFF struct"
  | badImage fault => s!"Parse EFI image failed, reason: {fault.message}"
  | missingOptionalHeader => "Missing optional header"
  | badSectionName name fault => s!"Invalid section name {Text.quoted name}: {fault.message}"
  | badAlignment name alignment address =>
    s!"Invalid alignment {Text.hexMarked alignment.toNat} for section {name} " ++
      s!"at {Text.hexMarked address.toNat}"
  | duplicateSection name => s!"Section {name} requested more than once"
  | missingSection name => s!"No section named {name}"
  | mixedSignatureSize expected actual =>
    s!"Signature list entries must share one size: expected {expected}, got {actual}"
  | truncated part offset needed available =>
    s!"Truncated {part.name}: need {needed} bytes at {Text.hexMarked offset}, " ++
      s!"only {available} available"
  | unknownSignatureType guid => s!"Unknown signature type {guid.toText}"
  | sizeMismatch fault => s!"Size mismatch: {fault.message}"
  | badWinCertificate => "Failed to decode to a wincert"
  | unknownDigestAlgorithm => "Invalid digest algorithm"
  | cannotCreateTemporary => "Failed to create a temporary file"
  | cannotWrite path => s!"Failed to write file {path}"
  | cannotReplace path => s!"Failed to move temporary file to {path}"
  | sectionOverlap name other start stop =>
    s!"Section {name} [{Text.hexMarked start} - {Text.hexMarked stop}) overlaps {other}"
  | sectionTooLarge name size limit =>
    s!"Section {name} is {Text.hexMarked size} bytes, limit is {Text.hexMarked limit}"
  | headersOverflow sizeOfHeaders firstAddress =>
    s!"Headers need {Text.hexMarked sizeOfHeaders} bytes but the first section maps " ++
      s!"at {Text.hexMarked firstAddress}"
  | digestChanged =>
    "Failed to sign the image, reason: embedded digest differs from the image digest"
  | cannotEncodeBundle => "Failed to encode the pkcs7 certificate bundle"
  | badAuthenticode => "Failed create a authenticode"
  | unsupportedDigest algorithm =>
    s!"Failed to compute the digest, reason: not supported digest method: {algorithm.name}"
  | noDigestAlgorithm => "No digest algorithm existed"
  | outOfBounds offset needed available =>
    s!"Out of bounds: {needed} bytes at {Text.hexMarked offset}, only {available} available"

end Error

end SecureBoot
