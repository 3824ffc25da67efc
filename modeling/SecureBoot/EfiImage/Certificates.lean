import SecureBoot.EfiImage.Digest

/-!
# Changing the certificate table

Signatures are appended behind those that an image has (`setSignatures`), taken away with the whole
table (`strip`), or left out where the image has changed since they were made (`dropStale`). Each
gives the bytes of a new image.

**The directory entry** is overwritten in place. An image can be so malformed that the table stands
in front of its own entry; then taking the table away moves the entry out of the file, which is
`outOfBounds`.
-/

namespace SecureBoot.EfiImage

/-- The bytes with the directory entry of the certificate table filled in. -/
def patchDirectory (i : EfiImage) (b : Bytes) (address size : Nat) : Except Error Bytes :=
  let offset := i.certificateDirectory.offset
  let width := Pe.DataDirectory.width
  if b.length < offset + width then .error (.outOfBounds offset width (b.length - offset))
  else .ok (b.overwrite offset (Bytes.ofNatLE 4 address ++ Bytes.ofNatLE 4 size))

/-- The bytes of the image without a certificate table. -/
def strip (i : EfiImage) : Except Error Bytes :=
  let bytes :=
    match i.certificateTable with
    | none => i.raw
    | some table => i.raw.take table.offset ++ i.raw.drop table.stop
  i.patchDirectory bytes 0 0

/-- The bytes of the image with further signatures. -/
def setSignatures (i : EfiImage) (signatures : List WinCertificate) : Except Error Bytes :=
  let added := signatures.flatMap WinCertificate.encode
  match i.certificateTable with
  | none => i.patchDirectory (i.raw ++ added) i.raw.length added.length
  | some table =>
    let front := i.raw.take table.stop
    let table' := Bytes.padTo front (WinCertificate.align front.length) ++ added
    i.patchDirectory (table' ++ i.raw.drop table.stop) table.offset (table'.length - table.offset)

/-- Whether a signature states the digest that the image has. -/
def isCurrent (i : EfiImage) (w : WinCertificate) : Except Error Bool := do
  let current ← i.digest (← w.digestAlgorithm)
  return (← w.fileHash) == some current

/-- The bytes of the image without the signatures that no longer match it; `none` if all of them
do. -/
def dropStale (i : EfiImage) : Except Error (Option Bytes) := do
  let kept ← i.signatures.filterM i.isCurrent
  if kept.length = i.signatures.length then return none
  let stripped ← i.strip
  if kept.isEmpty then return some stripped
  return some (← (← decode stripped).setSignatures kept)

end SecureBoot.EfiImage
