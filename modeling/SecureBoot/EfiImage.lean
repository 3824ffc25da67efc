import SecureBoot.Authenticode
import SecureBoot.Pe.Headers

/-!
# Images

An executable as the firmware sees it when it checks signatures: the fields that signing changes
(checksum, directory entry and contents of the certificate table), what follows the sections, and
the signatures themselves.

**Padding.** The bytes of an image are padded with zeros to a multiple of eight, so that a
certificate table put behind them begins at one. Everything else in the structure was read before
the padding.
-/

namespace SecureBoot

/-- Bytes together with their place in the file. -/
structure Span where
  offset : Nat
  data : Bytes
  deriving DecidableEq, Inhabited, Repr

/-- Where the bytes end. -/
def Span.stop (s : Span) : Nat := s.offset + s.data.length

/-- The bytes from `start` up to `stop`, all of which must be there. -/
def Bytes.range (b : Bytes) (start stop : Nat) (part : Part) : Except Error Bytes :=
  if start ≤ stop ∧ stop ≤ b.length then .ok (b.slice start stop)
  else .error (.truncated part start (stop - start) (b.length - start))

theorem Bytes.range_eq_ok {b : Bytes} {start stop : Nat} {part : Part} {r : Bytes} :
    b.range start stop part = .ok r ↔
      (start ≤ stop ∧ stop ≤ b.length) ∧ r = b.slice start stop := by
  unfold Bytes.range
  split
  · simp_all [eq_comm]
  · exact ⟨fun h => by simp at h, fun h => absurd h.1 (by assumption)⟩

structure EfiImage where
  headers : Pe.Headers
  /-- The bytes of the image, padded. -/
  raw : Bytes
  checksum : Span
  certificateTable : Option Span
  certificateDirectory : Span
  /-- What follows the sections, around the certificate table; `none` where nothing does. -/
  overlay : Option (List Span)
  signatures : List WinCertificate
  deriving DecidableEq, Inhabited, Repr

namespace EfiImage

/-- Bytes of the checksum. -/
def checksumSize : Nat := 4

/-! ## Signatures -/

/-- Refuses a signature that does not name exactly one signer and one digest algorithm, the same in
both places. -/
def checkSignature (a : Authenticode) : Except Error Unit := do
  let algorithms := a.signed.digestAlgorithms
  if algorithms.length ≠ 1 then throw (.badImage (.digestAlgorithmCount algorithms.length))
  let signers := a.signed.signers
  if signers.length ≠ 1 then throw (.badImage (.signerCount signers.length))
  if algorithms ≠ signers.map (·.digestAlgorithm) then throw (.badImage .digestAlgorithmsDiffer)

/-- Reads the entry at `start` of a certificate table that ends at `stop`, and where the entry
ends. -/
def readEntry (b : Bytes) (start stop : Nat) : Except Error (WinCertificate × Nat) := do
  let length := (b.u32 start).toNat
  if length < WinCertificate.headerSize then
    throw (.badImage (.certificateLength length start))
  if stop < start + length then throw (.truncated .winCertificate start length (stop - start))
  let entry ← WinCertificate.decode (b.slice start (start + length))
  checkSignature (← entry.authenticode)
  return (entry, start + length)

/-- Reads entries as long as there is room for the header of one, `room` of them at most. -/
def readEntries (b : Bytes) (stop : Nat) : Nat → Nat → Except Error (List WinCertificate)
  | 0, _ => return []
  | room + 1, start => do
    if stop < start + WinCertificate.headerSize then return []
    let (entry, next) ← readEntry b start stop
    return entry :: (← readEntries b stop room (WinCertificate.align next))

/-- The signatures in a certificate table. -/
def readSignatures (b : Bytes) : Option Pe.DataDirectory → Except Error (List WinCertificate)
  | none => return []
  | some d => do
    let start := d.address.toNat
    let _ ← b.range start d.stop .certificateTable
    readEntries b d.stop (d.size.toNat / WinCertificate.headerSize) start

/-! ## What follows the sections -/

/-- Where headers and sections all have ended. -/
def sectionsStop (h : Pe.Headers) : Nat :=
  (h.sections.map (·.rawStop)).foldl max h.sizeOfHeaders.toNat

def readOverlay (b : Bytes) (h : Pe.Headers) : Except Error (Option (List Span)) := do
  let size := b.length
  let start := sectionsStop h
  if size < start then throw (.badImage .corruptHeaders)
  if size = start then return none
  match h.certificateDirectory with
  | none => return some [⟨start, b.drop start⟩]
  | some d =>
    let before ← b.range start d.address.toNat .overlay
    let behind ← b.range d.stop size .overlay
    return some [⟨start, before⟩, ⟨d.stop, behind⟩]

/-! ## Reading -/

/-- A part of the file with its place. -/
def readSpan (b : Bytes) (offset size : Nat) (part : Part) : Except Error Span := do
  return ⟨offset, ← b.range offset (offset + size) part⟩

def decode (b : Bytes) : Except Error EfiImage := do
  let headers ← Pe.Headers.decode b
  let signatures ← readSignatures b headers.certificateDirectory
  let certificateTable ← headers.certificateDirectory.mapM fun d =>
    readSpan b d.address.toNat d.size.toNat .certificateTable
  let checksum ← readSpan b headers.checksumOffset checksumSize .checksum
  let certificateDirectory ←
    readSpan b headers.certificateDirectoryOffset Pe.DataDirectory.width .certificateDirectory
  let overlay ← readOverlay b headers
  return {
    headers
    raw := Bytes.padTo b (WinCertificate.align b.length)
    checksum
    certificateTable
    certificateDirectory
    overlay
    signatures }

end EfiImage

end SecureBoot
