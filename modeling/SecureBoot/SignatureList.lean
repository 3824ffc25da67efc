import SecureBoot.Error

/-!
# Signature lists

A signature list holds certificates or image digests of one type, each with the GUID of its owner.

**One size.** All entries of a list take the same number of bytes on disk (`SignatureList.push`
refuses another), because the format states that number once for the whole list.

**Empty lists** still state a size. The usual one of the type is implied; another one, found when
the list was read, is kept in `declaredSize` until a first entry settles the matter.
-/

namespace SecureBoot

/-- A certificate or digest and the GUID of its owner. -/
structure SignatureEntry where
  owner : Guid
  data : Bytes
  deriving DecidableEq, Inhabited, Repr

/-- The bytes an entry takes: its owner and its data. -/
def SignatureEntry.size (entry : SignatureEntry) : Nat := Guid.size + entry.data.length

def SignatureEntry.encode (entry : SignatureEntry) : Bytes := entry.owner.toBytes ++ entry.data

def SignatureEntry.decode (b : Bytes) : SignatureEntry := ⟨Guid.ofBytes b, b.drop Guid.size⟩

/-- Entries of one type and one size. -/
structure SignatureList where
  signatureType : Guid
  header : Bytes := []
  entries : List SignatureEntry := []
  declaredSize : Option Nat := none
  deriving DecidableEq, Inhabited, Repr

namespace SignatureList

/-- Bytes of the type and the three sizes in front of every list. -/
def fixedSize : Nat := Guid.size + 3 * 4

/-- The entry size that an empty list of a type states unless it was read with another. -/
def usualSize (signatureType : Guid) : Nat :=
  if signatureType = Guid.sha256 then Guid.size + 32 else Guid.size

/-- The list of one certificate. -/
def ofCertificate (entry : SignatureEntry) : SignatureList :=
  { signatureType := Guid.x509, entries := [entry] }

/-- The size of every entry, or the size stated where there is none. -/
def signatureSize (l : SignatureList) : Nat :=
  match l.entries with
  | entry :: _ => entry.size
  | [] => l.declaredSize.getD (usualSize l.signatureType)

/-- The bytes the list takes on disk. -/
def size (l : SignatureList) : Nat :=
  fixedSize + l.header.length + l.signatureSize * l.entries.length

/-- The size that a further entry must have, where the list already settles it. -/
def settledSize (l : SignatureList) : Option Nat :=
  match l.entries with
  | entry :: _ => some entry.size
  | [] => l.declaredSize

/-- Refuses an entry that has another size than the others, or makes the list too long. -/
def checkEntry (l : SignatureList) (entry : SignatureEntry) : Except Error Unit := do
  if let some expected := l.settledSize then
    if expected ≠ entry.size then throw (.mixedSignatureSize expected entry.size)
  let total := fixedSize + l.header.length + entry.size * (l.entries.length + 1)
  if maxWord < total then throw (.sectionTooLarge "signature list" total maxWord)

/-- The list after the attempt to add an entry at the end, and the error that stopped it. -/
def push (l : SignatureList) (entry : SignatureEntry) : SignatureList × Option Error :=
  match l.checkEntry entry with
  | .error e => (l, some e)
  | .ok () => ({ l with entries := l.entries ++ [entry], declaredSize := none }, none)

/-! ## On disk -/

/-- The list on disk: type, size of the list, size of its header, size of an entry, the header, the
entries. -/
def encode (l : SignatureList) : Bytes :=
  l.signatureType.toBytes ++ Bytes.ofNatLE 4 l.size ++ Bytes.ofNatLE 4 l.header.length ++
    Bytes.ofNatLE 4 l.signatureSize ++ l.header ++ l.entries.flatMap SignatureEntry.encode

/-- Cuts bytes into `count` pieces of one size. -/
def pieces : Nat → Nat → Bytes → List Bytes
  | 0, _, _ => []
  | count + 1, size, b => b.take size :: pieces count size (b.drop size)

/-- Refuses an entry size that the type does not allow, and types that are not known. -/
def checkEntrySize (base : Nat) (signatureType : Guid) (size : Nat) : Except Error Unit :=
  if signatureType = Guid.x509 then
    if size < Guid.size then throw (.sizeMismatch (.x509Entry base size)) else pure ()
  else if signatureType = Guid.sha256 then
    if size ≠ Guid.size + 32 then
      throw (.sizeMismatch (.sha256Entry base size (Guid.size + 32)))
    else pure ()
  else throw (.unknownSignatureType signatureType)

/-- Reads the list at the front of `b`; `base` is where it stands in the whole. -/
def decode (base : Nat) (b : Bytes) : Except Error SignatureList := do
  let available := b.length
  if available < fixedSize then
    throw (.truncated .signatureListHeader base fixedSize available)
  let signatureType := Guid.ofBytes b
  let listSize := (b.u32 16).toNat
  let headerSize := (b.u32 20).toNat
  let entrySize := (b.u32 24).toNat
  let start := fixedSize + headerSize
  if listSize < start then throw (.sizeMismatch (.listBelowHeader base listSize start))
  if available < listSize then throw (.truncated .signatureList base listSize available)
  checkEntrySize base signatureType entrySize
  let body := b.slice start listSize
  if body.length % entrySize ≠ 0 then
    throw (.sizeMismatch (.unevenEntries base body.length entrySize))
  let entries := (pieces (body.length / entrySize) entrySize body).map SignatureEntry.decode
  return {
    signatureType
    header := b.slice fixedSize start
    entries
    declaredSize :=
      if entries.isEmpty ∧ entrySize ≠ usualSize signatureType then some entrySize else none }

theorem fixedSize_le_size (l : SignatureList) : fixedSize ≤ l.size := by
  unfold size; omega

end SignatureList

end SecureBoot
