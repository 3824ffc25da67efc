import SecureBoot.SignatureDatabase

/-!
# Vendor certificate tables

A boot loader carries its own allowed (`db`) and revoked (`dbx`) signatures in one table: four
32-bit numbers, then the bytes of `db`, then those of `dbx`.

**The header** tells offset and size of both parts. `VendorHeader.new` lays them out without gaps,
and `VendorTable.decode` accepts only such a layout. What follows `dbx` is padding and is ignored.

**Byte order.** Loaders are built for little-endian machines, so tables are written in that order;
headers can be read and written in both.
-/

namespace SecureBoot

/-- The order of the bytes of a number. -/
inductive ByteOrder where
  | little
  | big
  deriving DecidableEq, Repr

/-- The four bytes of a word. -/
def ByteOrder.ofWord (order : ByteOrder) (w : UInt32) : Bytes :=
  match order with
  | .little => Bytes.ofNatLE 4 w.toNat
  | .big => Bytes.ofNatBE 4 w.toNat

/-- The word that the four bytes at `offset` hold. -/
def ByteOrder.word (order : ByteOrder) (b : Bytes) (offset : Nat) : UInt32 :=
  match order with
  | .little => b.u32 offset
  | .big => UInt32.ofNat (Bytes.toNatLE (b.slice offset (offset + 4)).reverse)

/-- Where the two parts of a table lie. -/
structure VendorHeader where
  dbOffset : UInt32
  dbSize : UInt32
  dbxOffset : UInt32
  dbxSize : UInt32
  deriving DecidableEq, Inhabited, Repr

namespace VendorHeader

def size : Nat := 16

/-- The header for parts of these sizes, one behind the other. -/
def new (dbSize dbxSize : Nat) : Except Error VendorHeader :=
  let total := size + dbSize + dbxSize
  if maxWord < total then throw (.sectionTooLarge ".vendor_cert" total maxWord)
  else return {
    dbOffset := UInt32.ofNat size
    dbSize := UInt32.ofNat dbSize
    dbxOffset := UInt32.ofNat (size + dbSize)
    dbxSize := UInt32.ofNat dbxSize }

def encode (order : ByteOrder) (h : VendorHeader) : Bytes :=
  order.ofWord h.dbOffset ++ order.ofWord h.dbSize ++ order.ofWord h.dbxOffset ++
    order.ofWord h.dbxSize

def decode (order : ByteOrder) (b : Bytes) : Except Error VendorHeader :=
  if b.length < size then throw (.truncated .vendorHeader 0 size b.length)
  else return ⟨order.word b 0, order.word b 4, order.word b 8, order.word b 12⟩

/-- Where the allowed signatures end. -/
def dbStop (h : VendorHeader) : Nat := h.dbOffset.toNat + h.dbSize.toNat

/-- Where the revoked signatures end. -/
def dbxStop (h : VendorHeader) : Nat := h.dbxOffset.toNat + h.dbxSize.toNat

end VendorHeader

structure VendorTable where
  db : SignatureDatabase := {}
  dbx : SignatureDatabase := {}
  deriving DecidableEq, Inhabited, Repr

namespace VendorTable

/-- The table on disk, in the byte order of loaders. -/
def encode (t : VendorTable) : Except Error Bytes := do
  let db := t.db.encode
  let dbx := t.dbx.encode
  let header ← VendorHeader.new db.length dbx.length
  return header.encode .little ++ db ++ dbx

def decode (order : ByteOrder) (b : Bytes) : Except Error VendorTable := do
  let h ← VendorHeader.decode order b
  if h.dbOffset.toNat ≠ VendorHeader.size then
    throw (.sizeMismatch (.dbOffset h.dbOffset.toNat VendorHeader.size))
  if h.dbxOffset.toNat ≠ h.dbStop then
    throw (.sizeMismatch (.dbxOffset h.dbxOffset.toNat h.dbOffset.toNat h.dbSize.toNat))
  if b.length < h.dbxStop then throw (.truncated .vendorTable 0 h.dbxStop b.length)
  let db ← SignatureDatabase.decode (b.slice h.dbOffset.toNat h.dbStop)
  let dbx ← SignatureDatabase.decode (b.slice h.dbxOffset.toNat h.dbxStop)
  return { db, dbx }

end VendorTable

end SecureBoot
