import SecureBoot.Error

/-!
# Entries of the certificate table

Each entry is eight bytes of header (length, revision, kind) and a certificate, in practice a whole
signature. The length counts the header. An entry is written with zeros up to a multiple of eight
bytes, and its length counts these too.
-/

namespace SecureBoot

/-- An entry of the certificate table of an executable. -/
structure WinCertificate where
  revision : UInt16 := 0x0200
  kind : UInt16 := 2
  certificate : Bytes
  deriving DecidableEq, Inhabited, Repr

namespace WinCertificate

/-- Bytes in front of the certificate. -/
def headerSize : Nat := 8

/-- Entries begin at multiples of this. -/
def alignment : Nat := 8

/-- The revisions there are. -/
def revisions : List UInt16 := [0x0100, 0x0200]

/-- The kinds of certificate there are. -/
def kinds : List UInt16 := [1, 2, 3, 9]

/-- The next place for an entry. -/
def align (n : Nat) : Nat := alignUp n alignment

/-- The bytes an entry takes. -/
def size (w : WinCertificate) : Nat := align (headerSize + w.certificate.length)

def encode (w : WinCertificate) : Bytes :=
  Bytes.padTo
    (Bytes.ofNatLE 4 w.size ++ Bytes.ofNatLE 2 w.revision.toNat ++ Bytes.ofNatLE 2 w.kind.toNat ++
      w.certificate)
    w.size

/-- Reads an entry that fills all of the bytes. -/
def decode (b : Bytes) : Except Error WinCertificate :=
  let revision := b.u16 4
  let kind := b.u16 6
  if revision ∈ revisions ∧ kind ∈ kinds then
    .ok ⟨revision, kind, b.drop headerSize⟩
  else .error .badWinCertificate

end WinCertificate

end SecureBoot
