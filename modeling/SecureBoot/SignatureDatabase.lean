import SecureBoot.SignatureList

/-!
# Signature databases

A signature database is a sequence of signature lists. Their order is the order on disk, and with it
the order in which firmware enrols them. On disk the lists simply follow one another, each telling
its own size.
-/

namespace SecureBoot

structure SignatureDatabase where
  lists : List SignatureList := []
  deriving DecidableEq, Inhabited, Repr

namespace SignatureDatabase

/-- Each entry as a certificate in a list of its own, so that certificates of different lengths
never share a list. -/
def ofEntries (entries : List SignatureEntry) : SignatureDatabase :=
  ⟨entries.map SignatureList.ofCertificate⟩

/-- Adds a list at the end. -/
def push (db : SignatureDatabase) (l : SignatureList) : SignatureDatabase := ⟨db.lists ++ [l]⟩

/-- The entries of all lists in the order on disk. -/
def entries (db : SignatureDatabase) : List SignatureEntry := db.lists.flatMap (·.entries)

def encode (db : SignatureDatabase) : Bytes := db.lists.flatMap SignatureList.encode

/-- Reads lists until the bytes end; `base` is where `b` stands in the whole. -/
def decodeLists (base : Nat) (b : Bytes) : Except Error (List SignatureList) :=
  if b.isEmpty then .ok []
  else
    match SignatureList.decode base b with
    | .error e => .error e
    | .ok l =>
      match decodeLists (base + l.size) (b.drop l.size) with
      | .error e => .error e
      | .ok ls => .ok (l :: ls)
termination_by b.length
decreasing_by
  have := l.fixedSize_le_size
  have hb : 0 < b.length := by
    cases b with
    | nil => simp_all
    | cons => simp
  simp only [SignatureList.fixedSize, Guid.size, List.length_drop] at *
  omega

def decode (b : Bytes) : Except Error SignatureDatabase :=
  (decodeLists 0 b).map (⟨·⟩)

end SignatureDatabase

end SecureBoot
