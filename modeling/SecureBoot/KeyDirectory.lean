import SecureBoot.FileStore
import SecureBoot.Guid.Reading
import SecureBoot.Pem
import SecureBoot.SignatureDatabase
import SecureBoot.Text.Utf8
import SecureBoot.X509.Certificate

/-!
# Key directories

A key directory holds a certificate in PEM and, in another file, the GUID of its owner as text. It
gives one entry of a signature database.

**Many directories** are loaded in order up to the first failure. What was loaded until then is kept
together with the error (`PartialLoad`).
-/

namespace SecureBoot.KeyDirectory

/-- The file of the certificate. -/
def certificateFile : String := "cert.pem"

/-- The file of the owner. -/
def guidFile : String := "guid"

/-- The label of a certificate in PEM. -/
def certificateLabel : String := "CERTIFICATE"

/-- Refuses bytes that are no certificate. -/
def checkCertificate (path : String) (b : Bytes) : Except Error Unit :=
  if (X509.Certificate.decode? .strict b).isSome then return ()
  else throw (.invalidCertificate path)

/-- The certificate in a PEM file. -/
def readCertificate (files : FileStore) (path : String) : Except Error Bytes := do
  match Pem.read? (← files.read path) with
  | none => throw (.badPem path)
  | some pem =>
    if pem.label ≠ certificateLabel then throw (.unexpectedPemLabel pem.label path)
    checkCertificate path pem.data
    return pem.data

/-- The GUID in a text file. -/
def readGuid (files : FileStore) (path : String) : Except Error Guid := do
  Guid.read (Text.decodeLossy (← files.read path))

/-- The entry of a directory. -/
def loadEntry (files : FileStore) (directory : String) : Except Error SignatureEntry := do
  let data ← readCertificate files (FileStore.join directory certificateFile)
  let owner ← readGuid files (FileStore.join directory guidFile)
  return ⟨owner, data⟩

/-- The entries before a failure, and the failure. -/
structure PartialLoad where
  loaded : List SignatureEntry
  error : Error
  deriving DecidableEq, Repr

namespace PartialLoad

def database (p : PartialLoad) : SignatureDatabase := .ofEntries p.loaded

def message (p : PartialLoad) : String :=
  s!"{p.error.message} after loading {p.loaded.length} entries"

end PartialLoad

/-- The entries of directories, in addition to those already loaded. -/
def loadFurther (files : FileStore) (loaded : List SignatureEntry) :
    List String → Except PartialLoad (List SignatureEntry)
  | [] => return loaded
  | directory :: rest =>
    match loadEntry files directory with
    | .ok entry => loadFurther files (loaded ++ [entry]) rest
    | .error error => throw ⟨loaded, error⟩

/-- The entries of directories, in order. -/
def loadEntries (files : FileStore) (directories : List String) :
    Except PartialLoad (List SignatureEntry) := loadFurther files [] directories

/-- The database of directories, a list for each. -/
def loadDatabase (files : FileStore) (directories : List String) :
    Except PartialLoad SignatureDatabase :=
  (loadEntries files directories).map .ofEntries

end SecureBoot.KeyDirectory
