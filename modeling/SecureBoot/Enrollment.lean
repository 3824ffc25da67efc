import SecureBoot.Disk
import SecureBoot.KeyDirectory

/-!
# Enrolling keys

The variable store of a virtual machine's firmware is written by another program. Enrolling keys
means to put each certificate as a PEM file into a directory, and to tell that program by its
arguments which file is to become which key.
-/

namespace SecureBoot

/-- The keys to enrol: the platform key, and what goes into the three lists. -/
structure KeySet where
  platformKey : SignatureEntry
  keyExchange : List SignatureEntry := []
  allowed : List SignatureEntry := []
  machineOwner : List SignatureEntry := []
  deriving DecidableEq, Inhabited, Repr

namespace Enrollment

/-- The program that writes the variable store. -/
def tool : String := "virt-fw-vars"

/-- Every key with the option that enrols it, in order. -/
def options (keys : KeySet) : List (String × SignatureEntry) :=
  [("--set-pk", keys.platformKey)] ++ keys.keyExchange.map (("--add-kek", ·)) ++
    keys.allowed.map (("--add-db", ·)) ++ keys.machineOwner.map (("--add-mok", ·))

/-- The certificate of an entry in PEM. -/
def certificatePem (entry : SignatureEntry) : Except Error Bytes := do
  KeyDirectory.checkCertificate s!"<entry owned by {entry.owner.toText}>" entry.data
  return (Pem.mk KeyDirectory.certificateLabel entry.data).encode

/-- The arguments for the program, and the PEM files that they speak of, in order. -/
structure Prepared where
  arguments : List String
  files : List (String × Bytes)
  deriving DecidableEq, Inhabited, Repr

namespace Prepared

/-- Writes the PEM files into the directory that they were prepared for; gives their paths. -/
def write (p : Prepared) (directory : String) : DiskM (List String) :=
  p.files.mapM fun file => DiskM.writeInto directory file.1 file.2

end Prepared

/-- The name of the file of a key. -/
def fileName (index : Nat) : String := s!"cert-{index}.pem"

/-- The files and arguments for keys, the first of which has a number. -/
def stage (directory : String) :
    Nat → List (String × SignatureEntry) → Except Error Prepared
  | _, [] => return ⟨[], []⟩
  | index, (option, entry) :: rest => do
    let pem ← certificatePem entry
    let others ← stage directory (index + 1) rest
    let path := FileStore.join directory (fileName index)
    return ⟨[option, entry.owner.toText, path] ++ others.arguments,
      (fileName index, pem) :: others.files⟩

/-- Prepares the enrolment of keys into a variable store, with the PEM files in a directory. -/
def prepare (directory : String) (keys : KeySet) (input output : String) :
    Except Error Prepared := do
  let staged ← stage directory 0 (options keys)
  return { staged with
    arguments := [s!"--input={input}", s!"--output={output}", "--secure-boot", "--no-microsoft"] ++
      staged.arguments }

end Enrollment

end SecureBoot
