import SecureBoot.CommandLine.Command
import SecureBoot.EfiImage.Verification
import SecureBoot.Enrollment
import SecureBoot.Signer.Files
import SecureBoot.UnifiedKernel
import SecureBoot.VendorDatabase

/-!
# Running commands

`run` carries out a command line on files and gives the files after that, what is printed, and how
the program ends. A command that fails has already printed and written what came before.

**The program that writes variable stores** is not part of this. Its exit status is told, or that
there is no such program.
-/

namespace SecureBoot.CommandLine

/-- What a run depends on besides arguments and files. -/
structure Surroundings where
  now : Moment
  /-- The exit status of the program that writes variable stores; `none` if there is none. -/
  toolStatus : Option Nat
  /-- The directory for the certificates that this program reads. -/
  stagingDirectory : String

/-- How a run ends. -/
inductive Exit where
  | done
  /-- The other program failed. -/
  | toolFailed
  /-- The arguments are refused. -/
  | refused
  | failed
  deriving DecidableEq, Repr

def Exit.code : Exit → UInt8
  | .done => 0
  | .toolFailed => 1
  | .refused => 2
  | .failed => 101

structure Outcome where
  exit : Exit
  /-- Printed lines. -/
  lines : List String := []
  /-- Lines of complaint. -/
  complaints : List String := []
  files : FileStore

namespace Outcome

def stdout (o : Outcome) : String := String.join (o.lines.map (· ++ "\n"))

def stderr (o : Outcome) : String := String.join (o.complaints.map (· ++ "\n"))

end Outcome

/-- A run that stops at an error. -/
def stopAt (files : FileStore) (e : Error) : Outcome :=
  { exit := .failed, complaints := [e.message], files }

/-- A run that only reads. -/
def reading (files : FileStore) (result : Except Error (List String)) : Outcome :=
  match result with
  | .ok lines => { exit := .done, lines, files }
  | .error e => stopAt files e

/-- A run that only writes. -/
def writing (files : FileStore) (command : DiskM Unit) : Outcome :=
  match command.run { files } with
  | .ok _ after => { exit := .done, files := after.files }
  | .error f after => stopAt (f.release after.files) f.error

/-! ## Commands -/

def parse (files : FileStore) (verbose : Bool) (image : String) : Except Error (List String) := do
  let i ← EfiImage.decode (← files.read image)
  i.checkReport verbose
  return [s!"{i.signatures.length} signatures"]

/-- Reads a signed image back and verifies it. -/
def checkSigned (files : FileStore) (verbose : Bool) (now : Moment) (path : String) :
    Except Error (List String) := do
  let i ← EfiImage.decode (← files.read path)
  i.checkReport verbose
  i.verify now
  return [s!"signed {path}"]

def sign (key certificates : String) (digest : Option DigestAlgorithm) (image : String)
    (output : Option String) : DiskM String := do
  let signer ← Signer.load certificates key
  let signer := { signer with algorithm := digest.getD signer.algorithm }
  signer.signFile image ((output.map SignedOutput.path).getD .sibling)

def makeBundle (certificates output : String) : DiskM Unit := do
  let bundle ← DiskM.ofExcept (Bundle.ofPem (← DiskM.read certificates))
  DiskM.overwrite output bundle (.notFound output) (.unreadable output)

/-- The text of a file. -/
def readText (files : FileStore) (path : String) : Except Error String := do
  match Text.decode? (← files.read path) with
  | some text => return text
  | none => throw (.unreadable path)

def compose (stub kernel initrd cmdline : String) (sbat : Option String) (output : String) :
    DiskM Unit := do
  let sbat ← match sbat with
    | none => pure UnifiedKernel.defaultSbat
    | some path => DiskM.ofExcept (readText (← DiskM.files) path)
  UnifiedKernel.compose {} stub output { cmdline, sbat, kernel, initrd }

/-- The database of key directories. -/
def database (files : FileStore) (directories : List String) : Except Error SignatureDatabase :=
  (KeyDirectory.loadDatabase files directories).mapError (·.error)

def setVendorDatabase (db dbx : List String) (address : Option UInt32) (image : String) :
    DiskM Unit := do
  let files ← DiskM.files
  let db ← DiskM.ofExcept (database files db)
  let dbx ← DiskM.ofExcept (database files dbx)
  match address with
  | none => VendorDatabase.set image { db, dbx }
  | some address => VendorDatabase.setAt image address { db, dbx }

/-- A line for each entry of a database. -/
def entryLines (name : String) (db : SignatureDatabase) : List String :=
  db.entries.map fun entry => s!"{name} {entry.owner.toText} {entry.data.length} bytes"

def showVendorDatabase (files : FileStore) (image : String) : Except Error (List String) := do
  let table ← VendorDatabase.read files image
  return entryLines "db" table.db ++ entryLines "dbx" table.dbx

/-- The call of the other program, each word in quotes. -/
def callLine (arguments : List String) : String :=
  String.intercalate " " ((Enrollment.tool :: arguments).map Text.quoted)

def prepareEnrolment (files : FileStore) (s : Surroundings) (platformKey : String)
    (keyExchange allowed machineOwner : List String) (input output : String) :
    Except Error Enrollment.Prepared := do
  let keys : KeySet := {
    platformKey := ← KeyDirectory.loadEntry files platformKey
    keyExchange := ← keyExchange.mapM (KeyDirectory.loadEntry files)
    allowed := ← allowed.mapM (KeyDirectory.loadEntry files)
    machineOwner := ← machineOwner.mapM (KeyDirectory.loadEntry files) }
  Enrollment.prepare s.stagingDirectory keys input output

/-- Prints the call of the other program, then makes it. -/
def enrol (files : FileStore) (status : Option Nat) (p : Enrollment.Prepared) : Outcome :=
  let lines := [callLine p.arguments]
  match status with
  | some 0 => { exit := .done, lines, files }
  | some n =>
    { exit := .toolFailed, lines, files
      complaints := [s!"{Enrollment.tool} failed: exit status: {n}"] }
  | none =>
    { exit := .toolFailed, lines, files
      complaints :=
        [s!"failed to run {Enrollment.tool}: No such file or directory (os error 2)"] }

/-! ## The whole -/

def runCommand (files : FileStore) (s : Surroundings) (verbose : Bool) : Command → Outcome
  | .parse image => reading files (parse files verbose image)
  | .sign key certificates digest image output =>
    match (sign key certificates digest image output).run { files } with
    | .error f after => stopAt (f.release after.files) f.error
    | .ok path after => reading after.files (checkSigned after.files verbose s.now path)
  | .bundle certificates output => writing files (makeBundle certificates output)
  | .compose stub kernel initrd cmdline sbat output =>
    writing files (compose stub kernel initrd cmdline sbat output)
  | .vendorDatabase db dbx address image =>
    writing files (setVendorDatabase db dbx address image)
  | .showVendorDatabase image => reading files (showVendorDatabase files image)
  | .enrol platformKey keyExchange allowed machineOwner input output =>
    match prepareEnrolment files s platformKey keyExchange allowed machineOwner input output with
    | .error e => stopAt files e
    | .ok prepared => enrol files s.toolStatus prepared

/-- What the program calls itself. -/
def versionLine : String := "bootkit examples 0.1"

/-- The line that tells that there will be more detail. -/
def verboseLine : String := "debug enabled"

def usageLine : String :=
  "usage: [-v] (parse | sign | p7b | smoosh | vendor-db | show-vendor-db | ovmf-args) ..."

/-- Carries out a command line. -/
def run (files : FileStore) (s : Surroundings) (arguments : List String) : Outcome :=
  match Request.ofArguments? arguments with
  | none => { exit := .refused, complaints := [usageLine], files }
  | some .version => { exit := .done, lines := [versionLine], files }
  | some .help => { exit := .done, lines := [usageLine], files }
  | some (.run verbose command) =>
    let outcome := runCommand files s verbose command
    if verbose then { outcome with lines := verboseLine :: outcome.lines } else outcome

end SecureBoot.CommandLine
