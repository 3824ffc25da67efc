import SecureBoot.CommandLine.Arguments
import SecureBoot.Digest.Algorithm
import SecureBoot.Text.Hex

/-!
# Commands

`Request.ofArguments?` reads a command line: a flag that asks for more detail, the name of a
command, and the arguments of that command. Paths must not be empty, and every argument that a
command needs must be there exactly once.
-/

namespace SecureBoot.CommandLine

/-- What the program can do. -/
inductive Command where
  /-- Counts the signatures of an image. -/
  | parse (image : String)
  /-- Signs an image and verifies the result. -/
  | sign (key certificates : String) (digest : Option DigestAlgorithm) (image : String)
      (output : Option String)
  /-- Makes a bundle of the certificates in a PEM file. -/
  | bundle (certificates output : String)
  /-- Makes a unified kernel image. -/
  | compose (stub kernel initrd cmdline : String) (sbat : Option String) (output : String)
  /-- Replaces the vendor database of a boot loader. -/
  | vendorDatabase (db dbx : List String) (address : Option UInt32) (image : String)
  /-- Lists the vendor database of a boot loader. -/
  | showVendorDatabase (image : String)
  /-- Enrols keys into a variable store. -/
  | enrol (platformKey : String) (keyExchange allowed machineOwner : List String)
      (input output : String)
  deriving DecidableEq, Repr

inductive Request where
  | version
  | help
  | run (verbose : Bool) (command : Command)
  deriving DecidableEq, Repr

/-! ## Values -/

def path? (s : String) : Option String := if s.isEmpty then none else some s

/-- The value of an option that must be there. -/
def required? (a : Arguments) (name : String) : Option String := (a.value? name).bind path?

/-- The value of an option that may be missing, read by `read?`. -/
def optional? (read? : String → Option α) : Option String → Option (Option α)
  | none => some none
  | some s => (read? s).map some

/-- The values of an option, all of them paths. -/
def paths? (a : Arguments) (name : String) : Option (List String) := (a.values name).mapM path?

def digest? (s : String) : Option DigestAlgorithm :=
  [("sha1", .sha1), ("sha256", .sha256), ("sha384", .sha384), ("sha512", .sha512)].lookup s

/-- Hexadecimal digits behind any number of marks `0x`. -/
def afterMarks : List Char → List Char
  | '0' :: 'x' :: rest => afterMarks rest
  | digits => digits

/-- An address in hexadecimal; a plus sign is allowed behind the marks. -/
def address? (s : String) : Option UInt32 := do
  let digits := match afterMarks s.toList with
    | '+' :: rest => rest
    | digits => digits
  guard (!digits.isEmpty)
  let n ← Text.hexNumber? digits
  guard (n < UInt32.size)
  return UInt32.ofNat n

/-! ## Commands -/

/-- The options of a command; `none` where there is no such command. -/
def rules? : String → Option (List OptionRule)
  | "parse" | "show-vendor-db" | "p7b" => some []
  | "sign" =>
    some [{ name := "key", letter := some 'k' }, { name := "cert", letter := some 'c' },
      { name := "digest" }]
  | "smoosh" =>
    some [{ name := "stub" }, { name := "kernel" }, { name := "initrd" }, { name := "cmdline" },
      { name := "sbat" }]
  | "vendor-db" =>
    some [{ name := "db", repeatable := true }, { name := "dbx", repeatable := true },
      { name := "vma" }]
  | "ovmf-args" =>
    some [{ name := "pk" }, { name := "kek", repeatable := true },
      { name := "db", repeatable := true }, { name := "mok", repeatable := true }]
  | _ => none

/-- The command of a name with its arguments. -/
def command? (name : String) (a : Arguments) : Option Command := do
  match name, ← a.positionals.mapM path? with
  | "parse", [image] => return .parse image
  | "show-vendor-db", [image] => return .showVendorDatabase image
  | "p7b", [certificates, output] => return .bundle certificates output
  | "sign", image :: outputs =>
    guard (outputs.length ≤ 1)
    return .sign (← required? a "key") (← required? a "cert")
      (← optional? digest? (a.value? "digest")) image outputs.head?
  | "smoosh", [output] =>
    return .compose (← required? a "stub") (← required? a "kernel") (← required? a "initrd")
      ((a.value? "cmdline").getD "") (← optional? path? (a.value? "sbat")) output
  | "vendor-db", [image] =>
    return .vendorDatabase (← paths? a "db") (← paths? a "dbx")
      (← optional? address? (a.value? "vma")) image
  | "ovmf-args", [input, output] =>
    return .enrol (← required? a "pk") (← paths? a "kek") (← paths? a "db") (← paths? a "mok")
      input output
  | _, _ => none

/-- Reads the name of a command and its arguments. -/
def readCommand? (name : String) (arguments : List String) : Option Command := do
  let rules ← rules? name
  let a ← readArguments rules arguments
  guard (a.isUnrepeated rules)
  command? name a

/-! ## The whole line -/

/-- What a flag in front of the command leads to. -/
inductive Flag where
  /-- The line is read on, in detail or not. -/
  | goOn (verbose : Bool)
  | answer (request : Request)
  deriving DecidableEq, Repr

/-- Reads the letters of flags in one argument. The flag for detail may be given once. -/
def readLetters (verbose : Bool) : List Char → Option Flag
  | [] => some (.goOn verbose)
  | 'v' :: rest => if verbose then none else readLetters true rest
  | 'V' :: _ => some (.answer .version)
  | 'h' :: _ => some (.answer .help)
  | _ => none

/-- Reads an argument in front of the command that looks like an option. -/
def readFlag (verbose : Bool) (argument : String) : Option Flag :=
  match argument with
  | "--verbose" => readLetters verbose ['v']
  | "--version" => readLetters verbose ['V']
  | "--help" => readLetters verbose ['h']
  | _ =>
    match argument.toList with
    | '-' :: '-' :: _ => none
    | '-' :: letters => readLetters verbose letters
    | _ => none

/-- Reads a command line, flags first. -/
def readRequest (verbose : Bool) : List String → Option Request
  | [] => none
  | argument :: rest =>
    if looksLikeOption argument then
      match readFlag verbose argument with
      | none => none
      | some (.answer request) => some request
      | some (.goOn verbose) => readRequest verbose rest
    else (readCommand? argument rest).map (.run verbose)

/-- Reads a command line; `none` where it is refused. -/
def Request.ofArguments? (arguments : List String) : Option Request := readRequest false arguments

end SecureBoot.CommandLine
