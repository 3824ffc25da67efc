import SecureBoot.FileStore

/-!
# Changing files step by step

A command that writes files takes many steps, and any of them may be refused: the disk is full, a
file is protected. A `Disk` is the files together with all that decides how the steps go, and a
`DiskM` is a command made of steps. It ends with a value or a failure, and leaves files either way.

**Replacing a file** (`replace`) writes a new file beside the old one, under a made-up name, and
then moves it to the place of the old one. The new file has the permissions of the old one if they
can be looked at, or only those of the owner.

**Failures may hold a file.** If the move is refused, the new file goes to the caller with the
error, for as long as the caller keeps the error. It is removed when the error is let go of
(`Failure.release`). After any other error nothing is left to be removed.

**A directory for a while** (`withDirectory`) is there for the steps that need it and gone
afterwards, with all that was written into it.

**Made-up names** have a fixed beginning that tells what they are for, and an ending that is new
each time. Names are tried until one is free. Removing what stands under such a name is never
refused.
-/

namespace SecureBoot

/-- The ending of a made-up name. -/
structure Ending where
  text : String
  isPlain : text.toList.all Char.isAlphanum
  deriving DecidableEq, Repr

namespace Ending

/-- The ending of some length that has only one letter. -/
def single (length : Nat) : Ending where
  text := String.ofList (List.replicate length 'a')
  isPlain := by
    rw [String.toList_ofList, List.all_eq_true]
    intro c hc
    rw [List.eq_of_mem_replicate hc]
    decide

/-- Different endings, as many as asked for. -/
def several (count : Nat) : List Ending := (List.range count).map single

end Ending

/-- What a made-up name is for. -/
inductive Purpose where
  /-- A file that will replace another. -/
  | replacement
  /-- A directory for the parts of a unified kernel image. -/
  | kernelParts
  /-- A directory for a vendor table. -/
  | vendorTable
  deriving DecidableEq, Repr

namespace Purpose

def beginning : Purpose → String
  | replacement => ".tmp"
  | kernelParts => "smoosh-"
  | vendorTable => "vendor-db-"

/-- A made-up name. -/
def name (p : Purpose) (e : Ending) : String := p.beginning ++ e.text

end Purpose

structure Disk where
  files : FileStore
  /-- The directory in which directories for a while are made. -/
  scratch : String := "/"
  /-- The endings of the names to make up, in the order in which they are tried. -/
  endings : List Ending := Ending.several (files.nodes.length + 2)
  /-- How many of them have been tried. -/
  tried : Nat := 0
  /-- Which of the next steps are refused; all later ones are not. -/
  refusals : List Bool := []
  /-- Whether the permissions of a file can be looked at. -/
  showsModes : Bool := true
  deriving DecidableEq, Repr

/-- The endings that were not tried yet. -/
def Disk.ahead (d : Disk) : List Ending := d.endings.drop d.tried

/-- Why a command has stopped, and the file that is there as long as the caller keeps the error. -/
structure Failure where
  error : Error
  held : Option Place := none
  deriving DecidableEq, Repr

/-- The files after an error was let go of. -/
def Failure.release (f : Failure) (s : FileStore) : FileStore :=
  match f.held with
  | none => s
  | some place => s.remove place

/-- The disk after an error was let go of. -/
def Disk.release (d : Disk) (f : Failure) : Disk := { d with files := f.release d.files }

/-- A command that works on a disk. -/
abbrev DiskM := EStateM Failure Disk

namespace DiskM

/-! ## Steps -/

/-- Stops with an error that holds no file. -/
def fail (error : Error) : DiskM α := throw { error }

/-- Takes over the outcome of what needs no disk. -/
def ofExcept : Except Error α → DiskM α
  | .ok a => return a
  | .error e => fail e

/-- Stops if the next step is refused. -/
def permitOr (f : Failure) : DiskM Unit := do
  let d ← get
  set { d with refusals := d.refusals.tail }
  if d.refusals.head? = some true then throw f

def permit (error : Error) : DiskM Unit := permitOr { error }

def files : DiskM FileStore := return (← get).files

def change (f : FileStore → FileStore) : DiskM Unit :=
  modify fun d => { d with files := f d.files }

def read (path : String) : DiskM Bytes := do
  permit (.unreadable path)
  ofExcept ((← files).read path)

/-- Writes into a file, which is made if it is not there. -/
def overwrite (path : String) (content : Bytes) (noDirectory notFile : Error) : DiskM Unit := do
  let after ← ofExcept ((← files).overwrite path content noDirectory notFile)
  change fun _ => after

/-- Runs a command; if it fails, what is at a place is removed. -/
def removingOnError (place : Place) (command : DiskM α) : DiskM α :=
  tryCatch command fun f => do
    change (·.remove place)
    throw f

/-- Runs a command; whether it fails or not, what is at a place is removed. -/
def removing (place : Place) (command : DiskM α) : DiskM α := do
  let a ← removingOnError place command
  change (·.remove place)
  return a

/-! ## Made-up names -/

/-- The first made-up name that is free in a directory, and how many were tried to find it. -/
def firstFree? (s : FileStore) (folder : Place) (p : Purpose) : List Ending → Option (String × Nat)
  | [] => none
  | e :: endings =>
    if s.isFree (folder ++ [p.name e]) then some (p.name e, 1)
    else (firstFree? s folder p endings).map fun (name, count) => (name, count + 1)

/-- Puts something into a directory under a made-up name; gives the name. -/
def create (folder : Place) (p : Purpose) (node : Node) : DiskM String := do
  permit .cannotCreateTemporary
  let d ← get
  match firstFree? d.files folder p d.ahead with
  | none => fail .cannotCreateTemporary
  | some (name, count) =>
    set { d with files := d.files.put (folder ++ [name]) node, tried := d.tried + count }
    return name

/-! ## Replacing a file -/

/-- Gives a file the permissions of what a path leads to, if they can be looked at. -/
def copyMode (path : String) (place : Place) (content : Bytes) : DiskM Unit := do
  let d ← get
  if d.showsModes then
    if let .ok node := d.files.find path then
      permit (.cannotWrite (FileStore.pathOf place))
      if let .file f := node then change (·.put place (.file ⟨content, f.mode⟩))

/-- Fills a new file that will take the place of what a path leads to. -/
def fill (path : String) (place : Place) (content : Bytes) : DiskM Unit := do
  -- Writing the content, and waiting until it has reached the disk.
  permit (.cannotWrite (FileStore.pathOf place))
  change (·.put place (.file ⟨content, FileStore.privateMode⟩))
  permit (.cannotWrite (FileStore.pathOf place))
  copyMode path place content

/-- Moves a new file to the place in its directory that a path leads to. If the move is refused, the
error holds the file. -/
def moveOver (path : String) (folder place : Place) : DiskM Unit := do
  let refused : Failure := { error := .cannotReplace path, held := some place }
  let some destination := (← files).fileIn? folder path | throw refused
  permitOr refused
  change (·.move place destination)

/-- Puts a new file in the place of what a path leads to. -/
def replace (path : String) (content : Bytes) : DiskM Unit := do
  let some folder := (← files).folder? path | fail .cannotCreateTemporary
  let name ← create folder .replacement (.file ⟨[], FileStore.privateMode⟩)
  let place := folder ++ [name]
  removingOnError place (fill path place content)
  moveOver path folder place

/-! ## Directories for a while -/

/-- Runs a command that gets the path of a directory of its own. -/
def withDirectory (p : Purpose) (command : String → DiskM α) : DiskM α := do
  let scratch := (← get).scratch
  let some folder := (← files).directory? (FileStore.origin scratch) (FileStore.names scratch)
    | fail .cannotCreateTemporary
  let name ← create folder p .directory
  removing (folder ++ [name]) (command (FileStore.join scratch name))

/-- Writes a file into a directory; gives its path. -/
def writeInto (directory name : String) (content : Bytes) : DiskM String := do
  let path := FileStore.join directory name
  permit (.cannotWrite path)
  overwrite path [] (.cannotWrite path) (.cannotWrite path)
  permit (.cannotWrite path)
  overwrite path content (.cannotWrite path) (.cannotWrite path)
  return path

end DiskM

end SecureBoot
