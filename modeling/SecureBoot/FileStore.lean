import SecureBoot.Error

/-!
# Files

The files that a command works on, as a value: what is read comes out of a `FileStore`, and what is
written gives a new one. A store maps a **place** (the names on the way to it) to a file or a
directory; the empty place is the working directory, the place `["/"]` the root.

**Paths** are text. The names between slashes lead from place to place, `.` and nothing stay where
they are, and `..` leads back. Every place on the way must be a directory.

**A file to write** lies in a directory that must be there, under the last name of its path, which
must be a name for a file and not lead to a directory.
-/

namespace SecureBoot

/-- The bytes of a file and its permissions. -/
structure File where
  content : Bytes
  mode : Nat
  deriving DecidableEq, Inhabited, Repr

inductive Node where
  | file (f : File)
  | directory
  deriving DecidableEq, Inhabited, Repr

/-- The names on the way to a file or directory. -/
abbrev Place := List String

structure FileStore where
  nodes : List (Place × Node) := []
  deriving DecidableEq, Inhabited, Repr

/-- Why a path leads nowhere. -/
inductive PathFault where
  /-- Something on the way is not there. -/
  | missing
  /-- Something on the way is a file. -/
  | notDirectory
  deriving DecidableEq, Repr

namespace FileStore

/-- Permissions of a file that nobody asked to protect. -/
def usualMode : Nat := 0o644

/-- Permissions of a file that replaces none. -/
def privateMode : Nat := 0o600

/-! ## Places -/

/-- The place that absolute paths begin at. -/
def rootPlace : Place := ["/"]

/-- What is at a place. -/
def node? (s : FileStore) (place : Place) : Option Node :=
  if place = [] ∨ place = rootPlace then some .directory else s.nodes.lookup place

/-- The place one name further. -/
def step (place : Place) (name : String) : Place :=
  if name = "" ∨ name = "." then place
  else if name = ".." then (if place = rootPlace then place else place.dropLast)
  else place ++ [name]

/-- The names between the slashes of a path. -/
def names (path : String) : List String := (path.toList.splitOn '/').map String.ofList

/-- Where a path begins. -/
def origin (path : String) : Place := if path.toList.head? = some '/' then rootPlace else []

/-- The place that names lead to. -/
def walk (s : FileStore) (place : Place) : List String → Except PathFault Place
  | [] => .ok place
  | name :: names =>
    match s.node? place with
    | none => .error .missing
    | some (.file _) => .error .notDirectory
    | some .directory => s.walk (step place name) names

/-- The place that a path leads to. -/
def resolve (s : FileStore) (path : String) : Except PathFault Place :=
  s.walk (origin path) (names path)

/-- The place of a path, whether anything is there or not. -/
def placeOf (path : String) : Place := (names path).foldl step (origin path)

/-- The path of a place. -/
def pathOf (place : Place) : String :=
  if rootPlace.isPrefixOf place then "/" ++ String.intercalate "/" place.tail
  else String.intercalate "/" place

/-- What a path leads to. -/
def find (s : FileStore) (path : String) : Except PathFault Node := do
  if path = "" then throw .missing
  match s.node? (← s.resolve path) with
  | some node => return node
  | none => throw .missing

/-- A name behind a path. -/
def join (path name : String) : String :=
  if path = "" ∨ path.toList.getLast? = some '/' then path ++ name else path ++ "/" ++ name

/-! ## Reading -/

def read (s : FileStore) (path : String) : Except Error Bytes :=
  match s.find path with
  | .ok (.file f) => .ok f.content
  | .ok .directory => .error (.unreadable path)
  | .error .missing => .error (.notFound path)
  | .error .notDirectory => .error (.unreadable path)

/-! ## Changing -/

/-- The store with another file or directory at a place. -/
def put (s : FileStore) (place : Place) (node : Node) : FileStore :=
  ⟨(place, node) :: s.nodes.filter (·.1 ≠ place)⟩

/-- The store without a place and everything below it. -/
def remove (s : FileStore) (place : Place) : FileStore :=
  ⟨s.nodes.filter (!place.isPrefixOf ·.1)⟩

/-- The store after moving what is at a place. -/
def move (s : FileStore) (source destination : Place) : FileStore :=
  match s.node? source with
  | some node => (s.remove source).put destination node
  | none => s

/-- Whether there is nothing at a place or below. -/
def isFree (s : FileStore) (place : Place) : Bool :=
  s.nodes.all (!place.isPrefixOf ·.1)

/-- The permissions of what is at a place, or others where nothing is. -/
def modeAt (s : FileStore) (place : Place) (default : Nat) : Nat :=
  match s.node? place with
  | some (.file f) => f.mode
  | _ => default

/-! ## Writing -/

/-- Names that do not name a file. -/
def unnamed : List String := ["", ".", ".."]

/-- The names that lead to the directory of a file. -/
def folderNames (names : List String) : List String :=
  (names.reverse.dropWhile fun name => name = "" ∨ name = ".").reverse.dropLast

/-- The directory that names lead to. -/
def directory? (s : FileStore) (origin : Place) (names : List String) : Option Place :=
  match s.walk origin names with
  | .ok place => if s.node? place = some .directory then some place else none
  | .error _ => none

/-- The directory of a file to write. -/
def folder? (s : FileStore) (path : String) : Option Place :=
  s.directory? (origin path) (folderNames (names path))

/-- The place of a file to write in its directory, unless no file can be there. -/
def fileIn? (s : FileStore) (folder : Place) (path : String) : Option Place :=
  let name := (names path).getLast?.getD ""
  if name ∈ unnamed ∨ s.node? (folder ++ [name]) = some .directory then none
  else some (folder ++ [name])

/-- The place of a file to write. -/
def target? (s : FileStore) (path : String) : Option Place := do
  s.fileIn? (← s.folder? path) path

/-- Writes into the file that a path leads to, which is made if it is not there. -/
def overwrite (s : FileStore) (path : String) (content : Bytes) (noDirectory notFile : Error) :
    Except Error FileStore :=
  match s.target? path with
  | some place => .ok (s.put place (.file ⟨content, s.modeAt place usualMode⟩))
  | none => .error (if (s.folder? path).isNone then noDirectory else notFile)

end FileStore

end SecureBoot
