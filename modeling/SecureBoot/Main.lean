import SecureBoot.CommandLine
import SecureBoot.CommandLine.Paths
import Std.Time

/-!
# The program

Fetches the files that the command line names, runs the command on them, writes what has changed,
and prints. No other program is started, so enrolling keys ends with the command to type.
-/

namespace SecureBoot.Program

open CommandLine

/-- Fetches a file or directory, and the directories on the way to it. -/
def fetch (files : FileStore) (path : String) : IO FileStore := do
  let place := FileStore.placeOf path
  let mut files := files
  for above in (List.range place.length).map place.take do
    if (files.node? above).isNone then
      try
        discard (IO.FS.realPath (FileStore.pathOf above))
        files := files.put above .directory
      catch _ => pure ()
  try
    let content ← IO.FS.readBinFile path
    return files.put place (.file ⟨content.toList, FileStore.usualMode⟩)
  catch e =>
    match e with
    | .noFileOrDirectory .. => return files
    | _ => return files.put place .directory

/-- Writes what has changed. A new file may have to be kept from others. -/
def store (before after : FileStore) : IO Unit :=
  after.nodes.forM fun (place, node) => do
    match node with
    | .directory => pure ()
    | .file f =>
      if before.node? place ≠ some node then
        let path := FileStore.pathOf place
        IO.FS.writeBinFile path ⟨f.content.toArray⟩
        if f.mode = FileStore.privateMode then
          IO.setAccessRights path ⟨⟨true, true, false⟩, {}, {}⟩

/-- The moment it is. -/
def now : IO Moment := do
  let t : Std.Time.PlainDateTime := .ofWallTime ((← Std.Time.Timestamp.now).toWallTime .zero)
  return ⟨t.year.toInt.toNat, t.month.toNat, t.day.toNat, t.hour.toNat, t.minute.toNat,
    t.second.toNat⟩

end SecureBoot.Program

open SecureBoot SecureBoot.CommandLine in
def main (arguments : List String) : IO UInt32 := do
  let paths := ((Request.ofArguments? arguments).map (·.paths)).getD []
  let files ← paths.foldlM Program.fetch {}
  let surroundings : Surroundings := {
    now := ← Program.now
    toolStatus := none
    stagingDirectory := "." }
  let outcome := run files surroundings arguments
  Program.store files outcome.files
  IO.print outcome.stdout
  IO.eprint outcome.stderr
  return outcome.exit.code.toUInt32
