import SecureBoot.CommandLine.Command
import SecureBoot.KeyDirectory
import SecureBoot.SignedOutput

/-!
# Paths of a command

The files that a command may read or write, so that they can be fetched before it runs.
-/

namespace SecureBoot.CommandLine

/-- The files of key directories. -/
def keyFiles (directories : List String) : List String :=
  directories.flatMap fun directory =>
    [FileStore.join directory KeyDirectory.certificateFile,
      FileStore.join directory KeyDirectory.guidFile]

/-- The files that a command may read or write. -/
def Command.paths : Command → List String
  | .parse image => [image]
  | .sign key certificates _ image output =>
    [key, certificates, image, output.getD (SignedOutput.sibling.resolve image)]
  | .bundle certificates output => [certificates, output]
  | .compose stub kernel initrd _ sbat output => [stub, kernel, initrd, output] ++ sbat.toList
  | .vendorDatabase db dbx _ image => image :: keyFiles (db ++ dbx)
  | .showVendorDatabase image => [image]
  | .enrol platformKey keyExchange allowed machineOwner _ _ =>
    keyFiles (platformKey :: keyExchange ++ allowed ++ machineOwner)

/-- The files that a command line may read or write. -/
def Request.paths : Request → List String
  | .run _ command => command.paths
  | _ => []

end SecureBoot.CommandLine
