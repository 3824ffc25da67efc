import SecureBoot.Disk
import SecureBoot.Pe.Layout.Editing

/-!
# Sections whose content lies in files
-/

namespace SecureBoot.Pe

/-- A section to place into an executable, its content in a file. -/
structure SectionDescriptor where
  name : String
  virtualAddress : UInt32
  alignment : Option UInt32 := none
  contentPath : String
  deriving DecidableEq, Inhabited, Repr

namespace SectionDescriptor

/-- The section with its content. -/
def request (d : SectionDescriptor) (data : Bytes) : SectionRequest where
  name := d.name
  virtualAddress := d.virtualAddress
  alignment := d.alignment
  data := data

/-- Reads the content, after a look at the name. -/
def load (d : SectionDescriptor) : DiskM SectionRequest := do
  DiskM.ofExcept (checkName d.name)
  return d.request (← DiskM.read d.contentPath)

end SectionDescriptor

/-- Places sections with content from files into the executable in a file. The content is read
before the executable. -/
def setSections (path : String) (descriptors : List SectionDescriptor) : DiskM Unit := do
  let requests ← descriptors.mapM (·.load)
  let edited ← DiskM.ofExcept (applySections (← DiskM.read path) requests)
  DiskM.replace path edited

end SecureBoot.Pe
