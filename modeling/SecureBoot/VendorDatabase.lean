import SecureBoot.Pe.SectionDescriptor
import SecureBoot.VendorTable

/-!
# The vendor database of a boot loader

A boot loader that checks signatures itself carries what its vendor allows and revokes as a table in
a section of its own. The section is replaced where it is, or placed at a given address.
-/

namespace SecureBoot.VendorDatabase

/-- The section that holds the table. -/
def sectionName : String := ".vendor_cert"

/-- The section of the table in an executable. -/
def tableSection (image : Bytes) : Except Error Pe.Section := do
  match (← Pe.Layout.decode image).section? sectionName with
  | some s => return s
  | none => throw (.missingSection sectionName)

/-- The table in the executable in a file. -/
def read (files : FileStore) (path : String) : Except Error VendorTable := do
  VendorTable.decode .little (← tableSection (← files.read path)).content

/-- The table as a section whose content lies in a file. -/
def descriptor (address : UInt32) (contentPath : String) : Pe.SectionDescriptor :=
  { name := sectionName, virtualAddress := address, contentPath }

/-- Places the table at an address. -/
def setAt (path : String) (address : UInt32) (table : VendorTable) : DiskM Unit := do
  let content ← DiskM.ofExcept table.encode
  DiskM.withDirectory .vendorTable fun directory => do
    let contentPath ← DiskM.writeInto directory "vendor_cert.bin" content
    Pe.setSections path [descriptor address contentPath]

/-- Puts the table in the place of the one that is there. -/
def set (path : String) (table : VendorTable) : DiskM Unit := do
  let found ← DiskM.ofExcept (tableSection (← DiskM.read path))
  setAt path found.header.virtualAddress table

end SecureBoot.VendorDatabase
