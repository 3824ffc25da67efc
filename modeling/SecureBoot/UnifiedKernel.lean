import SecureBoot.Pe.SectionDescriptor
import SecureBoot.Text.Utf8

/-!
# Unified kernel images

A unified kernel image is a small boot program with four more sections: the command line, the
generation data, the kernel and the initial file system. A `KernelLayout` says at which addresses
they go; in this order the addresses must ascend, and each section must fit below the next.
-/

namespace SecureBoot

/-- The addresses of the four sections. -/
structure KernelLayout where
  cmdline : UInt32 := 0x30000
  sbat : UInt32 := 0x50000
  sbatAlignment : UInt32 := 512
  linux : UInt32 := 0x2000000
  initrd : UInt32 := 0x3000000
  deriving DecidableEq, Inhabited, Repr

namespace KernelLayout

def cmdlineSection : String := ".cmdline"
def sbatSection : String := ".sbat"
def linuxSection : String := ".linux"
def initrdSection : String := ".initrd"

/-- The sections and their addresses, in order. -/
def slots (l : KernelLayout) : List (String × Nat) :=
  [(cmdlineSection, l.cmdline.toNat), (sbatSection, l.sbat.toNat), (linuxSection, l.linux.toNat),
    (initrdSection, l.initrd.toNat)]

/-- Refuses addresses that do not ascend. -/
def checkAscending : List (String × Nat) → Except Error Unit
  | (name, address) :: (next, nextAddress) :: rest =>
    if address < nextAddress then checkAscending ((next, nextAddress) :: rest)
    else throw (.sectionOverlap name next address nextAddress)
  | _ => return ()

def validate (l : KernelLayout) : Except Error Unit := checkAscending l.slots

/-- The room of a section among those listed: up to the next, or to the end of all addresses. -/
def room? (name : String) : List (String × Nat) → Option Nat
  | [] => none
  | (slot, address) :: rest =>
    if slot = name then some (((rest.head?).map Prod.snd).getD (maxWord + 1) - address)
    else room? name rest

/-- The bytes that the content of a section may have. -/
def capacity? (l : KernelLayout) (name : String) : Option Nat := room? name l.slots

def checkCapacity (l : KernelLayout) (requests : List Pe.SectionRequest) : Except Error Unit :=
  requests.forM fun r =>
    match l.capacity? r.name with
    | none => return ()
    | some limit =>
      if limit < r.data.length then throw (.sectionTooLarge r.name r.data.length limit)
      else return ()

end KernelLayout

namespace UnifiedKernel

/-- The generation data that is used when there is no other. -/
def defaultSbat : String :=
  "sbat,1,SBAT Version,sbat,1,https://github.com/rhboot/shim/blob/main/SBAT.md\n" ++
  "stubby.puzzleos,2,PuzzleOS,stubby,1,https://github.com/puzzleos/stubby\n" ++
  "linux.puzzleos,1,PuzzleOS,linux,1,NOURL\n"

/-- What goes into an image: text for the first two sections, files for the other two. -/
structure Parts where
  cmdline : String
  sbat : String
  kernel : String
  initrd : String
  deriving DecidableEq, Inhabited, Repr

/-- The four sections, their content in files. -/
def descriptors (l : KernelLayout) (cmdline sbat kernel initrd : String) :
    List Pe.SectionDescriptor :=
  [{ name := KernelLayout.cmdlineSection, virtualAddress := l.cmdline, contentPath := cmdline },
    { name := KernelLayout.sbatSection, virtualAddress := l.sbat, alignment := some l.sbatAlignment
      contentPath := sbat },
    { name := KernelLayout.linuxSection, virtualAddress := l.linux, contentPath := kernel },
    { name := KernelLayout.initrdSection, virtualAddress := l.initrd, contentPath := initrd }]

/-- Writes the two texts into a directory; gives the paths of their files. -/
def writeTexts (directory : String) (parts : Parts) : DiskM (String × String) := do
  let cmdline ← DiskM.writeInto directory "cmdline" (Text.encode parts.cmdline)
  let sbat ← DiskM.writeInto directory "sbat" (Text.encode parts.sbat)
  return (cmdline, sbat)

/-- Puts the parts into a boot program. -/
def compose (l : KernelLayout) (stub output : String) (parts : Parts) : DiskM Unit := do
  DiskM.ofExcept l.validate
  DiskM.withDirectory .kernelParts fun directory => do
    let (cmdline, sbat) ← writeTexts directory parts
    let requests ← (descriptors l cmdline sbat parts.kernel parts.initrd).mapM (·.load)
    DiskM.ofExcept (l.checkCapacity requests)
    let image ← DiskM.ofExcept (Pe.applySections (← DiskM.read stub) requests)
    DiskM.replace output image

end UnifiedKernel

end SecureBoot
