import Mathlib
import SecureBoot.Proofs.Disk
import SecureBoot.Proofs.Pe.ApplySections
import SecureBoot.Signer.Files
import SecureBoot.UnifiedKernel
import SecureBoot.VendorDatabase

/-!
# Operations on files are all or nothing

A `FileOperation` is a call that changes an executable in a file: editing its sections, setting its
vendor table, putting a unified kernel image together, signing it. Each reads files, computes the
new bytes in memory, and replaces one file. `FileOperation.content` is the computation alone, on
the files as they are before the call.

**Theorem (`FileOperation.run_allOrNothing`).** From every disk, however the steps go:

* if the call fails, all files are as before once the error is let go of;
* if it succeeds, the files are those before with one file replaced. Its content is the one computed
  in memory, its permissions are those of the old file or else only those of the owner.

**The error of a refused move** owns the new file, in the way a guard owns a temporary file: it can
be found under its made-up name while the caller keeps the error. All other errors hold nothing, and
come with the files as they were.

**Made-up names.** Some calls pass content through files in a directory of their own, and the call's
own paths are followed while this directory is there. A path that happens to name it would find what
was not there before the call. So what is written, and where, is said for paths in which no made-up
name occurs. That nothing else changes, and that nothing is left behind, holds whatever the paths
are.
-/

namespace SecureBoot

open DiskM
open FileStore (IsFileName IsGiven)

variable {d : Disk}

/-! ## Reading several files -/

theorem DiskM.observes_mapM {α β : Type} {f : α → DiskM β} {g : α → Except Error β} {xs : List α}
    (h : ∀ x d', d'.files = d.files → (f x).Observes d' fun y => g x = .ok y) :
    (xs.mapM f).Observes d fun ys => xs.mapM g = .ok ys := by
  induction xs generalizing d with
  | nil => exact observes_pure rfl
  | cons x rest ih =>
    rw [List.mapM_cons, List.mapM_cons]
    refine (h x d rfl).andThen fun y d₁ hd₁ hy => ?_
    refine (ih fun x' d' hd' => h x' d' (hd'.trans hd₁)).andThen fun ys d₂ _ hys => ?_
    refine observes_pure ?_
    rw [hy, hys]
    rfl

/-! ## Sections -/

namespace Pe

/-- A section with its content from the files. -/
def SectionDescriptor.requestIn (s : FileStore) (x : SectionDescriptor) :
    Except Error SectionRequest := do
  return x.request (← s.read x.contentPath)

theorem SectionDescriptor.requestIn_eq_ok {s : FileStore} {x : SectionDescriptor}
    {r : SectionRequest} :
    x.requestIn s = .ok r ↔ ∃ data, s.read x.contentPath = .ok data ∧ x.request data = r := by
  rw [requestIn, bind_eq_ok]
  simp only [pure_eq_ok]

/-- Sections are read from files when each file can be read. -/
theorem SectionDescriptor.mapM_requestIn_eq_ok {s : FileStore} {xs : List SectionDescriptor}
    {rs : List SectionRequest} :
    xs.mapM (·.requestIn s) = .ok rs ↔
      ∃ contents, List.Forall₂ (fun x data => s.read x.contentPath = .ok data) xs contents ∧
        List.zipWith request xs contents = rs := by
  rw [mapM_eq_ok]
  constructor
  · intro h
    induction h with
    | nil => exact ⟨[], .nil, rfl⟩
    | cons hx _ ih =>
      obtain ⟨data, hdata, rfl⟩ := requestIn_eq_ok.1 hx
      obtain ⟨contents, hcontents, rfl⟩ := ih
      exact ⟨data :: contents, .cons hdata hcontents, rfl⟩
  · rintro ⟨contents, h, rfl⟩
    induction h with
    | nil => exact .nil
    | cons hread _ ih => exact .cons (requestIn_eq_ok.2 ⟨_, hread, rfl⟩) ih

theorem SectionDescriptor.observes_load (x : SectionDescriptor) :
    x.load.Observes d fun r => x.requestIn d.files = .ok r := by
  refine (observes_ofExcept _).andThen fun _ d₁ hd₁ _ => ?_
  refine (observes_read _).andThen fun content d₂ _ hcontent => ?_
  refine observes_pure ?_
  rw [hd₁] at hcontent
  rw [requestIn, hcontent]
  rfl

/-- The executable with sections from the files. -/
def edited (s : FileStore) (path : String) (descriptors : List SectionDescriptor) :
    Except Error Bytes := do
  applySections (← s.read path) (← descriptors.mapM (·.requestIn s))

theorem ensures_setSections {path : String} {descriptors : List SectionDescriptor} :
    (setSections path descriptors).Ensures d
      (fun _ s => ∃ content, edited d.files path descriptors = .ok content ∧
        s.Replaces d.files path content d.showsModes)
      (· = d.files) := by
  have hload : (descriptors.mapM SectionDescriptor.load).Observes d fun rs =>
      descriptors.mapM (·.requestIn d.files) = .ok rs :=
    observes_mapM fun x d' hd' => hd' ▸ SectionDescriptor.observes_load x
  refine hload.bind rfl fun requests d₁ hcont₁ hd₁ hrequests => ?_
  refine (observes_read _).bind hd₁ fun image d₂ hcont₂ hd₂ himage => ?_
  refine (observes_ofExcept _).bind (hd₂.trans hd₁) fun content d₃ hcont₃ hd₃ hcontent => ?_
  have hfiles : d₃.files = d.files := hd₃.trans (hd₂.trans hd₁)
  have hmodes := ((hcont₁.trans hcont₂).trans hcont₃).showsModes
  rw [hd₁] at himage
  refine ensures_replace.mono (fun _ s hs => ⟨content, ?_, hfiles ▸ hmodes ▸ hs⟩)
    fun _ hs => hs.trans hfiles
  rw [edited, hrequests, himage]
  exact hcontent

end Pe

/-! ## Vendor tables -/

namespace VendorDatabase

/-- The executable with a table at an address. -/
def editedAt (s : FileStore) (path : String) (address : UInt32) (table : VendorTable) :
    Except Error Bytes := do
  let data ← table.encode
  Pe.applySections (← s.read path) [{ name := sectionName, virtualAddress := address, data }]

/-- The executable with another table in the place of the one that is there. -/
def edited (s : FileStore) (path : String) (table : VendorTable) : Except Error Bytes := do
  let found ← tableSection (← s.read path)
  editedAt s path found.header.virtualAddress table

theorem edited_descriptor {now before : FileStore} {path contentPath : String} {address : UInt32}
    {table : VendorTable} {data : Bytes} (hdata : table.encode = .ok data)
    (hread : now.read contentPath = .ok data) (hpath : now.read path = before.read path) :
    Pe.edited now path [descriptor address contentPath] = editedAt before path address table := by
  have hrequests : [descriptor address contentPath].mapM (·.requestIn now) =
      .ok [{ name := sectionName, virtualAddress := address, data }] :=
    Pe.SectionDescriptor.mapM_requestIn_eq_ok.2 ⟨[data], .cons hread .nil, rfl⟩
  rw [Pe.edited, editedAt, hpath, hrequests, hdata]
  rfl

theorem ensures_setAt {path : String} {address : UInt32} {table : VendorTable} :
    (setAt path address table).Ensures d
      (fun _ s => s.DiffersInOneFile d.files ∧ (d.IsFreshFor [path] → ∃ content,
        editedAt d.files path address table = .ok content ∧
        s.Replaces d.files path content d.showsModes))
      (· = d.files) := by
  refine (observes_ofExcept _).bind rfl fun data d₁ hcont₁ hd₁ hdata => ?_
  rw [← hd₁]
  refine ensures_withDirectory fun directory place e d₂ hcont₂ he hmem hscratch hempty => ?_
  have hslash := (Purpose.isFileName .vendorTable e).ne_slash
  have hname : IsFileName "vendor_cert.bin" := ⟨by decide, by decide⟩
  refine (ensures_writeInto hscratch hname (by simp [hempty _ hname])).bind
    fun contentPath d₃ hcont₃ hd₃ => ?_
  obtain ⟨rfl, hscratch, mode, hput⟩ := hd₃
  have hmodes := ((hcont₁.trans hcont₂).trans hcont₃).showsModes
  have hdata' : d₃.files.read (FileStore.join directory "vendor_cert.bin") = .ok data :=
    FileStore.read_join hname hscratch.found (hput ▸ FileStore.node?_put_self hname.not_isGiven)
  refine Pe.ensures_setSections.mono ?_ ?_
  · rintro _ s ⟨content, hcontent, hs⟩
    refine ⟨hscratch.rest ▸ hs.differsInOneFile.remove place, fun hfresh => ?_⟩
    have hpath := hfresh path List.mem_cons_self e (hcont₁.endings ▸ he) .vendorTable
    refine ⟨content, ?_, hscratch.rest ▸ hmodes ▸ hs.remove hmem hslash hpath⟩
    rw [← edited_descriptor hdata hdata' (hscratch.read hmem hslash hpath)]
    exact hcontent
  · rintro _ rfl
    exact hscratch.rest

theorem ensures_set {path : String} {table : VendorTable} :
    (set path table).Ensures d
      (fun _ s => s.DiffersInOneFile d.files ∧ (d.IsFreshFor [path] → ∃ content,
        edited d.files path table = .ok content ∧
        s.Replaces d.files path content d.showsModes))
      (· = d.files) := by
  refine (observes_read _).bind rfl fun image d₁ hcont₁ hd₁ himage => ?_
  refine (observes_ofExcept _).bind hd₁ fun found d₂ hcont₂ hd₂ hfound => ?_
  have hfiles : d₂.files = d.files := hd₂.trans hd₁
  have hcont := hcont₁.trans hcont₂
  refine ensures_setAt.mono (fun _ s h => ?_) fun _ hs => hs.trans hfiles
  rw [hfiles, hcont.showsModes] at h
  refine ⟨h.1, fun hfresh => ?_⟩
  obtain ⟨content, hcontent, hs⟩ := h.2 (hfresh.continue hcont)
  refine ⟨content, ?_, hs⟩
  rw [edited, himage]
  show (tableSection image >>= _) = _
  rw [hfound]
  exact hcontent

end VendorDatabase

/-! ## Unified kernel images -/

namespace UnifiedKernel

/-- The four sections, with what the kernel and the initial file system hold. -/
def requests (l : KernelLayout) (parts : Parts) (kernel initrd : Bytes) :
    List Pe.SectionRequest :=
  [{ name := KernelLayout.cmdlineSection, virtualAddress := l.cmdline
     data := Text.encode parts.cmdline },
    { name := KernelLayout.sbatSection, virtualAddress := l.sbat
      alignment := some l.sbatAlignment, data := Text.encode parts.sbat },
    { name := KernelLayout.linuxSection, virtualAddress := l.linux, data := kernel },
    { name := KernelLayout.initrdSection, virtualAddress := l.initrd, data := initrd }]

/-- The boot program with the four sections, where each has its room. -/
def composed (s : FileStore) (l : KernelLayout) (stub : String) (parts : Parts) :
    Except Error Bytes := do
  l.validate
  let kernel ← s.read parts.kernel
  let initrd ← s.read parts.initrd
  l.checkCapacity (requests l parts kernel initrd)
  Pe.applySections (← s.read stub) (requests l parts kernel initrd)

theorem composed_eq_ok {s : FileStore} {l : KernelLayout} {stub : String} {parts : Parts}
    {content : Bytes} :
    composed s l stub parts = .ok content ↔
      l.validate = .ok () ∧
      ∃ kernel initrd image, s.read parts.kernel = .ok kernel ∧ s.read parts.initrd = .ok initrd ∧
        l.checkCapacity (requests l parts kernel initrd) = .ok () ∧ s.read stub = .ok image ∧
        Pe.applySections image (requests l parts kernel initrd) = .ok content := by
  simp only [composed, bind_eq_ok]
  constructor
  · rintro ⟨_, hvalid, kernel, hkernel, initrd, hinitrd, _, hroom, image, himage, h⟩
    exact ⟨hvalid, kernel, initrd, image, hkernel, hinitrd, hroom, himage, h⟩
  · rintro ⟨hvalid, kernel, initrd, image, hkernel, hinitrd, hroom, himage, h⟩
    exact ⟨(), hvalid, kernel, hkernel, initrd, hinitrd, (), hroom, image, himage, h⟩

/-- Sections that are read from files, of which two hold the text. -/
theorem mapM_requestIn_descriptors {s : FileStore} {l : KernelLayout} {parts : Parts}
    {cmdline sbat : String} {rs : List Pe.SectionRequest}
    (hcmdline : s.read cmdline = .ok (Text.encode parts.cmdline))
    (hsbat : s.read sbat = .ok (Text.encode parts.sbat)) :
    (descriptors l cmdline sbat parts.kernel parts.initrd).mapM (·.requestIn s) = .ok rs ↔
      ∃ kernel initrd, s.read parts.kernel = .ok kernel ∧ s.read parts.initrd = .ok initrd ∧
        requests l parts kernel initrd = rs := by
  rw [Pe.SectionDescriptor.mapM_requestIn_eq_ok]
  constructor
  · rintro ⟨contents, hcontents, rfl⟩
    rcases hcontents with _ | ⟨h₁, _ | ⟨h₂, _ | ⟨h₃, _ | ⟨h₄, ⟨⟩⟩⟩⟩⟩
    cases h₁.symm.trans hcmdline
    cases h₂.symm.trans hsbat
    exact ⟨_, _, h₃, h₄, rfl⟩
  · rintro ⟨kernel, initrd, hkernel, hinitrd, rfl⟩
    exact ⟨_, .cons hcmdline (.cons hsbat (.cons hkernel (.cons hinitrd .nil))), rfl⟩

/-- Both texts are in a directory of their own, and read back from there. -/
theorem ensures_writeTexts {before : FileStore} {directory : String} {place : Place} {parts : Parts}
    (hscratch : d.files.HasScratch before directory place)
    (hempty : ∀ name, IsFileName name → d.files.node? (place ++ [name]) = none) :
    (writeTexts directory parts).Ensures d
      (fun paths s => s.HasScratch before directory place ∧
        s.read paths.1 = .ok (Text.encode parts.cmdline) ∧
        s.read paths.2 = .ok (Text.encode parts.sbat))
      (·.remove place = before) := by
  have hcmdline : IsFileName "cmdline" := ⟨by decide, by decide⟩
  have hsbat : IsFileName "sbat" := ⟨by decide, by decide⟩
  refine (ensures_writeInto hscratch hcmdline (by simp [hempty _ hcmdline])).bind
    fun cmdline d₁ _ hd₁ => ?_
  obtain ⟨rfl, hscratch₁, mode, hput₁⟩ := hd₁
  have hfree : d₁.files.node? (place ++ ["sbat"]) = none := by
    rw [hput₁, FileStore.node?_put_of_ne (by simp)]
    exact hempty _ hsbat
  refine (ensures_writeInto hscratch₁ hsbat (by simp [hfree])).bind fun sbat d₂ _ hd₂ => ?_
  obtain ⟨rfl, hscratch₂, mode', hput₂⟩ := hd₂
  refine ensures_pure ⟨hscratch₂, ?_, ?_⟩
  · refine FileStore.read_join hcmdline hscratch₂.found (f := ⟨_, mode⟩) ?_
    rw [hput₂, FileStore.node?_put_of_ne (by simp), hput₁]
    exact FileStore.node?_put_self hcmdline.not_isGiven
  · exact FileStore.read_join hsbat hscratch₂.found
      (hput₂ ▸ FileStore.node?_put_self hsbat.not_isGiven)

theorem ensures_compose {l : KernelLayout} {stub output : String} {parts : Parts} :
    (compose l stub output parts).Ensures d
      (fun _ s => s.DiffersInOneFile d.files ∧
        (d.IsFreshFor [stub, output, parts.kernel, parts.initrd] → ∃ content,
          composed d.files l stub parts = .ok content ∧
          s.Replaces d.files output content d.showsModes))
      (· = d.files) := by
  refine (observes_ofExcept _).bind rfl fun _ d₁ hcont₁ hd₁ hvalid => ?_
  rw [← hd₁]
  refine ensures_withDirectory fun directory place e d₂ hcont₂ he hmem hscratch hempty => ?_
  have hslash := (Purpose.isFileName .kernelParts e).ne_slash
  refine (ensures_writeTexts hscratch hempty).bind fun paths d₃ hcont₃ hd₃ => ?_
  obtain ⟨hscratch₃, hcmdline, hsbat⟩ := hd₃
  -- The four sections, and the boot program.
  generalize hs : d₃.files = s at *
  have hload : ((descriptors l paths.1 paths.2 parts.kernel parts.initrd).mapM
      Pe.SectionDescriptor.load).Observes d₃ fun rs => _ :=
    observes_mapM fun x d' hd' => hs ▸ hd' ▸ Pe.SectionDescriptor.observes_load x
  refine hload.bind (hs ▸ hscratch₃.rest) fun rs d₄ hcont₄ hd₄ hrequests => ?_
  rw [hs] at hd₄
  refine (observes_ofExcept _).bind (hd₄ ▸ hscratch₃.rest) fun _ d₅ hcont₅ hd₅ hroom => ?_
  rw [hd₄] at hd₅
  refine (observes_read _).bind (hd₅ ▸ hscratch₃.rest) fun image d₆ hcont₆ hd₆ himage => ?_
  rw [hd₅] at hd₆ himage
  refine (observes_ofExcept _).bind (hd₆ ▸ hscratch₃.rest)
    fun content d₇ hcont₇ hd₇ hcontent => ?_
  rw [hd₆] at hd₇
  have hmodes : d₇.showsModes = d.showsModes := by
    rw [hcont₇.showsModes, hcont₆.showsModes, hcont₅.showsModes, hcont₄.showsModes,
      hcont₃.showsModes, hcont₂.showsModes, hcont₁.showsModes]
  refine ensures_replace.mono (fun _ s' hs' => ?_) fun _ h => h ▸ hd₇ ▸ hscratch₃.rest
  rw [hd₇, hmodes] at hs'
  refine ⟨hscratch₃.rest ▸ hs'.differsInOneFile.remove place, fun hfresh => ⟨content, ?_⟩⟩
  have hfree : ∀ path ∈ [stub, output, parts.kernel, parts.initrd],
      Purpose.kernelParts.name e ∉ FileStore.names path :=
    fun path hpath => hfresh path hpath e (hcont₁.endings ▸ he) .kernelParts
  simp only [List.mem_cons, List.not_mem_nil, or_false, forall_eq_or_imp, forall_eq] at hfree
  obtain ⟨hstub, houtput, hkernel, hinitrd⟩ := hfree
  constructor
  · obtain ⟨kernel, initrd, hreadKernel, hreadInitrd, rfl⟩ :=
      (mapM_requestIn_descriptors hcmdline hsbat).1 hrequests
    rw [hscratch₃.read hmem hslash hkernel] at hreadKernel
    rw [hscratch₃.read hmem hslash hinitrd] at hreadInitrd
    rw [hscratch₃.read hmem hslash hstub] at himage
    exact composed_eq_ok.2
      ⟨hvalid, kernel, initrd, image, hreadKernel, hreadInitrd, hroom, himage, hcontent⟩
  · exact hscratch₃.rest ▸ hs'.remove hmem hslash houtput

end UnifiedKernel

/-! ## Signing -/

namespace Signer

/-- The signer with certificates and a key from the files. -/
def loadedFrom (s : FileStore) (certificates key : String) : Except Error Signer := do
  let bundle ← readBundle s certificates
  withKey bundle (← readPem s key) key

theorem observes_load {certificates key : String} :
    (load certificates key).Observes d fun signer =>
      loadedFrom d.files certificates key = .ok signer := by
  refine (observes_permit _).andThen fun _ d₁ hd₁ _ => ?_
  refine observes_files.andThen fun s d₂ hd₂ hs => ?_
  refine (observes_ofExcept _).andThen fun bundle d₃ hd₃ hbundle => ?_
  refine (observes_permit _).andThen fun _ d₄ hd₄ _ => ?_
  refine observes_files.andThen fun s' d₅ hd₅ hs' => ?_
  refine (observes_ofExcept _).andThen fun pem d₆ _ hpem => ?_
  refine (observes_ofExcept _).mono (fun signer _ h => ⟨?_, h.2⟩) fun _ h => h
  rw [hs, hd₁] at hbundle
  rw [hs', hd₄, hd₃, hd₂, hd₁] at hpem
  rw [loadedFrom, hbundle]
  show (readPem d.files key >>= _) = _
  rw [hpem]
  exact h.1

theorem ensures_signFile {signer : Signer} {image : String} {output : SignedOutput} :
    (signer.signFile image output).Ensures d
      (fun path s => path = output.resolve image ∧ ∃ content,
        (d.files.read image >>= signer.signImage) = .ok content ∧
        s.Replaces d.files (output.resolve image) content d.showsModes)
      (· = d.files) := by
  refine (observes_read _).bind rfl fun bytes d₁ hcont₁ hd₁ hbytes => ?_
  refine (observes_ofExcept _).bind hd₁ fun signed d₂ hcont₂ hd₂ hsigned => ?_
  have hfiles : d₂.files = d.files := hd₂.trans hd₁
  have hmodes := (hcont₁.trans hcont₂).showsModes
  refine (ensures_replace.mono_failed fun _ hs => hs.trans hfiles).bind
    fun _ d₃ _ hd₃ => ?_
  refine ensures_pure ⟨rfl, signed, ?_, hfiles ▸ hmodes ▸ hd₃⟩
  rw [hbytes]
  exact hsigned

theorem ensures_resign {image certificates key : String} {output : SignedOutput} :
    (resign image certificates key output).Ensures d
      (fun path s => path = output.resolve image ∧ ∃ signer content,
        loadedFrom d.files certificates key = .ok signer ∧
        (d.files.read image >>= signer.signImage) = .ok content ∧
        s.Replaces d.files (output.resolve image) content d.showsModes)
      (· = d.files) := by
  refine observes_load.bind rfl fun signer d₁ hcont hd₁ hsigner => ?_
  refine ensures_signFile.mono ?_ fun _ hs => hs.trans hd₁
  rintro path s ⟨hpath, content, hcontent, hs⟩
  rw [hd₁] at hcontent
  rw [hd₁, hcont.showsModes] at hs
  exact ⟨hpath, signer, content, hsigner, hcontent, hs⟩

end Signer

/-! ## Operations -/

/-- A call that changes an executable in a file. -/
inductive FileOperation where
  | setSections (path : String) (descriptors : List Pe.SectionDescriptor)
  | setVendorTable (path : String) (table : VendorTable)
  | setVendorTableAt (path : String) (address : UInt32) (table : VendorTable)
  | compose (layout : KernelLayout) (stub output : String) (parts : UnifiedKernel.Parts)
  | signFile (signer : Signer) (image : String) (output : SignedOutput)
  | resign (image certificates key : String) (output : SignedOutput)

namespace FileOperation

def run : FileOperation → DiskM Unit
  | setSections path descriptors => Pe.setSections path descriptors
  | setVendorTable path table => VendorDatabase.set path table
  | setVendorTableAt path address table => VendorDatabase.setAt path address table
  | compose layout stub output parts => UnifiedKernel.compose layout stub output parts
  | signFile signer image output => discard (signer.signFile image output)
  | resign image certificates key output => discard (Signer.resign image certificates key output)

/-- The path of the file to write. -/
def target : FileOperation → String
  | setSections path _ | setVendorTable path _ | setVendorTableAt path _ _ => path
  | compose _ _ output _ => output
  | signFile _ image output | resign image _ _ output => output.resolve image

/-- The bytes to write, computed in memory from the files as they are. -/
def content (s : FileStore) : FileOperation → Except Error Bytes
  | setSections path descriptors => Pe.edited s path descriptors
  | setVendorTable path table => VendorDatabase.edited s path table
  | setVendorTableAt path address table => VendorDatabase.editedAt s path address table
  | compose layout stub _ parts => UnifiedKernel.composed s layout stub parts
  | signFile signer image _ => do signer.signImage (← s.read image)
  | resign image certificates key _ => do
    let signer ← Signer.loadedFrom s certificates key
    signer.signImage (← s.read image)

/-- The paths that are followed while a directory under a made-up name is there. -/
def pathsBesideScratch : FileOperation → List String
  | setVendorTable path _ | setVendorTableAt path _ _ => [path]
  | compose _ stub output parts => [stub, output, parts.kernel, parts.initrd]
  | setSections .. | signFile .. | resign .. => []

theorem ensures_run (o : FileOperation) :
    o.run.Ensures d
      (fun _ s => s.DiffersInOneFile d.files ∧ (d.IsFreshFor o.pathsBesideScratch → ∃ content,
        o.content d.files = .ok content ∧ s.Replaces d.files o.target content d.showsModes))
      (· = d.files) := by
  cases o with
  | setSections path descriptors =>
    refine Pe.ensures_setSections.mono (fun _ s h => ?_) fun _ hs => hs
    obtain ⟨content, hcontent, hs⟩ := h
    exact ⟨hs.differsInOneFile, fun _ => ⟨content, hcontent, hs⟩⟩
  | setVendorTable path table => exact VendorDatabase.ensures_set
  | setVendorTableAt path address table => exact VendorDatabase.ensures_setAt
  | compose layout stub output parts => exact UnifiedKernel.ensures_compose
  | signFile signer image output =>
    refine Signer.ensures_signFile.bind fun path d₁ _ h₁ => ?_
    obtain ⟨-, content, hcontent, hs⟩ := h₁
    exact ensures_pure ⟨hs.differsInOneFile, fun _ => ⟨content, hcontent, hs⟩⟩
  | resign image certificates key output =>
    refine Signer.ensures_resign.bind fun path d₁ _ h₁ => ?_
    obtain ⟨-, signer, content, hsigner, hcontent, hs⟩ := h₁
    refine ensures_pure ⟨hs.differsInOneFile, fun _ => ⟨content, ?_, hs⟩⟩
    rw [FileOperation.content, hsigner]
    exact hcontent

/-- A disk with an executable that others may run. -/
def smallDisk : Disk where
  files := FileStore.put {} ["boot.efi"] (.file ⟨Pe.smallExecutable, 0o755⟩)
  endings := Ending.several 6

theorem isFreshFor_smallDisk : smallDisk.IsFreshFor ["./boot.efi"] := by
  intro path hpath e he p
  cases List.mem_singleton.1 hpath
  revert e
  cases p <;> decide +kernel

end FileOperation

end SecureBoot
