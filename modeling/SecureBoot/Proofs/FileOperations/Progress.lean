import Mathlib
import SecureBoot.Proofs.Disk.Progress
import SecureBoot.Proofs.FileOperations

/-!
# When operations on files succeed

**Theorem (`FileOperation.run_eq_ok_iff`).** On a disk that is ready, a call succeeds exactly if the
new bytes can be computed in memory and there can be a file at its target. So a call fails for the
reasons of the computation only, never because a file of its own is missing or in the way.
-/

namespace SecureBoot

open DiskM
open FileStore (IsFileName)

variable {d : Disk} {content : Bytes} {place : Place}

/-! ## Reading several files -/

/-- What is computed for each element of a list is what a command gives for it. -/
theorem DiskM.mapM_eq {α β : Type} {f : α → DiskM β} {g : α → Except Error β} {xs : List α}
    {ys : List β} (h : xs.mapM g = .ok ys)
    (hf : ∀ x, ∀ y ∈ ys, g x = .ok y → f x d = .ok y d) : xs.mapM f d = .ok ys d := by
  induction mapM_eq_ok.1 h with
  | nil => rfl
  | cons hx hrest ih =>
    have hnext := ih (mapM_eq_ok.2 hrest) fun x y hy => hf x y (List.mem_cons_of_mem _ hy)
    rw [List.mapM_cons, bind_eq (hf _ _ List.mem_cons_self hx), bind_eq hnext]
    rfl

/-! ## Sections -/

namespace Pe

theorem SectionDescriptor.load_eq {x : SectionDescriptor} {r : SectionRequest}
    (hd : d.refusals = []) (hname : checkName r.name = .ok ())
    (h : x.requestIn d.files = .ok r) : x.load d = .ok r d := by
  obtain ⟨data, hdata, rfl⟩ := requestIn_eq_ok.1 h
  have hname' : checkName x.name = .ok () := hname
  rw [load, bind_eq (ofExcept_eq hname'), bind_eq (read_eq hd hdata)]
  rfl

theorem mapM_load_eq {xs : List SectionDescriptor} {rs : List SectionRequest}
    (hd : d.refusals = []) (hnames : ∀ r ∈ rs, checkName r.name = .ok ())
    (h : xs.mapM (·.requestIn d.files) = .ok rs) :
    xs.mapM SectionDescriptor.load d = .ok rs d :=
  mapM_eq h fun _ r hr hload => SectionDescriptor.load_eq hd (hnames r hr) hload

theorem succeeds_setSections {path : String} {descriptors : List SectionDescriptor}
    (h : d.CanReplace) (hcontent : edited d.files path descriptors = .ok content)
    (htarget : d.files.target? path = some place) :
    (setSections path descriptors).Succeeds d fun _ _ => True := by
  obtain ⟨image, himage, hcontent⟩ := bind_eq_ok.1 hcontent
  obtain ⟨requests, hrequests, hcontent⟩ := bind_eq_ok.1 hcontent
  obtain ⟨⟨hnames, -⟩, -⟩ := applySections_eq_ok.1 hcontent
  refine .step (mapM_load_eq h.refusals hnames hrequests) ?_
  refine .step (read_eq h.refusals himage) ?_
  refine .step (ofExcept_eq hcontent) ?_
  exact succeeds_replace h htarget

end Pe

/-! ## Vendor tables -/

namespace VendorDatabase

theorem succeeds_setAt {path : String} {address : UInt32} {table : VendorTable} (h : d.IsReady)
    (hfresh : d.IsFreshFor [path])
    (hcontent : editedAt d.files path address table = .ok content)
    (htarget : d.files.target? path = some place) :
    (setAt path address table).Succeeds d fun _ _ => True := by
  obtain ⟨data, hdata, -⟩ := bind_eq_ok.1 hcontent
  refine .step (ofExcept_eq hdata) ?_
  refine succeeds_withDirectory h (fun e => by simp [Purpose.name, Purpose.beginning]) ?_
  intro directory scratch e d₁ h₁ he hmem hscratch hempty
  have hslash := (Purpose.isFileName .vendorTable e).ne_slash
  have hpath := hfresh path List.mem_cons_self e he .vendorTable
  have hname : IsFileName "vendor_cert.bin" := ⟨by decide, by decide⟩
  have hfree := hempty _ hname
  refine ((succeeds_writeInto h₁ hscratch hname (by decide) (by simp [hfree])).ensured
    (ensures_writeInto hscratch hname (by simp [hfree]))).bind fun contentPath d₂ hd₂ => ?_
  obtain ⟨h₂, rfl, hscratch₂, mode, hput⟩ := hd₂
  have hread : d₂.files.read (FileStore.join directory "vendor_cert.bin") = .ok data :=
    FileStore.read_join hname hscratch₂.found (hput ▸ FileStore.node?_put_self hname.not_isGiven)
  rw [← edited_descriptor hdata hread (hscratch₂.read hmem hslash hpath)] at hcontent
  exact Pe.succeeds_setSections h₂ hcontent ((hscratch₂.target? hmem hslash hpath).trans htarget)

theorem succeeds_set {path : String} {table : VendorTable} (h : d.IsReady)
    (hfresh : d.IsFreshFor [path]) (hcontent : edited d.files path table = .ok content)
    (htarget : d.files.target? path = some place) :
    (set path table).Succeeds d fun _ _ => True := by
  obtain ⟨image, himage, hcontent⟩ := bind_eq_ok.1 hcontent
  obtain ⟨found, hfound, hcontent⟩ := bind_eq_ok.1 hcontent
  refine .step (read_eq h.refusals himage) ?_
  refine .step (ofExcept_eq hfound) ?_
  exact succeeds_setAt h hfresh hcontent htarget

end VendorDatabase

/-! ## Unified kernel images -/

namespace UnifiedKernel

theorem succeeds_writeTexts {before : FileStore} {directory : String} {parts : Parts}
    (h : d.CanReplace) (hscratch : d.files.HasScratch before directory place)
    (hempty : ∀ name, IsFileName name → d.files.node? (place ++ [name]) = none) :
    (writeTexts directory parts).Succeeds d fun _ after => after.CanReplace := by
  have hcmdline : IsFileName "cmdline" := ⟨by decide, by decide⟩
  have hsbat : IsFileName "sbat" := ⟨by decide, by decide⟩
  have hfree := hempty _ hcmdline
  refine ((succeeds_writeInto h hscratch hcmdline (by decide) (by simp [hfree])).ensured
    (ensures_writeInto hscratch hcmdline (by simp [hfree]))).bind fun cmdline d₁ hd₁ => ?_
  obtain ⟨h₁, rfl, hscratch₁, mode, hput⟩ := hd₁
  have hfree₁ : d₁.files.node? (place ++ ["sbat"]) = none := by
    rw [hput, FileStore.node?_put_of_ne (by simp)]
    exact hempty _ hsbat
  exact (succeeds_writeInto h₁ hscratch₁ hsbat (by decide) (by simp [hfree₁])).bind
    fun _ _ h₂ => succeeds_pure h₂

theorem succeeds_compose {l : KernelLayout} {stub output : String} {parts : Parts}
    (h : d.IsReady) (hfresh : d.IsFreshFor [stub, output, parts.kernel, parts.initrd])
    (hcontent : composed d.files l stub parts = .ok content)
    (htarget : d.files.target? output = some place) :
    (compose l stub output parts).Succeeds d fun _ _ => True := by
  obtain ⟨hvalid, kernel, initrd, image, hkernel, hinitrd, hroom, himage, hcontent⟩ :=
    composed_eq_ok.1 hcontent
  refine .step (ofExcept_eq hvalid) ?_
  refine succeeds_withDirectory h (fun e => by simp [Purpose.name, Purpose.beginning]) ?_
  intro directory scratch e d₁ h₁ he hmem hscratch hempty
  have hslash := (Purpose.isFileName .kernelParts e).ne_slash
  have hread : ∀ path ∈ [stub, output, parts.kernel, parts.initrd],
      Purpose.kernelParts.name e ∉ FileStore.names path :=
    fun path hpath => hfresh path hpath e he .kernelParts
  simp only [List.mem_cons, List.not_mem_nil, or_false, forall_eq_or_imp, forall_eq] at hread
  obtain ⟨hstub', houtput', hkernel', hinitrd'⟩ := hread
  refine ((succeeds_writeTexts h₁ hscratch hempty).ensured
    (ensures_writeTexts hscratch hempty)).bind fun paths d₂ hd₂ => ?_
  obtain ⟨h₂, hscratch₂, hcmdline, hsbat⟩ := hd₂
  rw [← hscratch₂.read hmem hslash hkernel'] at hkernel
  rw [← hscratch₂.read hmem hslash hinitrd'] at hinitrd
  rw [← hscratch₂.read hmem hslash hstub'] at himage
  have hrequests := (mapM_requestIn_descriptors (l := l) hcmdline hsbat).2
    ⟨kernel, initrd, hkernel, hinitrd, rfl⟩
  obtain ⟨⟨hnames, -⟩, -⟩ := Pe.applySections_eq_ok.1 hcontent
  refine .step (Pe.mapM_load_eq h₂.refusals hnames hrequests) ?_
  refine .step (ofExcept_eq hroom) ?_
  refine .step (read_eq h₂.refusals himage) ?_
  refine .step (ofExcept_eq hcontent) ?_
  exact succeeds_replace h₂ ((hscratch₂.target? hmem hslash houtput').trans htarget)

end UnifiedKernel

/-! ## Signing -/

namespace Signer

theorem load_eq {signer : Signer} {certificates key : String} (hd : d.refusals = [])
    (h : loadedFrom d.files certificates key = .ok signer) :
    load certificates key d = .ok signer d := by
  obtain ⟨bundle, hbundle, h⟩ := bind_eq_ok.1 h
  obtain ⟨pem, hpem, h⟩ := bind_eq_ok.1 h
  rw [load, bind_eq (permit_eq hd), bind_eq files_eq, bind_eq (ofExcept_eq hbundle),
    bind_eq (permit_eq hd), bind_eq files_eq, bind_eq (ofExcept_eq hpem), ofExcept_eq h]

theorem succeeds_signFile {signer : Signer} {image : String} {output : SignedOutput}
    (h : d.CanReplace) (hcontent : (d.files.read image >>= signer.signImage) = .ok content)
    (htarget : d.files.target? (output.resolve image) = some place) :
    (signer.signFile image output).Succeeds d fun _ _ => True := by
  obtain ⟨bytes, hbytes, hcontent⟩ := bind_eq_ok.1 hcontent
  refine .step (read_eq h.refusals hbytes) ?_
  refine .step (ofExcept_eq hcontent) ?_
  exact (succeeds_replace h htarget).bind fun _ _ _ => succeeds_pure trivial

end Signer

/-! ## Operations -/

namespace FileOperation

theorem succeeds_run (o : FileOperation) (h : d.IsReady)
    (hfresh : d.IsFreshFor o.pathsBesideScratch) (hcontent : o.content d.files = .ok content)
    (htarget : d.files.target? o.target = some place) : o.run.Succeeds d fun _ _ => True := by
  cases o with
  | setSections path descriptors => exact Pe.succeeds_setSections h.canReplace hcontent htarget
  | setVendorTable path table => exact VendorDatabase.succeeds_set h hfresh hcontent htarget
  | setVendorTableAt path address table =>
    exact VendorDatabase.succeeds_setAt h hfresh hcontent htarget
  | compose layout stub output parts =>
    exact UnifiedKernel.succeeds_compose h hfresh hcontent htarget
  | signFile signer image output =>
    refine (Signer.succeeds_signFile h.canReplace hcontent htarget).bind fun _ _ _ => ?_
    exact succeeds_pure trivial
  | resign image certificates key output =>
    obtain ⟨signer, hsigner, hcontent⟩ := bind_eq_ok.1 hcontent
    have hrun : (Signer.resign image certificates key output).Succeeds d fun _ _ => True :=
      .step (Signer.load_eq h.refusals hsigner)
        (Signer.succeeds_signFile h.canReplace hcontent htarget)
    exact hrun.bind fun _ _ _ => succeeds_pure trivial

/-- **Progress.** Where nothing stands in the way, a call succeeds exactly if the new bytes can be
computed and there can be a file at the target. -/
theorem run_eq_ok_iff (o : FileOperation) (h : d.IsReady)
    (hfresh : d.IsFreshFor o.pathsBesideScratch) :
    (∃ after, o.run d = .ok () after) ↔
      ∃ content place, o.content d.files = .ok content ∧ d.files.target? o.target = some place := by
  constructor
  · rintro ⟨after, hafter⟩
    have hrun := ensures_run (d := d) o
    rw [Ensures, hafter] at hrun
    obtain ⟨content, hcontent, place, htarget, -⟩ := hrun.2.2 hfresh
    exact ⟨content, place, hcontent, htarget⟩
  · rintro ⟨content, place, hcontent, htarget⟩
    obtain ⟨_, after, hafter, -⟩ := succeeds_run o h hfresh hcontent htarget
    exact ⟨after, hafter⟩

theorem isReady_smallDisk : smallDisk.IsReady where
  refusals := rfl
  scratch := ⟨FileStore.rootPlace, by decide⟩
  endings := by
    refine ⟨Ending.single 0, Ending.single 1, _, rfl, fun p => ?_⟩
    cases p <;> decide

end FileOperation

end SecureBoot
