import SecureBoot.Enrollment
import SecureBoot.Proofs.Disk.Progress
import SecureBoot.Proofs.Guid
import SecureBoot.Proofs.Pem
import SecureBoot.Proofs.X509.Certificate

/-!
# Keys and the files that they are staged in

One number runs through the four groups of keys. It names the file of a key and nothing else, so
that no file is written twice.

**Theorem (`prepare_spec`).** An enrolment can be prepared if and only if every entry of the key set
is a certificate. The arguments are then the four fixed ones and, for each entry in the order of the
groups, the option of its group, the text of its owner, and the path of its file. The texts are
hyphenated digits that read as the owners. The paths are pairwise different. Writing the files into
any directory gives these paths, and when all are written, each path leads to the certificate of its
entry.

The proof has three parts.

* *Staging* keeps numbers and entries together: what it gives is a function of the entries with
  their positions (`stage_eq_ok`).
* *Writing* a file changes nothing but this file, so with different names all of them are there in
  the end (`write_eq`).
* *Reading back* is that of a document that was written (`readCertificate_of_read`).
-/

namespace SecureBoot

open FileStore (IsFileName)

/-! ## Certificates -/

namespace KeyDirectory

variable {path : String} {data : Bytes}

/-- Whether some bytes are a certificate. -/
def IsCertificate (data : Bytes) : Prop := (X509.Certificate.decode? .strict data).isSome = true

theorem checkCertificate_eq_ok : checkCertificate path data = .ok () ↔ IsCertificate data := by
  rw [checkCertificate, IsCertificate]
  split
  · rename_i h
    exact iff_of_true rfl h
  · rename_i h
    exact iff_of_false nofun h

theorem isLabel_certificateLabel : Pem.IsLabel certificateLabel := ⟨by decide, by decide⟩

/-- A certificate that was written as PEM is read back. -/
theorem readCertificate_of_read {files : FileStore} (hdata : IsCertificate data)
    (h : files.read path = .ok (Pem.mk certificateLabel data).encode) :
    readCertificate files path = .ok data := by
  refine bind_eq_ok.2 ⟨_, h, ?_⟩
  rw [Pem.read?_encode isLabel_certificateLabel]
  have hlabel : ¬ certificateLabel ≠ certificateLabel := fun hne => hne rfl
  exact check_bind_eq_ok.2 ⟨hlabel, bind_eq_ok.2 ⟨(), checkCertificate_eq_ok.2 hdata, rfl⟩⟩

end KeyDirectory

/-! ## Keys in order -/

namespace KeySet

/-- All entries, group by group. -/
def entries (keys : KeySet) : List SignatureEntry :=
  keys.platformKey :: (keys.keyExchange ++ (keys.allowed ++ keys.machineOwner))

/-- The option for each entry. -/
def flags (keys : KeySet) : List String :=
  "--set-pk" :: (List.replicate keys.keyExchange.length "--add-kek" ++
    (List.replicate keys.allowed.length "--add-db" ++
      List.replicate keys.machineOwner.length "--add-mok"))

end KeySet

namespace Enrollment

open KeyDirectory (IsCertificate certificateLabel)

theorem zip_replicate {α β : Type} (a : α) (xs : List β) :
    (List.replicate xs.length a).zip xs = xs.map (a, ·) := by
  induction xs with
  | nil => rfl
  | cons x rest ih =>
    rw [List.length_cons, List.replicate_succ, List.zip_cons_cons, ih, List.map_cons]

theorem options_eq (keys : KeySet) : options keys = keys.flags.zip keys.entries := by
  rw [options, KeySet.flags, KeySet.entries, List.zip_cons_cons, List.zip_append (by simp),
    List.zip_append (by simp), zip_replicate, zip_replicate, zip_replicate]
  simp

/-! ## Names of files -/

theorem toList_fileName (index : Nat) :
    (fileName index).toList = "cert-".toList ++ (Nat.toDigits 10 index ++ ".pem".toList) := by
  rw [← Nat.toList_repr, ← Nat.toString_eq_repr, ← String.toList_append, ← String.toList_append,
    ← String.append_assoc]
  rfl

theorem fileName_injective : Function.Injective fileName := by
  intro i j h
  have hlist := congrArg String.toList h
  rw [toList_fileName, toList_fileName, List.append_cancel_left_eq, List.append_cancel_right_eq]
    at hlist
  have hread := Text.decimal?_toDigits i
  rw [hlist, Text.decimal?_toDigits] at hread
  exact (Option.some.inj hread).symm

theorem isFileName_fileName (index : Nat) : IsFileName (fileName index) where
  named h := by
    have hlong : 5 ≤ (fileName index).toList.length := by
      rw [toList_fileName, List.length_append]
      exact Nat.le_add_right 5 _
    have hshort : ∀ name ∈ FileStore.unnamed, name.toList.length < 5 := by decide
    exact Nat.not_lt.2 hlong (hshort _ h)
  noSlash h := by
    rw [toList_fileName, List.mem_append, List.mem_append] at h
    rcases h with h | h | h
    · exact absurd h (by decide)
    · exact absurd (Nat.isDigit_of_mem_toDigits (by decide) (by decide) h) (by decide)
    · exact absurd h (by decide)

theorem join_injective (directory : String) : Function.Injective (FileStore.join directory) := by
  intro a b h
  rw [FileStore.join, FileStore.join] at h
  have hlist := congrArg String.toList h
  split at hlist <;> exact String.toList_inj.1 (by simpa using hlist)

/-! ## Staging -/

/-- What is staged for certificates. -/
def staged (directory : String) (index : Nat) (keyed : List (String × SignatureEntry)) :
    Prepared where
  arguments := (keyed.zipIdx index).flatMap fun k =>
    [k.1.1, k.1.2.owner.toText, FileStore.join directory (fileName k.2)]
  files := (keyed.zipIdx index).map fun k =>
    (fileName k.2, (Pem.mk certificateLabel k.1.2.data).encode)

theorem certificatePem_eq_ok {entry : SignatureEntry} {x : Bytes} :
    certificatePem entry = .ok x ↔
      IsCertificate entry.data ∧ x = (Pem.mk certificateLabel entry.data).encode := by
  rw [certificatePem, bind_eq_ok]
  constructor
  · rintro ⟨⟨⟩, hcheck, h⟩
    exact ⟨KeyDirectory.checkCertificate_eq_ok.1 hcheck, (pure_eq_ok.1 h).symm⟩
  · rintro ⟨hdata, rfl⟩
    exact ⟨(), KeyDirectory.checkCertificate_eq_ok.2 hdata, rfl⟩

theorem stage_eq_ok {directory : String} {index : Nat} {keyed : List (String × SignatureEntry)}
    {p : Prepared} : stage directory index keyed = .ok p ↔
      (∀ k ∈ keyed, IsCertificate k.2.data) ∧ p = staged directory index keyed := by
  induction keyed generalizing index p with
  | nil =>
    rw [stage, pure_eq_ok]
    exact ⟨fun h => ⟨nofun, h.symm⟩, fun h => h.2.symm⟩
  | cons k rest ih =>
    obtain ⟨option, entry⟩ := k
    rw [stage, bind_eq_ok, List.forall_mem_cons]
    constructor
    · rintro ⟨pem, hpem, h⟩
      obtain ⟨others, hothers, h⟩ := bind_eq_ok.1 h
      obtain ⟨hentry, rfl⟩ := certificatePem_eq_ok.1 hpem
      obtain ⟨hrest, rfl⟩ := ih.1 hothers
      exact ⟨⟨hentry, hrest⟩, (pure_eq_ok.1 h).symm⟩
    · rintro ⟨⟨hentry, hrest⟩, rfl⟩
      exact ⟨_, certificatePem_eq_ok.2 ⟨hentry, rfl⟩, bind_eq_ok.2 ⟨_, ih.2 ⟨hrest, rfl⟩, rfl⟩⟩

/-! ## Writing -/

section Writing

open DiskM (writeInto)

variable {directory : String} {folder : Place}

/-- Files with different names that are written into a directory are all there in the end, and
nothing else has changed. -/
theorem write_eq {files : List (String × Bytes)} {d : Disk} (hd : d.refusals = [])
    (hdirectory : d.files.directory? (FileStore.origin directory) (FileStore.names directory) =
      some folder)
    (hnames : ∀ file ∈ files, IsFileName file.1)
    (hfree : ∀ file ∈ files, d.files.node? (folder ++ [file.1]) ≠ some .directory)
    (hnodup : (files.map Prod.fst).Nodup) :
    ∃ after, files.mapM (fun file => writeInto directory file.1 file.2) d =
        .ok (files.map fun file => FileStore.join directory file.1) after ∧
      after.files.directory? (FileStore.origin directory) (FileStore.names directory) =
        some folder ∧
      (∀ file ∈ files, ∃ mode,
        after.files.node? (folder ++ [file.1]) = some (.file ⟨file.2, mode⟩)) ∧
      ∀ place, (∀ file ∈ files, place ≠ folder ++ [file.1]) →
        after.files.node? place = d.files.node? place := by
  induction files generalizing d with
  | nil => exact ⟨d, rfl, hdirectory, nofun, fun _ _ => rfl⟩
  | cons file rest ih =>
    rw [List.forall_mem_cons] at hnames hfree
    rw [List.map_cons, List.nodup_cons] at hnodup
    obtain ⟨mode, hwrite⟩ := DiskM.writeInto_eq hd hdirectory hnames.1 hfree.1
    have hother : ∀ other ∈ rest, folder ++ [other.1] ≠ folder ++ [file.1] := by
      intro other hmem heq
      have hname := List.singleton_inj.1 (List.append_cancel_left heq)
      exact hnodup.1 (hname ▸ List.mem_map_of_mem hmem)
    obtain ⟨after, hrun, hfound, hwritten, hsame⟩ := @ih
      { d with files := d.files.put (folder ++ [file.1]) (.file ⟨file.2, mode⟩) } hd
      (FileStore.directory?_put hfree.1 hdirectory) hnames.2
      (fun other hmem => by
        rw [FileStore.node?_put_of_ne (hother other hmem)]
        exact hfree.2 other hmem) hnodup.2
    refine ⟨after, ?_, hfound, ?_, ?_⟩
    · rw [List.mapM_cons, DiskM.bind_eq hwrite, DiskM.bind_eq hrun]
      rfl
    · rw [List.forall_mem_cons]
      refine ⟨⟨mode, ?_⟩, hwritten⟩
      rw [hsame _ fun other hmem => (hother other hmem).symm,
        FileStore.node?_put_self hnames.1.not_isGiven]
    · intro place hplace
      rw [List.forall_mem_cons] at hplace
      rw [hsame place hplace.2, FileStore.node?_put_of_ne hplace.1]

end Writing

/-! ## The whole -/

/-- The paths of files with numbers from zero on. -/
def pathsFor (directory : String) (keyed : List (String × SignatureEntry)) : List String :=
  keyed.zipIdx.map fun k => FileStore.join directory (fileName k.2)

theorem nodup_pathsFor (directory : String) (keyed : List (String × SignatureEntry)) :
    (pathsFor directory keyed).Nodup := by
  have hnumbers : pathsFor directory keyed =
      (keyed.zipIdx.map Prod.snd).map fun i => FileStore.join directory (fileName i) := by
    rw [pathsFor, List.map_map]
    rfl
  rw [hnumbers, List.zipIdx_map_snd]
  exact List.Nodup.map ((join_injective directory).comp fileName_injective) List.nodup_range'

theorem arguments_staged (directory : String) (keyed : List (String × SignatureEntry)) :
    (staged directory 0 keyed).arguments = (keyed.zip (pathsFor directory keyed)).flatMap fun k =>
      [k.1.1, k.1.2.owner.toText, k.2] := by
  have hzip : keyed.zip (pathsFor directory keyed) =
      keyed.zipIdx.map fun k => (k.1, FileStore.join directory (fileName k.2)) := by
    calc keyed.zip (pathsFor directory keyed)
      _ = (keyed.zipIdx.map Prod.fst).zip (pathsFor directory keyed) := by
        rw [List.zipIdx_map_fst]
      _ = _ := List.zip_map'
  rw [hzip, List.flatMap_map]
  rfl

/-- After all files of certificates were written, each path leads to its certificate. -/
theorem write_staged {directory : String} {folder : Place} {keyed : List (String × SignatureEntry)}
    {d : Disk} (hdata : ∀ k ∈ keyed, IsCertificate k.2.data) (hd : d.refusals = [])
    (hdirectory : d.files.directory? (FileStore.origin directory) (FileStore.names directory) =
      some folder)
    (hfree : ∀ index, d.files.node? (folder ++ [fileName index]) ≠ some .directory) :
    ∃ after, (staged directory 0 keyed).write directory d = .ok (pathsFor directory keyed) after ∧
      List.Forall₂
        (fun entry path => KeyDirectory.readCertificate after.files path = .ok entry.data)
        (keyed.map Prod.snd) (pathsFor directory keyed) := by
  have hfile : ∀ file ∈ (staged directory 0 keyed).files, ∃ index, file.1 = fileName index := by
    intro file hmem
    obtain ⟨k, -, rfl⟩ := List.mem_map.1 hmem
    exact ⟨k.2, rfl⟩
  have hnodup : ((staged directory 0 keyed).files.map Prod.fst).Nodup := by
    have hpaths := nodup_pathsFor directory keyed
    have hjoin : pathsFor directory keyed =
        ((staged directory 0 keyed).files.map Prod.fst).map (FileStore.join directory) := by
      simp [pathsFor, staged, Function.comp_def]
    exact List.Nodup.of_map _ (hjoin ▸ hpaths)
  obtain ⟨after, hrun, hfound, hwritten, -⟩ := @write_eq directory folder _ d hd hdirectory
    (fun file hmem => by
      obtain ⟨index, hindex⟩ := hfile file hmem
      exact hindex ▸ isFileName_fileName index)
    (fun file hmem => by
      obtain ⟨index, hindex⟩ := hfile file hmem
      exact hindex ▸ hfree index) hnodup
  refine ⟨after, ?_, ?_⟩
  · rw [Prepared.write, hrun, staged, List.map_map]
    rfl
  · have hentries : keyed.map Prod.snd = keyed.zipIdx.map fun k => k.1.2 := by
      calc keyed.map Prod.snd
        _ = (keyed.zipIdx.map Prod.fst).map Prod.snd := by rw [List.zipIdx_map_fst]
        _ = _ := List.map_map
    rw [hentries, pathsFor, List.forall₂_map_left_iff, List.forall₂_map_right_iff,
      List.forall₂_same]
    intro k hk
    obtain ⟨mode, hnode⟩ := hwritten _ (List.mem_map_of_mem hk)
    have hmem : k.1 ∈ keyed := by
      rw [← List.zipIdx_map_fst 0 keyed]
      exact List.mem_map_of_mem hk
    exact KeyDirectory.readCertificate_of_read (hdata k.1 hmem)
      (FileStore.read_join (isFileName_fileName k.2) hfound hnode)

/-- What an enrolment needs, what it tells the other program, and what this program finds. -/
theorem prepare_spec (directory input output : String) (keys : KeySet) :
    ((∃ p, prepare directory keys input output = .ok p) ↔
      ∀ entry ∈ keys.entries, IsCertificate entry.data) ∧
    ∀ p, prepare directory keys input output = .ok p → ∃ paths : List String,
      keys.flags.length = keys.entries.length ∧ paths.length = keys.entries.length ∧ paths.Nodup ∧
      p.arguments =
        ["--input=" ++ input, "--output=" ++ output, "--secure-boot", "--no-microsoft"] ++
        ((keys.flags.zip keys.entries).zip paths).flatMap (fun k =>
          [k.1.1, k.1.2.owner.toText, k.2]) ∧
      (∀ entry ∈ keys.entries, Guid.IsHyphenated entry.owner.toText ∧
        Guid.parse? entry.owner.toText = some entry.owner) ∧
      ∀ (d : Disk) (folder : Place), d.refusals = [] →
        d.files.directory? (FileStore.origin directory) (FileStore.names directory) = some folder →
        (∀ index, d.files.node? (folder ++ [fileName index]) ≠ some .directory) →
        ∃ after, p.write directory d = .ok paths after ∧
          List.Forall₂ (fun entry path =>
            KeyDirectory.readCertificate after.files path = .ok entry.data) keys.entries paths := by
  have hflags : keys.flags.length = keys.entries.length := by simp [KeySet.flags, KeySet.entries]
  have hentries : (options keys).map Prod.snd = keys.entries := by
    rw [options_eq, List.map_snd_zip hflags.ge]
  have hdata : (∀ k ∈ options keys, IsCertificate k.2.data) ↔
      ∀ entry ∈ keys.entries, IsCertificate entry.data := by
    rw [← hentries, List.forall_mem_map]
  constructor
  · constructor
    · rintro ⟨p, h⟩
      obtain ⟨q, hq, -⟩ := bind_eq_ok.1 h
      exact hdata.1 (stage_eq_ok.1 hq).1
    · exact fun h => ⟨_, bind_eq_ok.2 ⟨_, stage_eq_ok.2 ⟨hdata.2 h, rfl⟩, rfl⟩⟩
  · intro p h
    obtain ⟨q, hq, h⟩ := bind_eq_ok.1 h
    obtain ⟨hcertificates, rfl⟩ := stage_eq_ok.1 hq
    obtain rfl := pure_eq_ok.1 h
    refine ⟨pathsFor directory (options keys), hflags, ?_, nodup_pathsFor _ _, ?_, ?_, ?_⟩
    · rw [← hentries, pathsFor, List.length_map, List.length_zipIdx, List.length_map]
    · rw [← options_eq, ← arguments_staged]
      rfl
    · exact fun entry _ => ⟨entry.owner.isHyphenated_toText, entry.owner.parse?_toText⟩
    · intro d folder hd hdirectory hfree
      obtain ⟨after, hrun, hread⟩ := write_staged hcertificates hd hdirectory hfree
      exact ⟨after, hrun, hentries ▸ hread⟩

/-- Two certificates of two owners, one of which is there three times, in different groups. -/
def repeatedKey : KeySet :=
  let key : SignatureEntry := ⟨Guid.x509, X509.smallCertificate []⟩
  let other : SignatureEntry := ⟨Guid.sha256, X509.smallCertificate X509.spelledOut⟩
  { platformKey := key, keyExchange := [other, key], machineOwner := [key] }

theorem isCertificate_of_mem_repeatedKey :
    ∀ entry ∈ repeatedKey.entries, IsCertificate entry.data := by
  have hkey : IsCertificate (X509.smallCertificate []) := by
    rw [IsCertificate]
    decide +kernel
  have hother : IsCertificate (X509.smallCertificate X509.spelledOut) := by
    rw [IsCertificate]
    decide +kernel
  simp [repeatedKey, KeySet.entries, hkey, hother]

/-- An empty directory. -/
def emptyKeys : Disk := { files := FileStore.put {} ["keys"] .directory }

/-- Each owner stands in front of the path at which its certificate is found. -/
theorem prepare_spec_repeatedKey : ∃ p a b c d after,
    prepare "keys" repeatedKey "in" "out" = .ok p ∧ [a, b, c, d].Nodup ∧
      p.arguments = ["--input=in", "--output=out", "--secure-boot", "--no-microsoft",
        "--set-pk", "a5c059a1-94e4-4aa7-87b5-ab155c2bf072", a,
        "--add-kek", "c1c41626-504c-4092-aca9-41f936934328", b,
        "--add-kek", "a5c059a1-94e4-4aa7-87b5-ab155c2bf072", c,
        "--add-mok", "a5c059a1-94e4-4aa7-87b5-ab155c2bf072", d] ∧
      p.write "keys" emptyKeys = .ok [a, b, c, d] after ∧
      KeyDirectory.readCertificate after.files a = .ok (X509.smallCertificate []) ∧
      KeyDirectory.readCertificate after.files b = .ok (X509.smallCertificate X509.spelledOut) ∧
      KeyDirectory.readCertificate after.files c = .ok (X509.smallCertificate []) ∧
      KeyDirectory.readCertificate after.files d = .ok (X509.smallCertificate []) := by
  obtain ⟨hprepare, hspec⟩ := prepare_spec "keys" "in" "out" repeatedKey
  have hfree : ∀ index, emptyKeys.files.node? (["keys"] ++ [fileName index]) ≠ some .directory := by
    intro index hnode
    rw [emptyKeys, FileStore.node?_put_of_ne (by simp), FileStore.node?,
      if_neg (by simp [FileStore.rootPlace])] at hnode
    cases hnode
  have hkey : Guid.x509.toText = "a5c059a1-94e4-4aa7-87b5-ab155c2bf072" := by decide
  have hother : Guid.sha256.toText = "c1c41626-504c-4092-aca9-41f936934328" := by decide
  obtain ⟨p, hp⟩ := hprepare.2 isCertificate_of_mem_repeatedKey
  obtain ⟨paths, -, hlength, hnodup, harguments, -, hwrite⟩ := hspec p hp
  obtain ⟨after, hrun, hread⟩ := hwrite emptyKeys ["keys"] rfl (by decide) hfree
  obtain ⟨a, b, c, d, rfl⟩ : ∃ a b c d, paths = [a, b, c, d] := List.length_eq_four.1 hlength
  simp only [repeatedKey, KeySet.entries, List.nil_append, List.cons_append,
    List.forall₂_cons] at hread
  obtain ⟨ha, hb, hc, hd, -⟩ := hread
  refine ⟨p, a, b, c, d, after, hp, hnodup, ?_, hrun, ha, hb, hc, hd⟩
  rw [harguments, ← hkey, ← hother]
  rfl

end Enrollment

end SecureBoot
