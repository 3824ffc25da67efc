import Mathlib
import SecureBoot.Proofs.EfiImage.Runs

/-!
# Regular images

An image is regular (`IsRegular`) if signing writes to no place that something else is read from:
the section table stands between the directory entry and the certificate table, sections and names
stand behind what signing writes to, and the entries of the certificate table fill it.

**Regular images stay regular.** If the table of a regular image is taken away, or signatures are
added, what can be read of the new file is what the change calls for (`IsRegular.strip`,
`IsRegular.signed`). When the checksum is filled in the file can always be read again
(`IsRegular.withChecksum`).

A sound image needs more: places of its own for every section. A regular image may have sections
that share bytes.
-/

namespace SecureBoot

theorem Bytes.beforeNul_append_zeros (x : Bytes) (n : Nat) :
    beforeNul (x ++ zeros n) = beforeNul x := by
  by_cases hx : 0 ∈ x
  · exact beforeNul_append hx _
  · rw [beforeNul_eq_self hx]
    cases n with
    | zero => rw [zeros_zero, List.append_nil, beforeNul_eq_self hx]
    | succ n => rw [zeros, List.replicate_succ, beforeNul_of_notMem hx]

namespace EfiImage

open Pe

/-- An image in which signing writes only where nothing else is read. -/
structure IsRegular (x : Bytes) (i : EfiImage) : Prop where
  directory_le : i.headers.certificateDirectoryStop ≤ i.headers.tableOffset
  tableStop_le : i.headers.tableStop ≤ frontStop x i
  sections_behind : ∀ s ∈ i.headers.sections, s.sizeOfRawData ≠ 0 →
    i.headers.certificateDirectoryStop ≤ s.pointerToRawData.toNat
  names_behind : ∀ s ∈ i.headers.sections, ∀ offset ∈ Headers.nameOffset? s.rawName,
    i.headers.checksumOffset + checksumSize ≤ i.headers.stringsOffset + offset
  entries : Entries x i.tableStop i.front.length i.signatures (WinCertificate.align i.tableStop)

variable {x y z : Bytes} {i j : EfiImage} {more : List WinCertificate}

/-! ## Places -/

theorem IsRegular.directory_le_front (hx : IsRegular x i) :
    i.headers.certificateDirectoryStop ≤ i.front.length :=
  hx.directory_le.trans ((Nat.le_add_right _ _).trans (hx.tableStop_le.trans (min_le_right _ _)))

theorem IsRegular.directory_le_tableStop (hx : IsRegular x i) :
    i.headers.certificateDirectoryStop ≤ i.tableStop :=
  hx.directory_le_front.trans (Nat.le_add_right _ _)

/-- Writing the directory entry does not change where the table begins. -/
theorem IsRegular.length_overwrite_front (hx : IsRegular x i) {entry : Bytes}
    (hentry : entry.length = DataDirectory.width) :
    (i.front.overwrite i.headers.certificateDirectoryOffset entry).length = i.front.length :=
  Bytes.length_overwrite (by rw [hentry]; exact hx.directory_le_front)

theorem Reads.entries_of_none (hi : Reads x i) (hd : i.headers.certificateDirectory = none) :
    i.signatures = [] ∧
      Entries x i.tableStop i.front.length i.signatures (WinCertificate.align i.tableStop) := by
  obtain ⟨-, hfront, htable, -⟩ := hi.pieces_of_none hd
  have hsignatures := hi.signatures
  rw [hd, readSignatures_none] at hsignatures
  have hstop : i.tableStop = i.front.length := by rw [tableStop, htable]; rfl
  have halign : WinCertificate.align i.tableStop = i.front.length := by
    rw [hstop, hfront]
    exact WinCertificate.align_of_dvd hi.dvd_length_raw
  refine ⟨hsignatures, ?_⟩
  rw [hsignatures, halign, hstop]
  exact Entries.done (Nat.lt_add_of_pos_right (by decide))

theorem IsRegular.of_headers (hx : IsRegular x i)
    (hheaders : j.headers =
      { i.headers with certificateDirectory := j.headers.certificateDirectory })
    (hstop : frontStop x i ≤ frontStop y j)
    (hentries : Entries y j.tableStop j.front.length j.signatures
      (WinCertificate.align j.tableStop)) : IsRegular y j where
  directory_le := by rw [hheaders]; exact hx.directory_le
  tableStop_le := by rw [hheaders]; exact hx.tableStop_le.trans hstop
  sections_behind := by rw [hheaders]; exact hx.sections_behind
  names_behind := by rw [hheaders]; exact hx.names_behind
  entries := hentries

/-! ## Sound images are regular -/

theorem IsSound.names_behind {l : Layout} (hx : IsSound x i l) :
    ∀ s ∈ i.headers.sections, ∀ offset ∈ Headers.nameOffset? s.rawName,
      i.headers.checksumOffset + checksumSize ≤ i.headers.stringsOffset + offset := by
  intro s hs offset hoffset
  obtain ⟨certificates, hr⟩ := hx.layoutReads
  rw [← hr.sections] at hs
  obtain ⟨t, ht, rfl⟩ := List.mem_map.1 hs
  obtain ⟨rest, hrest⟩ := Layout.exists_slash_of_nameOffset? hoffset
  have hname := (hr.section_stands t ht).1
  rw [hrest] at hname
  obtain ⟨-, -, table, htable, -⟩ := Layout.lookup?_of_sectionName hname
  have hsymbols := hx.symbols_behind table htable
  have hdirectory := hx.directory_le_sizeOfHeaders
  have hchecksum := i.headers.checksum_lt_directory
  have hentry : i.headers.certificateDirectoryOffset ≤ i.headers.certificateDirectoryStop :=
    Nat.le_add_right _ _
  have hstrings : i.headers.pointerToSymbolTable ≤ i.headers.stringsOffset := Nat.le_add_right _ _
  omega

theorem IsSound.isRegular {l : Layout} (hx : IsSound x i l) (hclear : i.IsClear) :
    IsRegular x i where
  directory_le := hx.directory_le
  tableStop_le := hx.tableStop_le.trans ((sizeOfHeaders_le_sectionsStop _).trans
    (hx.sectionsStop_le hclear))
  sections_behind := fun s hs hne =>
    hx.directory_le_sizeOfHeaders.trans (hx.sections_behind s hs hne)
  names_behind := hx.names_behind
  entries := by
    rw [WinCertificate.align_of_dvd hx.keeps.dvd_tableStop]
    exact hx.keeps.entries

theorem Keeps.isRegular {l : Layout} {ws : List WinCertificate} (hx : IsSound x i l)
    (hclear : i.IsClear) (hk : Keeps x i ws y j) : IsRegular y j := by
  refine (hx.isRegular hclear).of_headers hk.headers hk.frontStop_le ?_
  rw [WinCertificate.align_of_dvd hk.dvd_tableStop, hk.signatures]
  exact hk.entries

/-! ## Taking the table away -/

/-- A file that was changed at the places that signing writes to has the same headers but for the
directory entry. -/
theorem IsRegular.headers_eq (hx : IsRegular x i) (hi : Reads x i) (hj : Reads y j)
    (hagree : i.headers.AgreeTo (frontStop x i) x y) :
    j.headers = { i.headers with certificateDirectory := j.headers.certificateDirectory } :=
  hi.headers.eq_of_agree hj.headers (hagree.mono hx.tableStop_le) hx.directory_le

theorem IsRegular.strip (hx : IsRegular x i) (hi : Reads x i) (hz : i.strip = .ok z)
    (hj : Reads z j) :
    j.headers = { i.headers with certificateDirectory := none } ∧ j.signatures = [] ∧
      IsRegular z j := by
  rw [i.strip_eq] at hz
  obtain ⟨hin, rfl⟩ := hi.patchDirectory_eq_ok.1 hz
  set entry := DataDirectory.entryOf 0 0 with hentry
  have hwidth : entry.length = DataDirectory.width := DataDirectory.length_entryOf _ _
  have hfits : i.headers.certificateDirectoryOffset + entry.length ≤ i.unsigned.length := hin
  have hlength := Bytes.length_overwrite hfits
  have hagree : i.headers.AgreeTo (frontStop x i) x
      (i.unsigned.overwrite i.headers.certificateDirectoryOffset entry) := by
    intro k hk hfield
    rw [agreeTo_overwrite_directory i.headers 0 0 _ hin k hk hfield, hi.getElem?_unsigned hk]
  have hheaders := hx.headers_eq hi hj hagree
  have hnone : j.headers.certificateDirectory = none := by
    have hread := hj.headers.certificateDirectory
    have hoffset : j.headers.certificateDirectoryOffset = i.headers.certificateDirectoryOffset := by
      rw [hheaders]
      rfl
    rw [hoffset, DataDirectory.decode?_of_zeros] at hread
    · rw [← hread, ite_self]
    · rw [← hwidth, Bytes.slice_overwrite_self hfits]
      rfl
  obtain ⟨hsignatures, hentries⟩ := hj.entries_of_none hnone
  have hfront := (hj.pieces_of_none hnone).2.1
  have hstop : frontStop x i ≤
      frontStop (i.unsigned.overwrite i.headers.certificateDirectoryOffset entry) j := by
    have hunsigned := i.length_unsigned
    have hraw := hj.le_length_raw
    have hle := min_le_right x.length i.front.length
    rw [frontStop, frontStop, hfront]
    omega
  exact ⟨hnone ▸ hheaders, hsignatures, hx.of_headers hheaders hstop hentries⟩

/-! ## Adding signatures -/

/-- Zeros that come to stand behind what follows the table, where the table does not end aligned. -/
theorem Reads.align_length_signed (hi : Reads x i)
    (hstop : i.headers.certificateDirectoryStop ≤ i.tableStop) (more : List WinCertificate) :
    WinCertificate.align (i.signed more).length - (i.signed more).length = i.tableStop % 8 := by
  have hraw := hi.dvd_length_raw
  have hadded := dvd_length_flatMap_encode more
  have halign := WinCertificate.dvd_align i.tableStop
  have hlt := WinCertificate.align_lt_add (i.signed more).length
  have hle := WinCertificate.le_align (i.signed more).length
  have hdvd := WinCertificate.dvd_align (i.signed more).length
  rw [i.length_raw] at hraw
  have hlength := length_signed hstop more
  omega

/-- What is read of a regular image with further signatures. -/
structure IsSigned (i : EfiImage) (more : List WinCertificate) (j : EfiImage) : Prop where
  headers : j.headers = { i.headers with certificateDirectory := j.headers.certificateDirectory }
  signatures : j.signatures = i.signatures ++ more.map WinCertificate.padded
  length_front : j.front.length = i.front.length
  agree : ∀ stop, i.headers.AgreeTo stop (i.unsigned ++ Bytes.zeros (i.tableStop % 8)) j.unsigned

/-- Signatures that were added are read behind those that there were. -/
theorem IsRegular.entries_signed (hx : IsRegular x i) (hi : Reads x i)
    (hknown : ∀ w ∈ more, w.revision ∈ WinCertificate.revisions ∧ w.kind ∈ WinCertificate.kinds)
    (hmax : (i.signed more).length ≤ maxWord) {stop final : Nat} {ws : List WinCertificate}
    (hstop : stop = i.front.length + (i.signedTable more).length)
    (h : Entries (i.signed more) stop i.front.length ws final) :
    ws = i.signatures ++ more.map WinCertificate.padded ∧ final = stop := by
  have hlength := i.length_signedTable more
  have hle := WinCertificate.le_align i.tableStop
  have htotal := length_signed hx.directory_le_tableStop more
  obtain ⟨rest, hws, hrest⟩ := hx.entries.split (show i.tableStop ≤ stop by omega)
    (fun k => hi.getElem?_signed hx.directory_le_front) h
  have hslice := slice_signed hx.directory_le_front more
  rw [← hstop] at hslice
  have hdvd := WinCertificate.dvd_align i.tableStop
  obtain ⟨hread, hfinal⟩ := hrest.eq_of_encode hknown hslice (by omega) hdvd (by omega)
  exact ⟨by rw [hws, hread], hfinal⟩

theorem IsRegular.signed (hx : IsRegular x i) (hi : Reads x i)
    (hentry : DataDirectory.certificateIndex < i.headers.numberOfDirectories) (hmore : more ≠ [])
    (hknown : ∀ w ∈ more, w.revision ∈ WinCertificate.revisions ∧ w.kind ∈ WinCertificate.kinds)
    (hmax : (i.signed more).length ≤ maxWord) (hj : Reads (i.signed more) j) :
    IsSigned i more j ∧ IsRegular (i.signed more) j := by
  have hfront : i.front.length ≤ i.tableStop := Nat.le_add_right _ _
  obtain ⟨d, hheaders, haddress, hsize⟩ := hi.headers_signed hentry hx.directory_le
    (hx.tableStop_le.trans (min_le_min le_rfl hfront)) hmore hmax hj.headers
  have hd : j.headers.certificateDirectory = some d := by rw [hheaders]
  have hstop : j.tableStop = i.front.length + (i.signedTable more).length := by
    rw [(hj.lengths_of_some hd).2, DataDirectory.stop, haddress, hsize]
  have hlength := hx.length_overwrite_front (DataDirectory.length_entryOf i.front.length
    (i.signedTable more).length)
  obtain ⟨hjfront, -, hjbehind⟩ := hj.pieces hd (signed_eq hx.directory_le_front more)
    (haddress.trans hlength.symm) hsize
  rw [hi.align_length_signed hx.directory_le_tableStop] at hjbehind
  have hjlength : j.front.length = i.front.length := by rw [hjfront, hlength]
  obtain ⟨-, final, hentries⟩ := readSignatures_some.1 (hd ▸ hj.signatures)
  rw [haddress, ← (hj.lengths_of_some hd).2] at hentries
  obtain ⟨hsignatures, rfl⟩ := hx.entries_signed hi hknown hmax hstop hentries
  have hdvd : 8 ∣ j.tableStop := by
    rw [hstop, i.length_signedTable more]
    exact Nat.dvd_add (WinCertificate.dvd_align _) (dvd_length_flatMap_encode more)
  have hheaders' : j.headers =
      { i.headers with certificateDirectory := j.headers.certificateDirectory } := by rw [hheaders]
  refine ⟨{
    headers := hheaders'
    signatures := hsignatures
    length_front := hjlength
    agree := ?_ }, hx.of_headers hheaders' ?_ ?_⟩
  · intro stop
    have hunsigned : j.unsigned = (i.unsigned ++ Bytes.zeros (i.tableStop % 8)).overwrite
        i.headers.certificateDirectoryOffset
        (DataDirectory.entryOf i.front.length (i.signedTable more).length) := by
      rw [unsigned, unsigned, hjfront, hjbehind, List.append_assoc, Bytes.overwrite_append]
      rw [DataDirectory.length_entryOf]
      exact hx.directory_le_front
    rw [hunsigned]
    apply agreeTo_overwrite_directory
    have hdirectory := hx.directory_le_front
    rw [List.length_append, i.length_unsigned]
    omega
  · have htotal := length_signed hx.directory_le_tableStop more
    have hle := WinCertificate.le_align i.tableStop
    have hraw := hi.le_length_raw
    rw [i.length_raw] at hraw
    rw [frontStop, frontStop, hjlength]
    exact min_le_min (by omega) le_rfl
  · rw [WinCertificate.align_of_dvd hdvd, hjlength]
    exact hentries

/-! ## Dropping signatures -/

theorem isCurrent_eq_ok_true_iff {w : WinCertificate} :
    i.isCurrent w = .ok true ↔
      ∃ a hash, w.digestAlgorithm = .ok a ∧ i.digest a = .ok hash ∧
        w.fileHash = .ok (some hash) := by
  rw [isCurrent, bind_eq_ok]
  constructor
  · intro h
    obtain ⟨a, ha, h⟩ := h
    obtain ⟨hash, hhash, h⟩ := bind_eq_ok.1 h
    obtain ⟨stated, hstated, h⟩ := bind_eq_ok.1 h
    have hsame := beq_iff_eq.1 (pure_eq_ok.1 h)
    exact ⟨a, hash, ha, hhash, by rw [hstated, hsame]⟩
  · intro h
    obtain ⟨a, hash, ha, hhash, hstated⟩ := h
    refine ⟨a, ha, bind_eq_ok.2 ⟨hash, hhash, ?_⟩⟩
    refine bind_eq_ok.2 ⟨_, hstated, ?_⟩
    rw [pure_eq_ok, beq_self_eq_true]

theorem dropStale_eq_none (h : ∀ w ∈ i.signatures, i.isCurrent w = .ok true) :
    i.dropStale = .ok none := by
  refine dropStale_eq_ok.2 ⟨i.signatures, filterM_eq_ok.2 ⟨fun w hw => ⟨true, h w hw⟩, ?_⟩,
    Or.inl ⟨rfl, rfl⟩⟩
  symm
  rw [List.filter_eq_self]
  intro w hw
  rw [h w hw]
  rfl

theorem Reads.hasEntry (hi : Reads x i) (hsignatures : i.signatures ≠ []) :
    DataDirectory.certificateIndex < i.headers.numberOfDirectories := by
  by_contra hno
  have hd := hi.headers.certificateDirectory
  rw [if_neg hno] at hd
  exact hsignatures (hi.entries_of_none hd.symm).1

/-- Of a regular image only signatures stay that match it. -/
theorem IsRegular.dropStale (hx : IsRegular x i) (hi : Reads x i) {r : Option Bytes}
    (hr : i.dropStale = .ok r) (hmax : (r.getD x).length ≤ maxWord) (hj : Reads (r.getD x) j) :
    IsRegular (r.getD x) j ∧
      ∀ w ∈ j.signatures, ∃ v, i.isCurrent v = .ok true ∧ (w = v ∨ w = v.padded) := by
  obtain ⟨kept, hkept, h⟩ := dropStale_eq_ok.1 hr
  obtain ⟨hall, hfilter⟩ := filterM_eq_ok.1 hkept
  have hcurrent : ∀ v ∈ kept, v ∈ i.signatures ∧ i.isCurrent v = .ok true := by
    intro v hv
    rw [hfilter, List.mem_filter] at hv
    obtain ⟨hmem, hv⟩ := hv
    obtain ⟨b, hb⟩ := hall v hmem
    rw [hb] at hv
    exact ⟨hmem, by rw [hb]; exact congrArg Except.ok hv⟩
  rcases h with ⟨hlength, rfl⟩ | ⟨-, stripped, hstripped, h⟩
  · have hsame : kept = i.signatures :=
      hfilter ▸ List.filter_eq_self.2 (List.length_filter_eq_length_iff.1 (hfilter ▸ hlength))
    have hij := decode_eq_ok_iff.2 hj
    rw [Option.getD_none, decode_eq_ok_iff.2 hi] at hij
    cases hij
    exact ⟨hx, fun w hw => ⟨w, (hcurrent w (hsame ▸ hw)).2, Or.inl rfl⟩⟩
  · rcases h with ⟨-, rfl⟩ | ⟨hne, j', z, hj', hz, rfl⟩
    · obtain ⟨-, hnone, hregular⟩ := hx.strip hi hstripped hj
      refine ⟨hregular, fun w hw => ?_⟩
      rw [hnone] at hw
      cases hw
    · have hj' := decode_eq_ok_iff.1 hj'
      obtain ⟨hheaders, hnone, hregular⟩ := hx.strip hi hstripped hj'
      rw [hj'.setSignatures_eq_ok hregular.directory_le_tableStop] at hz
      cases hz
      have hentry : DataDirectory.certificateIndex < j'.headers.numberOfDirectories := by
        rw [hheaders]
        obtain ⟨v, hv⟩ := List.exists_mem_of_ne_nil kept hne
        exact hi.hasEntry (List.ne_nil_of_mem (hcurrent v hv).1)
      have hknown : ∀ w ∈ kept,
          w.revision ∈ WinCertificate.revisions ∧ w.kind ∈ WinCertificate.kinds := by
        intro w hw
        have haccepted := hx.entries.isAccepted w (hcurrent w hw).1
        exact ⟨haccepted.revision, haccepted.kind⟩
      obtain ⟨hsigned, hregular⟩ := hregular.signed hj' hentry hne hknown hmax hj
      refine ⟨hregular, fun w hw => ?_⟩
      rw [hsigned.signatures, hnone, List.nil_append] at hw
      obtain ⟨v, hv, rfl⟩ := List.mem_map.1 hw
      exact ⟨v, (hcurrent v hv).2, Or.inr rfl⟩

/-! ## Filling in the checksum -/

/-- A name that refers behind what was written to is read as before, zeros at the end or not. -/
theorem isNameReadable_congr {strings start count : Nat} {rawName : Bytes}
    (hstrings : ∀ offset ∈ Headers.nameOffset? rawName, start ≤ strings + offset)
    (hxy : ∀ k, start ≤ k → y[k]? = (x ++ Bytes.zeros count)[k]?)
    (h : Headers.isNameReadable x strings rawName = true) :
    Headers.isNameReadable y strings rawName = true := by
  unfold Headers.isNameReadable at h ⊢
  split
  · rename_i hslash
    rw [if_pos hslash] at h
    cases hoffset : Headers.nameOffset? rawName with
    | none => rw [hoffset] at h; cases h
    | some offset =>
      rw [hoffset] at h
      dsimp only at h ⊢
      have hdrop :
          y.drop (strings + offset) = (x ++ Bytes.zeros count).drop (strings + offset) := by
        apply List.ext_getElem?
        intro k
        rw [List.getElem?_drop, List.getElem?_drop]
        exact hxy _ ((hstrings offset hoffset).trans (Nat.le_add_right _ _))
      rw [Bool.and_eq_true, Bool.not_eq_true', List.isEmpty_eq_false_iff] at h
      have hin : strings + offset < x.length := by
        by_contra hle
        exact h.1 (List.drop_eq_nil_of_le (Nat.not_lt.1 hle))
      rw [hdrop, List.drop_append_of_le_length hin.le, Bytes.beforeNul_append_zeros, h.2,
        Bool.and_true, Bool.not_eq_true', List.isEmpty_eq_false_iff]
      exact List.append_ne_nil_of_left_ne_nil h.1 _
  · rfl

theorem IsRegular.checksum_le_front (hx : IsRegular x i) :
    i.headers.checksumOffset + checksumSize ≤ i.front.length :=
  i.headers.checksum_lt_directory.trans ((Nat.le_add_right _ _).trans hx.directory_le_front)

theorem Reads.agreeTo_withChecksum (hi : Reads x i) :
    i.headers.AgreeTo (frontStop x i) x i.withChecksum := by
  intro k hk hfield
  rw [hi.withChecksum_eq, agreeTo_overwrite_checksum i.headers _ _
    (hi.checksum_le.trans hi.le_length_raw) k hk hfield]
  exact hi.getElem?_raw (hk.trans_le (min_le_left _ _))

theorem IsRegular.headers_withChecksum (hx : IsRegular x i) (hi : Reads x i) :
    Headers.Reads i.withChecksum i.headers := by
  have hlength := hi.length_withChecksum
  have hle := hi.le_length_raw
  have hchecksum := i.headers.checksum_lt_directory
  have hnames : ∀ s ∈ i.headers.sections,
      Headers.isNameReadable i.withChecksum i.headers.stringsOffset s.rawName = true := by
    intro s hs
    have hbehind : ∀ k, i.headers.checksumOffset + checksumSize ≤ k → i.withChecksum[k]? =
        (x ++ Bytes.zeros (WinCertificate.align x.length - x.length))[k]? := by
      intro k hk
      rw [hi.getElem?_withChecksum hk, hi.raw, Bytes.padTo]
    exact isNameReadable_congr (hx.names_behind s hs) hbehind (hi.headers.names s hs)
  have htable : i.headers.tableStop ≤ x.length := hx.tableStop_le.trans (min_le_left _ _)
  have hdirectories := hi.headers.directories_le
  have hreads := hi.headers.resigned ((hi.agreeTo_withChecksum).mono hx.tableStop_le)
    hx.directory_le (by omega) (by omega) hnames
  rw [hi.directory_withChecksum, hi.headers.certificateDirectory] at hreads
  exact hreads

theorem IsRegular.signatures_withChecksum (hx : IsRegular x i) (hi : Reads x i) :
    readSignatures i.withChecksum i.headers.certificateDirectory = .ok i.signatures := by
  have hsignatures := hi.signatures
  cases hd : i.headers.certificateDirectory with
  | none =>
    rw [hd] at hsignatures
    rwa [readSignatures_none] at hsignatures ⊢
  | some d =>
    rw [hd] at hsignatures
    rw [readSignatures_some] at hsignatures ⊢
    obtain ⟨hstop, final, hentries⟩ := hsignatures
    have hlength := hi.length_withChecksum
    have hle := hi.le_length_raw
    have hfront := (hi.lengths_of_some hd).1
    refine ⟨by omega, final, hentries.congr fun k hk hk' => ?_⟩
    rw [hi.getElem?_withChecksum (hx.checksum_le_front.trans (hfront ▸ hk))]
    exact hi.getElem?_raw (hk'.trans_le hstop)

/-- A regular image can be read again when its checksum was filled in. -/
theorem IsRegular.withChecksum (hx : IsRegular x i) (hi : Reads x i) (hclear : i.IsClear) :
    ∃ j, Reads i.withChecksum j ∧ j.headers = i.headers ∧ j.signatures = i.signatures ∧
      j.front.length = i.front.length ∧ ∀ stop, i.headers.AgreeTo stop i.unsigned j.unsigned := by
  have hlength := hi.length_withChecksum
  have hle := hi.le_length_raw
  have hin : ∀ d ∈ i.headers.certificateDirectory, d.stop ≤ i.withChecksum.length := by
    intro d hd
    have hstop := hi.table_le d hd
    omega
  obtain ⟨j, hj, hheaders, hsignatures⟩ := exists_decode (hx.headers_withChecksum hi)
    (hx.signatures_withChecksum hi) hin (hi.directory_le.trans (hlength ▸ hle)) {
      sectionsStop_le := by
        have hstop := hi.isInPlace.sectionsStop_le
        omega
      table := Or.inr fun d hd => ⟨hclear d hd, hin d hd⟩ }
  have hj := decode_eq_ok_iff.1 hj
  set patch := Bytes.ofNatLE checksumSize i.computedChecksum with hpatch
  have hwidth : patch.length = checksumSize := Bytes.length_ofNatLE _ _
  have hfits : i.headers.checksumOffset + patch.length ≤ i.front.length :=
    hwidth ▸ hx.checksum_le_front
  have hpieces : i.withChecksum =
      i.front.overwrite i.headers.checksumOffset patch ++ (i.table ++ i.behind) := by
    rw [hi.withChecksum_eq, i.raw_eq, Bytes.overwrite_append hfits]
  obtain ⟨hfront, -, hbehind⟩ := hj.pieces_of_dvd hpieces (hlength ▸ hi.dvd_length_raw)
    (fun hd => by
      rw [hheaders] at hd
      exact ⟨(hi.pieces_of_none hd).2.2.1, (hi.pieces_of_none hd).2.2.2⟩)
    (fun d hd => by
      rw [hheaders] at hd
      obtain ⟨hfront, hstop⟩ := hi.lengths_of_some hd
      rw [tableStop, DataDirectory.stop, hfront, Nat.add_left_cancel_iff] at hstop
      exact ⟨by rw [Bytes.length_overwrite hfits, hfront], hstop.symm⟩)
  have hunsigned : j.unsigned = i.unsigned.overwrite i.headers.checksumOffset patch := by
    rw [unsigned, unsigned, hfront, hbehind, Bytes.overwrite_append hfits]
  refine ⟨j, hj, hheaders, hsignatures, by rw [hfront, Bytes.length_overwrite hfits],
    fun stop => ?_⟩
  rw [hunsigned]
  apply agreeTo_overwrite_checksum
  rw [i.length_unsigned]
  exact hx.checksum_le_front.trans (Nat.le_add_right _ _)

end EfiImage

end SecureBoot
