import Mathlib
import SecureBoot.Proofs.EfiImage.Digest
import SecureBoot.Proofs.EfiImage.Signing

/-!
# One change of the signatures

Every change of the signatures of an image keeps the invariant `Keeps`:

* *headers*: they are those of the first image but for the directory entry,
* *places*: the certificate table begins behind everything that the first image has in front of its
  own, and begins and ends at multiples of eight, and
* *bytes*: without the table the image is the first one without its table, but for what signing
  writes to.

With the places, the headers and sections of the file can be read again, and with the bytes they are
the same as before (`IsSound.keeps_of_pieces`). Each change is then a matter of the pieces that it
puts together.
-/

namespace SecureBoot.EfiImage

open Pe

/-! ## Images to start from -/

/-- An image whose headers, sections and symbols have places of their own, and whose certificate
table, if it has one, lies aligned behind sections and symbols. -/
structure IsSound (x : Bytes) (i : EfiImage) (l : Layout) : Prop where
  image : decode x = .ok i
  layout : Layout.decode x = .ok l
  hasEntry : DataDirectory.certificateIndex < i.headers.numberOfDirectories
  directories_le : i.headers.directoriesOffset +
    i.headers.numberOfDirectories * DataDirectory.width ≤ i.headers.tableOffset
  tableStop_le : i.headers.tableStop ≤ i.headers.sizeOfHeaders.toNat
  apart : i.headers.sections.Pairwise IsApart
  sections_behind : ∀ s ∈ i.headers.sections, s.sizeOfRawData ≠ 0 →
    i.headers.sizeOfHeaders.toNat ≤ s.pointerToRawData.toNat
  symbols_behind : ∀ t ∈ l.symbols, i.headers.sizeOfHeaders.toNat ≤ i.headers.pointerToSymbolTable
  endsInNul : ∀ t ∈ l.symbols, t.EndsInNul
  dvd_address : ∀ d ∈ i.headers.certificateDirectory, 8 ∣ d.address.toNat
  dvd_size : ∀ d ∈ i.headers.certificateDirectory, 8 ∣ d.size.toNat
  table_behind : ∀ d ∈ i.headers.certificateDirectory,
    (∀ s ∈ i.headers.sections, s.sizeOfRawData ≠ 0 → s.rawStop ≤ d.address.toNat) ∧
      ∀ t ∈ l.symbols,
        i.headers.pointerToSymbolTable + t.symbols.length + t.strings.length ≤ d.address.toNat

/-- Whether the certificate table lies behind every place that the headers name, be there bytes or
not. -/
def IsClear (i : EfiImage) : Prop :=
  ∀ d ∈ i.headers.certificateDirectory, sectionsStop i.headers ≤ d.address.toNat

/-- Where the bytes of the file end that stand in front of the certificate table. -/
def frontStop (x : Bytes) (i : EfiImage) : Nat := min x.length i.front.length

/-- What changes of the signatures keep. -/
structure Keeps (x : Bytes) (i : EfiImage) (ws : List WinCertificate) (y : Bytes) (j : EfiImage) :
    Prop where
  image : decode y = .ok j
  headers : j.headers =
    { i.headers with certificateDirectory := j.headers.certificateDirectory }
  signatures : j.signatures = ws
  dvd_front : 8 ∣ j.front.length
  dvd_table : 8 ∣ j.table.length
  frontStop_le : frontStop x i ≤ frontStop y j
  agree : ∀ stop, i.headers.AgreeTo stop i.unsigned j.unsigned

variable {x y z : Bytes} {i j : EfiImage} {l : Layout} {ws more : List WinCertificate}

theorem IsSound.reads (hx : IsSound x i l) : Reads x i := decode_eq_ok_iff.1 hx.image

theorem Keeps.reads (hk : Keeps x i ws y j) : Reads y j := decode_eq_ok_iff.1 hk.image

theorem IsSound.layoutReads (hx : IsSound x i l) :
    ∃ certificates, Layout.Reads x i.headers certificates l := by
  obtain ⟨h, certificates, hr⟩ := Layout.decode_eq_ok_iff.1 hx.layout
  have hh := Headers.decode_eq_ok_iff.2 hr.headers
  rw [Headers.decode_eq_ok_iff.2 hx.reads.headers] at hh
  cases hh
  exact ⟨certificates, hr⟩

/-! ## Places -/

theorem IsSound.directory_le (hx : IsSound x i l) :
    i.headers.certificateDirectoryStop ≤ i.headers.tableOffset := by
  have hentry := hx.hasEntry
  have hdirectories := hx.directories_le
  have hindex : DataDirectory.certificateIndex = 4 := rfl
  have hstop : i.headers.certificateDirectoryStop = i.headers.directoriesOffset + 40 := rfl
  rw [show DataDirectory.width = 8 from rfl] at hdirectories
  omega

theorem IsSound.directory_le_sizeOfHeaders (hx : IsSound x i l) :
    i.headers.certificateDirectoryStop ≤ i.headers.sizeOfHeaders.toNat :=
  hx.directory_le.trans ((Nat.le_add_right _ _).trans hx.tableStop_le)

/-- In a clear image everything ends in front of the certificate table. -/
theorem IsSound.sectionsStop_le (hx : IsSound x i l) (hclear : i.IsClear) :
    sectionsStop i.headers ≤ frontStop x i := by
  have hin := hx.reads.isInPlace.sectionsStop_le
  refine le_min hin ?_
  rcases hx.reads.lengths with ⟨-, hfront⟩ | ⟨d, hd, hfront, -⟩
  · exact hin.trans hfront
  · rw [hfront]
    exact hclear d hd

theorem IsSound.digestedSize_le (hx : IsSound x i l) (hclear : i.IsClear) :
    digestedSize i.headers ≤ frontStop x i :=
  (EfiImage.digestedSize_le hx.apart hx.sections_behind).trans (hx.sectionsStop_le hclear)

theorem IsSound.isBelow (hx : IsSound x i l) (hclear : i.IsClear) :
    l.IsBelow i.headers (frontStop x i) := by
  have hstop := hx.sectionsStop_le hclear
  have hheaders := sizeOfHeaders_le_sectionsStop i.headers
  have hdirectory := hx.directory_le_sizeOfHeaders
  exact {
    directory_le := hx.directory_le
    directories_le := hx.directories_le
    tableStop_le := hx.tableStop_le.trans (hheaders.trans hstop)
    sections := fun s hs hne => ⟨hdirectory.trans (hx.sections_behind s hs hne),
      (rawStop_le_sectionsStop hs).trans hstop⟩
    symbols := by
      intro t ht
      refine ⟨hdirectory.trans (hx.symbols_behind t ht), ?_⟩
      obtain ⟨certificates, hr⟩ := hx.layoutReads
      have hin := hr.symbolsStop_le t ht
      refine le_min hin ?_
      rcases hx.reads.lengths with ⟨-, hfront⟩ | ⟨d, hd, hfront, -⟩
      · exact hin.trans hfront
      · rw [hfront]
        exact (hx.table_behind d hd).2 t ht
    endsInNul := hx.endsInNul }

/-! ## Bytes -/

theorem Reads.getElem?_unsigned (hi : Reads x i) {k : Nat} (hk : k < frontStop x i) :
    i.unsigned[k]? = x[k]? := by
  have hx : k < x.length := hk.trans_le (min_le_left _ _)
  have hfront : k < i.front.length := hk.trans_le (min_le_right _ _)
  rw [← hi.getElem?_raw hx, i.raw_eq, unsigned, List.getElem?_append_left hfront,
    List.getElem?_append_left hfront]

/-! ## Putting pieces together -/

/-- A file is read again if it is put together around its certificate table from the bytes of a
sound image. -/
theorem IsSound.keeps_of_pieces (hx : IsSound x i l) (hclear : i.IsClear)
    {front table behind : Bytes} {directory : Option DataDirectory}
    (hy : y = front ++ (table ++ behind)) (hfront : 8 ∣ front.length) (htable : 8 ∣ table.length)
    (hbehind : 8 ∣ behind.length) (hstop : frontStop x i ≤ front.length)
    (hagree : ∀ stop, i.headers.AgreeTo stop i.unsigned (front ++ behind))
    (hdirectory : DataDirectory.decode? y i.headers.certificateDirectoryOffset = directory)
    (hnone : directory = none → table = [] ∧ behind = [] ∧ ws = [])
    (hsome : ∀ d ∈ directory, d.address.toNat = front.length ∧ d.size.toNat = table.length ∧
      Entries y (front.length + table.length) front.length ws (front.length + table.length)) :
    ∃ j, Keeps x i ws y j ∧ j.headers = { i.headers with certificateDirectory := directory } := by
  have hlength : y.length = front.length + (table.length + behind.length) := by
    rw [hy, List.length_append, List.length_append]
  have hbelow := hx.isBelow hclear
  have hsections := hx.sectionsStop_le hclear
  have hstart : i.headers.tableOffset ≤ i.headers.tableStop := Nat.le_add_right _ _
  obtain ⟨certificates, hr⟩ := hx.layoutReads
  have hfrontAgree : i.headers.AgreeTo (frontStop x i) x y := by
    intro k hk hfield
    have hk' := hagree (frontStop x i) k hk hfield
    rw [hx.reads.getElem?_unsigned hk, List.getElem?_append_left (by omega)] at hk'
    rw [hy, List.getElem?_append_left (by omega), hk']
  have hheaders := hr.headers_resigned hbelow hfrontAgree (by omega)
  rw [if_pos hx.hasEntry, hdirectory] at hheaders
  have hws : readSignatures y directory = .ok ws := by
    cases directory with
    | none => rw [readSignatures_none, (hnone rfl).2.2]
    | some d =>
      obtain ⟨haddress, hsize, hentries⟩ := hsome d rfl
      rw [readSignatures_some, DataDirectory.stop, haddress, hsize]
      exact ⟨by omega, _, hentries⟩
  have hin : ∀ d ∈ directory, d.stop ≤ y.length := by
    intro d hd
    obtain ⟨haddress, hsize, -⟩ := hsome d hd
    rw [DataDirectory.stop, haddress, hsize]
    omega
  have hentry := hx.directory_le
  have htableStop := hbelow.tableStop_le
  obtain ⟨j, hj, hjheaders, hjsignatures⟩ := exists_decode hheaders hws hin
    (show i.headers.certificateDirectoryStop ≤ y.length by omega) {
      sectionsStop_le := show sectionsStop i.headers ≤ y.length by omega
      table := Or.inr fun d hd => ⟨by
        rw [(hsome d hd).1]
        exact hsections.trans hstop, hin d hd⟩ }
  have hreads := decode_eq_ok_iff.1 hj
  have hdvd : 8 ∣ y.length := by
    rw [hlength]
    exact Nat.dvd_add hfront (Nat.dvd_add htable hbehind)
  obtain ⟨hjfront, hjtable, hjbehind⟩ := hreads.pieces_of_dvd hy hdvd
    (fun hd => by
      rw [hjheaders] at hd
      exact ⟨(hnone hd).1, (hnone hd).2.1⟩)
    (fun d hd => by
      rw [hjheaders] at hd
      exact ⟨(hsome d hd).1, (hsome d hd).2.1⟩)
  have hunsigned : j.unsigned = front ++ behind := by rw [unsigned, hjfront, hjbehind]
  exact ⟨j, {
    image := hj
    headers := by rw [hjheaders]
    signatures := hjsignatures
    dvd_front := hjfront ▸ hfront
    dvd_table := hjtable ▸ htable
    frontStop_le := le_min (by omega) (hjfront ▸ hstop)
    agree := hunsigned ▸ hagree }, hjheaders⟩

/-- The image to start from. -/
theorem IsSound.keeps (hx : IsSound x i l) : Keeps x i i.signatures x i where
  image := hx.image
  headers := rfl
  signatures := rfl
  dvd_front := by
    cases hd : i.headers.certificateDirectory with
    | none => rw [(hx.reads.pieces_of_none hd).2.1]; exact hx.reads.dvd_length_raw
    | some d => rw [(hx.reads.lengths_of_some hd).1]; exact hx.dvd_address d hd
  dvd_table := by
    cases hd : i.headers.certificateDirectory with
    | none => rw [(hx.reads.pieces_of_none hd).2.2.1]; exact Nat.dvd_zero 8
    | some d =>
      obtain ⟨hfront, htableStop⟩ := hx.reads.lengths_of_some hd
      rw [tableStop, DataDirectory.stop, hfront, Nat.add_left_cancel_iff] at htableStop
      rw [htableStop]
      exact hx.dvd_size d hd
  frontStop_le := le_rfl
  agree := fun stop => Headers.AgreeTo.refl _ _ _

/-! ## The pieces of an image on the way -/

theorem Keeps.directoryStop_eq (hk : Keeps x i ws y j) :
    j.headers.certificateDirectoryStop = i.headers.certificateDirectoryStop := by
  rw [hk.headers]
  rfl

theorem Keeps.directoryOffset_eq (hk : Keeps x i ws y j) :
    j.headers.certificateDirectoryOffset = i.headers.certificateDirectoryOffset := by
  rw [hk.headers]
  rfl

theorem Keeps.checksumOffset_eq (hk : Keeps x i ws y j) :
    j.headers.checksumOffset = i.headers.checksumOffset := by
  rw [hk.headers]
  rfl

theorem Keeps.frontStop_le_front (hk : Keeps x i ws y j) : frontStop x i ≤ j.front.length :=
  hk.frontStop_le.trans (min_le_right _ _)

/-- The directory entry lies in front of the table. -/
theorem Keeps.directory_le_front (hx : IsSound x i l) (hclear : i.IsClear)
    (hk : Keeps x i ws y j) : i.headers.certificateDirectoryStop ≤ j.front.length :=
  hx.directory_le_sizeOfHeaders.trans ((sizeOfHeaders_le_sectionsStop _).trans
    ((hx.sectionsStop_le hclear).trans hk.frontStop_le_front))

theorem Keeps.dvd_behind (hk : Keeps x i ws y j) : 8 ∣ j.behind.length := by
  have hraw := hk.reads.dvd_length_raw
  have hfront := hk.dvd_front
  have htable := hk.dvd_table
  rw [j.length_raw, tableStop] at hraw
  omega

theorem Keeps.dvd_tableStop (hk : Keeps x i ws y j) : 8 ∣ j.tableStop :=
  Nat.dvd_add hk.dvd_front hk.dvd_table

theorem Keeps.filledTable_eq (hk : Keeps x i ws y j) : j.filledTable = j.table :=
  Reads.filledTable_of_dvd hk.dvd_tableStop

/-- The entries fill the table to its end. -/
theorem Keeps.entries (hk : Keeps x i ws y j) :
    Entries y j.tableStop j.front.length ws j.tableStop := by
  have hsignatures := hk.reads.signatures
  rw [hk.signatures] at hsignatures
  cases hd : j.headers.certificateDirectory with
  | none =>
    obtain ⟨-, hfront, htable, -⟩ := hk.reads.pieces_of_none hd
    rw [hd, readSignatures_none] at hsignatures
    rw [hsignatures, tableStop, htable, List.length_nil, Nat.add_zero]
    exact Entries.done (Nat.lt_add_of_pos_right (by decide))
  | some d =>
    obtain ⟨hfront, htableStop⟩ := hk.reads.lengths_of_some hd
    rw [hd, readSignatures_some, ← htableStop, ← hfront] at hsignatures
    obtain ⟨-, final, hentries⟩ := hsignatures
    have hfinal := hentries.final_eq (Nat.le_add_right _ _) hk.dvd_front hk.dvd_tableStop
    rwa [hfinal] at hentries

/-! ## The changes -/

/-- The entries that were added are read behind those that there are. -/
theorem Keeps.entries_signed (hk : Keeps x i ws y j)
    (hfront : j.headers.certificateDirectoryStop ≤ j.front.length)
    (hmore : ∀ w ∈ more, w.padded.IsAccepted) (hmax : (j.signed more).length ≤ maxWord) {stop : Nat}
    (hstop : stop = j.front.length + (j.signedTable more).length) :
    Entries (j.signed more) stop j.front.length (ws ++ more.map WinCertificate.padded) stop := by
  have htableStop : j.tableStop = j.front.length + j.table.length := rfl
  have hdvd := hk.dvd_tableStop
  have hlength := j.length_signedTable more
  rw [WinCertificate.align_of_dvd hdvd] at hlength
  rw [length_signed (hfront.trans (Nat.le_add_right _ _)), WinCertificate.align_of_dvd hdvd] at hmax
  refine hk.entries.append (show j.tableStop ≤ stop by omega)
    (fun k => hk.reads.getElem?_signed hfront) (entries_encode hmore ?_ (by omega) hdvd (by omega))
  have hslice := slice_signed hfront more
  rwa [WinCertificate.align_of_dvd hdvd, ← hstop] at hslice

/-- Further signatures come behind those that there are. -/
theorem Keeps.setSignatures (hx : IsSound x i l) (hclear : i.IsClear) (hk : Keeps x i ws y j)
    (hmore : ∀ w ∈ more, w.padded.IsAccepted) (hz : j.setSignatures more = .ok z)
    (hmax : z.length ≤ maxWord) :
    ∃ j', Keeps x i (ws ++ more.map WinCertificate.padded) z j' := by
  have hdirectory := hk.directory_le_front hx hclear
  have hfront : j.headers.certificateDirectoryStop ≤ j.front.length :=
    hk.directoryStop_eq ▸ hdirectory
  have hstop : j.headers.certificateDirectoryStop ≤ j.tableStop :=
    hfront.trans (Nat.le_add_right _ _)
  rw [hk.reads.setSignatures_eq_ok hstop] at hz
  cases hz
  have hpos : 0 < i.headers.certificateDirectoryStop := Nat.add_pos_right _ (by decide)
  obtain ⟨d, hd, haddress, hsize⟩ := exists_directory_signed hstop (Or.inl (by omega)) hmax
  have hentries := hk.entries_signed hfront hmore hmax rfl
  set entry := DataDirectory.entryOf j.front.length (j.signedTable more).length
  have hfits : j.headers.certificateDirectoryOffset + entry.length ≤ j.front.length := by
    rw [DataDirectory.length_entryOf]
    exact hfront
  have hlength := Bytes.length_overwrite hfits
  have htable : 8 ∣ (j.signedTable more).length := by
    rw [signedTable, hk.filledTable_eq, List.length_append]
    exact Nat.dvd_add hk.dvd_table (dvd_length_flatMap_encode more)
  have hagree : ∀ stop, i.headers.AgreeTo stop i.unsigned
      (j.front.overwrite j.headers.certificateDirectoryOffset entry ++ j.behind) := by
    intro stop
    rw [← Bytes.overwrite_append hfits, hk.directoryOffset_eq]
    refine (hk.agree stop).trans (agreeTo_overwrite_directory _ _ _ _ ?_)
    rw [j.length_unsigned]
    omega
  rw [hk.directoryOffset_eq] at hd
  obtain ⟨j', hj', -⟩ := hx.keeps_of_pieces hclear (signed_eq hfront more)
    (by rw [hlength]; exact hk.dvd_front) htable hk.dvd_behind
    (by rw [hlength]; exact hk.frontStop_le_front) hagree hd
    (fun hno => absurd hno (Option.some_ne_none d)) fun d' hd' => by
      cases hd'
      rw [hlength]
      exact ⟨haddress, hsize, hentries⟩
  exact ⟨j', hj'⟩

/-- The checksum is written over. -/
theorem Keeps.withChecksum (hx : IsSound x i l) (hclear : i.IsClear) (hk : Keeps x i ws y j) :
    ∃ j', Keeps x i ws j.withChecksum j' := by
  have hdirectory := hk.directory_le_front hx hclear
  have hbefore := i.headers.checksum_lt_directory
  have hoffset : i.headers.certificateDirectoryOffset ≤ i.headers.certificateDirectoryStop :=
    Nat.le_add_right _ _
  set patch := Bytes.ofNatLE checksumSize j.computedChecksum with hpatch
  have hwidth : patch.length = checksumSize := Bytes.length_ofNatLE _ _
  have hfits : i.headers.checksumOffset + patch.length ≤ j.front.length := by omega
  have hlength := Bytes.length_overwrite hfits
  have hz : j.withChecksum =
      j.front.overwrite i.headers.checksumOffset patch ++ (j.table ++ j.behind) := by
    rw [hk.reads.withChecksum_eq, hk.checksumOffset_eq, j.raw_eq, Bytes.overwrite_append hfits]
  have hentry : DataDirectory.decode? j.withChecksum i.headers.certificateDirectoryOffset =
      j.headers.certificateDirectory := by
    have hread := hk.reads.headers.certificateDirectory
    rw [hk.directoryOffset_eq, show j.headers.numberOfDirectories = i.headers.numberOfDirectories by
      rw [hk.headers], if_pos hx.hasEntry] at hread
    rw [← hread, ← hk.directoryOffset_eq, hk.reads.directory_withChecksum]
  have hagree : ∀ stop, i.headers.AgreeTo stop i.unsigned
      (j.front.overwrite i.headers.checksumOffset patch ++ j.behind) := by
    intro stop
    rw [← Bytes.overwrite_append hfits]
    refine (hk.agree stop).trans (agreeTo_overwrite_checksum _ _ _ ?_)
    rw [j.length_unsigned]
    omega
  have hnone : j.headers.certificateDirectory = none → j.table = [] ∧ j.behind = [] ∧ ws = [] := by
    intro hd
    have hsignatures := hk.reads.signatures
    rw [hd, hk.signatures, readSignatures_none] at hsignatures
    obtain ⟨-, -, htable, hbehind⟩ := hk.reads.pieces_of_none hd
    exact ⟨htable, hbehind, hsignatures⟩
  obtain ⟨j', hj', -⟩ := hx.keeps_of_pieces hclear hz (hlength ▸ hk.dvd_front) hk.dvd_table
    hk.dvd_behind (hlength ▸ hk.frontStop_le_front) hagree hentry hnone fun d hd => by
      obtain ⟨hfront, htableStop⟩ := hk.reads.lengths_of_some hd
      have hentries := hk.entries
      unfold tableStop at htableStop hentries
      rw [DataDirectory.stop, hfront, Nat.add_left_cancel_iff] at htableStop
      rw [hlength]
      refine ⟨hfront.symm, htableStop.symm, hentries.congr fun k hk₁ hk₂ => ?_⟩
      rw [hk.reads.getElem?_withChecksum (by rw [hk.checksumOffset_eq]; omega),
        hk.reads.getElem?_raw (hk.reads.lt_length_of_table hk₁ hk₂)]
  exact ⟨j', hj'⟩

/-- The table is taken away. -/
theorem Keeps.strip (hx : IsSound x i l) (hclear : i.IsClear) (hk : Keeps x i ws y j)
    (hz : j.strip = .ok z) : ∃ j', Keeps x i [] z j' := by
  have hdirectory := hk.directory_le_front hx hclear
  have hunsigned := j.length_unsigned
  have hpatch : j.headers.certificateDirectoryStop ≤ j.unsigned.length := by
    rw [hk.directoryStop_eq]
    omega
  rw [j.strip_eq, ← List.append_nil j.unsigned, hk.reads.patchDirectory_front hpatch,
    hk.directoryOffset_eq] at hz
  set entry := DataDirectory.entryOf 0 0 with hentry
  have hwidth : entry.length = DataDirectory.width := DataDirectory.length_entryOf _ _
  have hfits : i.headers.certificateDirectoryOffset + entry.length ≤ j.unsigned.length := by
    rw [hwidth, ← hk.directoryOffset_eq]
    exact hpatch
  have hlength := Bytes.length_overwrite hfits
  have hnone : DataDirectory.decode? z i.headers.certificateDirectoryOffset = none := by
    apply DataDirectory.decode?_of_zeros
    rw [hz, ← hwidth, Bytes.slice_append_left (by omega), Bytes.slice_overwrite_self hfits]
    rfl
  have hagree : ∀ stop, i.headers.AgreeTo stop i.unsigned
      (j.unsigned.overwrite i.headers.certificateDirectoryOffset entry ++ []) := by
    intro stop
    rw [List.append_nil]
    refine (hk.agree stop).trans (agreeTo_overwrite_directory _ _ _ _ ?_)
    rw [← hk.directoryStop_eq]
    exact hpatch
  have hpieces : z = j.unsigned.overwrite i.headers.certificateDirectoryOffset entry ++
      ([] ++ []) := hz
  obtain ⟨j', hj', -⟩ := hx.keeps_of_pieces hclear hpieces
    (hlength ▸ hunsigned ▸ Nat.dvd_add hk.dvd_front hk.dvd_behind) (Nat.dvd_zero 8) (Nat.dvd_zero 8)
    (hlength ▸ hunsigned ▸ hk.frontStop_le_front.trans (Nat.le_add_right _ _)) hagree hnone
    (fun _ => ⟨rfl, rfl, rfl⟩) nofun
  exact ⟨j', hj'⟩

end SecureBoot.EfiImage
