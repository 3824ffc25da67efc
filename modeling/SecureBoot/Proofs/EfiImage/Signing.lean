import Mathlib
import SecureBoot.EfiImage.Checksum
import SecureBoot.Proofs.EfiImage.Pieces
import SecureBoot.Proofs.EfiImage.Resigning

/-!
# What adding signatures makes

`signed i more` is the file that adding signatures to an image makes (`Reads.setSignatures_eq_ok`).
Up to the end of its old table it agrees with the file that the image was read from. So whoever
reads it finds the same headers, with the new place of the table (`Reads.headers_signed`).
-/

namespace SecureBoot.EfiImage

open Pe

/-- The certificate table with further signatures. -/
def signedTable (i : EfiImage) (more : List WinCertificate) : Bytes :=
  i.filledTable ++ more.flatMap WinCertificate.encode

/-- The file with further signatures. -/
def signed (i : EfiImage) (more : List WinCertificate) : Bytes :=
  (i.front ++ (i.signedTable more ++ i.behind)).overwrite i.headers.certificateDirectoryOffset
    (DataDirectory.entryOf i.front.length (i.signedTable more).length)

variable {x : Bytes} {i : EfiImage} {more : List WinCertificate}

theorem length_flatMap_encode_pos (hmore : more ≠ []) :
    0 < (more.flatMap WinCertificate.encode).length := by
  cases more with
  | nil => exact absurd rfl hmore
  | cons w rest =>
    have hsize := w.headerSize_add_le_size
    have hheader : WinCertificate.headerSize = 8 := rfl
    rw [List.flatMap_cons, List.length_append, w.length_encode]
    omega

theorem dvd_length_flatMap_encode (more : List WinCertificate) :
    8 ∣ (more.flatMap WinCertificate.encode).length := by
  rw [List.length_flatMap]
  refine List.dvd_sum fun n hn => ?_
  obtain ⟨w, -, rfl⟩ := List.mem_map.1 hn
  rw [w.length_encode]
  exact w.dvd_size

theorem length_signedTable (i : EfiImage) (more : List WinCertificate) :
    i.front.length + (i.signedTable more).length =
      WinCertificate.align i.tableStop + (more.flatMap WinCertificate.encode).length := by
  have hle := WinCertificate.le_align i.tableStop
  have hstop : i.tableStop = i.front.length + i.table.length := rfl
  rw [signedTable, filledTable, List.length_append, List.length_append, Bytes.length_zeros]
  omega

theorem directory_fits (hstop : i.headers.certificateDirectoryStop ≤ i.tableStop)
    (more : List WinCertificate) :
    i.headers.certificateDirectoryStop ≤ (i.front ++ (i.signedTable more ++ i.behind)).length := by
  have hlength := i.length_signedTable more
  have hle := WinCertificate.le_align i.tableStop
  rw [List.length_append, List.length_append]
  omega

/-- Where the directory entry stands in front of the table, writing it changes nothing behind. -/
theorem signed_eq (hfront : i.headers.certificateDirectoryStop ≤ i.front.length)
    (more : List WinCertificate) :
    i.signed more = i.front.overwrite i.headers.certificateDirectoryOffset
      (DataDirectory.entryOf i.front.length (i.signedTable more).length) ++
        (i.signedTable more ++ i.behind) := by
  rw [signed, Bytes.overwrite_append]
  rw [DataDirectory.length_entryOf]
  exact hfront

theorem length_signed (hstop : i.headers.certificateDirectoryStop ≤ i.tableStop)
    (more : List WinCertificate) :
    (i.signed more).length = WinCertificate.align i.tableStop +
      (more.flatMap WinCertificate.encode).length + i.behind.length := by
  have hlength := i.length_signedTable more
  rw [signed, Bytes.length_overwrite (by
    rw [DataDirectory.length_entryOf]
    exact directory_fits hstop more), List.length_append, List.length_append]
  omega

theorem Reads.length_setSignatures (hi : Reads x i) {y : Bytes} (h : i.setSignatures more = .ok y) :
    y.length = WinCertificate.align i.tableStop +
      (more.flatMap WinCertificate.encode).length + i.behind.length := by
  have hlength := i.length_signedTable more
  rw [hi.setSignatures_eq] at h
  obtain ⟨hfits, rfl⟩ := hi.patchDirectory_eq_ok.1 h
  rw [Bytes.length_overwrite (by
    rw [DataDirectory.length_entryOf]
    exact hfits), List.length_append, List.length_append, ← signedTable]
  omega

theorem Reads.setSignatures_eq_ok (hi : Reads x i)
    (hstop : i.headers.certificateDirectoryStop ≤ i.tableStop) (more : List WinCertificate) :
    i.setSignatures more = .ok (i.signed more) := by
  rw [hi.setSignatures_eq]
  exact hi.patchDirectory_eq_ok.2 ⟨directory_fits hstop more, rfl⟩

/-! ## Agreement -/

theorem agreeTo_overwrite_directory (h : Headers) {b : Bytes} (address size stop : Nat)
    (hle : h.certificateDirectoryStop ≤ b.length) :
    h.AgreeTo stop b
      (b.overwrite h.certificateDirectoryOffset (DataDirectory.entryOf address size)) := by
  intro k _ hfield
  have hlength : (DataDirectory.entryOf address size).length = DataDirectory.width :=
    DataDirectory.length_entryOf _ _
  have hstop : h.certificateDirectoryStop = h.certificateDirectoryOffset + DataDirectory.width :=
    rfl
  unfold Headers.IsSigningField at hfield
  exact Bytes.getElem?_overwrite_of_disjoint (by omega) (by omega)

theorem agreeTo_overwrite_checksum (h : Headers) {b : Bytes} (checksum stop : Nat)
    (hle : h.checksumOffset + checksumSize ≤ b.length) :
    h.AgreeTo stop b (b.overwrite h.checksumOffset (Bytes.ofNatLE checksumSize checksum)) := by
  intro k _ hfield
  have hlength : (Bytes.ofNatLE checksumSize checksum).length = checksumSize :=
    Bytes.length_ofNatLE _ _
  unfold Headers.IsSigningField at hfield
  exact Bytes.getElem?_overwrite_of_disjoint (by omega) (by omega)

/-- Up to the end of the old table the file stays, but for what signing writes to. -/
theorem Reads.agreeTo_signed (hi : Reads x i)
    (hstop : i.headers.certificateDirectoryStop ≤ i.tableStop) (more : List WinCertificate) :
    i.headers.AgreeTo (min x.length i.tableStop) x (i.signed more) := by
  intro k hk hfield
  have hx : k < x.length := hk.trans_le (min_le_left _ _)
  have htable : k < (i.front ++ i.table).length := by
    rw [List.length_append]
    exact hk.trans_le (min_le_right _ _)
  have hraw : i.raw = (i.front ++ i.table) ++ i.behind := by rw [i.raw_eq, List.append_assoc]
  have hpieces : i.front ++ (i.signedTable more ++ i.behind) = (i.front ++ i.table) ++
      (Bytes.zeros (WinCertificate.align i.tableStop - i.tableStop) ++
        (more.flatMap WinCertificate.encode ++ i.behind)) := by
    rw [signedTable, filledTable]
    simp only [List.append_assoc]
  rw [signed, agreeTo_overwrite_directory i.headers _ _ _ (directory_fits hstop more) k hk hfield,
    ← hi.getElem?_raw hx, hraw, hpieces, List.getElem?_append_left htable,
    List.getElem?_append_left htable]

/-- The old table stands where it stood. -/
theorem Reads.getElem?_signed (hi : Reads x i)
    (hfront : i.headers.certificateDirectoryStop ≤ i.front.length) {k : Nat}
    (hstart : i.front.length ≤ k) (hstop : k < i.tableStop) : (i.signed more)[k]? = x[k]? :=
  hi.agreeTo_signed (hfront.trans (Nat.le_add_right _ _)) more k
    (lt_min (hi.lt_length_of_table hstart hstop) hstop)
    (Headers.not_isSigningField_of_le (hfront.trans hstart))

theorem slice_signed (hfront : i.headers.certificateDirectoryStop ≤ i.front.length)
    (more : List WinCertificate) :
    (i.signed more).slice (WinCertificate.align i.tableStop)
      (i.front.length + (i.signedTable more).length) = more.flatMap WinCertificate.encode := by
  have hlength := i.length_signedTable more
  have hle := WinCertificate.le_align i.tableStop
  have htableStop : i.tableStop = i.front.length + i.table.length := rfl
  set entry := DataDirectory.entryOf i.front.length (i.signedTable more).length with hentry
  have hwritten : (i.front.overwrite i.headers.certificateDirectoryOffset entry).length =
      i.front.length := Bytes.length_overwrite (by
    rw [DataDirectory.length_entryOf]
    exact hfront)
  have hfilled : (i.front.overwrite i.headers.certificateDirectoryOffset entry ++
      i.filledTable).length = WinCertificate.align i.tableStop := by
    rw [List.length_append, hwritten, filledTable, List.length_append, Bytes.length_zeros]
    omega
  have hpieces : i.signed more =
      (i.front.overwrite i.headers.certificateDirectoryOffset entry ++ i.filledTable) ++
        (more.flatMap WinCertificate.encode ++ i.behind) := by
    rw [signed_eq hfront more, ← hentry, signedTable]
    simp only [List.append_assoc]
  rw [hpieces, hlength, ← hfilled]
  exact Bytes.slice_append_mid _ _ _

/-- The directory entry names the place of the new table. -/
theorem exists_directory_signed (hstop : i.headers.certificateDirectoryStop ≤ i.tableStop)
    (hne : i.front.length ≠ 0 ∨ (i.signedTable more).length ≠ 0)
    (hmax : (i.signed more).length ≤ maxWord) :
    ∃ d, DataDirectory.decode? (i.signed more) i.headers.certificateDirectoryOffset = some d ∧
      d.address.toNat = i.front.length ∧ d.size.toNat = (i.signedTable more).length := by
  have hlength := i.length_signedTable more
  have hfits := directory_fits hstop more
  rw [length_signed hstop] at hmax
  have hslice : (i.signed more).slice i.headers.certificateDirectoryOffset
      (i.headers.certificateDirectoryOffset + DataDirectory.width) =
        DataDirectory.entryOf i.front.length (i.signedTable more).length := by
    rw [signed, ← DataDirectory.length_entryOf i.front.length (i.signedTable more).length,
      Bytes.slice_overwrite_self]
    rw [DataDirectory.length_entryOf]
    exact hfits
  exact DataDirectory.decode?_of_entryOf hslice hne (by omega) (by omega)

/-- Whoever reads the file finds the same headers, with the new place of the table. -/
theorem Reads.headers_signed (hi : Reads x i) {h : Headers}
    (hentry : DataDirectory.certificateIndex < i.headers.numberOfDirectories)
    (hdirectory : i.headers.certificateDirectoryStop ≤ i.headers.tableOffset)
    (htable : i.headers.tableStop ≤ min x.length i.tableStop) (hmore : more ≠ [])
    (hmax : (i.signed more).length ≤ maxWord) (hh : Headers.Reads (i.signed more) h) :
    ∃ d, h = { i.headers with certificateDirectory := some d } ∧ d.address.toNat = i.front.length ∧
      d.size.toNat = (i.signedTable more).length := by
  have hstart : i.headers.tableOffset ≤ i.headers.tableStop := Nat.le_add_right _ _
  have hstop : i.headers.certificateDirectoryStop ≤ i.tableStop :=
    hdirectory.trans (hstart.trans (htable.trans (min_le_right _ _)))
  have hheaders := hi.headers.eq_of_agree hh ((hi.agreeTo_signed hstop more).mono htable) hdirectory
  have hpos := length_flatMap_encode_pos hmore
  have htableLength : (i.signedTable more).length ≠ 0 := by
    rw [signedTable, List.length_append]
    omega
  obtain ⟨d, hd, haddress, hsize⟩ := exists_directory_signed hstop (Or.inr htableLength) hmax
  have hread := hh.certificateDirectory
  rw [hheaders] at hread
  have hsome : h.certificateDirectory = some d := by
    rw [← hd, ← hread]
    exact if_pos hentry
  rw [hsome] at hheaders
  exact ⟨d, hheaders, haddress, hsize⟩

/-! ## Filling in the checksum -/

theorem Reads.withChecksum_eq (hi : Reads x i) : i.withChecksum =
    i.raw.overwrite i.headers.checksumOffset (Bytes.ofNatLE checksumSize i.computedChecksum) := by
  rw [withChecksum, hi.checksum_offset]

theorem Reads.length_withChecksum (hi : Reads x i) : i.withChecksum.length = i.raw.length := by
  rw [hi.withChecksum_eq, Bytes.length_overwrite]
  rw [Bytes.length_ofNatLE]
  exact hi.checksum_le.trans hi.le_length_raw

theorem Reads.getElem?_withChecksum (hi : Reads x i) {k : Nat}
    (hk : i.headers.checksumOffset + checksumSize ≤ k) : i.withChecksum[k]? = i.raw[k]? := by
  rw [hi.withChecksum_eq, Bytes.getElem?_overwrite_of_disjoint]
  · rw [Bytes.length_ofNatLE]
    exact hi.checksum_le.trans hi.le_length_raw
  · rw [Bytes.length_ofNatLE]
    exact Or.inr hk

theorem Reads.directory_withChecksum (hi : Reads x i) :
    DataDirectory.decode? i.withChecksum i.headers.certificateDirectoryOffset =
      DataDirectory.decode? x i.headers.certificateDirectoryOffset := by
  apply DataDirectory.decode?_congr
  intro k hk hk'
  rw [hi.getElem?_withChecksum (i.headers.checksum_lt_directory.trans hk)]
  exact hi.getElem?_raw (hk'.trans_le hi.directory_le)

end SecureBoot.EfiImage
