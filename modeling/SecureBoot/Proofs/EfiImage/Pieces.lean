import Mathlib
import SecureBoot.EfiImage.Certificates
import SecureBoot.Proofs.EfiImage.Reading

/-!
# An image in pieces

The padded bytes of an image are what stands in front of its certificate table, the table, and what
stands behind (`raw_eq`). Without a table all bytes stand in front of it.

**Changes put pieces together.** Taking away the table leaves the bytes around it (`strip_eq`); new
signatures come behind the old ones, which are filled up to a multiple of eight
(`setSignatures_eq`). Either way the directory entry is written last. Reading the new file gives the
pieces that it was put together from (`Reads.pieces`).
-/

namespace SecureBoot

/-! ## The directory entry -/

namespace Pe.DataDirectory

/-- The entry for a table. -/
def entryOf (address size : Nat) : Bytes := Bytes.ofNatLE 4 address ++ Bytes.ofNatLE 4 size

@[simp] theorem length_entryOf (address size : Nat) : (entryOf address size).length = width := by
  rw [entryOf, List.length_append, Bytes.length_ofNatLE, Bytes.length_ofNatLE]
  rfl

theorem decode?_of_entryOf {x : Bytes} {offset address size : Nat}
    (h : x.slice offset (offset + width) = entryOf address size) (hne : address ≠ 0 ∨ size ≠ 0)
    (haddress : address ≤ maxWord) (hsize : size ≤ maxWord) :
    ∃ d, decode? x offset = some d ∧ d.address.toNat = address ∧ d.size.toNat = size := by
  have hjoin := Bytes.slice_append_slice (x := x) (show offset ≤ offset + 4 by omega)
    (show offset + 4 ≤ offset + width from Nat.add_le_add_left (by decide) _)
  have hin := Bytes.le_length_of_slice h (by rw [length_entryOf]; omega)
    (Nat.lt_add_of_pos_right (by decide))
  have hwidth : width = 8 := rfl
  rw [h, entryOf] at hjoin
  obtain ⟨hfirst, hsecond⟩ := List.append_inj hjoin (by
    rw [Bytes.length_slice (by omega), Bytes.length_ofNatLE]
    omega)
  have hfirst := Bytes.u32_of_slice hfirst haddress
  have hsecond : (x.u32 (offset + 4)).toNat = size := Bytes.u32_of_slice hsecond hsize
  refine ⟨⟨x.u32 offset, x.u32 (offset + 4)⟩, ?_, hfirst, hsecond⟩
  rw [decode?, if_neg]
  intro h
  obtain ⟨hzero, hzero'⟩ := h
  dsimp only at hzero hzero'
  rw [hzero] at hfirst
  rw [hzero'] at hsecond
  exact hne.elim (· hfirst.symm) (· hsecond.symm)

theorem decode?_congr {x y : Bytes} {offset : Nat}
    (h : ∀ k, offset ≤ k → k < offset + width → y[k]? = x[k]?) :
    decode? y offset = decode? x offset := by
  have hwidth : width = 8 := rfl
  have hsecond : y.u32 (offset + 4) = x.u32 (offset + 4) :=
    Bytes.u32_congr fun k hk hk' => h k (by omega) (by omega)
  rw [decode?, decode?, Bytes.u32_congr fun k hk hk' => h k hk (by omega), hsecond]

end Pe.DataDirectory

namespace EfiImage

open Pe

/-! ## The pieces -/

/-- The bytes in front of the certificate table. -/
def front (i : EfiImage) : Bytes :=
  match i.certificateTable with
  | none => i.raw
  | some table => i.raw.take table.offset

/-- The bytes of the certificate table. -/
def table (i : EfiImage) : Bytes :=
  match i.certificateTable with
  | none => []
  | some table => i.raw.slice table.offset table.stop

/-- The bytes behind the certificate table. -/
def behind (i : EfiImage) : Bytes :=
  match i.certificateTable with
  | none => []
  | some table => i.raw.drop table.stop

/-- The bytes without the certificate table. -/
def unsigned (i : EfiImage) : Bytes := i.front ++ i.behind

/-- Where the certificate table ends. -/
def tableStop (i : EfiImage) : Nat := i.front.length + i.table.length

/-- The certificate table with zeros up to the next place for an entry. -/
def filledTable (i : EfiImage) : Bytes :=
  i.table ++ Bytes.zeros (WinCertificate.align i.tableStop - i.tableStop)

theorem raw_eq (i : EfiImage) : i.raw = i.front ++ (i.table ++ i.behind) := by
  unfold front table behind
  cases i.certificateTable with
  | none => rw [List.append_nil, List.append_nil]
  | some table =>
    have hle : table.offset ≤ table.stop := Nat.le_add_right _ _
    dsimp only
    rw [Bytes.slice_append_drop hle, List.take_append_drop]

theorem length_raw (i : EfiImage) : i.raw.length = i.tableStop + i.behind.length := by
  rw [i.raw_eq, List.length_append, List.length_append, tableStop, Nat.add_assoc]

theorem length_unsigned (i : EfiImage) :
    i.unsigned.length = i.front.length + i.behind.length := List.length_append

theorem strip_eq (i : EfiImage) : i.strip = i.patchDirectory i.unsigned 0 0 := by
  unfold strip unsigned front behind
  cases i.certificateTable with
  | none => rw [List.append_nil]
  | some table => rfl

variable {x y : Bytes} {i : EfiImage} {d : DataDirectory}

theorem Reads.length_raw (hi : Reads x i) : i.raw.length = WinCertificate.align x.length := by
  rw [hi.raw, Bytes.length_padTo, Nat.max_eq_right (WinCertificate.le_align _)]

theorem Reads.dvd_length_raw (hi : Reads x i) : 8 ∣ i.raw.length := by
  rw [hi.length_raw]
  exact WinCertificate.dvd_align _

theorem Reads.le_length_raw (hi : Reads x i) : x.length ≤ i.raw.length := by
  rw [hi.length_raw]
  exact WinCertificate.le_align _

theorem Reads.getElem?_raw (hi : Reads x i) {k : Nat} (hk : k < x.length) :
    i.raw[k]? = x[k]? := by
  rw [hi.raw, Bytes.getElem?_padTo_of_lt hk]

/-! ## The pieces of a file -/

theorem Reads.pieces_of_none (hi : Reads x i) (hd : i.headers.certificateDirectory = none) :
    i.certificateTable = none ∧ i.front = i.raw ∧ i.table = [] ∧ i.behind = [] := by
  have htable := hi.certificateTable
  rw [hd, Option.map_none] at htable
  unfold front table behind
  rw [htable]
  exact ⟨rfl, rfl, rfl, rfl⟩

/-- A table stands where the directory says. -/
theorem Reads.table_of_some (hi : Reads x i) (hd : i.headers.certificateDirectory = some d) :
    ∃ t : Span, i.certificateTable = some t ∧ t.offset = d.address.toNat ∧ t.stop = d.stop := by
  have hstop := hi.table_le d hd
  have htable := hi.certificateTable
  rw [hd, Option.map_some] at htable
  refine ⟨_, htable, rfl, ?_⟩
  rw [Span.stop, Bytes.length_slice hstop, DataDirectory.stop, Nat.add_sub_cancel_left]

theorem Reads.lengths_of_some (hi : Reads x i) (hd : i.headers.certificateDirectory = some d) :
    i.front.length = d.address.toNat ∧ i.tableStop = d.stop := by
  obtain ⟨t, ht, hoffset, hstop⟩ := hi.table_of_some hd
  have hle := (hi.table_le d hd).trans hi.le_length_raw
  have haddress : d.address.toNat ≤ d.stop := Nat.le_add_right _ _
  have hfront : i.front.length = d.address.toNat := by
    unfold front
    rw [ht]
    dsimp only
    rw [hoffset, List.length_take]
    omega
  refine ⟨hfront, ?_⟩
  rw [tableStop, hfront]
  unfold table
  rw [ht]
  dsimp only
  rw [hoffset, hstop, Bytes.length_slice hle]
  omega

theorem Reads.lengths (hi : Reads x i) :
    (i.headers.certificateDirectory = none ∧ x.length ≤ i.front.length) ∨
      ∃ d, i.headers.certificateDirectory = some d ∧ i.front.length = d.address.toNat ∧
        i.tableStop = d.stop ∧ i.tableStop ≤ x.length := by
  cases hd : i.headers.certificateDirectory with
  | none =>
    obtain ⟨-, hfront, -⟩ := hi.pieces_of_none hd
    exact Or.inl ⟨rfl, hfront ▸ hi.le_length_raw⟩
  | some d =>
    obtain ⟨hfront, htableStop⟩ := hi.lengths_of_some hd
    exact Or.inr ⟨d, rfl, hfront, htableStop, htableStop ▸ hi.table_le d hd⟩

theorem Reads.lt_length_of_table (hi : Reads x i) {k : Nat} (hstart : i.front.length ≤ k)
    (hstop : k < i.tableStop) : k < x.length := by
  rcases hi.lengths with ⟨hd, -⟩ | ⟨d, -, -, -, hle⟩
  · rw [tableStop, (hi.pieces_of_none hd).2.2.1] at hstop
    exact absurd hstart (Nat.not_le.2 hstop)
  · omega

/-- A file that was put together around a certificate table has these pieces. -/
theorem Reads.pieces {front table behind : Bytes} (hy : Reads y i)
    (hd : i.headers.certificateDirectory = some d) (hpieces : y = front ++ (table ++ behind))
    (haddress : d.address.toNat = front.length) (hsize : d.size.toNat = table.length) :
    i.front = front ∧ i.table = table ∧
      i.behind = behind ++ Bytes.zeros (WinCertificate.align y.length - y.length) := by
  obtain ⟨t, ht, hoffset, hstop⟩ := hy.table_of_some hd
  have hraw : i.raw = front ++ (table ++
      (behind ++ Bytes.zeros (WinCertificate.align y.length - y.length))) := by
    rw [hy.raw, Bytes.padTo]
    conv_lhs => arg 1; rw [hpieces]
    rw [List.append_assoc, List.append_assoc]
  rw [haddress] at hoffset
  rw [DataDirectory.stop, haddress, hsize] at hstop
  unfold EfiImage.front EfiImage.table EfiImage.behind
  rw [ht]
  dsimp only
  rw [hoffset, hstop, hraw]
  refine ⟨List.take_left, Bytes.slice_append_mid _ _ _, ?_⟩
  rw [← List.drop_drop, List.drop_left, List.drop_left]

/-- A file that was put together to a length that needs no padding has these pieces. -/
theorem Reads.pieces_of_dvd {front table behind : Bytes} (hy : Reads y i)
    (hpieces : y = front ++ (table ++ behind)) (hdvd : 8 ∣ y.length)
    (hnone : i.headers.certificateDirectory = none → table = [] ∧ behind = [])
    (hsome : ∀ d ∈ i.headers.certificateDirectory,
      d.address.toNat = front.length ∧ d.size.toNat = table.length) :
    i.front = front ∧ i.table = table ∧ i.behind = behind := by
  cases hd : i.headers.certificateDirectory with
  | none =>
    obtain ⟨-, hfront, htable, hbehind⟩ := hy.pieces_of_none hd
    obtain ⟨rfl, rfl⟩ := hnone hd
    rw [hfront, hy.raw, WinCertificate.align_of_dvd hdvd, Bytes.padTo_of_length_le le_rfl, hpieces]
    exact ⟨List.append_nil _, htable, hbehind⟩
  | some d =>
    obtain ⟨haddress, hsize⟩ := hsome d hd
    obtain ⟨hfront, htable, hbehind⟩ := hy.pieces hd hpieces haddress hsize
    rw [WinCertificate.align_of_dvd hdvd, Nat.sub_self, Bytes.zeros_zero,
      List.append_nil] at hbehind
    exact ⟨hfront, htable, hbehind⟩

/-! ## Places that are written to -/

theorem Reads.checksum_offset (hi : Reads x i) : i.checksum.offset = i.headers.checksumOffset := by
  rw [hi.checksum]

theorem Reads.certificateDirectory_offset (hi : Reads x i) :
    i.certificateDirectory.offset = i.headers.certificateDirectoryOffset := by
  rw [hi.certificateDirectory]

theorem Reads.certificateDirectory_stop (hi : Reads x i) :
    i.certificateDirectory.stop = i.headers.certificateDirectoryStop := by
  rw [hi.certificateDirectory, Span.stop, Bytes.length_slice hi.directory_le,
    Headers.certificateDirectoryStop, Nat.add_sub_cancel_left]

theorem Reads.patchDirectory_eq_ok (hi : Reads x i) {pieces : Bytes} {address size : Nat} :
    i.patchDirectory pieces address size = .ok y ↔
      i.headers.certificateDirectoryStop ≤ pieces.length ∧
        y = pieces.overwrite i.headers.certificateDirectoryOffset
          (DataDirectory.entryOf address size) := by
  rw [patchDirectory, hi.certificateDirectory]
  dsimp only
  split
  · rename_i hlt
    exact ⟨nofun, fun h => absurd h.1 (Nat.not_le.2 hlt)⟩
  · rename_i hle
    exact ⟨fun h => ⟨Nat.not_lt.1 hle, by cases h; rfl⟩, fun h => h.2 ▸ rfl⟩

/-- Where the entry stands in front of the table, writing it changes nothing else. -/
theorem Reads.patchDirectory_front (hi : Reads x i) {front rest : Bytes} {address size : Nat}
    (hfront : i.headers.certificateDirectoryStop ≤ front.length) :
    i.patchDirectory (front ++ rest) address size = .ok y ↔
      y = front.overwrite i.headers.certificateDirectoryOffset
        (DataDirectory.entryOf address size) ++ rest := by
  rw [hi.patchDirectory_eq_ok,
    Bytes.overwrite_append (by rw [DataDirectory.length_entryOf]; exact hfront),
    List.length_append]
  exact and_iff_right (by omega)

/-! ## Adding signatures -/

theorem Reads.filledTable_of_dvd (h : 8 ∣ i.tableStop) : i.filledTable = i.table := by
  rw [filledTable, WinCertificate.align_of_dvd h, Nat.sub_self, Bytes.zeros_zero, List.append_nil]

theorem Reads.setSignatures_eq (hi : Reads x i) (more : List WinCertificate) :
    i.setSignatures more = i.patchDirectory
      (i.front ++ (i.filledTable ++ more.flatMap WinCertificate.encode ++ i.behind)) i.front.length
      (i.filledTable ++ more.flatMap WinCertificate.encode).length := by
  cases hd : i.headers.certificateDirectory with
  | none =>
    obtain ⟨htable, hfront, hempty, hbehind⟩ := hi.pieces_of_none hd
    have hfilled : i.filledTable = [] := by
      rw [Reads.filledTable_of_dvd, hempty]
      rw [tableStop, hfront, hempty]
      exact hi.dvd_length_raw
    rw [setSignatures, htable, hfilled, hfront, hbehind, List.nil_append, List.append_nil]
  | some d =>
    obtain ⟨t, ht, hoffset, hstop⟩ := hi.table_of_some hd
    obtain ⟨hfront, htableStop⟩ := hi.lengths_of_some hd
    have htake : i.raw.take t.stop = i.front ++ i.table := by
      rw [hstop, ← htableStop, tableStop, ← List.length_append]
      conv_lhs => rw [i.raw_eq, ← List.append_assoc]
      exact List.take_left
    have hbehind : i.raw.drop t.stop = i.behind := by
      unfold behind
      rw [ht]
    have hpad :
        Bytes.padTo (i.front ++ i.table) (WinCertificate.align (i.front ++ i.table).length) =
          i.front ++ i.filledTable := by
      rw [Bytes.padTo, filledTable, tableStop, List.length_append, List.append_assoc]
    rw [setSignatures, ht]
    dsimp only
    rw [htake, hpad, hbehind, hoffset, ← hfront]
    congr 1
    · simp only [List.append_assoc]
    · rw [List.append_assoc, List.length_append, Nat.add_sub_cancel_left]

end EfiImage

end SecureBoot
