import Mathlib
import SecureBoot.EfiImage.Digest
import SecureBoot.Proofs.EfiImage.Pieces
import SecureBoot.Proofs.EfiImage.Resigning

/-!
# What the digest of an image covers

**The table does not count.** Where headers and sections end in front of the certificate table, and
their sizes do not sum up to more than that, the digest covers the same as if there was no table
(`digestInput_eq`). Nor does it cover what signing writes to (`coveredBytes_congr`), so it stays as
it is when signatures come and go.

**The sum of the sizes.** The digest finds the end of the sections by adding sizes up. Sections that
do not share bytes sum up to no more than the end of the last one (`digestedSize_le`).
-/

namespace SecureBoot.EfiImage

open Pe

/-! ## Sums of sizes -/

/-- Whether two sections share no bytes of the file. -/
def IsApart (s t : SectionHeader) : Prop :=
  s.sizeOfRawData ≠ 0 → t.sizeOfRawData ≠ 0 →
    s.rawStop ≤ t.pointerToRawData.toNat ∨ t.rawStop ≤ s.pointerToRawData.toNat

/-- The places of the file that sections take. -/
def places (sections : List SectionHeader) : Finset Nat :=
  sections.foldr (fun s taken => Finset.Ico s.pointerToRawData.toNat s.rawStop ∪ taken) ∅

theorem mem_places {sections : List SectionHeader} {k : Nat} :
    k ∈ places sections ↔ ∃ s ∈ sections, s.pointerToRawData.toNat ≤ k ∧ k < s.rawStop := by
  induction sections with
  | nil =>
    exact ⟨fun hk => absurd hk (Finset.notMem_empty k),
      fun ⟨_, hs, _⟩ => absurd hs (List.not_mem_nil)⟩
  | cons s rest ih =>
    change k ∈ Finset.Ico _ _ ∪ places rest ↔ _
    rw [Finset.mem_union, Finset.mem_Ico, ih, List.exists_mem_cons_iff]

/-- Sections that share no bytes take as many as their sizes sum up to. -/
theorem card_places {sections : List SectionHeader} (h : sections.Pairwise IsApart) :
    (places sections).card = (sections.map (·.sizeOfRawData.toNat)).sum := by
  induction sections with
  | nil => rfl
  | cons s rest ih =>
    obtain ⟨hs, hrest⟩ := List.pairwise_cons.1 h
    have hdisjoint :
        Disjoint (Finset.Ico s.pointerToRawData.toNat s.rawStop) (places rest) := by
      rw [Finset.disjoint_left]
      intro k hk hk'
      obtain ⟨t, ht, hstart, hstop⟩ := mem_places.1 hk'
      rw [Finset.mem_Ico] at hk
      unfold SectionHeader.rawStop at hk hstop
      have hs0 : s.sizeOfRawData ≠ 0 := by
        intro h0
        rw [h0] at hk
        exact absurd hk.2 (by simpa using hk.1)
      have ht0 : t.sizeOfRawData ≠ 0 := by
        intro h0
        rw [h0] at hstop
        exact absurd hstop (by simpa using hstart)
      have hapart := hs t ht hs0 ht0
      unfold SectionHeader.rawStop at hapart
      omega
    change (Finset.Ico _ _ ∪ places rest).card = _
    rw [Finset.card_union_of_disjoint hdisjoint, Nat.card_Ico, ih hrest, List.map_cons,
      List.sum_cons, SectionHeader.rawStop, Nat.add_sub_cancel_left]

theorem sizeOfHeaders_le_sectionsStop (h : Headers) : h.sizeOfHeaders.toNat ≤ sectionsStop h :=
  (le_foldl_max _ _).1

theorem rawStop_le_sectionsStop {h : Headers} {s : SectionHeader} (hs : s ∈ h.sections) :
    s.rawStop ≤ sectionsStop h := (le_foldl_max _ _).2 _ (List.mem_map_of_mem hs)

theorem digestedSize_eq (h : Headers) :
    digestedSize h = h.sizeOfHeaders.toNat + (h.sections.map (·.sizeOfRawData.toNat)).sum := by
  rw [digestedSize]
  generalize h.sections.map (·.sizeOfRawData.toNat) = ns
  generalize h.sizeOfHeaders.toNat = start
  induction ns generalizing start with
  | nil => rfl
  | cons n rest ih => rw [List.foldl_cons, ih, List.sum_cons, Nat.add_assoc]

/-- Sections that share no bytes and stand behind the headers end where their sizes sum up to, or
later. -/
theorem digestedSize_le {h : Headers} (hapart : h.sections.Pairwise IsApart)
    (hbehind : ∀ s ∈ h.sections, s.sizeOfRawData ≠ 0 →
      h.sizeOfHeaders.toNat ≤ s.pointerToRawData.toNat) :
    digestedSize h ≤ sectionsStop h := by
  have hheaders := sizeOfHeaders_le_sectionsStop h
  have hsubset : places h.sections ⊆ Finset.Ico h.sizeOfHeaders.toNat (sectionsStop h) := by
    intro k hk
    obtain ⟨s, hs, hstart, hstop⟩ := mem_places.1 hk
    have hle := rawStop_le_sectionsStop hs
    have hne : s.sizeOfRawData ≠ 0 := by
      intro h0
      rw [SectionHeader.rawStop, h0] at hstop
      exact absurd hstop (by simpa using hstart)
    have hs := hbehind s hs hne
    rw [Finset.mem_Ico]
    omega
  have hcard := Finset.card_le_card hsubset
  rw [card_places hapart, Nat.card_Ico] at hcard
  rw [digestedSize_eq]
  omega

/-! ## Bytes that are covered -/

/-- The headers and the sections as the digest covers them. -/
def coveredFront (h : Headers) (b : Bytes) : Bytes :=
  b.slice 0 h.checksumOffset ++
    b.slice (h.checksumOffset + checksumSize) h.certificateDirectoryOffset ++
    b.slice h.certificateDirectoryStop h.sizeOfHeaders.toNat ++
    ((sectionsInOrder h).map fun s => b.slice s.pointerToRawData.toNat s.rawStop).flatten

/-- Everything that the digest covers in a file without a certificate table. -/
def coveredBytes (h : Headers) (b : Bytes) : Bytes := coveredFront h b ++ b.drop (digestedSize h)

theorem mem_sectionsInOrder {h : Headers} {s : SectionHeader} :
    s ∈ sectionsInOrder h ↔ s ∈ h.sections ∧ s.sizeOfRawData ≠ 0 := by
  rw [sectionsInOrder, List.mem_mergeSort, List.mem_filter, decide_eq_true_iff]

theorem coveredFront_congr {h : Headers} {x y : Bytes} {stop : Nat} (hagree : h.AgreeTo stop x y)
    (hheaders : h.certificateDirectoryStop ≤ h.sizeOfHeaders.toNat) (hstop : sectionsStop h ≤ stop)
    (hbehind : ∀ s ∈ h.sections, s.sizeOfRawData ≠ 0 →
      h.certificateDirectoryStop ≤ s.pointerToRawData.toNat) :
    coveredFront h y = coveredFront h x := by
  have hchecksum := h.checksum_lt_directory
  have hdirectory : h.certificateDirectoryOffset ≤ h.certificateDirectoryStop :=
    Nat.le_add_right _ _
  have hle := (sizeOfHeaders_le_sectionsStop h).trans hstop
  have hfirst : y.slice 0 h.checksumOffset = x.slice 0 h.checksumOffset :=
    Bytes.slice_congr fun k _ hk => hagree k (by omega) (by unfold Headers.IsSigningField; omega)
  have hmiddle : y.slice (h.checksumOffset + checksumSize) h.certificateDirectoryOffset =
      x.slice (h.checksumOffset + checksumSize) h.certificateDirectoryOffset :=
    Bytes.slice_congr fun k hk hk' =>
      hagree k (by omega) (by unfold Headers.IsSigningField; omega)
  have hsections : ((sectionsInOrder h).map fun s => y.slice s.pointerToRawData.toNat s.rawStop) =
      (sectionsInOrder h).map fun s => x.slice s.pointerToRawData.toNat s.rawStop := by
    apply List.map_congr_left
    intro s hs
    obtain ⟨hmem, hne⟩ := mem_sectionsInOrder.1 hs
    exact hagree.slice (hbehind s hmem hne) ((rawStop_le_sectionsStop hmem).trans hstop)
  rw [coveredFront, coveredFront, hfirst, hmiddle, hagree.slice le_rfl hle, hsections]

theorem coveredBytes_congr {h : Headers} {x y : Bytes} (hagree : ∀ stop, h.AgreeTo stop x y)
    (hheaders : h.certificateDirectoryStop ≤ h.sizeOfHeaders.toNat)
    (hbehind : ∀ s ∈ h.sections, s.sizeOfRawData ≠ 0 →
      h.certificateDirectoryStop ≤ s.pointerToRawData.toNat) :
    coveredBytes h y = coveredBytes h x := by
  have hsize : h.sizeOfHeaders.toNat ≤ digestedSize h := by
    rw [digestedSize_eq]
    exact Nat.le_add_right _ _
  have hdrop : y.drop (digestedSize h) = x.drop (digestedSize h) := by
    apply List.ext_getElem?
    intro k
    rw [List.getElem?_drop, List.getElem?_drop]
    exact hagree _ _ (Nat.lt_succ_self _)
      (Headers.not_isSigningField_of_le (hheaders.trans (hsize.trans (Nat.le_add_right _ _))))
  rw [coveredBytes, coveredBytes, hdrop, coveredFront_congr (hagree _) hheaders le_rfl hbehind]

/-! ## The digest of an image -/

variable {x : Bytes} {i : EfiImage}

/-- In front of the table the padded bytes are those without it. -/
theorem slice_raw {start stop : Nat} (hstop : stop ≤ i.front.length) :
    i.raw.slice start stop = i.unsigned.slice start stop := by
  rw [i.raw_eq, unsigned, Bytes.slice_append_left hstop, Bytes.slice_append_left hstop]

theorem front_length_le (i : EfiImage) : i.front.length ≤ i.raw.length := by
  rw [i.raw_eq, List.length_append]
  exact Nat.le_add_right _ _

theorem Reads.headerInput_eq (hi : Reads x i)
    (hheaders : i.headers.certificateDirectoryStop ≤ i.headers.sizeOfHeaders.toNat) :
    i.headerInput = .ok (i.raw.slice 0 i.headers.checksumOffset ++
      i.raw.slice (i.headers.checksumOffset + checksumSize) i.headers.certificateDirectoryOffset ++
      i.raw.slice i.headers.certificateDirectoryStop i.headers.sizeOfHeaders.toNat) := by
  have hchecksum := i.headers.checksum_lt_directory
  have hdirectory : i.headers.certificateDirectoryOffset ≤ i.headers.certificateDirectoryStop :=
    Nat.le_add_right _ _
  have hsize := (sizeOfHeaders_le_sectionsStop i.headers).trans hi.isInPlace.sectionsStop_le
  have hraw := hi.le_length_raw
  rw [headerInput, hi.checksum_offset, hi.certificateDirectory_offset, hi.certificateDirectory_stop,
    Bytes.range_eq _ (by omega) (by omega), Bytes.range_eq _ (by omega) (by omega),
    Bytes.range_eq _ (by omega) (by omega)]
  rfl

theorem Reads.sectionInput_eq (hi : Reads x i) :
    i.sectionInput = .ok (((sectionsInOrder i.headers).map fun s =>
      i.raw.slice s.pointerToRawData.toNat s.rawStop).flatten) := by
  have hpieces : (sectionsInOrder i.headers).mapM (fun s =>
      i.raw.range s.pointerToRawData.toNat s.rawStop .sectionData) =
        .ok ((sectionsInOrder i.headers).map fun s =>
          i.raw.slice s.pointerToRawData.toNat s.rawStop) := by
    rw [mapM_eq_ok, List.forall₂_map_right_iff, List.forall₂_same]
    intro s hs
    have hin := (rawStop_le_sectionsStop (mem_sectionsInOrder.1 hs).1).trans
      (hi.isInPlace.sectionsStop_le.trans hi.le_length_raw)
    exact Bytes.range_eq _ (Nat.le_add_right _ _) hin
  rw [sectionInput, hpieces]
  rfl

/-- Headers and sections that end in front of the table. -/
theorem Reads.front_eq (hi : Reads x i)
    (hheaders : i.headers.certificateDirectoryStop ≤ i.headers.sizeOfHeaders.toNat)
    (hstop : sectionsStop i.headers ≤ i.front.length) :
    (do return (← i.headerInput) ++ (← i.sectionInput) : Except Error Bytes) =
      .ok (coveredFront i.headers i.unsigned) := by
  have hchecksum := i.headers.checksum_lt_directory
  have hdirectory : i.headers.certificateDirectoryOffset ≤ i.headers.certificateDirectoryStop :=
    Nat.le_add_right _ _
  have hsize := sizeOfHeaders_le_sectionsStop i.headers
  have hsections : ((sectionsInOrder i.headers).map fun s =>
      i.raw.slice s.pointerToRawData.toNat s.rawStop) =
        (sectionsInOrder i.headers).map fun s =>
          i.unsigned.slice s.pointerToRawData.toNat s.rawStop :=
    List.map_congr_left fun s hs =>
      slice_raw ((rawStop_le_sectionsStop (mem_sectionsInOrder.1 hs).1).trans hstop)
  rw [hi.headerInput_eq hheaders, hi.sectionInput_eq, hsections, slice_raw (by omega),
    slice_raw (by omega), slice_raw (by omega)]
  rfl

theorem digestInput_eq_ok_iff {front input : Bytes}
    (hfront :
      (do return (← i.headerInput) ++ (← i.sectionInput) : Except Error Bytes) = .ok front) :
    i.digestInput = .ok input ↔
      ∃ trailing, i.trailingInput = .ok trailing ∧ input = front ++ trailing := by
  obtain ⟨header, hheader, hfront⟩ := bind_eq_ok.1 hfront
  obtain ⟨sections, hsections, hfront⟩ := bind_eq_ok.1 hfront
  cases hfront
  rw [digestInput, hheader, hsections]
  change (i.trailingInput >>= fun trailing => pure (header ++ sections ++ trailing)) = _ ↔ _
  rw [bind_eq_ok]
  refine exists_congr fun trailing => and_congr_right fun _ => ?_
  rw [pure_eq_ok]
  exact eq_comm

/-- What follows the sections, where their sizes do not sum up to more than the start of the table.
-/
theorem Reads.trailingInput_eq (hi : Reads x i)
    (hsize : digestedSize i.headers ≤ i.front.length) :
    i.trailingInput = .ok (i.unsigned.drop (digestedSize i.headers)) := by
  have hlength := i.length_raw
  have hunsigned := i.length_unsigned
  have hraw := i.front_length_le
  rw [trailingInput]
  split
  · rw [List.drop_eq_nil_of_le]
    · rfl
    · unfold tableStop at hlength
      omega
  · cases hd : i.headers.certificateDirectory with
    | none =>
      obtain ⟨htable, hfront, -, hbehind⟩ := hi.pieces_of_none hd
      rw [htable, unsigned, hfront, hbehind, List.append_nil]
      rfl
    | some d =>
      obtain ⟨t, ht, hoffset, hstop⟩ := hi.table_of_some hd
      obtain ⟨hfront, htableStop⟩ := hi.lengths_of_some hd
      have hbehind : i.raw.slice t.stop i.raw.length = i.behind := by
        rw [Bytes.slice_length]
        unfold behind
        rw [ht]
      have hbefore : i.raw.slice (digestedSize i.headers) t.offset =
          i.front.drop (digestedSize i.headers) := by
        rw [hoffset, ← hfront, i.raw_eq, Bytes.slice_append_left le_rfl, Bytes.slice_length]
      rw [ht]
      dsimp only
      rw [Bytes.range_eq _ (by omega) (by omega), Bytes.range_eq _ (by omega) le_rfl, hbefore,
        hbehind, unsigned, List.drop_append_of_le_length hsize]
      rfl

/-- The digest covers what it would cover without the table. -/
theorem Reads.digestInput_eq (hi : Reads x i)
    (hheaders : i.headers.certificateDirectoryStop ≤ i.headers.sizeOfHeaders.toNat)
    (hstop : sectionsStop i.headers ≤ i.front.length)
    (hsize : digestedSize i.headers ≤ i.front.length) :
    i.digestInput = .ok (coveredBytes i.headers i.unsigned) :=
  (digestInput_eq_ok_iff (hi.front_eq hheaders hstop)).2 ⟨_, hi.trailingInput_eq hsize, rfl⟩

theorem digest_eq_ok_iff {a : DigestAlgorithm} {hash : Bytes} :
    i.digest a = .ok hash ↔
      a ∈ imageAlgorithms ∧ ∃ input, i.digestInput = .ok input ∧ hash = a.digest input := by
  rw [digest, check_bind_eq_ok, not_not, bind_eq_ok]
  refine and_congr_right fun _ => exists_congr fun input => and_congr_right fun _ => ?_
  rw [pure_eq_ok]
  exact eq_comm

end SecureBoot.EfiImage
