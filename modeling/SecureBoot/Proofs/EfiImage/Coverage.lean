import Mathlib
import SecureBoot.Proofs.EfiImage.Digest

/-!
# The digest covers every byte once

**Theorem (`digest_eq_of_isTiled`).** Let the sections with bytes in the file follow one another
from the end of the headers on, in whatever order the section table names them, and let the
certificate table stand behind them. Then the digest is taken of the padded file with three ranges
cut out: the checksum, the directory entry of the certificate table, and the table itself.

Cutting out is said of places, not of pieces: `Bytes.without` keeps each byte whose place is not
excluded, in the order of the file. The digest is put together from pieces. Both are brought to the
same form by walking over the file from one gap to the next (`keptFrom_gap`).

**Order.** Sections that follow one another start at different places, so there is only one way to
sort them (`IsTiled.sectionsInOrder`). Joined in that order their bytes are one slice of the file.

**Size.** The sum of the sizes that the digest computes is a place in the file only because the
sections leave no gap: it is where the last one ends (`Tiles.digestedSize`).
-/

namespace SecureBoot

/-! ## Cutting places out -/

namespace Bytes

variable {b : Bytes} {p : Nat → Prop} [DecidablePred p]

/-- The bytes from `start` on whose places are not cut out. -/
def keptFrom (b : Bytes) (p : Nat → Prop) [DecidablePred p] (start : Nat) : Bytes :=
  (((b.drop start).zipIdx start).filter fun byte => ¬ p byte.2).map Prod.fst

/-- The bytes whose places are not cut out, in the order of the file. -/
def without (b : Bytes) (p : Nat → Prop) [DecidablePred p] : Bytes :=
  (b.zipIdx.filter fun byte => ¬ p byte.2).map Prod.fst

theorem without_eq_keptFrom : b.without p = b.keptFrom p 0 := rfl

theorem keptFrom_eq_drop {start : Nat} (h : ∀ k, start ≤ k → ¬ p k) :
    b.keptFrom p start = b.drop start := by
  rw [keptFrom, List.filter_eq_self.2, List.zipIdx_map_fst]
  intro byte hbyte
  exact decide_eq_true (h _ (List.le_snd_of_mem_zipIdx hbyte))

/-- Up to a gap everything is kept, and then it goes on behind the gap. -/
theorem keptFrom_gap {start gapStart gapStop : Nat} (hstart : start ≤ gapStart)
    (hgap : gapStart ≤ gapStop) (hstop : gapStop ≤ b.length)
    (hkept : ∀ k, start ≤ k → k < gapStart → ¬ p k) (hcut : ∀ k, gapStart ≤ k → k < gapStop → p k) :
    b.keptFrom p start = b.slice start gapStart ++ b.keptFrom p gapStop := by
  have hsplit : b.drop start =
      b.slice start gapStart ++ (b.slice gapStart gapStop ++ b.drop gapStop) := by
    rw [slice_append_drop hgap, slice_append_drop hstart]
  have hfirst : start + (b.slice start gapStart).length = gapStart := by
    rw [length_slice (by omega)]
    omega
  have hsecond : gapStart + (b.slice gapStart gapStop).length = gapStop := by
    rw [length_slice hstop]
    omega
  rw [keptFrom, hsplit, List.zipIdx_append, List.zipIdx_append, List.filter_append,
    List.filter_append, List.map_append, List.map_append, hfirst, hsecond]
  congr 1
  · rw [List.filter_eq_self.2, List.zipIdx_map_fst]
    intro byte hbyte
    have hlt := List.snd_lt_add_of_mem_zipIdx hbyte
    exact decide_eq_true (hkept _ (List.le_snd_of_mem_zipIdx hbyte) (by omega))
  · rw [List.filter_eq_nil_iff.2, List.map_nil, List.nil_append, keptFrom]
    intro byte hbyte
    have hlt := List.snd_lt_add_of_mem_zipIdx hbyte
    exact fun h => of_decide_eq_true h (hcut _ (List.le_snd_of_mem_zipIdx hbyte) (by omega))

end Bytes

namespace EfiImage

open Pe

/-! ## Sections that follow one another -/

/-- Whether sections follow one another from `start` up to `stop`. -/
def Tiles : Nat → List SectionHeader → Nat → Prop
  | start, [], stop => start = stop
  | start, s :: rest, stop => s.pointerToRawData.toNat = start ∧ Tiles s.rawStop rest stop

variable {order : List SectionHeader} {start stop : Nat}

theorem Tiles.bounds (h : Tiles start order stop) :
    start ≤ stop ∧ ∀ s ∈ order, start ≤ s.pointerToRawData.toNat ∧ s.rawStop ≤ stop := by
  induction order generalizing start with
  | nil => exact ⟨h.le, nofun⟩
  | cons s rest ih =>
    obtain ⟨rfl, hrest⟩ := h
    obtain ⟨hle, hall⟩ := ih hrest
    have hs : s.pointerToRawData.toNat ≤ s.rawStop := Nat.le_add_right _ _
    refine ⟨hs.trans hle, List.forall_mem_cons.2 ⟨⟨le_rfl, hle⟩, fun t ht => ?_⟩⟩
    exact ⟨hs.trans (hall t ht).1, (hall t ht).2⟩

theorem Tiles.stop_le {bound : Nat} (h : Tiles start order stop) (hstart : start ≤ bound)
    (horder : ∀ s ∈ order, s.rawStop ≤ bound) : stop ≤ bound := by
  induction order generalizing start with
  | nil => exact h ▸ hstart
  | cons s rest ih =>
    obtain ⟨hs, hrest⟩ := List.forall_mem_cons.1 horder
    exact ih h.2 hs hrest

theorem Tiles.sum (h : Tiles start order stop) :
    start + (order.map (·.sizeOfRawData.toNat)).sum = stop := by
  induction order generalizing start with
  | nil => exact h
  | cons s rest ih =>
    obtain ⟨rfl, hrest⟩ := h
    rw [List.map_cons, List.sum_cons, ← Nat.add_assoc]
    exact ih hrest

theorem Tiles.flatten_slices (h : Tiles start order stop) (b : Bytes) :
    (order.map fun s => b.slice s.pointerToRawData.toNat s.rawStop).flatten =
      b.slice start stop := by
  induction order generalizing start with
  | nil =>
    obtain rfl : start = stop := h
    rw [Bytes.slice, Nat.sub_self]
    rfl
  | cons s rest ih =>
    obtain ⟨rfl, hrest⟩ := h
    have hs : s.pointerToRawData.toNat ≤ s.rawStop := Nat.le_add_right _ _
    rw [List.map_cons, List.flatten_cons, ih hrest, Bytes.slice_append_slice hs hrest.bounds.1]

theorem Tiles.pairwise (h : Tiles start order stop) (hpos : ∀ s ∈ order, s.sizeOfRawData ≠ 0) :
    order.Pairwise fun s t => s.pointerToRawData < t.pointerToRawData := by
  induction order generalizing start with
  | nil => exact .nil
  | cons s rest ih =>
    obtain ⟨hs, hrest⟩ := List.forall_mem_cons.1 hpos
    refine List.pairwise_cons.2 ⟨fun t ht => ?_, ih h.2 hrest⟩
    have hbehind : s.rawStop ≤ t.pointerToRawData.toNat := (h.2.bounds.2 t ht).1
    have hsize : 0 < s.sizeOfRawData.toNat := Nat.pos_of_ne_zero fun h0 => hs (UInt32.toNat.inj h0)
    rw [UInt32.lt_iff_toNat_lt]
    unfold SectionHeader.rawStop at hbehind
    omega

end EfiImage

namespace Pe.Headers

variable {h : Headers} {stop : Nat}

/-- Whether the sections that have bytes in the file follow one another from the end of the headers
up to `stop`, taken in some order. -/
def IsTiled (h : Headers) (stop : Nat) : Prop :=
  ∃ order, order.Perm (h.sections.filter (·.sizeOfRawData ≠ 0)) ∧
    EfiImage.Tiles h.sizeOfHeaders.toNat order stop

/-- The places that the digest leaves out: the checksum, the directory entry of the certificate
table, and the table. -/
def IsExcluded (h : Headers) (k : Nat) : Prop :=
  h.IsSigningField k ∨ ∃ d ∈ h.certificateDirectory, d.address.toNat ≤ k ∧ k < d.stop

instance (h : Headers) : DecidablePred h.IsSigningField :=
  fun _ => inferInstanceAs (Decidable (_ ∨ _))

instance (h : Headers) : DecidablePred h.IsExcluded :=
  fun k => inferInstanceAs (Decidable (h.IsSigningField k ∨
    ∃ d ∈ h.certificateDirectory, d.address.toNat ≤ k ∧ k < d.stop))

/-- There is only one way to sort sections that follow one another. -/
theorem IsTiled.sectionsInOrder (h : Headers) (ht : h.IsTiled stop) :
    EfiImage.Tiles h.sizeOfHeaders.toNat (EfiImage.sectionsInOrder h) stop := by
  obtain ⟨order, hperm, htiles⟩ := ht
  have hpos : ∀ s ∈ order, s.sizeOfRawData ≠ 0 := fun s hs =>
    of_decide_eq_true (List.mem_filter.1 (hperm.mem_iff.1 hs)).2
  have hsorted : (EfiImage.sectionsInOrder h).Pairwise fun s t =>
      s.pointerToRawData ≤ t.pointerToRawData := by
    have hsort := @List.pairwise_mergeSort SectionHeader
      (fun s t => decide (s.pointerToRawData ≤ t.pointerToRawData))
      (fun _ _ _ hst htu =>
        decide_eq_true (UInt32.le_trans (of_decide_eq_true hst) (of_decide_eq_true htu)))
      (fun _ _ => by simpa using UInt32.le_total _ _) (h.sections.filter (·.sizeOfRawData ≠ 0))
    exact hsort.imp of_decide_eq_true
  have hpairwise := htiles.pairwise hpos
  have hdistinct : (order.map (·.pointerToRawData)).Nodup :=
    List.pairwise_map.2 (hpairwise.imp UInt32.ne_of_lt)
  have hsameList : (EfiImage.sectionsInOrder h).Perm order :=
    (List.mergeSort_perm _ _).trans hperm.symm
  have hsame : EfiImage.sectionsInOrder h = order := by
    refine List.Perm.eq_of_pairwise (fun s t hs ht hle hle' => ?_) hsorted
      (hpairwise.imp UInt32.le_of_lt) hsameList
    exact List.inj_on_of_nodup_map hdistinct (hsameList.mem_iff.1 hs) ht
      (UInt32.le_antisymm hle hle')
  rwa [hsame]

end Pe.Headers

/-! ## The digest of a tiled image -/

namespace EfiImage

open Pe

variable {x : Bytes} {i : EfiImage} {h : Headers} {stop : Nat}

theorem digestedSize_of_isTiled (ht : h.IsTiled stop) : digestedSize h = stop := by
  obtain ⟨order, hperm, htiles⟩ := ht
  have hsum : (h.sections.map (·.sizeOfRawData.toNat)).sum =
      ((h.sections.filter (·.sizeOfRawData ≠ 0)).map (·.sizeOfRawData.toNat)).sum := by
    induction h.sections with
    | nil => rfl
    | cons s rest ih =>
      by_cases hs : s.sizeOfRawData = 0
      · rw [List.filter_cons_of_neg (by simp [hs]), List.map_cons, List.sum_cons, ih, hs]
        exact Nat.zero_add _
      · rw [List.filter_cons_of_pos (by simp [hs]), List.map_cons, List.map_cons, List.sum_cons,
          List.sum_cons, ih]
  rw [digestedSize_eq, hsum, ← (hperm.map _).sum_eq, htiles.sum]

theorem Reads.stop_le (hi : Reads x i) (ht : i.headers.IsTiled stop) : stop ≤ i.raw.length := by
  have hin := hi.isInPlace.sectionsStop_le.trans hi.le_length_raw
  exact ht.sectionsInOrder.stop_le ((sizeOfHeaders_le_sectionsStop _).trans hin)
    fun s hs => (rawStop_le_sectionsStop (mem_sectionsInOrder.1 hs).1).trans hin

/-- Behind the headers only the certificate table is left out. -/
theorem isExcluded_iff_of_le {k : Nat} (hk : h.certificateDirectoryStop ≤ k) :
    h.IsExcluded k ↔ ∃ d ∈ h.certificateDirectory, d.address.toNat ≤ k ∧ k < d.stop :=
  or_iff_right (Headers.not_isSigningField_of_le hk)

theorem Reads.trailingInput_of_isTiled (hi : Reads x i)
    (hstop : i.headers.certificateDirectoryStop ≤ stop) (ht : i.headers.IsTiled stop)
    (htable : ∀ d ∈ i.headers.certificateDirectory, stop ≤ d.address.toNat) :
    i.trailingInput = .ok (i.raw.keptFrom i.headers.IsExcluded stop) := by
  rw [trailingInput, digestedSize_of_isTiled ht]
  cases hd : i.headers.certificateDirectory with
  | none =>
    have hkept : i.raw.keptFrom i.headers.IsExcluded stop = i.raw.drop stop := by
      refine Bytes.keptFrom_eq_drop fun k hk => ?_
      rw [isExcluded_iff_of_le (hstop.trans hk), hd]
      rintro ⟨d, hnone, -⟩
      exact Option.not_mem_none d hnone
    rw [hkept, (hi.pieces_of_none hd).1]
    dsimp only
    split
    · rw [List.drop_eq_nil_of_le (by assumption)]
      rfl
    · rfl
  | some d =>
    obtain ⟨t, hsome, hoffset, htableStop⟩ := hi.table_of_some hd
    have haddress := htable d hd
    have hsize : d.address.toNat ≤ d.stop := Nat.le_add_right _ _
    have hin := (hi.table_le d hd).trans hi.le_length_raw
    have hplaces : ∀ k, stop ≤ k →
        (i.headers.IsExcluded k ↔ d.address.toNat ≤ k ∧ k < d.stop) := fun k hk => by
      rw [isExcluded_iff_of_le (hstop.trans hk), hd]
      simp only [Option.mem_some_iff, exists_eq_left']
    have hkept : i.raw.keptFrom i.headers.IsExcluded stop =
        i.raw.slice stop d.address.toNat ++ i.raw.drop d.stop := by
      rw [Bytes.keptFrom_gap haddress hsize hin
          (fun k hk hk' => (hplaces k hk).not.2 fun h => absurd h.1 (Nat.not_le.2 hk'))
          fun k hk hk' => (hplaces k (by omega)).2 ⟨hk, hk'⟩,
        Bytes.keptFrom_eq_drop fun k hk =>
          (hplaces k (by omega)).not.2 fun h => absurd h.2 (Nat.not_lt.2 hk)]
    rw [hkept, hsome]
    dsimp only
    split
    · -- The sections reach to the end of the file, and the table is empty.
      rw [Bytes.slice, List.drop_eq_nil_of_le (by assumption), List.drop_eq_nil_of_le (by omega),
        List.take_nil]
      rfl
    · rw [hoffset, htableStop, Bytes.range_eq _ haddress (by omega), Bytes.range_eq _ hin le_rfl,
        Bytes.slice_length]
      rfl

/-- Up to the end of the sections the places that are left out are those in the headers. -/
theorem Reads.without_isExcluded_eq (hi : Reads x i)
    (hheaders : i.headers.certificateDirectoryStop ≤ i.headers.sizeOfHeaders.toNat)
    (ht : i.headers.IsTiled stop)
    (htable : ∀ d ∈ i.headers.certificateDirectory, stop ≤ d.address.toNat) :
    i.raw.without i.headers.IsExcluded =
      i.raw.slice 0 i.headers.checksumOffset ++
        i.raw.slice (i.headers.checksumOffset + checksumSize)
          i.headers.certificateDirectoryOffset ++
        i.raw.slice i.headers.certificateDirectoryStop i.headers.sizeOfHeaders.toNat ++
        i.raw.slice i.headers.sizeOfHeaders.toNat stop ++
        i.raw.keptFrom i.headers.IsExcluded stop := by
  have hchecksum := i.headers.checksum_lt_directory
  have hdirectory : i.headers.certificateDirectoryOffset ≤ i.headers.certificateDirectoryStop :=
    Nat.le_add_right _ _
  have hstop := ht.sectionsInOrder.bounds.1
  have hin := hi.stop_le ht
  have hplaces : ∀ k < stop, (i.headers.IsExcluded k ↔ i.headers.IsSigningField k) := fun k hk =>
    or_iff_left fun ⟨d, hd, haddress, _⟩ => absurd (htable d hd) (by omega)
  have hfirst : i.raw.keptFrom i.headers.IsExcluded 0 =
      i.raw.slice 0 i.headers.checksumOffset ++
        i.raw.keptFrom i.headers.IsExcluded (i.headers.checksumOffset + checksumSize) := by
    refine Bytes.keptFrom_gap (Nat.zero_le _) (Nat.le_add_right _ _) (by omega) ?_ ?_ <;>
      intro k hk hk'
    · rw [hplaces k (by omega), Headers.IsSigningField]
      omega
    · exact (hplaces k (by omega)).2 (.inl ⟨hk, hk'⟩)
  have hsecond : i.raw.keptFrom i.headers.IsExcluded (i.headers.checksumOffset + checksumSize) =
      i.raw.slice (i.headers.checksumOffset + checksumSize) i.headers.certificateDirectoryOffset ++
        i.raw.keptFrom i.headers.IsExcluded i.headers.certificateDirectoryStop := by
    refine Bytes.keptFrom_gap hchecksum hdirectory (by omega) ?_ ?_ <;> intro k hk hk'
    · rw [hplaces k (by omega), Headers.IsSigningField]
      omega
    · exact (hplaces k (by omega)).2 (.inr ⟨hk, hk'⟩)
  have hthird : i.raw.keptFrom i.headers.IsExcluded i.headers.certificateDirectoryStop =
      i.raw.slice i.headers.certificateDirectoryStop stop ++
        i.raw.keptFrom i.headers.IsExcluded stop := by
    refine Bytes.keptFrom_gap (hheaders.trans hstop) le_rfl hin (fun k hk hk' => ?_) fun k hk hk' =>
      absurd hk (Nat.not_le.2 hk')
    rw [hplaces k hk']
    exact Headers.not_isSigningField_of_le hk
  rw [Bytes.without_eq_keptFrom, hfirst, hsecond, hthird,
    ← Bytes.slice_append_slice hheaders hstop]
  simp only [List.append_assoc]

/-- The digest of an image whose sections follow one another is taken of all its bytes, each once
and in the order of the file, except for the checksum, the directory entry of the certificate table
and the table. -/
theorem digest_eq_of_isTiled (hi : decode x = .ok i)
    (hheaders : i.headers.certificateDirectoryStop ≤ i.headers.sizeOfHeaders.toNat)
    (ht : i.headers.IsTiled stop)
    (htable : ∀ d ∈ i.headers.certificateDirectory, stop ≤ d.address.toNat) :
    let covered := (Bytes.padTo x (WinCertificate.align x.length)).without i.headers.IsExcluded
    i.digestInput = .ok covered ∧ ∀ a ∈ imageAlgorithms, i.digest a = .ok (a.digest covered) := by
  intro covered
  have hreads := decode_eq_ok_iff.1 hi
  have hcovered : covered = i.raw.without i.headers.IsExcluded := by rw [hreads.raw]
  have hinput : i.digestInput = .ok covered := by
    have hstop := hheaders.trans ht.sectionsInOrder.bounds.1
    rw [digestInput, hreads.headerInput_eq hheaders, hreads.sectionInput_eq,
      ht.sectionsInOrder.flatten_slices,
      hreads.trailingInput_of_isTiled hstop ht htable, hcovered,
      hreads.without_isExcluded_eq hheaders ht htable]
    rfl
  exact ⟨hinput, fun a ha => digest_eq_ok_iff.2 ⟨ha, covered, hinput, rfl⟩⟩

/-- Three sections as the table of `tiledImage` names them: the second one in the file, one without
bytes there, and the first one. -/
def tiledSections : List SectionHeader :=
  [{ rawName := Bytes.padTo [0x2e, 0x62] SectionHeader.nameSize
     virtualAddress := 0x2000, sizeOfRawData := 5, pointerToRawData := 352 },
   { rawName := Bytes.padTo [0x2e, 0x63] SectionHeader.nameSize
     virtualAddress := 0x3000, virtualSize := 16 },
   { rawName := Bytes.padTo [0x2e, 0x61] SectionHeader.nameSize
     virtualAddress := 0x1000, sizeOfRawData := 8, pointerToRawData := 344 }]

/-- An image with these sections behind headers of 344 bytes, and a certificate table of four bytes
with others in front of it and behind. -/
def tiledImage : Bytes :=
  [0x4d, 0x5a] ++ Bytes.zeros 58 ++ Bytes.ofNatLE 4 64 ++ [0x50, 0x45, 0, 0] ++
    Bytes.ofNatLE 2 0x8664 ++ Bytes.ofNatLE 2 tiledSections.length ++ Bytes.zeros 12 ++
    Bytes.ofNatLE 2 136 ++ Bytes.zeros 2 ++
    Bytes.ofNatLE 2 0x10b ++ Bytes.zeros 30 ++ Bytes.ofNatLE 4 0x1000 ++ Bytes.ofNatLE 4 8 ++
    Bytes.zeros 20 ++ Bytes.ofNatLE 4 344 ++ Bytes.zeros 28 ++ Bytes.ofNatLE 4 5 ++
    Bytes.zeros 32 ++ DataDirectory.entryOf 360 4 ++ tiledSections.flatMap SectionHeader.encode ++
    [1, 2, 3, 4, 5, 6, 7, 8, 9, 10, 11, 12, 13, 14, 15, 16, 17, 18, 19, 20, 21, 22]

/-- Behind 332 bytes of the headers the digest of this image covers both sections, the bytes in
front of the table, those behind it, and the padding. -/
theorem digest_eq_of_isTiled_tiledImage :
    ∃ i covered, decode tiledImage = .ok i ∧ i.headers.IsTiled 357 ∧
      covered.drop 332 = [1, 2, 3, 4, 5, 6, 7, 8, 9, 10, 11, 12, 13, 14, 15, 16, 21, 22, 0, 0] ∧
      i.digestInput = .ok covered ∧ ∀ a ∈ imageAlgorithms, i.digest a = .ok (a.digest covered) := by
  obtain ⟨i, hi, hplaces⟩ := exists_eq_ok_of_any (e := decode tiledImage) (p := fun i => decide (
    i.headers.certificateDirectoryStop ≤ i.headers.sizeOfHeaders.toNat ∧
      i.headers.sections = tiledSections ∧ i.headers.sizeOfHeaders.toNat = 344 ∧
      (∀ d ∈ i.headers.certificateDirectory, 357 ≤ d.address.toNat) ∧
      ((Bytes.padTo tiledImage (WinCertificate.align tiledImage.length)).without
        i.headers.IsExcluded).drop 332 =
          [1, 2, 3, 4, 5, 6, 7, 8, 9, 10, 11, 12, 13, 14, 15, 16, 21, 22, 0, 0]))
    (by decide +kernel)
  obtain ⟨hheaders, hsections, hsize, htable, hbytes⟩ := of_decide_eq_true hplaces
  have ht : i.headers.IsTiled 357 := by
    refine ⟨[tiledSections[2], tiledSections[0]], ?_, ?_⟩
    · rw [hsections]
      decide
    · rw [hsize]
      exact ⟨rfl, rfl, rfl⟩
  obtain ⟨hinput, hdigest⟩ := digest_eq_of_isTiled hi hheaders ht htable
  exact ⟨i, _, hi, ht, hbytes, hinput, hdigest⟩

end EfiImage

end SecureBoot
