import Mathlib
import SecureBoot.Proofs.Pe.Layout.Geometry
import SecureBoot.Proofs.Pe.StableNames

/-!
# Sizes that a file states

In a layout all counts, sizes and offsets are numbers of any size; in a file they stand in fields of
two or four bytes, and what does not fit is cut off.

**Fields of four bytes** are safe, each by a check made somewhere else:

* *offsets* are compared with the greatest word when the sections are placed,
* *sizes of pieces* are not compared with anything, but a file that has room for the piece and is
  not too long itself states them whole,
* *lengths in memory* are those of an old section header, or were compared with the end of all
  addresses when the section was added.

**The number of sections** takes two bytes, and nothing is compared with them. An executable can
have 65535 sections, and one more can be added (`numberOfSectionsIn_crowdedImage`).

**Theorem (`isStatedIn_of_encode_run`).** Whatever was removed and added, a file that is written
states all numbers of the layout exactly (`IsStatedIn`), but for the number of sections, which is
exact if and only if it is at most 65535. Any other number that does not fit its field is refused.
-/

namespace SecureBoot.Pe

/-! ## Fields of a file -/

namespace Headers

/-- The number of sections that a file states in the place that these headers have for it. -/
def numberOfSectionsIn (h : Headers) (y : Bytes) : Nat := (y.u16 (h.coffOffset + 2)).toNat

/-- The offset of the symbols that a file states. -/
def pointerToSymbolTableIn (h : Headers) (y : Bytes) : Nat := (y.u32 (h.coffOffset + 8)).toNat

/-- The number of symbols that a file states. -/
def numberOfSymbolsIn (h : Headers) (y : Bytes) : Nat := (y.u32 (h.coffOffset + 12)).toNat

/-- The length of the string table that a file states behind its symbols. -/
def stringsLengthIn (h : Headers) (y : Bytes) : Nat :=
  (y.u32 (h.pointerToSymbolTableIn y + h.numberOfSymbolsIn y * symbolSize)).toNat

end Headers

/-! ## Numbers of a layout -/

/-- What a header in a file says of a section that begins at some offset. -/
structure Section.IsStatedBy (s : Section) (start : Nat) (header : SectionHeader) : Prop where
  virtualSize : header.virtualSize = s.header.virtualSize
  sizeOfRawData : header.sizeOfRawData.toNat = s.data.length
  pointerToRawData : header.pointerToRawData.toNat = if s.data = [] then 0 else start

namespace Layout

variable {l : Layout} {h : Headers} {x y : Bytes} {fileAlignment offset : Nat}
  {sections : List Section}

/-- The bytes that sections take in a file, each with its padding. -/
def paddedSize (fileAlignment : Nat) (sections : List Section) : Nat :=
  (sections.map fun s => alignUp s.data.length fileAlignment).sum

/-- Where the section with a number begins in the file, or what follows if there are no more. -/
def startOf (l : Layout) (k : Nat) : Nat :=
  l.headersStop + paddedSize l.fileAlignment.toNat (l.sections.take k)

/-- Whether a file states the sizes and offsets of a layout as they are. -/
structure IsStatedIn (l : Layout) (h : Headers) (y : Bytes) : Prop where
  sizeOfHeaders : h.sizeOfHeadersIn y = l.headersStop
  sizeOfImage : h.sizeOfImageIn y = l.sizeOfImage l.headersStop
  pointerToSymbolTable :
    h.pointerToSymbolTableIn y = if l.symbols.isSome then l.startOf l.sections.length else 0
  numberOfSymbols :
    h.numberOfSymbolsIn y * Headers.symbolSize = (l.symbols.map (·.symbols.length)).getD 0
  stringsLength : ∀ t ∈ l.symbols, h.stringsLengthIn y = t.strings.length
  sections : ∀ (k : Nat) (s : Section), l.sections[k]? = some s →
    s.IsStatedBy (l.startOf k) (h.sectionAt y k)

/-- The numbers of a layout that go into fields of four bytes. -/
def words (l : Layout) : List Nat :=
  [l.headersStop, l.sizeOfImage l.headersStop] ++
    (l.symbols.map fun t =>
      [l.startOf l.sections.length, t.numberOfSymbols, t.strings.length]).getD [] ++
    l.sections.zipIdx.flatMap fun (s, k) => [s.data.length, if s.data = [] then 0 else l.startOf k]

/-- Whether a section has the length in memory of an old section, or that of the data which a step
has asked for. -/
def IsSized (h : Headers) (edits : List Edit) (s : Section) : Prop :=
  s.header ∈ h.sections ∨ ∃ r, .add r ∈ edits ∧ s.name = r.name ∧
    s.header.virtualSize.toNat = r.data.length ∧
    s.data.length = alignUp r.data.length h.fileAlignment.toNat

/-! ## Offsets -/

theorem nextOffset_eq (hoffset : alignUp offset fileAlignment = offset) (s : Section) :
    nextOffset fileAlignment offset s = offset + alignUp s.data.length fileAlignment := by
  rw [nextOffset]
  split
  · rename_i hempty
    rw [List.isEmpty_iff.1 hempty, List.length_nil, alignUp_zero, Nat.add_zero]
  · exact alignUp_add hoffset

theorem length_body (hoffset : alignUp offset fileAlignment = offset) :
    (body fileAlignment offset sections).length = paddedSize fileAlignment sections := by
  induction sections generalizing offset with
  | nil => rfl
  | cons s rest ih =>
    have hstop := add_length_body fileAlignment offset s rest
    rw [ih (alignUp_nextOffset hoffset s), nextOffset_eq hoffset] at hstop
    rw [paddedSize, List.map_cons, List.sum_cons]
    change _ = _ + paddedSize fileAlignment rest
    omega

/-- A section is placed behind the padded bytes of those in front of it. -/
theorem getElem?_placed_eq (hoffset : alignUp offset fileAlignment = offset) {k : Nat}
    {s : Section} (hs : sections[k]? = some s) :
    (placed fileAlignment offset sections)[k]? =
      some (s.placedAt (offset + paddedSize fileAlignment (sections.take k))) := by
  induction sections generalizing offset k with
  | nil => cases hs
  | cons first rest ih =>
    cases k with
    | zero =>
      cases hs
      rfl
    | succ k =>
      rw [placed, List.getElem?_cons_succ, ih (alignUp_nextOffset hoffset first) hs,
        nextOffset_eq hoffset, List.take_succ_cons, paddedSize, paddedSize, List.map_cons,
        List.sum_cons, Nat.add_assoc]

theorem alignUp_headersStop (l : Layout) :
    alignUp l.headersStop l.fileAlignment.toNat = l.headersStop := alignUp_alignUp _ _

theorem sectionsStop_eq (l : Layout) : l.sectionsStop = l.startOf l.sections.length := by
  rw [sectionsStop, sectionBytes, length_body l.alignUp_headersStop, startOf, List.take_length]

theorem startOf_le_sectionsStop (l : Layout) (k : Nat) : l.startOf k ≤ l.sectionsStop := by
  rw [sectionsStop_eq, startOf, startOf, paddedSize, paddedSize, List.take_length, List.map_take]
  exact Nat.add_le_add_left
    (List.Sublist.sum_le_sum (List.take_sublist _ _) fun _ _ => Nat.zero_le _) _

/-! ## What is written -/

/-- The number of sections is cut off to two bytes. -/
theorem HasFront.numberOfSectionsIn_written (hl : l.HasFront h) :
    h.numberOfSectionsIn l.written = l.sections.length % 65536 := by
  obtain ⟨hfield, -⟩ := forall_mem_fields.1 fun field hfield => hl.slice_field hfield
  rw [hl.coffOffset, Bytes.length_ofNatLE] at hfield
  rw [Headers.numberOfSectionsIn, Bytes.toNat_u16, hfield, Bytes.toNatLE_ofNatLE]
  rfl

theorem HasFront.pointerToSymbolTableIn_written (hl : l.HasFront h) (hs : l.IsStored)
    (hw : l.IsWritable) :
    h.pointerToSymbolTableIn l.written = if l.symbols.isSome then l.sectionsStop else 0 := by
  obtain ⟨-, hfield, -⟩ := forall_mem_fields.1 fun field hfield => hl.slice_field hfield
  rw [hl.coffOffset, Bytes.length_ofNatLE] at hfield
  refine Bytes.u32_of_slice hfield ?_
  split
  · exact hw.sectionsStop_le hl hs
  · exact Nat.zero_le _

theorem IsWritable.symbols_le (hw : l.IsWritable) (hl : l.HasFront h) (hs : l.IsStored)
    {t : SymbolTable} (ht : l.symbols = some t) :
    t.symbols.length ≤ maxWord ∧ t.strings.length ≤ maxWord := by
  have hmax := hw.written_le hl
  rw [hl.length_written hs, symbolBytes_of_some ht, SymbolTable.encode, List.length_append,
    List.length_append, List.length_drop, Bytes.length_ofNatLE] at hmax
  omega

theorem HasFront.numberOfSymbolsIn_written (hl : l.HasFront h) (hs : l.IsStored)
    (hw : l.IsWritable) :
    h.numberOfSymbolsIn l.written = (l.symbols.map SymbolTable.numberOfSymbols).getD 0 := by
  obtain ⟨-, -, hfield, -⟩ := forall_mem_fields.1 fun field hfield => hl.slice_field hfield
  rw [hl.coffOffset, Bytes.length_ofNatLE] at hfield
  refine Bytes.u32_of_slice hfield ?_
  cases ht : l.symbols with
  | none => exact Nat.zero_le _
  | some t => exact (Nat.div_le_self _ _).trans (hw.symbols_le hl hs ht).1

theorem HasFront.stringsLengthIn_written (hl : l.HasFront h) (hs : l.IsStored) (hw : l.IsWritable)
    {t : SymbolTable} (ht : l.symbols = some t) (hcounted : t.IsCounted) :
    h.stringsLengthIn l.written = t.strings.length := by
  have hdrop := hl.drop_sectionsStop hs
  have hsymbols : t.numberOfSymbols * Headers.symbolSize = t.symbols.length :=
    Nat.div_mul_cancel hcounted.symbols_dvd
  rw [Headers.stringsLengthIn, hl.pointerToSymbolTableIn_written hs hw,
    hl.numberOfSymbolsIn_written hs hw, ht, Option.isSome_some, if_pos rfl, Option.map_some,
    Option.getD_some, hsymbols]
  apply Bytes.u32_of_slice _ (hw.symbols_le hl hs ht).2
  rw [Bytes.slice, Nat.add_sub_cancel_left, ← List.drop_drop, hdrop, symbolBytes_of_some ht,
    SymbolTable.encode, List.append_assoc, List.append_assoc, List.drop_left]
  exact List.take_left' (Bytes.length_ofNatLE _ _)

theorem HasFront.isStatedBy_written (hl : l.HasFront h) (hs : l.IsStored) (hw : l.IsWritable)
    {k : Nat} {s : Section} (hk : l.sections[k]? = some s) :
    s.IsStatedBy (l.startOf k) (h.sectionAt l.written k) := by
  have hplace : l.placedSections[k]? = some (s.placedAt (l.startOf k)) :=
    getElem?_placed_eq l.alignUp_headersStop hk
  obtain ⟨hlt, hget⟩ := List.getElem?_eq_some_iff.1 hplace
  have hmax := hw.sectionsStop_le hl hs
  have hwithin := hw.isWithin hl hs _ (List.mem_of_getElem? hplace)
  rw [hl.sectionAt_written hs hlt, hget]
  refine { virtualSize := rfl, sizeOfRawData := hwithin.size, pointerToRawData := ?_ }
  split
  · rename_i hempty
    rw [Section.placedAt, hempty]
    rfl
  · rename_i hne
    exact Section.toNat_pointerToRawData_placedAt (fun hempty => hne (List.isEmpty_iff.1 hempty))
      ((l.startOf_le_sectionsStop k).trans hmax)

theorem isStatedIn_written (hl : l.HasFront h) (hs : l.IsStored) (hw : l.IsWritable)
    (ht : ∀ t ∈ l.symbols, t.IsCounted) : l.IsStatedIn h l.written where
  sizeOfHeaders := hl.sizeOfHeadersIn_written hs hw
  sizeOfImage := hl.sizeOfImageIn_written hw
  pointerToSymbolTable := by
    rw [hl.pointerToSymbolTableIn_written hs hw, sectionsStop_eq]
  numberOfSymbols := by
    rw [hl.numberOfSymbolsIn_written hs hw]
    cases hsome : l.symbols with
    | none => rfl
    | some t => exact Nat.div_mul_cancel (ht t hsome).symbols_dvd
  stringsLength := fun t hsome => hl.stringsLengthIn_written hs hw hsome (ht t hsome)
  sections := fun k s hk => hl.isStatedBy_written hs hw hk

/-- What a file states fits its field. -/
theorem IsStatedIn.words_le (hstated : l.IsStatedIn h y) : ∀ n ∈ l.words, n ≤ maxWord := by
  have hword : ∀ w : UInt32, w.toNat ≤ maxWord := fun w => Nat.le_of_lt_succ w.toNat_lt
  intro n hn
  rw [words, List.mem_append, List.mem_append] at hn
  rcases hn with (hn | hn) | hn
  · rcases List.mem_pair.1 hn with rfl | rfl
    · rw [← hstated.sizeOfHeaders]
      exact hword _
    · rw [← hstated.sizeOfImage]
      exact hword _
  · cases ht : l.symbols with
    | none =>
      rw [ht] at hn
      cases hn
    | some t =>
      have hpointer := hstated.pointerToSymbolTable
      have hcount := hstated.numberOfSymbols
      rw [ht] at hn hpointer hcount
      simp only [Option.map_some, Option.getD_some, List.mem_cons, List.not_mem_nil, or_false] at hn
      rcases hn with rfl | rfl | rfl
      · exact hpointer.symm.trans_le (hword _)
      · rw [SymbolTable.numberOfSymbols, ← show _ = t.symbols.length from hcount,
          Nat.mul_div_cancel _ (by decide)]
        exact hword _
      · rw [← hstated.stringsLength t ht]
        exact hword _
  · obtain ⟨⟨s, k⟩, hmem, hn⟩ := List.mem_flatMap.1 hn
    have hs := hstated.sections k s (List.mem_zipIdx_iff_getElem?.1 hmem)
    rcases List.mem_pair.1 hn with rfl | rfl
    · rw [← hs.sizeOfRawData]
      exact hword _
    · rw [← hs.pointerToRawData]
      exact hword _

/-! ## Runs -/

theorem isSized_of_run {certificates : Option DataDirectory} (hr : Reads x h certificates l)
    (edits : List Edit) : ∀ s ∈ (l.run edits).sections, IsSized h edits s := by
  obtain ⟨added, hadded⟩ := l.edited_run edits
  intro s hs
  rw [hadded.sections] at hs
  rcases List.mem_append.1 hs with hs | hs
  · left
    rw [← hr.sections]
    exact List.mem_map_of_mem (List.mem_of_mem_filter hs)
  · right
    obtain ⟨r, hmem, hserved⟩ := hadded.requested s hs
    refine ⟨r, hmem, hserved.name, ?_, ?_⟩
    · rw [hserved.virtualSize, Bytes.toNat_ofNat_of_le_maxWord hserved.length_le]
    · rw [hserved.data, hr.fileAlignment, Bytes.length_padTo, Nat.max_eq_right (le_alignUp _ _)]

theorem addSection_of_length {r : SectionRequest} (hr : maxWord < r.data.length) :
    ∃ e, l.addSection r = (l, some e) := by
  rw [addSection]
  cases hcheck : l.checkRequest r with
  | ok u => exact absurd (checkRequest_eq_ok hcheck).2 (Nat.not_le.2 hr)
  | error e => exact ⟨e, rfl⟩

/-- Every section of an edited layout has the length in memory that it should have, and the file
that the layout is written to states all sizes and offsets exactly. The number of sections is exact
if and only if two bytes have room for it. A layout with any other number that does not fit is not
written, and a section that is too long is not added. -/
theorem isStatedIn_of_encode_run (hh : Headers.decode x = .ok h) (hl : decode x = .ok l)
    (hdirectories :
      h.directoriesOffset + h.numberOfDirectories * DataDirectory.width ≤ h.tableOffset)
    (edits : List Edit) :
    (∀ s ∈ (l.run edits).sections, IsSized h edits s) ∧
      (∀ y, (l.run edits).encode = .ok y → (l.run edits).IsStatedIn h y ∧
        (h.numberOfSectionsIn y = (l.run edits).sections.length ↔
          (l.run edits).sections.length ≤ 65535)) ∧
      (∀ n ∈ (l.run edits).words, maxWord < n → ∃ e, (l.run edits).encode = .error e) ∧
      ∀ r : SectionRequest, maxWord < r.data.length →
        ∃ e, (l.run edits).addSection r = (l.run edits, some e) := by
  obtain ⟨g, certificates, hr⟩ := decode_eq_ok_iff.1 hl
  have hg := Headers.decode_eq_ok_iff.2 hr.headers
  rw [hh] at hg
  cases hg
  have hfront := (hr.hasFront hdirectories).run edits
  have hstated : ∀ y, (l.run edits).encode = .ok y → (l.run edits).IsStatedIn h y := by
    intro y hy
    obtain ⟨hwritable, rfl⟩ := encode_eq_ok_iff.1 hy
    exact isStatedIn_written hfront (hr.isStored.run edits) hwritable
      fun t ht => (allReachable_run hl edits t ht).isCounted
  refine ⟨isSized_of_run hr edits, fun y hy => ⟨hstated y hy, ?_⟩, fun n hn hlarge => ?_,
    fun r => addSection_of_length⟩
  · obtain ⟨-, rfl⟩ := encode_eq_ok_iff.1 hy
    rw [hfront.numberOfSectionsIn_written]
    omega
  · cases hy : (l.run edits).encode with
    | ok y => exact absurd ((hstated y hy).words_le n hn) (Nat.not_le.2 hlarge)
    | error e => exact ⟨e, rfl⟩

/-- A section that is added to the small executable is stated to have the one byte that was asked
for. -/
theorem isStatedIn_of_encode_run_smallExecutable :
    ∃ h l y, Headers.decode smallExecutable = .ok h ∧ decode smallExecutable = .ok l ∧
      h.directoriesOffset + h.numberOfDirectories * DataDirectory.width ≤ h.tableOffset ∧
      (l.run [.add ⟨".longer.name", 0x2000, none, [1]⟩]).encode = .ok y ∧
      (l.run [.add ⟨".longer.name", 0x2000, none, [1]⟩]).IsStatedIn h y ∧
      h.numberOfSectionsIn y =
        (l.run [.add ⟨".longer.name", 0x2000, none, [1]⟩]).sections.length := by
  obtain ⟨h, hh, hplace⟩ := exists_eq_ok_of_any (e := Headers.decode smallExecutable)
    (p := fun h => decide
      (h.directoriesOffset + h.numberOfDirectories * DataDirectory.width ≤ h.tableOffset))
    (by decide +kernel)
  have hplace := of_decide_eq_true hplace
  obtain ⟨l, hl, hrun⟩ := exists_eq_ok_of_any (e := decode smallExecutable)
    (p := fun l =>
      decide ((l.run [.add ⟨".longer.name", 0x2000, none, [1]⟩]).sections.length = 2) &&
      (l.run [.add ⟨".longer.name", 0x2000, none, [1]⟩]).encode.toOption.any fun _ => true)
    (by decide +kernel)
  rw [Bool.and_eq_true] at hrun
  obtain ⟨y, hy, -⟩ := exists_eq_ok_of_any hrun.2
  obtain ⟨-, hencode, -⟩ := isStatedIn_of_encode_run hh hl hplace
    [.add ⟨".longer.name", 0x2000, none, [1]⟩]
  obtain ⟨hstated, hnumber⟩ := hencode y hy
  exact ⟨h, l, y, hh, hl, hplace, hy, hstated,
    hnumber.2 ((of_decide_eq_true hrun.1).trans_le (by decide))⟩

/-! ## One section too many -/

/-- Sections that end in front of the greatest offset find a place. -/
theorem exists_place (hfits : offset + (body fileAlignment offset sections).length ≤ maxWord) :
    ∃ placement, place fileAlignment offset sections = .ok placement := by
  induction sections generalizing offset with
  | nil => exact ⟨_, rfl⟩
  | cons s rest ih =>
    have hnext := le_nextOffset fileAlignment offset s
    rw [add_length_body] at hfits
    obtain ⟨⟨headers, bytes⟩, hrest⟩ := ih hfits
    rw [place]
    rw [nextOffset] at hrest hnext hfits
    split
    · rename_i hempty
      rw [if_pos hempty] at hrest
      exact ⟨_, bind_eq_ok.2 ⟨_, hrest, rfl⟩⟩
    · rename_i hempty
      rw [if_neg hempty] at hrest hnext hfits
      exact ⟨_, bind_eq_ok.2 ⟨(), checkOffset_eq_ok.2 (by omega), bind_eq_ok.2 ⟨_, hrest, rfl⟩⟩⟩

/-- The headers of an executable with a number of sections, in two parts between which the number
stands. -/
def headersBeforeCount : Bytes :=
  [[0x4d, 0x5a], Bytes.zeros 58, Bytes.ofNatLE 4 64, [0x50, 0x45, 0, 0],
    Bytes.ofNatLE 2 0x8664].flatten

@[inherit_doc headersBeforeCount]
def headersBehindCount : Bytes :=
  [Bytes.zeros 12, Bytes.ofNatLE 2 96, Bytes.ofNatLE 2 0x22,
    Bytes.ofNatLE 2 0x10b, Bytes.zeros 30, Bytes.ofNatLE 4 0x1000, Bytes.ofNatLE 4 0x200,
    Bytes.zeros 20, Bytes.ofNatLE 4 0x280200, Bytes.zeros 32].flatten

@[inherit_doc headersBeforeCount]
def countedHeaders (count : Nat) : Bytes :=
  headersBeforeCount ++ (Bytes.ofNatLE 2 count ++ headersBehindCount)

/-- A section without a name and without bytes. -/
def namelessSection : Section where
  name := ""
  header := { rawName := Bytes.zeros SectionHeader.nameSize, virtualAddress := 0x400000 }
  data := []

/-- An executable with a number of such sections. -/
def crowdedImage (count : Nat) : Bytes :=
  countedHeaders count ++
    (List.replicate count namelessSection.header).flatMap SectionHeader.encode

theorem hasWholeName_namelessSection (count : Nat) :
    ∀ header ∈ List.replicate count namelessSection.header, header.HasWholeName := by
  intro header hheader
  rw [List.eq_of_mem_replicate hheader]
  rfl

theorem length_countedHeaders (count : Nat) : (countedHeaders count).length = 184 := by
  rw [countedHeaders, List.length_append, List.length_append, Bytes.length_ofNatLE]
  rfl

theorem length_crowdedImage (count : Nat) :
    (crowdedImage count).length = 184 + count * SectionHeader.size := by
  rw [crowdedImage, List.length_append, length_countedHeaders,
    SectionHeader.length_flatMap_encode (hasWholeName_namelessSection count), List.length_replicate]

theorem getElem?_crowdedImage {count i : Nat} (hi : i < 184) (hout : i < 70 ∨ 72 ≤ i) :
    (crowdedImage count)[i]? = (crowdedImage 0)[i]? := by
  have hfront : headersBeforeCount.length = 70 := rfl
  have hheaders : ∀ n, (crowdedImage n)[i]? = (countedHeaders n)[i]? := fun n =>
    List.getElem?_append_left (by rw [length_countedHeaders]; exact hi)
  rw [hheaders, hheaders, countedHeaders, countedHeaders]
  rcases hout with hlt | hle
  · rw [List.getElem?_append_left (by omega), List.getElem?_append_left (by omega)]
  · have hbehind : ∀ n, (headersBeforeCount ++ (Bytes.ofNatLE 2 n ++ headersBehindCount))[i]? =
        headersBehindCount[i - 70 - 2]? := by
      intro n
      have hlength : (Bytes.ofNatLE 2 n).length = 2 := Bytes.length_ofNatLE _ _
      rw [List.getElem?_append_right (by omega), List.getElem?_append_right (by omega), hfront,
        hlength]
    rw [hbehind, hbehind]

theorem u32_crowdedImage (count : Nat) {offset : Nat} (hle : 72 ≤ offset) (hin : offset + 4 ≤ 184) :
    (crowdedImage count).u32 offset = (crowdedImage 0).u32 offset :=
  Bytes.u32_congr fun i hi hi' => getElem?_crowdedImage (by omega) (.inr (by omega))

theorem toNat_u16_crowdedImage {count : Nat} (hcount : count ≤ 65535) :
    ((crowdedImage count).u16 70).toNat = count := by
  apply Bytes.u16_of_slice _ (Nat.lt_succ_of_le hcount)
  rw [crowdedImage, Bytes.slice_append_left (by rw [length_countedHeaders]; omega), countedHeaders]
  exact Bytes.slice_append_mid headersBeforeCount (Bytes.ofNatLE 2 count) headersBehindCount

theorem map_decode_crowdedImage (count : Nat) :
    (List.range count).map (fun i =>
      SectionHeader.decode (crowdedImage count) (184 + i * SectionHeader.size)) =
      List.replicate count namelessSection.header := by
  have hslice : (crowdedImage count).slice 184
      (184 + (List.replicate count namelessSection.header).length * SectionHeader.size) =
        (List.replicate count namelessSection.header).flatMap SectionHeader.encode := by
    rw [List.length_replicate, ← length_crowdedImage, Bytes.slice_length, crowdedImage,
      ← length_countedHeaders count, List.drop_left]
  have hread := SectionHeader.decode_of_flatMap_encode (hasWholeName_namelessSection count) hslice
  rw [List.length_replicate] at hread
  exact hread

/-- What the headers say that does not depend on the number of sections: there are no directories
and no symbols. -/
structure HasPlainHeaders (h : Headers) : Prop where
  peOffset : h.peOffset = 64
  sizeOfOptionalHeader : h.sizeOfOptionalHeader = 96
  magic : h.magic = .pe32
  pointerToSymbolTable : h.pointerToSymbolTable = 0
  numberOfSymbols : h.numberOfSymbols = 0
  numberOfDirectories : h.numberOfDirectories = 0
  fileAlignment : h.fileAlignment = 0x200
  sectionAlignment : h.sectionAlignment = 0x1000

namespace HasPlainHeaders

variable (hh : HasPlainHeaders h)

include hh

theorem coffOffset : h.coffOffset = 68 := by
  rw [Headers.coffOffset, hh.peOffset]
  rfl

theorem optionalOffset : h.optionalOffset = 88 := by
  rw [Headers.optionalOffset, hh.coffOffset]
  rfl

theorem tableOffset : h.tableOffset = 184 := by
  rw [Headers.tableOffset, hh.optionalOffset, hh.sizeOfOptionalHeader]

theorem directoriesOffset : h.directoriesOffset = 184 := by
  rw [Headers.directoriesOffset, hh.optionalOffset, hh.magic]
  rfl

end HasPlainHeaders

theorem exists_reads_crowdedImage_zero :
    ∃ h, Headers.Reads (crowdedImage 0) h ∧ HasPlainHeaders h := by
  obtain ⟨h, hh, hfields⟩ := exists_eq_ok_of_any (e := Headers.decode (crowdedImage 0))
    (p := fun h => decide (h.peOffset = 64 ∧ h.sizeOfOptionalHeader = 96 ∧ h.magic = .pe32 ∧
      h.pointerToSymbolTable = 0 ∧ h.numberOfSymbols = 0 ∧ h.numberOfDirectories = 0 ∧
      h.fileAlignment = 0x200 ∧ h.sectionAlignment = 0x1000))
    (by decide +kernel)
  obtain ⟨hpe, hsize, hmagic, hpointer, hsymbols, hdirectories, hfile, hsection⟩ :=
    of_decide_eq_true hfields
  exact ⟨h, Headers.decode_eq_ok_iff.1 hh,
    ⟨hpe, hsize, hmagic, hpointer, hsymbols, hdirectories, hfile, hsection⟩⟩

theorem exists_reads_crowdedImage {count : Nat} (hcount : count ≤ 65535) :
    ∃ h, Headers.Reads (crowdedImage count) h ∧ HasPlainHeaders h ∧
      h.certificateDirectory = none ∧ h.sections = List.replicate count namelessSection.header := by
  obtain ⟨g, hr, hg⟩ := exists_reads_crowdedImage_zero
  have hlength := length_crowdedImage count
  have hcoff := hg.coffOffset
  have hoptional := hg.optionalOffset
  have hdirectory := hg.directoriesOffset
  have hdirectories := hg.numberOfDirectories
  have hsections := map_decode_crowdedImage count
  refine ⟨{ g with
    numberOfSections := count
    pointerToSymbolTable := 0
    numberOfSymbols := 0
    sizeOfHeaders := g.sizeOfHeaders
    certificateDirectory := none
    sections := List.replicate count namelessSection.header },
    hr.rewrite ?_ ?_ ?_ ?_ ?_ ?_ ?_ ?_ ?_ ?_,
    { hg with pointerToSymbolTable := rfl, numberOfSymbols := rfl }, rfl, rfl⟩
  · intro i hi
    unfold Headers.IsFixed at hi
    have hfield : Headers.peOffsetField = 60 := rfl
    have hpe := hg.peOffset
    exact getElem?_crowdedImage (by omega) (by omega)
  · rw [hdirectory, hdirectories]
    omega
  · rw [hcoff]
    exact toNat_u16_crowdedImage hcount
  · rw [hcoff, u32_crowdedImage count (by omega) (by omega), ← hcoff, hr.pointerToSymbolTable,
      hg.pointerToSymbolTable]
  · rw [hcoff, u32_crowdedImage count (by omega) (by omega), ← hcoff, hr.numberOfSymbols,
      hg.numberOfSymbols]
  · rw [← hr.sizeOfHeaders, hoptional, u32_crowdedImage count (by omega) (by omega)]
  · rw [hdirectories]
    rfl
  · rw [← hg.tableOffset] at hsections
    exact hsections
  · right
    rw [hg.tableOffset]
    exact hlength.ge
  · intro header hheader
    rw [List.eq_of_mem_replicate hheader]
    rfl

theorem length_overlayFrom_none_le (x : Bytes) (start : Nat) :
    (overlayFrom x start none).length ≤ x.length :=
  List.length_drop.trans_le (Nat.sub_le _ _)

theorem exists_layout_crowdedImage {count : Nat} (hcount : count ≤ 65535) :
    ∃ h l, Reads (crowdedImage count) h none l ∧ HasPlainHeaders h ∧ l.HasFront h ∧
      l.symbols = none ∧ l.sections = List.replicate count namelessSection := by
  obtain ⟨h, hr, hh, hcertificate, hsections⟩ := exists_reads_crowdedImage hcount
  have hlength := length_crowdedImage count
  have htable := hh.tableOffset
  have hcertificates : certificateRange (crowdedImage count) h = .ok none := by
    rw [certificateRange, hcertificate]
    rfl
  have hsymbols : SymbolTable.decode (crowdedImage count) h.pointerToSymbolTable h.numberOfSymbols =
      .ok none := SymbolTable.decode_eq_ok_iff.2 (.inl ⟨hh.pointerToSymbolTable, rfl⟩)
  have hname : sectionName namelessSection.header.rawName none = .ok namelessSection.name := by
    decide +kernel
  have hstand : ∀ s ∈ List.replicate count namelessSection,
      sectionName s.header.rawName none = .ok s.name ∧ s.StandsIn (crowdedImage count) := by
    intro s hs
    rw [List.eq_of_mem_replicate hs]
    exact ⟨hname, rfl⟩
  obtain ⟨l, hl, hreplicate, hnone⟩ := exists_reads hr hcertificates hsymbols
    (by rw [hsections, List.map_replicate]) hstand (by omega)
  have hfront : l.HasFront h := hl.hasFront <| by
    rw [hh.directoriesOffset, hh.numberOfDirectories, htable]
    decide
  exact ⟨h, l, hl, hh, hfront, hnone, hreplicate⟩

/-- A section that the executable has a place for. -/
def oneMore : SectionRequest := ⟨".a", 0x500000, none, [1]⟩

theorem paddedSize_crowded {s : Section} (hs : s.data.length = 0x200) (count : Nat) :
    paddedSize 0x200 (List.replicate count namelessSection ++ [s]) = 0x200 := by
  have hempty : alignUp namelessSection.data.length 0x200 = 0 := rfl
  rw [paddedSize, List.map_append, List.map_replicate, List.sum_append, List.sum_replicate, hempty,
    smul_zero, Nat.zero_add, List.map_singleton, List.sum_singleton, hs]
  rfl

/-- As many sections as an executable can have and one more can be written. -/
theorem isWritable_crowded (hl : l.HasFront h) (hfile : l.fileAlignment = 0x200)
    (hsection : l.sectionAlignment = 0x1000) (hnone : l.symbols = none)
    (hstop : l.headersStop = 0x280200) (hoverlay : l.overlay.length ≤ 0x280200) {count : Nat}
    {s : Section} (hsections : l.sections = List.replicate count namelessSection ++ [s])
    (hdata : s.data.length = 0x200) (haddress : s.header.virtualAddress = 0x500000)
    (hspan : s.header.span = 1) (hstored : l.IsStored) : l.IsWritable := by
  have hmem : ∀ t ∈ l.sections, t = namelessSection ∨ t = s := by
    intro t ht
    rw [hsections] at ht
    rcases List.mem_append.1 ht with ht | ht
    · exact .inl (List.eq_of_mem_replicate ht)
    · exact .inr (List.mem_singleton.1 ht)
  have hbody : (body l.fileAlignment.toNat l.headersStop l.sections).length = 0x200 := by
    rw [length_body l.alignUp_headersStop, hfile, hsections]
    exact paddedSize_crowded hdata count
  have hlength : l.whole.length = 0x280400 + l.overlay.length := by
    rw [hl.length_whole, hl.length_written hstored, sectionsStop, sectionBytes, hbody, hstop,
      symbolBytes, hnone, Option.map_none, Option.getD_none, List.length_nil]
    omega
  refine {
    headers := checkHeaders_eq_ok.2 fun t ht => ?_
    places := exists_place (by rw [hbody, hstop]; decide)
    symbols := fun hsome => by rw [hnone] at hsome; cases hsome
    length_le := by rw [hlength, maxWord]; omega
    image_le := ?_
    fields := fun field hfield => (hl.fieldsFit field hfield).trans ?_ }
  · rw [hstop]
    rcases hmem t ht with rfl | rfl
    · decide
    · rw [haddress]
      decide
  · rw [sizeOfImage, foldl_max_le_iff, hstop, hsection]
    refine ⟨by decide, fun n hn => ?_⟩
    obtain ⟨t, ht, rfl⟩ := List.mem_map.1 hn
    rcases hmem t ht with rfl | rfl
    · decide
    · rw [haddress, hspan]
      decide
  · rw [whole, List.length_append]
    exact Nat.le_add_right _ _

theorem checkRequest_oneMore (hsections : l.sections = List.replicate 65535 namelessSection)
    (hfile : l.fileAlignment = 0x200) (hsection : l.sectionAlignment = 0x1000)
    (hstop : l.sizeOfHeaders 65536 = 0x280200) : l.checkRequest oneMore = .ok () := by
  have hnumber : l.sections.length = 65535 := by rw [hsections, List.length_replicate]
  exact checkRequest_eq_ok_iff.2 {
    name := by decide +kernel
    isNew := by
      rw [section?, hsections, List.find?_replicate]
      simp [namelessSection, oneMore]
    isPowerOfTwo := by rw [hsection]; decide
    aligned := by rw [hsection]; decide
    size_le := by rw [hfile]; decide
    headers := by
      rw [mappedHeaders, mapped, hnumber, hstop, hsection]
      decide +kernel
    sections := fun s hs => by
      rw [hsections] at hs
      rw [List.eq_of_mem_replicate hs, mapped, mapped, hsection]
      decide +kernel }

/-- The name of the section fits the name field, so it is added whether or not there are texts. -/
theorem exists_run_oneMore (haccepts : l.checkRequest oneMore = .ok ()) (hnone : l.symbols = none) :
    ∃ rawName, l.run [.add oneMore] =
      { l with sections := l.sections ++ [l.requestedSection oneMore rawName] } := by
  have hshort : (Text.encode oneMore.name).length ≤ SectionHeader.nameSize := by decide +kernel
  obtain ⟨rawName, hname⟩ : ∃ rawName, encodeName none oneMore.name = (.ok rawName, none) :=
    ⟨_, by rw [encodeName, if_pos hshort]⟩
  refine ⟨rawName, ?_⟩
  change (l.addSection oneMore).1 = _
  rw [addSection, haccepts, hnone]
  dsimp only
  rw [hname, ← hnone]

/-- One section more is added to as many as an executable can have, and the file that is written
states that it has none. -/
theorem numberOfSectionsIn_crowdedImage :
    ∃ h l y, Headers.decode (crowdedImage 65535) = .ok h ∧ decode (crowdedImage 65535) = .ok l ∧
      h.directoriesOffset + h.numberOfDirectories * DataDirectory.width ≤ h.tableOffset ∧
      (l.run [.add oneMore]).encode = .ok y ∧ (l.run [.add oneMore]).sections.length = 65536 ∧
      h.numberOfSectionsIn y = 0 := by
  obtain ⟨h, l, hr, hh, hfront, hnone, hsections⟩ := exists_layout_crowdedImage le_rfl
  have hfile : l.fileAlignment = 0x200 := hr.fileAlignment.trans hh.fileAlignment
  have hsection : l.sectionAlignment = 0x1000 := hr.sectionAlignment.trans hh.sectionAlignment
  have hstop : l.sizeOfHeaders 65536 = 0x280200 := by
    rw [sizeOfHeaders, hfront.length_front, hh.tableOffset, hfile]
    decide +kernel
  obtain ⟨rawName, hrun⟩ :=
    exists_run_oneMore (checkRequest_oneMore hsections hfile hsection hstop) hnone
  have hsectionsRun : (l.run [.add oneMore]).sections =
      List.replicate 65535 namelessSection ++ [l.requestedSection oneMore rawName] := by
    rw [hrun, hsections]
  have hnumberRun : (l.run [.add oneMore]).sections.length = 65536 := by
    rw [hsectionsRun, List.length_append, List.length_replicate, List.length_singleton]
  have hoverlay : l.overlay.length ≤ 0x280200 := by
    rw [hr.overlay]
    refine (length_overlayFrom_none_le _ _).trans ?_
    rw [length_crowdedImage]
    decide
  have hwritable : (l.run [.add oneMore]).IsWritable := by
    refine isWritable_crowded (hfront.run _) ?_ ?_ ?_ ?_ ?_ hsectionsRun ?_ rfl rfl
      (hr.isStored.run _)
    · rw [hrun]
      exact hfile
    · rw [hrun]
      exact hsection
    · rw [hrun]
      exact hnone
    · rw [headersStop, hnumberRun, hrun]
      exact hstop
    · rw [hrun]
      exact hoverlay
    · rw [requestedSection, hfile, Bytes.length_padTo]
      decide
  refine ⟨h, l, _, Headers.decode_eq_ok_iff.2 hr.headers, decode_eq_ok_iff.2 ⟨h, none, hr⟩,
    hfront.directories_le, encode_eq_ok_iff.2 ⟨hwritable, rfl⟩, hnumberRun, ?_⟩
  rw [(hfront.run _).numberOfSectionsIn_written, hnumberRun]

end Layout

end SecureBoot.Pe
