import Mathlib
import SecureBoot.Proofs.Pe.Edits

/-!
# The geometry of a written file

What a loader relies on when it maps a file that an edited layout was written to: where headers,
sections, symbols and overlay stand, and what the headers say of it.

**Theorem (`hasGeometry_of_encode_run`).** Whatever was removed from an executable and added to it,
the file that is written has this geometry (`HasGeometry`):

* *headers*: they end at a multiple of the file alignment, behind the section table and in front of
  where the first section is mapped,
* *sections*: those with bytes begin at multiples of the file alignment, behind the headers and
  behind all earlier ones, and the file has their bytes there,
* *the rest*: behind the padding of the last section there are the symbols, the length of the string
  table, its texts and the overlay,
* *memory*: the image ends at a multiple of the section alignment, behind all sections and the
  headers,
* *other fields*: bytes of the old headers that writing does not fill in are as they were.

The executable only has to have its data directories inside the optional header; names need not be
found in the string table, and the PE header may stand inside the DOS header. So the invariant of
the run is weaker than that of reading the file back (`Holds`, `IsSound`): the front is that of the
executable (`HasFront`), and every header goes with its bytes (`IsStored`).
-/

namespace SecureBoot.Pe

/-! ## Fields of a file -/

namespace Headers

/-- The end of the headers that a file states in the place that these headers have for it. -/
def sizeOfHeadersIn (h : Headers) (y : Bytes) : Nat := (y.u32 (h.optionalOffset + 60)).toNat

/-- The end of the image in memory that a file states. -/
def sizeOfImageIn (h : Headers) (y : Bytes) : Nat := (y.u32 (h.optionalOffset + 56)).toNat

/-- Where the last section with bytes ends in a file with a number of sections; the end of the
headers if there is none. -/
def rawStopIn (h : Headers) (y : Bytes) (count : Nat) : Nat :=
  (((List.range count).map (sectionAt y h)).filter (·.sizeOfRawData ≠ 0) |>.map (·.rawStop)).foldl
    max (h.sizeOfHeadersIn y)

/-- The places of the fields that writing fills in: the number of sections, pointer and number of
the symbols, both sizes, the checksum, and the entry for the certificate table if it is counted. -/
def IsRewritten (h : Headers) (k : Nat) : Prop :=
  (h.coffOffset + 2 ≤ k ∧ k < h.coffOffset + 4) ∨
    (h.coffOffset + 8 ≤ k ∧ k < h.coffOffset + 16) ∨
    (h.optionalOffset + 56 ≤ k ∧ k < h.optionalOffset + 64) ∨
    (h.checksumOffset ≤ k ∧ k < h.checksumOffset + 4) ∨
    DataDirectory.certificateIndex < h.numberOfDirectories ∧ h.certificateDirectoryOffset ≤ k ∧
      k < h.certificateDirectoryOffset + DataDirectory.width

end Headers

/-! ## The geometry -/

/-- What the header of a section in a file says, and what the file has there. -/
structure Section.IsLaidOut (h : Headers) (y : Bytes) (s : Section) (header : SectionHeader) :
    Prop where
  fields : header = { s.header with pointerToRawData := header.pointerToRawData }
  size : header.sizeOfRawData.toNat = s.data.length
  dvd_pointer : 1 < h.fileAlignment.toNat →
    h.fileAlignment.toNat ∣ header.pointerToRawData.toNat
  sizeOfHeaders_le : s.data ≠ [] → h.sizeOfHeadersIn y ≤ header.pointerToRawData.toNat
  rawStop_le : header.rawStop ≤ y.length
  data : y.slice header.pointerToRawData.toNat header.rawStop = s.data

/-- Whether a file is laid out as this layout of the executable `x` says. -/
structure Layout.HasGeometry (l : Layout) (h : Headers) (x y : Bytes) : Prop where
  dvd_sizeOfHeaders : 1 < h.fileAlignment.toNat → h.fileAlignment.toNat ∣ h.sizeOfHeadersIn y
  tableStop_le : h.tableOffset + l.sections.length * SectionHeader.size ≤ h.sizeOfHeadersIn y
  sizeOfHeaders_le : ∀ s ∈ l.sections, h.sizeOfHeadersIn y ≤ s.header.virtualAddress.toNat
  sections : ∀ (k : Nat) (s : Section), l.sections[k]? = some s → s.IsLaidOut h y (h.sectionAt y k)
  in_order : ∀ j k, j < k → k < l.sections.length → (h.sectionAt y k).sizeOfRawData ≠ 0 →
    (h.sectionAt y j).rawStop ≤ (h.sectionAt y k).pointerToRawData.toNat
  symbols : ∀ t ∈ l.symbols,
    y.drop (alignUp (h.rawStopIn y l.sections.length) h.fileAlignment.toNat) =
      t.symbols ++ (Bytes.ofNatLE 4 t.strings.length ++ (t.strings.drop 4 ++ l.overlay))
  overlay : l.symbols = none →
    y.drop (alignUp (h.rawStopIn y l.sections.length) h.fileAlignment.toNat) = l.overlay
  dvd_sizeOfImage : 1 < h.sectionAlignment.toNat →
    h.sectionAlignment.toNat ∣ h.sizeOfImageIn y
  span_le : ∀ s ∈ l.sections,
    s.header.virtualAddress.toNat + s.header.span ≤ h.sizeOfImageIn y
  sizeOfHeaders_le_sizeOfImage : h.sizeOfHeadersIn y ≤ h.sizeOfImageIn y
  unchanged : ∀ k, k < h.tableOffset → ¬ h.IsRewritten k → y[k]? = x[k]?

namespace Layout

variable {l : Layout} {h : Headers} {x y : Bytes}

/-! ## Sizes -/

theorem checkHeaders_eq_ok :
    l.checkHeaders = .ok () ↔ ∀ s ∈ l.sections, l.headersStop ≤ s.header.virtualAddress.toNat := by
  rw [checkHeaders]
  cases hmin : (l.sections.map (·.header.virtualAddress.toNat)).min? with
  | none =>
    have hnil : l.sections = [] := by simpa using hmin
    rw [hnil]
    exact ⟨fun _ => nofun, fun _ => rfl⟩
  | some first =>
    dsimp only
    rw [check_eq_ok, Nat.not_lt]
    change l.headersStop ≤ first ∧ _ ↔ _
    rw [List.le_min?_iff hmin, List.forall_mem_map]
    exact and_iff_left rfl

theorem alignUp_sizeOfImage (l : Layout) (size : Nat) :
    alignUp (l.sizeOfImage size) l.sectionAlignment.toNat = l.sizeOfImage size := by
  rw [sizeOfImage]
  refine alignUp_foldl_max (alignUp_alignUp _ _) fun n hn => ?_
  obtain ⟨s, -, rfl⟩ := List.mem_map.1 hn
  exact alignUp_alignUp _ _

theorem le_sizeOfImage (l : Layout) (size : Nat) : size ≤ l.sizeOfImage size :=
  (le_alignUp _ _).trans (le_foldl_max _ _).1

theorem span_le_sizeOfImage (size : Nat) {s : Section} (hs : s ∈ l.sections) :
    s.header.virtualAddress.toNat + s.header.span ≤ l.sizeOfImage size :=
  (le_alignUp _ _).trans ((le_foldl_max _ _).2 _ (List.mem_map_of_mem hs))

theorem dvd_of_alignUp_eq {n a : Nat} (h : alignUp n a = n) (ha : 1 < a) : a ∣ n :=
  (alignUp_eq_self_iff ha).1 h

/-! ## What is written -/

theorem HasFront.sizeOfHeadersIn_written (hl : l.HasFront h) (hs : l.IsStored)
    (hw : l.IsWritable) : h.sizeOfHeadersIn l.written = l.headersStop := by
  obtain ⟨-, -, -, -, hfield, -⟩ := forall_mem_fields.1 fun field hfield => hl.slice_field hfield
  rw [hl.optionalOffset, Bytes.length_ofNatLE] at hfield
  exact Bytes.u32_of_slice hfield ((Nat.le_add_right _ _).trans (hw.sectionsStop_le hl hs))

theorem HasFront.sizeOfImageIn_written (hl : l.HasFront h) (hw : l.IsWritable) :
    h.sizeOfImageIn l.written = l.sizeOfImage l.headersStop := by
  obtain ⟨-, -, -, hfield, -⟩ := forall_mem_fields.1 fun field hfield => hl.slice_field hfield
  rw [hl.optionalOffset, Bytes.length_ofNatLE] at hfield
  exact Bytes.u32_of_slice hfield hw.image_le

theorem HasFront.outside_of_not_isRewritten (hl : l.HasFront h) {k : Nat}
    (hk : ¬ h.IsRewritten k) : Outside l.fields k := by
  have hchecksum : h.checksumOffset = h.optionalOffset + Headers.checksumField := rfl
  unfold Headers.IsRewritten at hk
  rw [Outside, forall_mem_fields, hl.coffOffset, hl.optionalOffset]
  simp only [Bytes.length_ofNatLE, Bytes.length_zeros]
  refine ⟨by omega, by omega, by omega, by omega, by omega, by omega, fun offset ho => ?_⟩
  rw [hl.certificateDirectoryOffset] at ho
  split at ho
  · cases ho
    omega
  · cases ho

/-- Every entry of the section table is that of a section in its place. -/
theorem HasFront.sectionAt_written (hl : l.HasFront h) (hs : l.IsStored) {k : Nat}
    (hk : k < l.placedSections.length) :
    h.sectionAt l.written k = l.placedSections[k].header := by
  have htable := hl.sections_written hs
  have hlength :
      k < ((List.range l.sections.length).map (Headers.sectionAt l.written h)).length := by
    rwa [List.length_map, List.length_range, ← length_placedSections]
  have hentry := List.getElem_of_eq htable hlength
  rwa [List.getElem_map, List.getElem_map, List.getElem_range] at hentry

theorem isLaidOut_of_isWithin {s : Section} {place start stop : Nat} (hs : s.IsStored)
    (hstart : h.sizeOfHeadersIn y ≤ start)
    (hwithin : (s.placedAt place).IsWithin h.fileAlignment.toNat start stop)
    (hstop : stop ≤ y.length) (hstands : (s.placedAt place).StandsIn y) :
    s.IsLaidOut h y (s.placedAt place).header where
  fields := by rw [Section.placedAt, ← hs.sizeOfRawData]
  size := hwithin.size
  dvd_pointer := dvd_of_alignUp_eq hwithin.aligned
  sizeOfHeaders_le := fun hne => hstart.trans
    (hwithin.le_pointer fun hzero => hne (hwithin.sizeOfRawData_eq_zero_iff.1 hzero))
  rawStop_le := hwithin.rawStop_le.trans hstop
  data := by
    unfold Section.StandsIn at hstands
    split at hstands
    · rename_i hzero
      rw [SectionHeader.rawStop, hzero]
      change Bytes.slice _ _ (_ + 0) = s.data
      rw [Nat.add_zero, Bytes.slice, Nat.sub_self, List.take_zero]
      exact hstands.symm
    · exact hstands.2.symm

theorem HasFront.rawStopIn_written (hl : l.HasFront h) (hs : l.IsStored) (hw : l.IsWritable) :
    h.rawStopIn l.written l.sections.length = l.unpaddedStop := by
  rw [Headers.rawStopIn, hl.sections_written hs, hl.sizeOfHeadersIn_written hs hw, List.filter_map,
    List.map_map]
  exact foldl_max_rawStop le_rfl (hw.sectionsStop_le hl hs)

theorem hasGeometry_written (hl : l.HasFront h) (hs : l.IsStored) (hw : l.IsWritable)
    (hfront : l.front = x.take h.tableOffset) : l.HasGeometry h x l.written := by
  have hheaders := hl.sizeOfHeadersIn_written hs hw
  have himage := hl.sizeOfImageIn_written hw
  have hwithin := hw.isWithin hl hs
  have hplaced := l.length_placedSections
  have hbehind : l.written.drop
      (alignUp (h.rawStopIn l.written l.sections.length) h.fileAlignment.toNat) =
        l.symbolBytes ++ l.overlay := by
    rw [hl.rawStopIn_written hs hw, ← hl.fileAlignment, l.alignUp_unpaddedStop]
    exact hl.drop_sectionsStop hs
  have hstop : l.sectionsStop ≤ l.written.length := by
    rw [hl.length_written hs]
    exact Nat.le_add_right _ _
  exact {
    dvd_sizeOfHeaders := by
      rw [hheaders, ← hl.fileAlignment]
      exact dvd_of_alignUp_eq (alignUp_alignUp _ _)
    tableStop_le := by
      rw [hheaders, ← hl.length_front]
      exact le_alignUp _ _
    sizeOfHeaders_le := by
      rw [hheaders]
      exact checkHeaders_eq_ok.1 hw.headers
    sections := by
      intro k s hk
      obtain ⟨place, hplace⟩ : ∃ place, l.placedSections[k]? = some (s.placedAt place) :=
        getElem?_placed _ _ hk
      obtain ⟨hlt, hget⟩ := List.getElem?_eq_some_iff.1 hplace
      have hmem := List.mem_of_getElem? hplace
      rw [hl.sectionAt_written hs hlt, hget]
      refine isLaidOut_of_isWithin (hs s (List.mem_of_getElem? hk)) hheaders.le ?_ hstop
        (hl.standsIn_written hs hw _ hmem)
      rw [← hl.fileAlignment]
      exact hwithin _ hmem
    in_order := by
      intro j k hjk hk hne
      rw [← hplaced] at hk
      rw [hl.sectionAt_written hs hk] at hne ⊢
      rw [hl.sectionAt_written hs (hjk.trans hk)]
      have hpairwise := List.pairwise_iff_getElem.1 (hw.pairwise_placedSections hl hs)
      exact (hpairwise j k _ hk hjk).resolve_right hne
    symbols := by
      intro t ht
      rw [hbehind, symbolBytes_of_some ht, SymbolTable.encode, List.append_assoc,
        List.append_assoc]
      rfl
    overlay := by
      intro hnone
      rw [hbehind, symbolBytes, hnone]
      rfl
    dvd_sizeOfImage := by
      rw [himage, ← hl.sectionAlignment]
      exact dvd_of_alignUp_eq (l.alignUp_sizeOfImage _)
    span_le := by
      intro s hmem
      rw [himage]
      exact span_le_sizeOfImage _ hmem
    sizeOfHeaders_le_sizeOfImage := by
      rw [hheaders, himage]
      exact l.le_sizeOfImage _
    unchanged := by
      intro k hk hout
      rw [hl.getElem?_written hk (hl.outside_of_not_isRewritten hout), hfront,
        List.getElem?_take_of_lt hk] }

/-! ## Runs -/

theorem edit_eq (l : Layout) (e : Edit) :
    ∃ symbols sections, l.edit e = { l with symbols, sections } := by
  cases e with
  | remove name => exact ⟨_, _, rfl⟩
  | add r =>
    obtain ⟨symbols, hedit | ⟨-, rawName, -, hedit⟩⟩ := edit_add l r
    · exact ⟨_, _, hedit⟩
    · exact ⟨_, _, hedit⟩

theorem run_eq (l : Layout) (edits : List Edit) :
    ∃ symbols sections, l.run edits = { l with symbols, sections } := by
  induction edits using List.reverseRecOn with
  | nil => exact ⟨_, _, rfl⟩
  | append_singleton edits e ih =>
    obtain ⟨_, _, hrun⟩ := ih
    obtain ⟨symbols, sections, hedit⟩ := (l.run edits).edit_eq e
    refine ⟨symbols, sections, ?_⟩
    rw [run, List.foldl_append]
    change (l.run edits).edit e = _
    rw [hedit, hrun]

theorem IsStored.edit (hl : l.IsStored) (e : Edit) : (l.edit e).IsStored := by
  cases e with
  | remove name => exact fun s hs => hl s (List.mem_of_mem_filter hs)
  | add r =>
    obtain ⟨symbols, hedit | ⟨-, rawName, hname, hedit⟩⟩ := edit_add l r
    · rw [hedit]
      exact hl
    · rw [hedit]
      intro s hs
      rcases List.mem_append.1 hs with hs | hs
      · exact hl s hs
      · rw [List.mem_singleton.1 hs]
        exact { wholeName := length_encodeName hname, sizeOfRawData := rfl }

theorem IsStored.run (hl : l.IsStored) (edits : List Edit) : (l.run edits).IsStored := by
  induction edits using List.reverseRecOn with
  | nil => exact hl
  | append_singleton edits e ih =>
    rw [Layout.run, List.foldl_append]
    exact ih.edit e

theorem HasFront.run (hl : l.HasFront h) (edits : List Edit) : (l.run edits).HasFront h := by
  obtain ⟨_, _, hrun⟩ := l.run_eq edits
  rw [hrun]
  exact {
    directories_le := hl.directories_le
    length_front := hl.length_front
    coffOffset := hl.coffOffset
    certificateDirectoryOffset := hl.certificateDirectoryOffset
    fileAlignment := hl.fileAlignment
    sectionAlignment := hl.sectionAlignment }

/-- The file that an edited layout is written to is laid out as the layout says. -/
theorem hasGeometry_of_encode_run (hh : Headers.decode x = .ok h) (hl : decode x = .ok l)
    (hdirectories :
      h.directoriesOffset + h.numberOfDirectories * DataDirectory.width ≤ h.tableOffset)
    (edits : List Edit) (hy : (l.run edits).encode = .ok y) :
    (l.run edits).HasGeometry h x y := by
  obtain ⟨g, certificates, hr⟩ := decode_eq_ok_iff.1 hl
  have hg := Headers.decode_eq_ok_iff.2 hr.headers
  rw [hh] at hg
  cases hg
  obtain ⟨hwritable, rfl⟩ := encode_eq_ok_iff.1 hy
  obtain ⟨_, _, hrun⟩ := l.run_eq edits
  refine hasGeometry_written ((hr.hasFront hdirectories).run edits) (hr.isStored.run edits)
    hwritable ?_
  rw [hrun]
  exact hr.front

/-- A section behind that of the small executable stands at the next multiple of four. -/
theorem hasGeometry_of_encode_run_smallExecutable :
    ∃ h l y, Headers.decode smallExecutable = .ok h ∧ decode smallExecutable = .ok l ∧
      h.directoriesOffset + h.numberOfDirectories * DataDirectory.width ≤ h.tableOffset ∧
      (l.run [.add ⟨".new", 0x2000, none, [1]⟩, .remove ".none"]).encode = .ok y ∧
      (l.run [.add ⟨".new", 0x2000, none, [1]⟩, .remove ".none"]).HasGeometry h smallExecutable
        y := by
  obtain ⟨h, hh, hplace⟩ := exists_eq_ok_of_any (e := Headers.decode smallExecutable)
    (p := fun h => decide
      (h.directoriesOffset + h.numberOfDirectories * DataDirectory.width ≤ h.tableOffset))
    (by decide +kernel)
  have hplace := of_decide_eq_true hplace
  obtain ⟨l, hl, hrun⟩ := exists_eq_ok_of_any (e := decode smallExecutable)
    (p := fun l => (l.run [.add ⟨".new", 0x2000, none, [1]⟩,
      .remove ".none"]).encode.toOption.any fun _ => true) (by decide +kernel)
  obtain ⟨y, hy, -⟩ := exists_eq_ok_of_any hrun
  exact ⟨h, l, y, hh, hl, hplace, hy, hasGeometry_of_encode_run hh hl hplace _ hy⟩

end Layout

end SecureBoot.Pe
