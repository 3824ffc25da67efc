import Mathlib
import SecureBoot.Pe.Layout.Encoding
import SecureBoot.Proofs.Outcome
import SecureBoot.Proofs.Pe.Section

/-!
# Where sections are placed

`place` runs over the sections with an offset. What it gives is told here without the checks on the
way: `placed` are the sections with their new places, `body` are their bytes, and `lastStop` is
where the last section with bytes ends, before it is padded.

**Every section stands where its header says** (`standsIn_of_mem_placed`), in any file that has the
body at the offset where it was laid out.

**Places are in order** (`isWithin_of_mem_placed`, `pairwise_placed`). Sections with bytes begin at
multiples of the alignment, and none begins in front of where an earlier one ends.

**The places only matter for what is written.** Sections that differ in nothing but their places are
placed alike (`place_unplaced`).
-/

namespace SecureBoot.Pe

namespace Section

/-- The section with the place that its bytes have at `offset`; without bytes it has none. -/
def placedAt (s : Section) (offset : Nat) : Section :=
  { s with header := { s.header with
      pointerToRawData := if s.data.isEmpty then 0 else UInt32.ofNat offset
      sizeOfRawData := UInt32.ofNat s.data.length } }

/-- Everything about a section but its place in the file. -/
def unplaced (s : Section) : Section := { s with header := { s.header with pointerToRawData := 0 } }

/-- Whether the bytes of a section stand in a file where its header says. -/
def StandsIn (s : Section) (x : Bytes) : Prop :=
  if s.header.sizeOfRawData = 0 then s.data = []
  else s.header.rawStop ≤ x.length ∧
    s.data = x.slice s.header.pointerToRawData.toNat s.header.rawStop

/-- Whether the bytes of a section, if it has any, stand at a multiple of the alignment and between
two places of the file. -/
structure IsWithin (fileAlignment start stop : Nat) (s : Section) : Prop where
  size : s.header.sizeOfRawData.toNat = s.data.length
  aligned : alignUp s.header.pointerToRawData.toNat fileAlignment = s.header.pointerToRawData.toNat
  le_pointer : s.header.sizeOfRawData ≠ 0 → start ≤ s.header.pointerToRawData.toNat
  rawStop_le : s.header.rawStop ≤ stop

theorem IsWithin.mono {fileAlignment start stop start' stop' : Nat} {s : Section}
    (h : s.IsWithin fileAlignment start stop) (hstart : start' ≤ start) (hstop : stop ≤ stop') :
    s.IsWithin fileAlignment start' stop' :=
  { h with
    le_pointer := fun hne => hstart.trans (h.le_pointer hne)
    rawStop_le := h.rawStop_le.trans hstop }

theorem IsWithin.sizeOfRawData_eq_zero_iff {fileAlignment start stop : Nat} {s : Section}
    (h : s.IsWithin fileAlignment start stop) : s.header.sizeOfRawData = 0 ↔ s.data = [] := by
  rw [← List.length_eq_zero_iff, ← h.size]
  exact ⟨fun hzero => by rw [hzero]; rfl, fun hzero => UInt32.toNat.inj hzero⟩

theorem toNat_sizeOfRawData_placedAt {s : Section} (hfits : s.data.length ≤ maxWord)
    (offset : Nat) : (s.placedAt offset).header.sizeOfRawData.toNat = s.data.length :=
  Bytes.toNat_ofNat_of_le_maxWord hfits

theorem sizeOfRawData_placedAt_eq_zero_iff {s : Section} (hfits : s.data.length ≤ maxWord)
    (offset : Nat) : (s.placedAt offset).header.sizeOfRawData = 0 ↔ s.data.isEmpty := by
  rw [← UInt32.toNat_inj, toNat_sizeOfRawData_placedAt hfits, List.isEmpty_iff_length_eq_zero]
  rfl

theorem toNat_pointerToRawData_placedAt {offset : Nat} {s : Section} (hempty : ¬ s.data.isEmpty)
    (hfits : offset ≤ maxWord) : (s.placedAt offset).header.pointerToRawData.toNat = offset := by
  rw [placedAt]
  dsimp only
  rw [if_neg hempty]
  exact Bytes.toNat_ofNat_of_le_maxWord hfits

theorem rawStop_placedAt {offset : Nat} {s : Section} (hempty : ¬ s.data.isEmpty)
    (hfits : offset + s.data.length ≤ maxWord) :
    (s.placedAt offset).header.rawStop = offset + s.data.length := by
  rw [SectionHeader.rawStop, toNat_pointerToRawData_placedAt hempty (by omega),
    toNat_sizeOfRawData_placedAt (by omega)]

theorem isWithin_placedAt {fileAlignment offset : Nat} {s : Section}
    (hoffset : alignUp offset fileAlignment = offset) (hfits : offset + s.data.length ≤ maxWord) :
    (s.placedAt offset).IsWithin fileAlignment offset (offset + s.data.length) := by
  have hsize := toNat_sizeOfRawData_placedAt (s := s) (by omega) offset
  by_cases hempty : s.data.isEmpty
  · have hpointer : (s.placedAt offset).header.pointerToRawData = 0 := if_pos hempty
    have hzero := (sizeOfRawData_placedAt_eq_zero_iff (by omega) offset).2 hempty
    exact {
      size := hsize
      aligned := by rw [hpointer]; exact alignUp_zero _
      le_pointer := fun hne => absurd hzero hne
      rawStop_le := by
        rw [SectionHeader.rawStop, hpointer, hzero]
        exact Nat.zero_le _ }
  · have hpointer := toNat_pointerToRawData_placedAt hempty (by omega : offset ≤ maxWord)
    exact {
      size := hsize
      aligned := by rw [hpointer, hoffset]
      le_pointer := fun _ => hpointer.ge
      rawStop_le := (rawStop_placedAt hempty hfits).le }

theorem unplaced_placedAt {s : Section} (h : s.header.sizeOfRawData = UInt32.ofNat s.data.length)
    (offset : Nat) : (s.placedAt offset).unplaced = s.unplaced := by
  rw [placedAt, ← h]
  rfl

theorem StandsIn.sizeOfRawData {s : Section} {x : Bytes} (h : s.StandsIn x) :
    s.header.sizeOfRawData = UInt32.ofNat s.data.length := by
  unfold StandsIn at h
  split at h
  · rename_i hzero
    rw [h, hzero]
    rfl
  · rw [h.2, Bytes.length_slice h.1, SectionHeader.rawStop, Nat.add_sub_cancel_left,
      UInt32.ofNat_toNat]

end Section

namespace Layout

theorem checkOffset_eq_ok {name : String} {offset : Nat} :
    checkOffset name offset = .ok () ↔ offset ≤ maxWord := by
  rw [checkOffset, check_eq_ok, Nat.not_lt]
  exact and_iff_left rfl

/-! ## Running over the sections -/

/-- Where the next section begins. -/
def nextOffset (fileAlignment offset : Nat) (s : Section) : Nat :=
  if s.data.isEmpty then offset else alignUp (offset + s.data.length) fileAlignment

/-- The sections with their places. -/
def placed (fileAlignment : Nat) : Nat → List Section → List Section
  | _, [] => []
  | offset, s :: rest =>
    s.placedAt offset :: placed fileAlignment (nextOffset fileAlignment offset s) rest

/-- The bytes of the sections, each with its padding. -/
def body (fileAlignment : Nat) : Nat → List Section → Bytes
  | _, [] => []
  | offset, s :: rest =>
    s.data ++ Bytes.zeros (nextOffset fileAlignment offset s - (offset + s.data.length)) ++
      body fileAlignment (nextOffset fileAlignment offset s) rest

/-- Where the last section with bytes ends, or `stop` if there is none. -/
def lastStop (fileAlignment : Nat) : Nat → Nat → List Section → Nat
  | stop, _, [] => stop
  | stop, offset, s :: rest =>
    lastStop fileAlignment (if s.data.isEmpty then stop else offset + s.data.length)
      (nextOffset fileAlignment offset s) rest

theorem le_nextOffset (fileAlignment offset : Nat) (s : Section) :
    offset + s.data.length ≤ nextOffset fileAlignment offset s := by
  rw [nextOffset]
  split
  · rename_i hempty
    rw [List.isEmpty_iff.1 hempty]
    exact le_rfl
  · exact le_alignUp _ _

/-- What `place` gives if it succeeds. -/
theorem place_eq_ok {fileAlignment offset : Nat} {sections : List Section}
    {headers : List SectionHeader} {bytes : Bytes}
    (h : place fileAlignment offset sections = .ok (headers, bytes)) :
    headers = (placed fileAlignment offset sections).map (·.header) ∧
      bytes = body fileAlignment offset sections := by
  induction sections generalizing offset headers bytes with
  | nil =>
    cases h
    exact ⟨rfl, rfl⟩
  | cons s rest ih =>
    rw [place] at h
    rw [placed, body, List.map_cons]
    split at h
    · rename_i hempty
      have hnil := List.isEmpty_iff.1 hempty
      obtain ⟨⟨hs, b⟩, hrest, h⟩ := bind_eq_ok.1 h
      cases h
      obtain ⟨rfl, rfl⟩ := ih hrest
      have hnext : nextOffset fileAlignment offset s = offset := by rw [nextOffset, if_pos hempty]
      rw [hnext, hnil]
      refine ⟨?_, ?_⟩
      · rw [Section.placedAt, if_pos hempty, hnil]
        rfl
      · simp
    · rename_i hempty
      obtain ⟨_, -, h⟩ := bind_eq_ok.1 h
      obtain ⟨⟨hs, b⟩, hrest, h⟩ := bind_eq_ok.1 h
      cases h
      have hnext : nextOffset fileAlignment offset s =
          alignUp (offset + s.data.length) fileAlignment := by rw [nextOffset, if_neg hempty]
      rw [← hnext] at hrest ⊢
      obtain ⟨rfl, rfl⟩ := ih hrest
      refine ⟨?_, rfl⟩
      rw [Section.placedAt, if_neg hempty]

/-- The places that sections had before do not matter. -/
theorem place_unplaced (fileAlignment offset : Nat) (sections : List Section) :
    place fileAlignment offset (sections.map (·.unplaced)) =
      place fileAlignment offset sections := by
  induction sections generalizing offset with
  | nil => rfl
  | cons s rest ih =>
    rw [List.map_cons, place, place]
    simp only [ih]
    rfl

/-! ## The bytes -/

theorem length_placed (fileAlignment offset : Nat) (sections : List Section) :
    (placed fileAlignment offset sections).length = sections.length := by
  induction sections generalizing offset with
  | nil => rfl
  | cons s rest ih => rw [placed, List.length_cons, ih, List.length_cons]

theorem getElem?_placed (fileAlignment offset : Nat) {sections : List Section} {k : Nat}
    {s : Section} (hs : sections[k]? = some s) :
    ∃ place, (placed fileAlignment offset sections)[k]? = some (s.placedAt place) := by
  induction sections generalizing offset k with
  | nil => cases hs
  | cons first rest ih =>
    cases k with
    | zero =>
      cases hs
      exact ⟨offset, rfl⟩
    | succ k => exact ih (nextOffset fileAlignment offset first) hs

/-- What holds of a section wherever it is placed. -/
theorem forall_mem_placed {P : Section → Prop} {fileAlignment offset : Nat}
    {sections : List Section} (h : ∀ s ∈ sections, ∀ offset, P (s.placedAt offset)) :
    ∀ s ∈ placed fileAlignment offset sections, P s := by
  induction sections generalizing offset with
  | nil => exact nofun
  | cons s rest ih =>
    rw [List.forall_mem_cons] at h
    rw [placed, List.forall_mem_cons]
    exact ⟨h.1 offset, ih h.2⟩

theorem placed_unplaced (fileAlignment offset : Nat) (sections : List Section) :
    placed fileAlignment offset (sections.map (·.unplaced)) =
      placed fileAlignment offset sections := by
  induction sections generalizing offset with
  | nil => rfl
  | cons s rest ih =>
    rw [List.map_cons, placed, placed, ih]
    rfl

theorem body_unplaced (fileAlignment offset : Nat) (sections : List Section) :
    body fileAlignment offset (sections.map (·.unplaced)) = body fileAlignment offset sections := by
  induction sections generalizing offset with
  | nil => rfl
  | cons s rest ih =>
    rw [List.map_cons, body, body, ih]
    rfl

theorem map_unplaced_placed {fileAlignment : Nat} {sections : List Section}
    (h : ∀ s ∈ sections, s.header.sizeOfRawData = UInt32.ofNat s.data.length) (offset : Nat) :
    (placed fileAlignment offset sections).map (·.unplaced) = sections.map (·.unplaced) := by
  induction sections generalizing offset with
  | nil => rfl
  | cons s rest ih =>
    rw [List.forall_mem_cons] at h
    rw [placed, List.map_cons, List.map_cons, ih h.2, Section.unplaced_placedAt h.1]

theorem placed_append (fileAlignment offset : Nat) (first rest : List Section) :
    placed fileAlignment offset (first ++ rest) = placed fileAlignment offset first ++
      placed fileAlignment (first.foldl (nextOffset fileAlignment) offset) rest := by
  induction first generalizing offset with
  | nil => rfl
  | cons s first ih =>
    rw [List.cons_append, placed, ih, placed, List.foldl_cons, List.cons_append]

theorem add_length_body (fileAlignment offset : Nat) (s : Section) (rest : List Section) :
    offset + (body fileAlignment offset (s :: rest)).length =
      nextOffset fileAlignment offset s +
        (body fileAlignment (nextOffset fileAlignment offset s) rest).length := by
  have hle := le_nextOffset fileAlignment offset s
  rw [body, List.length_append, List.length_append, Bytes.length_zeros]
  omega

theorem placedAt_standsIn {s : Section} {front behind : Bytes}
    (hlength : (front ++ (s.data ++ behind)).length ≤ maxWord) :
    (s.placedAt front.length).StandsIn (front ++ (s.data ++ behind)) := by
  rw [List.length_append, List.length_append] at hlength
  unfold Section.StandsIn
  by_cases hempty : s.data.isEmpty
  · rw [if_pos ((Section.sizeOfRawData_placedAt_eq_zero_iff (by omega) _).2 hempty)]
    exact List.isEmpty_iff.1 hempty
  · rw [if_neg (mt (Section.sizeOfRawData_placedAt_eq_zero_iff (by omega) _).1 hempty),
      Section.rawStop_placedAt hempty (by omega),
      Section.toNat_pointerToRawData_placedAt hempty (by omega), Bytes.slice_append_mid,
      List.length_append, List.length_append]
    exact ⟨by omega, rfl⟩

theorem standsIn_of_mem_placed {fileAlignment : Nat} {sections : List Section}
    {front behind : Bytes}
    (hlength : (front ++ (body fileAlignment front.length sections ++ behind)).length ≤ maxWord) :
    ∀ s ∈ placed fileAlignment front.length sections,
      s.StandsIn (front ++ (body fileAlignment front.length sections ++ behind)) := by
  induction sections generalizing front with
  | nil =>
    intro s hs
    cases hs
  | cons s rest ih =>
    have hnext := le_nextOffset fileAlignment front.length s
    rw [placed, body]
    rw [body] at hlength
    generalize hk : nextOffset fileAlignment front.length s = next at *
    generalize hz : Bytes.zeros (next - (front.length + s.data.length)) = pad at *
    have hpad : pad.length = next - (front.length + s.data.length) := by
      rw [← hz, Bytes.length_zeros]
    have hfront : (front ++ (s.data ++ pad)).length = next := by
      rw [List.length_append, List.length_append]
      omega
    have hwhole : front ++ (s.data ++ pad ++ body fileAlignment next rest ++ behind) =
        front ++ (s.data ++ pad) ++ (body fileAlignment next rest ++ behind) := by
      simp only [List.append_assoc]
    intro t ht
    rcases List.mem_cons.1 ht with rfl | ht
    · have hhead : front ++ (s.data ++ pad ++ body fileAlignment next rest ++ behind) =
          front ++ (s.data ++ (pad ++ (body fileAlignment next rest ++ behind))) := by
        simp only [List.append_assoc]
      rw [hhead] at hlength ⊢
      exact placedAt_standsIn hlength
    · rw [hwhole] at hlength ⊢
      rw [← hfront] at hlength ht ⊢
      exact ih hlength t ht

/-! ## Places -/

section Places

variable {fileAlignment offset : Nat} {sections : List Section}

theorem alignUp_nextOffset (hoffset : alignUp offset fileAlignment = offset) (s : Section) :
    alignUp (nextOffset fileAlignment offset s) fileAlignment =
      nextOffset fileAlignment offset s := by
  rw [nextOffset]
  split
  · exact hoffset
  · exact alignUp_alignUp _ _

theorem isWithin_of_mem_placed (hoffset : alignUp offset fileAlignment = offset)
    (hfits : offset + (body fileAlignment offset sections).length ≤ maxWord) :
    ∀ s ∈ placed fileAlignment offset sections,
      s.IsWithin fileAlignment offset (offset + (body fileAlignment offset sections).length) := by
  induction sections generalizing offset with
  | nil => exact nofun
  | cons s rest ih =>
    have hnext := le_nextOffset fileAlignment offset s
    rw [add_length_body] at hfits ⊢
    rw [placed, List.forall_mem_cons]
    refine ⟨(Section.isWithin_placedAt hoffset (by omega)).mono le_rfl (by omega), fun t ht => ?_⟩
    exact (ih (alignUp_nextOffset hoffset s) hfits t ht).mono (by omega) le_rfl

/-- The places of the sections are in the order of the sections. -/
theorem pairwise_placed (hoffset : alignUp offset fileAlignment = offset)
    (hfits : offset + (body fileAlignment offset sections).length ≤ maxWord) :
    (placed fileAlignment offset sections).Pairwise fun s t =>
      s.header.rawStop ≤ t.header.pointerToRawData.toNat ∨ t.header.sizeOfRawData = 0 := by
  induction sections generalizing offset with
  | nil => exact List.Pairwise.nil
  | cons s rest ih =>
    have hnext := le_nextOffset fileAlignment offset s
    have haligned := alignUp_nextOffset hoffset s
    rw [add_length_body] at hfits
    rw [placed]
    refine List.Pairwise.cons (fun t ht => ?_) (ih haligned hfits)
    have hs := Section.isWithin_placedAt hoffset (s := s) (by omega)
    rcases eq_or_ne t.header.sizeOfRawData 0 with hzero | hne
    · exact Or.inr hzero
    · exact Or.inl (hs.rawStop_le.trans (hnext.trans
        ((isWithin_of_mem_placed haligned hfits t ht).le_pointer hne)))

end Places

/-! ## The end -/

theorem le_lastStop {fileAlignment offset stop : Nat} (sections : List Section)
    (hstop : stop ≤ offset) : stop ≤ lastStop fileAlignment stop offset sections := by
  induction sections generalizing offset stop with
  | nil => exact le_rfl
  | cons s rest ih =>
    have hnext := le_nextOffset fileAlignment offset s
    rw [lastStop]
    split
    · exact ih (by omega)
    · exact le_trans (by omega) (ih hnext)

/-- Behind the last section with bytes the body has only padding. -/
theorem drop_body {fileAlignment offset stop : Nat} {sections : List Section}
    (hstop : stop ≤ offset) :
    (Bytes.zeros (offset - stop) ++ body fileAlignment offset sections).drop
        (lastStop fileAlignment stop offset sections - stop) =
      Bytes.zeros (offset + (body fileAlignment offset sections).length -
        lastStop fileAlignment stop offset sections) := by
  induction sections generalizing offset stop with
  | nil => simp [lastStop, body]
  | cons s rest ih =>
    have hnext := le_nextOffset fileAlignment offset s
    rw [add_length_body, lastStop]
    by_cases hempty : s.data.isEmpty
    · have hsame : nextOffset fileAlignment offset s = offset := by rw [nextOffset, if_pos hempty]
      rw [if_pos hempty, body, hsame, List.isEmpty_iff.1 hempty, List.length_nil, Nat.add_zero,
        Nat.sub_self]
      exact ih hstop
    · have hle : offset + s.data.length ≤ lastStop fileAlignment (offset + s.data.length)
          (nextOffset fileAlignment offset s) rest := le_lastStop rest hnext
      -- Of what is left out, the section takes the first part.
      have hsplit : lastStop fileAlignment (offset + s.data.length)
            (nextOffset fileAlignment offset s) rest - stop =
          (offset + s.data.length - stop) + (lastStop fileAlignment (offset + s.data.length)
            (nextOffset fileAlignment offset s) rest - (offset + s.data.length)) := by
        omega
      rw [if_neg hempty, body, ← ih hnext, List.append_assoc, ← List.append_assoc, hsplit,
        ← List.drop_drop]
      congr 1
      apply List.drop_left'
      rw [List.length_append, Bytes.length_zeros]
      omega

/-- The raw bytes of the placed sections end nowhere behind the last one's. -/
theorem foldl_max_rawStop {fileAlignment offset stop : Nat} {sections : List Section}
    (hstop : stop ≤ offset)
    (hfits : offset + (body fileAlignment offset sections).length ≤ maxWord) :
    ((placed fileAlignment offset sections).filter (·.header.sizeOfRawData ≠ 0)
      |>.map (·.header.rawStop)).foldl max stop = lastStop fileAlignment stop offset sections := by
  induction sections generalizing offset stop with
  | nil => rfl
  | cons s rest ih =>
    have hend := add_length_body fileAlignment offset s rest
    have hnext := le_nextOffset fileAlignment offset s
    have hzero := Section.sizeOfRawData_placedAt_eq_zero_iff (s := s) (by omega) offset
    rw [placed, lastStop]
    by_cases hempty : s.data.isEmpty
    · rw [List.filter_cons_of_neg (by simpa using hzero.2 hempty), if_pos hempty]
      exact ih (by omega) (by omega)
    · rw [List.filter_cons_of_pos (by simpa using mt hzero.1 hempty), if_neg hempty, List.map_cons,
        List.foldl_cons, Section.rawStop_placedAt hempty (by omega), Nat.max_eq_right (by omega)]
      exact ih hnext (by omega)

/-- The body ends at the next multiple behind the last section with bytes. -/
theorem add_length_body_eq_alignUp {fileAlignment offset stop : Nat} {sections : List Section}
    (hoffset : offset = alignUp stop fileAlignment) :
    offset + (body fileAlignment offset sections).length =
      alignUp (lastStop fileAlignment stop offset sections) fileAlignment := by
  induction sections generalizing offset stop with
  | nil => exact hoffset
  | cons s rest ih =>
    rw [add_length_body, lastStop]
    by_cases hempty : s.data.isEmpty
    · rw [if_pos hempty]
      apply ih
      rw [nextOffset, if_pos hempty, hoffset]
    · rw [if_neg hempty]
      apply ih
      rw [nextOffset, if_neg hempty]

/-- The last section with bytes. -/
def lastWithBytes (sections : List Section) : Option Section :=
  (sections.filter fun s => !s.data.isEmpty).getLast?

theorem lastWithBytes_append (first rest : List Section) :
    lastWithBytes (first ++ rest) = (lastWithBytes rest).or (lastWithBytes first) := by
  rw [lastWithBytes, List.filter_append, List.getLast?_append]
  rfl

/-- Whether a number of bytes needs no padding. -/
def IsAligned (fileAlignment : UInt32) (s : Section) : Prop :=
  alignUp s.data.length fileAlignment.toNat = s.data.length

/-- The last section with bytes ends at a multiple if the number of its bytes is one. -/
theorem alignUp_lastStop_iff {fileAlignment : UInt32} {offset stop : Nat} {sections : List Section}
    (hoffset : alignUp offset fileAlignment.toNat = offset) :
    alignUp (lastStop fileAlignment.toNat stop offset sections) fileAlignment.toNat =
        lastStop fileAlignment.toNat stop offset sections ↔
      match lastWithBytes sections with
      | none => alignUp stop fileAlignment.toNat = stop
      | some s => IsAligned fileAlignment s := by
  induction sections generalizing offset stop with
  | nil => rfl
  | cons s rest ih =>
    rw [lastStop, lastWithBytes]
    by_cases hempty : s.data.isEmpty
    · rw [List.filter_cons_of_neg (by simpa using hempty), if_pos hempty, nextOffset,
        if_pos hempty]
      exact ih hoffset
    · rw [List.filter_cons_of_pos (by simpa using hempty), if_neg hempty, nextOffset,
        if_neg hempty, ih (alignUp_alignUp _ _), lastWithBytes, List.getLast?_cons]
      cases (rest.filter fun s => !s.data.isEmpty).getLast? with
      | none =>
        change alignUp (offset + s.data.length) fileAlignment.toNat = offset + s.data.length ↔
          IsAligned fileAlignment s
        rw [alignUp_add hoffset, IsAligned]
        omega
      | some last => exact Iff.rfl

end Layout

end SecureBoot.Pe
