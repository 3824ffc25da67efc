import Mathlib
import SecureBoot.Proofs.EfiImage.Runs
import SecureBoot.Proofs.Pe.ApplySections

/-!
# What changing the certificate table leaves alone

Taking the certificate table away or adding signatures also writes the directory entry, eight bytes
at a place that follows from the kind of the optional header alone. They are written even if the
headers do not count as many entries; then something else stands there, often a section header.

**Theorem (`untouched_of_decode`).** Where the entry is counted and shares no byte with the section
table or a section, and the table lies behind headers and sections (`IsFramed`), neither change
touches the section table, the sections, or any byte of the headers but those of the entry. Whatever
stands at the place of the entry, this is so exactly if the bytes that must stay there hold already
what is written.

Up to the end of the headers and sections both changes do the same thing: all bytes stay, but for
the entry (`Reads.exists_patchDirectory`).

**Where the table lies.** If a file goes on behind its sections, reading refuses a table that does
not lie behind them, too (`Reads.isTableBehind`). If it ends with a section nothing is refused, and
a table inside that section is taken away together with bytes of the section
(`Reads.not_untouched_of_strip`).
-/

namespace SecureBoot.Pe.Headers

/-! ## Bytes that should stay -/

/-- Where the headers end, by the size that they state or by their section table. -/
def extent (h : Headers) : Nat := max h.sizeOfHeaders.toNat h.tableStop

/-- Whether a byte belongs to the section table or to a section. -/
def IsSectionByte (h : Headers) (k : Nat) : Prop :=
  (h.tableOffset ≤ k ∧ k < h.tableStop) ∨
    ∃ s ∈ h.sections, s.pointerToRawData.toNat ≤ k ∧ k < s.rawStop

/-- Whether a byte lies where the headers have their entry for the certificate table, counted or
not. -/
def IsEntryByte (h : Headers) (k : Nat) : Prop :=
  h.certificateDirectoryOffset ≤ k ∧ k < h.certificateDirectoryStop

/-- Whether two files have the same section table and the same sections, and differ in no byte of
the headers but those of an entry that is counted. -/
structure Untouched (h : Headers) (x z : Bytes) : Prop where
  table : z.slice h.tableOffset h.tableStop = x.slice h.tableOffset h.tableStop
  sections : ∀ s ∈ h.sections, z.slice s.pointerToRawData.toNat s.rawStop =
    x.slice s.pointerToRawData.toNat s.rawStop
  others : ∀ k, k < h.extent → k < x.length → z[k]? ≠ x[k]? →
    DataDirectory.certificateIndex < h.numberOfDirectories ∧ h.IsEntryByte k

/-- Whether the certificate table, if there is one, lies behind entry, headers and sections. -/
def IsTableBehind (h : Headers) : Prop :=
  ∀ d ∈ h.certificateDirectory, h.certificateDirectoryStop ≤ d.address.toNat ∧
    h.extent ≤ d.address.toNat ∧
    ∀ s ∈ h.sections, s.sizeOfRawData ≠ 0 → s.rawStop ≤ d.address.toNat

/-- Headers with an entry for the certificate table that stands apart from sections, and that has
the table behind everything else. -/
structure IsFramed (h : Headers) : Prop where
  hasEntry : DataDirectory.certificateIndex < h.numberOfDirectories
  apart : ∀ k, h.IsEntryByte k → ¬ h.IsSectionByte k
  tableBehind : h.IsTableBehind

/-- Whether a byte at the place of the entry must stay as it is. -/
def IsKept (h : Headers) (k : Nat) : Prop :=
  h.IsSectionByte k ∨ ¬ DataDirectory.certificateIndex < h.numberOfDirectories ∧ k < h.extent

/-- Whether the bytes at the place of the entry that must stay are those of an entry already. -/
def Carries (h : Headers) (x entry : Bytes) : Prop :=
  ∀ k, h.IsEntryByte k → h.IsKept k → x[k]? = entry[k - h.certificateDirectoryOffset]?

theorem IsFramed.carries {h : Headers} (hf : h.IsFramed) (x entry : Bytes) : h.Carries x entry :=
  fun k hk hkept => (hkept.elim (hf.apart k hk) fun hno => hno.1 hf.hasEntry).elim

/-- Whether a byte of a file belongs to its headers or to a section. -/
def IsCovered (h : Headers) (x : Bytes) (k : Nat) : Prop :=
  h.IsSectionByte k ∨ k < h.extent ∧ k < x.length

theorem untouched_iff_carries {h : Headers} {x z entry : Bytes}
    (hlength : entry.length = DataDirectory.width) (hentry : h.certificateDirectoryStop ≤ x.length)
    (hz : ∀ k, h.IsCovered x k → z[k]? = (x.overwrite h.certificateDirectoryOffset entry)[k]?) :
    h.Untouched x z ↔ h.Carries x entry := by
  have hfits : h.certificateDirectoryOffset + entry.length ≤ x.length := by
    rw [hlength]
    exact hentry
  have hwritten : ∀ k, h.IsCovered x k → h.IsEntryByte k →
      z[k]? = entry[k - h.certificateDirectoryOffset]? := by
    intro k hk hin
    rw [hz k hk, Bytes.getElem?_overwrite hfits, if_neg (Nat.not_lt.2 hin.1), if_pos]
    rw [hlength]
    exact hin.2
  have hsame : ∀ k, h.IsCovered x k → ¬ h.IsEntryByte k → z[k]? = x[k]? := by
    intro k hk hout
    rw [hz k hk]
    refine Bytes.getElem?_overwrite_of_disjoint hfits ?_
    rw [hlength]
    exact (lt_or_ge k h.certificateDirectoryOffset).imp_right fun hstart =>
      Nat.not_lt.1 fun hstop => hout ⟨hstart, hstop⟩
  constructor
  · intro huntouched k hin hkept
    rcases hkept with hsection | ⟨huncounted, hextent⟩
    · rw [← hwritten k (Or.inl hsection) hin]
      rcases hsection with ⟨hstart, hstop⟩ | ⟨s, hs, hstart, hstop⟩
      · exact (Bytes.getElem?_eq_of_slice_eq huntouched.table hstart hstop).symm
      · exact (Bytes.getElem?_eq_of_slice_eq (huntouched.sections s hs) hstart hstop).symm
    · have hk : k < x.length := hin.2.trans_le hentry
      rw [← hwritten k (Or.inr ⟨hextent, hk⟩) hin]
      by_contra hne
      exact huncounted (huntouched.others k hextent hk (Ne.symm hne)).1
  · intro hcarries
    have hsection : ∀ k, h.IsSectionByte k → z[k]? = x[k]? := by
      intro k hk
      by_cases hin : h.IsEntryByte k
      · rw [hwritten k (Or.inl hk) hin, hcarries k hin (Or.inl hk)]
      · exact hsame k (Or.inl hk) hin
    exact {
      table := Bytes.slice_congr fun k hstart hstop => hsection k (Or.inl ⟨hstart, hstop⟩)
      sections := fun s hs => Bytes.slice_congr fun k hstart hstop =>
        hsection k (Or.inr ⟨s, hs, hstart, hstop⟩)
      others := by
        intro k hextent hk hne
        have hin : h.IsEntryByte k :=
          not_not.1 fun hout => hne (hsame k (Or.inr ⟨hextent, hk⟩) hout)
        refine ⟨not_not.1 fun huncounted => hne ?_, hin⟩
        rw [hwritten k (Or.inr ⟨hextent, hk⟩) hin, hcarries k hin (Or.inr ⟨huncounted, hextent⟩)] }

end SecureBoot.Pe.Headers

namespace SecureBoot.EfiImage

open Pe

variable {x y z : Bytes} {i : EfiImage} {l : Layout}

/-! ## Changes -/

theorem Reads.getElem?_front (hi : Reads x i) {k : Nat} (hk : k < frontStop x i) :
    i.front[k]? = x[k]? := by
  rw [← hi.getElem?_unsigned hk, unsigned,
    List.getElem?_append_left (hk.trans_le (min_le_right _ _))]

theorem Reads.lt_frontStop (hi : Reads x i) (hbehind : i.headers.IsTableBehind) {k : Nat}
    (hk : i.headers.IsCovered x k) : k < frontStop x i := by
  have htable : ∀ d ∈ i.headers.certificateDirectory, i.headers.tableStop ≤ d.address.toNat :=
    fun d hd => (le_max_right _ _).trans (hbehind d hd).2.1
  have hin : k < x.length := by
    rcases hk with (⟨hstart, hstop⟩ | ⟨s, hs, -, hstop⟩) | ⟨-, hlt⟩
    · rcases hi.headers.table_le with hzero | hle
      · rw [Headers.tableStop, hzero, Nat.zero_mul, Nat.add_zero] at hstop
        exact absurd hstart (Nat.not_le.2 hstop)
      · exact hstop.trans_le hle
    · exact hstop.trans_le ((rawStop_le_sectionsStop hs).trans hi.isInPlace.sectionsStop_le)
    · exact hlt
  refine lt_min hin ?_
  rcases hi.lengths with ⟨-, hfront⟩ | ⟨d, hd, hfront, -⟩
  · exact hin.trans_le hfront
  rw [hfront]
  rcases hk with (⟨-, hstop⟩ | ⟨s, hs, hstart, hstop⟩) | ⟨hlt, -⟩
  · exact hstop.trans_le (htable d hd)
  · exact hstop.trans_le ((hbehind d hd).2.2 s hs
      (SectionHeader.pointerToRawData_lt_rawStop_iff.1 (hstart.trans_lt hstop)))
  · exact hlt.trans_le (hbehind d hd).2.1

theorem Reads.exists_patchDirectory (hi : Reads x i) (hbehind : i.headers.IsTableBehind)
    (rest : Bytes) (address size : Nat) :
    ∃ z, i.patchDirectory (i.front ++ rest) address size = .ok z ∧
      (i.headers.Untouched x z ↔ i.headers.Carries x (DataDirectory.entryOf address size)) := by
  have hfront : i.headers.certificateDirectoryStop ≤ i.front.length := by
    rcases hi.lengths with ⟨-, hle⟩ | ⟨d, hd, hlength, -⟩
    · exact hi.directory_le.trans hle
    · rw [hlength]
      exact (hbehind d hd).1
  have hlength := DataDirectory.length_entryOf address size
  refine ⟨_, (hi.patchDirectory_front hfront).2 rfl,
    Headers.untouched_iff_carries hlength hi.directory_le fun k hk => ?_⟩
  have hlt := hi.lt_frontStop hbehind hk
  have hfitsFront : i.headers.certificateDirectoryOffset +
      (DataDirectory.entryOf address size).length ≤ i.front.length := by
    rw [hlength]
    exact hfront
  have hfits : i.headers.certificateDirectoryOffset +
      (DataDirectory.entryOf address size).length ≤ x.length := by
    rw [hlength]
    exact hi.directory_le
  rw [List.getElem?_append_left (by
    rw [Bytes.length_overwrite hfitsFront]
    exact hlt.trans_le (min_le_right _ _)), Bytes.getElem?_overwrite hfitsFront,
    Bytes.getElem?_overwrite hfits, hi.getElem?_front hlt]

/-- Taking the table away or adding signatures leaves headers and sections alone if the entry has a
place of its own; and elsewhere exactly if what stands at its place is what is written. -/
theorem untouched_of_decode (hx : decode x = .ok i) :
    (i.headers.IsFramed →
      (∃ z, i.strip = .ok z ∧ i.headers.Untouched x z) ∧
        ∀ more, ∃ z, i.setSignatures more = .ok z ∧ i.headers.Untouched x z) ∧
      (i.headers.IsTableBehind →
        (∃ z, i.strip = .ok z ∧
          (i.headers.Untouched x z ↔ i.headers.Carries x (DataDirectory.entryOf 0 0))) ∧
        ∀ more, ∃ z, i.setSignatures more = .ok z ∧
          (i.headers.Untouched x z ↔ i.headers.Carries x
            (DataDirectory.entryOf i.front.length (i.signedTable more).length))) := by
  have hi := decode_eq_ok_iff.1 hx
  have hstrip : i.headers.IsTableBehind → ∃ z, i.strip = .ok z ∧
      (i.headers.Untouched x z ↔ i.headers.Carries x (DataDirectory.entryOf 0 0)) := by
    intro hbehind
    rw [i.strip_eq]
    exact hi.exists_patchDirectory hbehind _ _ _
  have hsign : i.headers.IsTableBehind → ∀ more, ∃ z, i.setSignatures more = .ok z ∧
      (i.headers.Untouched x z ↔ i.headers.Carries x
        (DataDirectory.entryOf i.front.length (i.signedTable more).length)) := by
    intro hbehind more
    rw [hi.setSignatures_eq]
    exact hi.exists_patchDirectory hbehind _ _ _
  refine ⟨fun hf => ⟨?_, fun more => ?_⟩, fun hbehind => ⟨hstrip hbehind, hsign hbehind⟩⟩
  · obtain ⟨z, hz, huntouched⟩ := hstrip hf.tableBehind
    exact ⟨z, hz, huntouched.2 (hf.carries _ _)⟩
  · obtain ⟨z, hz, huntouched⟩ := hsign hf.tableBehind more
    exact ⟨z, hz, huntouched.2 (hf.carries _ _)⟩

/-! ## Where the table lies -/

/-- In a file that goes on behind its sections reading has seen to it that the table lies behind
them. -/
theorem Reads.isTableBehind (hi : Reads x i) (hmore : x.length ≠ sectionsStop i.headers)
    (htable : i.headers.tableStop ≤ i.headers.sizeOfHeaders.toNat)
    (hentry : i.headers.certificateDirectoryStop ≤ i.headers.sizeOfHeaders.toNat) :
    i.headers.IsTableBehind := by
  intro d hd
  obtain ⟨hplace, -⟩ := hi.isInPlace.table.resolve_left hmore d hd
  have hsize := (sizeOfHeaders_le_sectionsStop i.headers).trans hplace
  exact ⟨hentry.trans hsize, max_le hsize (htable.trans hsize),
    fun s hs _ => (rawStop_le_sectionsStop hs).trans hplace⟩

/-- In a file that ends with a section the table may lie anywhere, and then taking it away takes
bytes from the section. -/
theorem Reads.not_untouched_of_strip (hi : Reads x i) {s : SectionHeader}
    (hs : s ∈ i.headers.sections) (hne : s.sizeOfRawData ≠ 0) (hlast : s.rawStop = x.length)
    {d : DataDirectory} (hd : i.headers.certificateDirectory = some d)
    (hsize : i.raw.length < x.length + d.size.toNat) (hz : i.strip = .ok z) :
    ¬ i.headers.Untouched x z := by
  intro huntouched
  obtain ⟨hfront, htableStop⟩ := hi.lengths_of_some hd
  rw [strip_eq, hi.patchDirectory_eq_ok] at hz
  obtain ⟨hentry, rfl⟩ := hz
  have hlength := Bytes.le_length_of_slice (huntouched.sections s hs)
    (Bytes.length_slice hlast.le) (SectionHeader.pointerToRawData_lt_rawStop_iff.2 hne)
  rw [Bytes.length_overwrite (by rwa [DataDirectory.length_entryOf]), length_unsigned] at hlength
  have hraw := i.length_raw
  rw [DataDirectory.stop] at htableStop
  omega

/-! ## Small images -/

theorem IsSound.isFramed (hx : IsSound x i l) (hclear : i.IsClear) : i.headers.IsFramed where
  hasEntry := hx.hasEntry
  apart := by
    intro k hk hsection
    have hdirectory := hx.directory_le
    have hsize := hx.directory_le_sizeOfHeaders
    have hlt := hk.2
    rcases hsection with ⟨hstart, -⟩ | ⟨s, hs, hstart, hstop⟩
    · omega
    · have hne := SectionHeader.pointerToRawData_lt_rawStop_iff.1 (hstart.trans_lt hstop)
      have hbehind := hx.sections_behind s hs hne
      omega
  tableBehind := by
    intro d hd
    have hsize := (sizeOfHeaders_le_sectionsStop _).trans (hclear d hd)
    exact ⟨hx.directory_le_sizeOfHeaders.trans hsize, max_le hsize (hx.tableStop_le.trans hsize),
      fun s hs _ => (rawStop_le_sectionsStop hs).trans (hclear d hd)⟩

/-- A small image is signed, and its signatures are taken away. -/
theorem untouched_of_decode_clearImage :
    ∃ i y z, decode clearImage = .ok i ∧ i.headers.IsFramed ∧ i.strip = .ok y ∧
      i.headers.Untouched clearImage y ∧ i.setSignatures [smallSignature] = .ok z ∧
      i.headers.Untouched clearImage z := by
  obtain ⟨i, l, hx, hclear, -⟩ := exists_isSound (x := clearImage)
    (p := fun i => decide i.IsClear) (by decide +kernel) (by decide +kernel)
  have hframed := hx.isFramed (of_decide_eq_true hclear)
  obtain ⟨⟨y, hy, huntouched⟩, hsign⟩ := (untouched_of_decode hx.image).1 hframed
  obtain ⟨z, hz, huntouched'⟩ := hsign [smallSignature]
  exact ⟨i, y, z, hx.image, hframed, hy, huntouched, hz, huntouched'⟩

/-- An image without data directories, whose section table begins where they would; its section is
code. -/
def bareImage : Bytes := smallExecutable.overwrite 220 (Bytes.ofNatLE 4 0x60000020) ++ Bytes.zeros 5

/-- Taking away the certificate table, which the image does not have, overwrites the header of its
section. -/
theorem sectionAt_strip_bareImage :
    ∃ i z, decode bareImage = .ok i ∧ i.strip = .ok z ∧ i.headers.numberOfSections = 1 ∧
      (i.headers.sectionAt bareImage 0).characteristics = 0x60000020 ∧
      (i.headers.sectionAt z 0).characteristics = 0 ∧
      i.headers.sectionAt z 0 ≠ i.headers.sectionAt bareImage 0 := by
  obtain ⟨i, hi, hchecks⟩ := exists_eq_ok_of_any (e := decode bareImage)
    (p := fun i => decide (i.headers.numberOfSections = 1 ∧
      (i.headers.sectionAt bareImage 0).characteristics = 0x60000020) &&
      i.strip.toOption.any fun z => decide ((i.headers.sectionAt z 0).characteristics = 0))
    (by decide +kernel)
  rw [Bool.and_eq_true] at hchecks
  obtain ⟨hone, hbefore⟩ := of_decide_eq_true hchecks.1
  obtain ⟨z, hz, hafter⟩ := exists_eq_ok_of_any hchecks.2
  have hafter := of_decide_eq_true hafter
  refine ⟨i, z, hi, hz, hone, hbefore, hafter, fun heq => ?_⟩
  rw [heq, hbefore] at hafter
  exact absurd hafter (by decide)

end SecureBoot.EfiImage
