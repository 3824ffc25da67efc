import Mathlib
import SecureBoot.Proofs.EfiImage.Table
import SecureBoot.Proofs.Pe.Headers

/-!
# What reading an image sees

`Reads x i` says of every part of the image `i` where it stands in the file `x`. Reading gives `i`
exactly then (`decode_eq_ok_iff`).

**Where reading fails.** Given headers and signatures, all that can be wrong is a place outside of
the file, or a certificate table in front of the end of headers and sections (`IsInPlace`). The
latter goes unnoticed in a file that ends with its sections.
-/

namespace SecureBoot

theorem Bytes.range_eq {b : Bytes} {start stop : Nat} (part : Part) (h : start ≤ stop)
    (h' : stop ≤ b.length) : b.range start stop part = .ok (b.slice start stop) :=
  Bytes.range_eq_ok.2 ⟨⟨h, h'⟩, rfl⟩

namespace Pe.Headers

/-- Where the directory entry of the certificate table ends. -/
def certificateDirectoryStop (h : Headers) : Nat :=
  h.certificateDirectoryOffset + DataDirectory.width

theorem checksum_lt_directory (h : Headers) :
    h.checksumOffset + EfiImage.checksumSize ≤ h.certificateDirectoryOffset := by
  have hdirectories := h.add_le_directoriesOffset
  have hsize : EfiImage.checksumSize = 4 := rfl
  have hchecksum : h.checksumOffset = h.optionalOffset + 64 := rfl
  have hdirectory : h.certificateDirectoryOffset = h.directoriesOffset + 32 := rfl
  omega

end Pe.Headers

namespace EfiImage

open Pe

variable {x : Bytes} {i : EfiImage} {h : Headers}

theorem readSpan_eq_ok {offset size : Nat} {part : Part} {s : Span} :
    readSpan x offset size part = .ok s ↔
      offset + size ≤ x.length ∧ s = ⟨offset, x.slice offset (offset + size)⟩ := by
  rw [readSpan, bind_eq_ok]
  constructor
  · intro h
    obtain ⟨data, hdata, hs⟩ := h
    obtain ⟨⟨-, hstop⟩, rfl⟩ := Bytes.range_eq_ok.1 hdata
    exact ⟨hstop, (pure_eq_ok.1 hs).symm⟩
  · intro h
    obtain ⟨hstop, rfl⟩ := h
    exact ⟨_, Bytes.range_eq_ok.2 ⟨⟨Nat.le_add_right _ _, hstop⟩, rfl⟩, rfl⟩

/-! ## Signatures -/

theorem readSignatures_none {ws : List WinCertificate} :
    readSignatures x none = .ok ws ↔ ws = [] := by
  rw [readSignatures, pure_eq_ok]
  exact eq_comm

theorem readSignatures_some {d : DataDirectory} {ws : List WinCertificate} :
    readSignatures x (some d) = .ok ws ↔
      d.stop ≤ x.length ∧ ∃ final, Entries x d.stop d.address.toNat ws final := by
  have hroom : (d.stop - d.address.toNat) / WinCertificate.headerSize ≤
      d.size.toNat / WinCertificate.headerSize := by
    rw [DataDirectory.stop, Nat.add_sub_cancel_left]
  rw [readSignatures, bind_eq_ok]
  constructor
  · intro h
    obtain ⟨_, hrange, hread⟩ := h
    exact ⟨(Bytes.range_eq_ok.1 hrange).1.2, (readEntries_eq_ok_iff hroom).1 hread⟩
  · intro h
    obtain ⟨hstop, hread⟩ := h
    exact ⟨_, Bytes.range_eq_ok.2 ⟨⟨Nat.le_add_right _ _, hstop⟩, rfl⟩,
      (readEntries_eq_ok_iff hroom).2 hread⟩

/-- Whatever the table holds has been accepted. -/
theorem isAccepted_of_readEntry {start stop next : Nat} {w : WinCertificate}
    (h : readEntry x start stop = .ok (w, next)) : w.IsAccepted := by
  obtain ⟨-, -, -, hdecode, hsignature⟩ := readEntry_eq_ok_iff.1 h
  rw [WinCertificate.decode] at hdecode
  split at hdecode
  · rename_i hknown
    cases hdecode
    exact ⟨hknown.1, hknown.2, hsignature⟩
  · cases hdecode

theorem Entries.isAccepted {start stop final : Nat} {ws : List WinCertificate}
    (h : Entries x stop start ws final) : ∀ w ∈ ws, w.IsAccepted := by
  induction h with
  | done _ => exact nofun
  | entry _ hentry _ ih => exact List.forall_mem_cons.2 ⟨isAccepted_of_readEntry hentry, ih⟩

/-! ## What follows the sections -/

/-- Whether headers, sections and certificate table have places that reading takes. -/
structure IsInPlace (x : Bytes) (h : Headers) : Prop where
  sectionsStop_le : sectionsStop h ≤ x.length
  table : x.length = sectionsStop h ∨
    ∀ d ∈ h.certificateDirectory, sectionsStop h ≤ d.address.toNat ∧ d.stop ≤ x.length

theorem exists_readOverlay_iff : (∃ o, readOverlay x h = .ok o) ↔ IsInPlace x h := by
  rw [readOverlay]
  dsimp only
  constructor
  · intro h
    obtain ⟨o, ho⟩ := h
    obtain ⟨hle, ho⟩ := check_bind_eq_ok.1 ho
    refine ⟨Nat.not_lt.1 hle, ?_⟩
    split at ho
    · exact Or.inl (by assumption)
    · refine Or.inr fun d hd => ?_
      rw [hd] at ho
      obtain ⟨before, hbefore, ho⟩ := bind_eq_ok.1 ho
      obtain ⟨behind, hbehind, -⟩ := bind_eq_ok.1 ho
      exact ⟨(Bytes.range_eq_ok.1 hbefore).1.1, (Bytes.range_eq_ok.1 hbehind).1.1⟩
  · intro h
    obtain ⟨hle, htable⟩ := h
    by_cases heq : x.length = sectionsStop h
    · refine ⟨none, check_bind_eq_ok.2 ⟨Nat.not_lt.2 hle, ?_⟩⟩
      rw [if_pos heq]
      rfl
    · have hplace := htable.resolve_left heq
      cases hd : h.certificateDirectory with
      | none =>
        refine ⟨some [⟨sectionsStop h, x.drop (sectionsStop h)⟩],
          check_bind_eq_ok.2 ⟨Nat.not_lt.2 hle, ?_⟩⟩
        rw [if_neg heq]
        rfl
      | some d =>
        obtain ⟨haddress, hstop⟩ := hplace d hd
        have hin : d.address.toNat ≤ x.length := (Nat.le_add_right _ _).trans hstop
        refine ⟨some [⟨sectionsStop h, x.slice (sectionsStop h) d.address.toNat⟩,
          ⟨d.stop, x.slice d.stop x.length⟩], check_bind_eq_ok.2 ⟨Nat.not_lt.2 hle, ?_⟩⟩
        rw [if_neg heq]
        refine bind_eq_ok.2 ⟨_, Bytes.range_eq_ok.2 ⟨⟨haddress, hin⟩, rfl⟩, ?_⟩
        exact bind_eq_ok.2 ⟨_, Bytes.range_eq_ok.2 ⟨⟨hstop, le_rfl⟩, rfl⟩, rfl⟩

/-! ## The whole -/

/-- This is the image of a file. -/
structure Reads (x : Bytes) (i : EfiImage) : Prop where
  headers : Headers.Reads x i.headers
  signatures : readSignatures x i.headers.certificateDirectory = .ok i.signatures
  table_le : ∀ d ∈ i.headers.certificateDirectory, d.stop ≤ x.length
  certificateTable : i.certificateTable =
    i.headers.certificateDirectory.map fun d => ⟨d.address.toNat, x.slice d.address.toNat d.stop⟩
  checksum_le : i.headers.checksumOffset + checksumSize ≤ x.length
  checksum : i.checksum = ⟨i.headers.checksumOffset,
    x.slice i.headers.checksumOffset (i.headers.checksumOffset + checksumSize)⟩
  directory_le : i.headers.certificateDirectoryStop ≤ x.length
  certificateDirectory : i.certificateDirectory = ⟨i.headers.certificateDirectoryOffset,
    x.slice i.headers.certificateDirectoryOffset i.headers.certificateDirectoryStop⟩
  overlay : readOverlay x i.headers = .ok i.overlay
  raw : i.raw = Bytes.padTo x (WinCertificate.align x.length)

theorem mapM_readSpan_eq_ok {directory : Option DataDirectory} {table : Option Span} :
    (directory.mapM fun d => readSpan x d.address.toNat d.size.toNat .certificateTable) =
        .ok table ↔
      (∀ d ∈ directory, d.stop ≤ x.length) ∧
        table = directory.map fun d => ⟨d.address.toNat, x.slice d.address.toNat d.stop⟩ := by
  cases directory with
  | none =>
    rw [Option.mapM_none, pure_eq_ok]
    exact ⟨fun h => ⟨nofun, h.symm⟩, fun h => h.2.symm⟩
  | some d =>
    rw [Option.mapM_some, map_eq_pure_bind, bind_eq_ok]
    constructor
    · intro h
      obtain ⟨s, hs, htable⟩ := h
      obtain ⟨hstop, rfl⟩ := readSpan_eq_ok.1 hs
      exact ⟨fun e he => (by cases he; exact hstop), (pure_eq_ok.1 htable).symm⟩
    · intro h
      obtain ⟨hstop, rfl⟩ := h
      exact ⟨_, readSpan_eq_ok.2 ⟨hstop d rfl, rfl⟩, rfl⟩

theorem decode_eq_ok_iff : decode x = .ok i ↔ Reads x i := by
  rw [decode]
  constructor
  · intro hx
    obtain ⟨h, hh, hx⟩ := bind_eq_ok.1 hx
    obtain ⟨signatures, hsignatures, hx⟩ := bind_eq_ok.1 hx
    obtain ⟨table, htable, hx⟩ := bind_eq_ok.1 hx
    obtain ⟨checksum, hchecksum, hx⟩ := bind_eq_ok.1 hx
    obtain ⟨directory, hdirectory, hx⟩ := bind_eq_ok.1 hx
    obtain ⟨overlay, hoverlay, hx⟩ := bind_eq_ok.1 hx
    cases hx
    exact {
      headers := Headers.decode_eq_ok_iff.1 hh
      signatures := hsignatures
      table_le := (mapM_readSpan_eq_ok.1 htable).1
      certificateTable := (mapM_readSpan_eq_ok.1 htable).2
      checksum_le := (readSpan_eq_ok.1 hchecksum).1
      checksum := (readSpan_eq_ok.1 hchecksum).2
      directory_le := (readSpan_eq_ok.1 hdirectory).1
      certificateDirectory := (readSpan_eq_ok.1 hdirectory).2
      overlay := hoverlay
      raw := rfl }
  · intro hr
    refine bind_eq_ok.2 ⟨i.headers, Headers.decode_eq_ok_iff.2 hr.headers, ?_⟩
    refine bind_eq_ok.2 ⟨i.signatures, hr.signatures, ?_⟩
    refine bind_eq_ok.2 ⟨i.certificateTable,
      mapM_readSpan_eq_ok.2 ⟨hr.table_le, hr.certificateTable⟩, ?_⟩
    refine bind_eq_ok.2 ⟨i.checksum, readSpan_eq_ok.2 ⟨hr.checksum_le, hr.checksum⟩, ?_⟩
    refine bind_eq_ok.2 ⟨i.certificateDirectory,
      readSpan_eq_ok.2 ⟨hr.directory_le, hr.certificateDirectory⟩, ?_⟩
    refine bind_eq_ok.2 ⟨i.overlay, hr.overlay, ?_⟩
    rw [← hr.raw]
    rfl

/-- Files with headers, signatures and everything in place are read. -/
theorem exists_decode {ws : List WinCertificate} (hh : Headers.Reads x h)
    (hws : readSignatures x h.certificateDirectory = .ok ws)
    (htable : ∀ d ∈ h.certificateDirectory, d.stop ≤ x.length)
    (hdirectory : h.certificateDirectoryStop ≤ x.length) (hplace : IsInPlace x h) :
    ∃ i, decode x = .ok i ∧ i.headers = h ∧ i.signatures = ws := by
  have hchecksum := h.checksum_lt_directory
  have hstop : h.certificateDirectoryOffset ≤ h.certificateDirectoryStop := Nat.le_add_right _ _
  obtain ⟨overlay, hoverlay⟩ := exists_readOverlay_iff.2 hplace
  refine ⟨{
    headers := h
    raw := Bytes.padTo x (WinCertificate.align x.length)
    checksum := ⟨h.checksumOffset, x.slice h.checksumOffset (h.checksumOffset + checksumSize)⟩
    certificateTable := h.certificateDirectory.map fun d =>
      ⟨d.address.toNat, x.slice d.address.toNat d.stop⟩
    certificateDirectory := ⟨h.certificateDirectoryOffset,
      x.slice h.certificateDirectoryOffset h.certificateDirectoryStop⟩
    overlay
    signatures := ws }, ?_, rfl, rfl⟩
  exact decode_eq_ok_iff.2 {
    headers := hh
    signatures := hws
    table_le := htable
    certificateTable := rfl
    checksum_le := by dsimp only; omega
    checksum := rfl
    directory_le := hdirectory
    certificateDirectory := rfl
    overlay := hoverlay
    raw := rfl }

theorem Reads.isInPlace (hi : Reads x i) : IsInPlace x i.headers :=
  exists_readOverlay_iff.1 ⟨_, hi.overlay⟩

end EfiImage

end SecureBoot
