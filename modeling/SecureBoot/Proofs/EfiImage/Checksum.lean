import Mathlib
import SecureBoot.Proofs.EfiImage.Runs
import SecureBoot.Proofs.EfiImage.WordSum

/-!
# Checksums that are filled in

The checksum of an image is computed from everything but the four bytes that it is written to, so
writing it leaves it right: the image that is read afterwards states the checksum that it has
(`Reads.statedChecksum_withChecksum`), whatever the old one was.

**Theorem (`computedChecksum_of_decode`).** Where the checksum stands between two words, it is the
length of the padded image plus the folded sum of its words, those of the checksum taken as zero. In
an image that is 64 kilobytes short of four gigabytes all sums on the way are 32-bit words, the
checksum that is written is the one that is read back, and neither writing it again nor the one that
stood there before makes a difference.

The words in front of the checksum and those behind are added up one after the other, and four zeros
between them add nothing; so this is one sum over the whole image.
-/

namespace SecureBoot

theorem Bytes.overwrite_overwrite {x p q : Bytes} {offset : Nat} (h : offset ≤ x.length)
    (hlength : q.length = p.length) :
    (x.overwrite offset p).overwrite offset q = x.overwrite offset q := by
  rw [overwrite, take_overwrite h, hlength, drop_overwrite h, ← hlength, ← overwrite]

theorem Bytes.padTo_overwrite {x patch : Bytes} {offset n : Nat}
    (h : offset + patch.length ≤ x.length) :
    (x.overwrite offset patch).padTo n = (x.padTo n).overwrite offset patch := by
  rw [padTo, padTo, length_overwrite h, overwrite_append h]

namespace EfiImage

open Pe

variable {x y stated : Bytes} {i j : EfiImage}

theorem computedChecksum_congr (hoffset : j.checksum.offset = i.checksum.offset)
    (hlength : j.raw.length = i.raw.length)
    (hfront : j.raw.take i.checksum.offset = i.raw.take i.checksum.offset)
    (hbehind : j.raw.drop (i.checksum.offset + checksumSize) =
      i.raw.drop (i.checksum.offset + checksumSize)) :
    j.computedChecksum = i.computedChecksum := by
  rw [computedChecksum, computedChecksum, hoffset, hlength, hfront, hbehind]

theorem Reads.checksum_le_raw (hi : Reads x i) :
    i.checksum.offset + checksumSize ≤ i.raw.length := by
  rw [hi.checksum_offset]
  exact hi.checksum_le.trans hi.le_length_raw

/-! ## Other checksums in the same place -/

/-- An image that has another checksum in place of its own. -/
theorem Reads.computedChecksum_of_overwrite (hi : Reads x i)
    (hoffset : j.checksum.offset = i.checksum.offset) (hstated : stated.length = checksumSize)
    (hraw : j.raw = i.raw.overwrite i.checksum.offset stated) :
    j.computedChecksum = i.computedChecksum ∧ j.withChecksum = i.withChecksum := by
  have hin := hi.checksum_le_raw
  have hle : i.checksum.offset ≤ i.raw.length := (Nat.le_add_right _ _).trans hin
  have hlength : j.raw.length = i.raw.length := by
    rw [hraw, Bytes.length_overwrite (hstated ▸ hin)]
  have hbehind := Bytes.drop_overwrite hle stated
  rw [hstated] at hbehind
  have hsame : j.computedChecksum = i.computedChecksum :=
    computedChecksum_congr hoffset hlength (by rw [hraw]; exact Bytes.take_overwrite hle _)
      (by rw [hraw]; exact hbehind)
  refine ⟨hsame, ?_⟩
  rw [withChecksum, withChecksum, hoffset, hsame, hraw]
  exact Bytes.overwrite_overwrite hle (by rw [Bytes.length_ofNatLE, hstated])

/-- What is read from the padded bytes with another checksum has them as its own. -/
theorem Reads.raw_of_overwrite (hi : Reads x i) (hstated : stated.length = checksumSize)
    (hj : Reads (i.raw.overwrite i.checksum.offset stated) j) :
    j.raw = i.raw.overwrite i.checksum.offset stated := by
  have hlength : (i.raw.overwrite i.checksum.offset stated).length = i.raw.length :=
    Bytes.length_overwrite (hstated ▸ hi.checksum_le_raw)
  rw [hj.raw, hlength, WinCertificate.align_of_dvd hi.dvd_length_raw]
  exact Bytes.padTo_of_length_le hlength.ge

theorem Reads.checksum_offset_eq (hi : Reads x i) (hj : Reads y j)
    (hfront : ∀ k, k < i.checksum.offset → y[k]? = x[k]?) :
    j.checksum.offset = i.checksum.offset := by
  have hstart : 88 ≤ i.checksum.offset := by
    rw [hi.checksum_offset, Headers.checksumOffset, Headers.optionalOffset, Headers.coffOffset,
      Headers.markSize, Headers.coffSize, Headers.checksumField]
    omega
  have hword : y.u32 Headers.peOffsetField = x.u32 Headers.peOffsetField :=
    Bytes.u32_congr fun k _ hk => hfront k (hk.trans_le (le_trans (by decide) hstart))
  rw [hj.checksum_offset, hi.checksum_offset, Headers.checksumOffset, Headers.checksumOffset,
    Headers.optionalOffset, Headers.optionalOffset, Headers.coffOffset, Headers.coffOffset,
    ← hj.headers.peOffset, ← hi.headers.peOffset, hword]

/-- What is read after the checksum was filled in differs in nothing but the checksum. -/
theorem Reads.raw_withChecksum (hi : Reads x i) (hj : Reads i.withChecksum j) :
    j.checksum.offset = i.checksum.offset ∧ j.raw = i.withChecksum := by
  have hin : i.checksum.offset + checksumSize ≤ x.length := by
    rw [hi.checksum_offset]
    exact hi.checksum_le
  refine ⟨hi.checksum_offset_eq hj fun k hk => ?_,
    hi.raw_of_overwrite (Bytes.length_ofNatLE _ _) hj⟩
  rw [withChecksum, Bytes.getElem?_overwrite_of_disjoint]
  · exact hi.getElem?_raw (hk.trans_le ((Nat.le_add_right _ _).trans hin))
  · rw [Bytes.length_ofNatLE]
    exact hi.checksum_le_raw
  · exact Or.inl hk

theorem Reads.statedChecksum_withChecksum (hi : Reads x i) (hj : Reads i.withChecksum j) :
    j.computedChecksum = i.computedChecksum ∧ j.withChecksum = i.withChecksum ∧
      j.statedChecksum = UInt32.ofNat j.computedChecksum := by
  obtain ⟨hplace, hraw⟩ := hi.raw_withChecksum hj
  obtain ⟨hsame, hagain⟩ :=
    hi.computedChecksum_of_overwrite hplace (Bytes.length_ofNatLE _ _) hraw
  refine ⟨hsame, hagain, ?_⟩
  rw [statedChecksum, hplace, hraw, hsame]
  exact Bytes.u32_overwrite hi.checksum_le_raw _

/-! ## The checksum as a sum -/

/-- What `computedChecksum` computes, if every sum on the way is a 32-bit word. -/
def computedChecksum? (i : EfiImage) : Option Nat := do
  let front ← foldedSum? 0 (i.raw.take i.checksum.offset)
  add? i.raw.length (← foldedSum? front (i.raw.drop (i.checksum.offset + checksumSize)))

/-- The padded image with zeros for its checksum. -/
def withoutChecksum (i : EfiImage) : Bytes :=
  i.raw.overwrite i.checksum.offset (Bytes.zeros checksumSize)

/-- The words around the checksum are those of the image without it. -/
theorem Reads.wordSum_withoutChecksum (hi : Reads x i) (heven : 2 ∣ i.checksum.offset) :
    wordSum i.withoutChecksum = wordSum (i.raw.take i.checksum.offset) +
      wordSum (i.raw.drop (i.checksum.offset + checksumSize)) := by
  have hfront : (i.raw.take i.checksum.offset).length = i.checksum.offset :=
    List.length_take_of_le ((Nat.le_add_right _ _).trans hi.checksum_le_raw)
  have hzeros : wordSum (Bytes.zeros checksumSize) = 0 := by decide
  rw [withoutChecksum, Bytes.overwrite, Bytes.length_zeros, List.append_assoc,
    wordSum_append (by rwa [hfront]), wordSum_append (by rw [Bytes.length_zeros]; decide), hzeros,
    Nat.zero_add]

theorem Reads.computedChecksum_eq (hi : Reads x i) (heven : 2 ∣ i.checksum.offset) :
    i.computedChecksum = i.raw.length + folded (wordSum i.withoutChecksum) := by
  rw [computedChecksum, foldedSum_eq (Nat.zero_le _), foldedSum_eq (folded_le _), folded_folded_add,
    Nat.zero_add, ← hi.wordSum_withoutChecksum heven]

theorem computedChecksum?_eq (hmax : i.computedChecksum ≤ maxWord) :
    i.computedChecksum? = some i.computedChecksum := by
  rw [computedChecksum?, foldedSum?_eq (Nat.zero_le _)]
  change (foldedSum? _ _ >>= fun behind => add? i.raw.length behind) = _
  rw [foldedSum?_eq (foldedSum_le (Nat.zero_le _))]
  exact add?_eq hmax

/-- The checksum is the length plus the folded sum of the words around it; filling it in makes the
image state it, and does so only once. -/
theorem computedChecksum_of_decode (hx : decode x = .ok i) (heven : 2 ∣ i.checksum.offset)
    (hmax : i.raw.length < 2 ^ 32 - 65536) :
    i.computedChecksum = i.raw.length + folded (wordSum i.withoutChecksum) ∧
      i.computedChecksum? = some i.computedChecksum ∧
      (∀ j, decode i.withChecksum = .ok j → j.statedChecksum.toNat = j.computedChecksum ∧
        j.computedChecksum = i.computedChecksum ∧ j.withChecksum = i.withChecksum) ∧
      ∀ stated : Bytes, stated.length = checksumSize →
        ∀ j, decode (x.overwrite i.checksum.offset stated) = .ok j →
          j.computedChecksum = i.computedChecksum ∧ j.withChecksum = i.withChecksum := by
  have hi := decode_eq_ok_iff.1 hx
  have hsum := hi.computedChecksum_eq heven
  have hword : i.computedChecksum ≤ maxWord := by
    have hle := folded_le (wordSum i.withoutChecksum)
    unfold maxWord
    omega
  refine ⟨hsum, computedChecksum?_eq hword, fun j hj => ?_, fun stated hstated j hj => ?_⟩
  · obtain ⟨hsame, hagain, hstated⟩ := hi.statedChecksum_withChecksum (decode_eq_ok_iff.1 hj)
    refine ⟨?_, hsame, hagain⟩
    rw [hstated, hsame]
    exact Bytes.toNat_ofNat_of_le_maxWord hword
  · have hj := decode_eq_ok_iff.1 hj
    have hfits : i.checksum.offset + stated.length ≤ x.length := by
      rw [hstated, hi.checksum_offset]
      exact hi.checksum_le
    have hplace : j.checksum.offset = i.checksum.offset := hi.checksum_offset_eq hj fun k hk =>
      Bytes.getElem?_overwrite_of_disjoint hfits (Or.inl hk)
    refine hi.computedChecksum_of_overwrite hplace hstated ?_
    rw [hj.raw, Bytes.length_overwrite hfits, Bytes.padTo_overwrite hfits, ← hi.raw]

/-- An image with its checksum at an even place, and the same image with another checksum. -/
theorem computedChecksum_of_decode_clearImage :
    ∃ i j k, decode clearImage = .ok i ∧ decode i.withChecksum = .ok j ∧
      decode (clearImage.overwrite i.checksum.offset [1, 2, 3, 4]) = .ok k ∧
      2 ∣ i.checksum.offset ∧ i.raw.length < 2 ^ 32 - 65536 ∧
      i.computedChecksum = i.raw.length + folded (wordSum i.withoutChecksum) ∧
      j.statedChecksum.toNat = i.computedChecksum ∧ k.withChecksum = i.withChecksum := by
  obtain ⟨i, hi, hplace⟩ := exists_eq_ok_of_any (e := decode clearImage)
    (p := fun i => decide (2 ∣ i.checksum.offset ∧ i.raw.length < 2 ^ 32 - 65536) &&
      (decode i.withChecksum).toOption.isSome &&
      (decode (clearImage.overwrite i.checksum.offset [1, 2, 3, 4])).toOption.isSome)
    (by decide +kernel)
  simp only [Bool.and_eq_true, decide_eq_true_eq] at hplace
  obtain ⟨⟨⟨heven, hmax⟩, hj⟩, hk⟩ := hplace
  obtain ⟨j, hj, -⟩ := exists_eq_ok_of_any (e := decode i.withChecksum) (p := fun _ => true)
    (by rwa [Option.any_true])
  obtain ⟨k, hk, -⟩ := exists_eq_ok_of_any
    (e := decode (clearImage.overwrite i.checksum.offset [1, 2, 3, 4])) (p := fun _ => true)
    (by rwa [Option.any_true])
  obtain ⟨hsum, -, hwritten, hstated⟩ := computedChecksum_of_decode hi heven hmax
  obtain ⟨hj', hsame, -⟩ := hwritten j hj
  exact ⟨i, j, k, hi, hj, hk, heven, hmax, hsum, hj'.trans hsame, (hstated _ rfl k hk).2⟩

end EfiImage

end SecureBoot
