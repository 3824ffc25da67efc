import Mathlib
import SecureBoot.VendorTable
import SecureBoot.Proofs.SignatureDatabase

/-!
# Vendor tables on disk

A vendor table is two databases behind a header that tells where they end. The databases state no
length of their own, so the header alone decides which list belongs to which of them.

**Headers** are those of parts that lie one behind the other (`VendorHeader.new_eq_ok_iff`). They
are read as they were written, in either byte order, and a header that was read is written as the
bytes it was read from.

**Written tables** (`decode_header_append`). Behind the header of two parts the reader finds just
these parts, whatever stands behind them.

**Read tables** (`of_decode`). What was accepted is a header with the two databases behind it as
they are written. A file of 4 GiB or more is left out here: its header may state parts that together
are longer than any table that can be written.
-/

namespace SecureBoot

/-! ## Words -/

namespace ByteOrder

variable {b : Bytes} {offset : Nat} (order : ByteOrder)

@[simp] theorem length_ofWord (w : UInt32) : (order.ofWord w).length = 4 := by
  cases order
  · exact Bytes.length_ofNatLE 4 _
  · exact Bytes.length_ofNatBE 4 _

/-- The bytes of a word in both orders. -/
theorem reverse_ofWord_big (w : UInt32) : (big.ofWord w).reverse = little.ofWord w := by
  exact List.reverse_reverse _

theorem word_append {x : Bytes} (hx : x.length = offset) (w : UInt32) (y : Bytes) :
    order.word (x ++ (order.ofWord w ++ y)) offset = w := by
  have h : (x ++ (order.ofWord w ++ y)).slice offset (offset + 4) = order.ofWord w := by
    have hmid := Bytes.slice_append_mid x (order.ofWord w) y
    rwa [hx, length_ofWord] at hmid
  have hle : w.toNat ≤ maxWord := Nat.le_of_lt_succ w.toNat_lt
  apply UInt32.toNat.inj
  cases order with
  | little => exact Bytes.u32_of_slice h hle
  | big =>
    have hfits : w.toNat % 256 ^ 4 = w.toNat := Nat.mod_eq_of_lt w.toNat_lt
    rw [word, h, reverse_ofWord_big, ofWord, Bytes.toNatLE_ofNatLE, hfits,
      Bytes.toNat_ofNat_of_le_maxWord hle]

theorem ofWord_word (h : offset + 4 ≤ b.length) :
    order.ofWord (order.word b offset) = b.slice offset (offset + 4) := by
  cases order with
  | little => exact Bytes.ofNatLE_u32 h
  | big =>
    have hlength : (b.slice offset (offset + 4)).reverse.length = 4 := by
      rw [List.length_reverse, Bytes.length_slice h, Nat.add_sub_cancel_left]
    have hlt := Bytes.toNatLE_lt (b.slice offset (offset + 4)).reverse
    have hdigits := Bytes.ofNatLE_toNatLE (b.slice offset (offset + 4)).reverse
    rw [hlength] at hlt hdigits
    rw [word, ofWord, Bytes.ofNatBE, UInt32.toNat_ofNat_of_lt' hlt, hdigits, List.reverse_reverse]

end ByteOrder

/-! ## Headers -/

namespace VendorHeader

variable {order : ByteOrder} {h : VendorHeader} {b : Bytes} {dbSize dbxSize : Nat}

@[simp] theorem length_encode (order : ByteOrder) (h : VendorHeader) :
    (h.encode order).length = size := by
  simp only [encode, List.length_append, ByteOrder.length_ofWord, size]

/-- A header that is written tells that the parts follow it one behind the other. -/
theorem new_eq_ok_iff : new dbSize dbxSize = .ok h ↔ size + dbSize + dbxSize ≤ maxWord ∧
    h.dbOffset.toNat = size ∧ h.dbSize.toNat = dbSize ∧ h.dbxOffset.toNat = size + dbSize ∧
      h.dbxSize.toNat = dbxSize := by
  unfold new
  rw [check_eq_ok, pure_eq_ok, not_lt, and_congr_right_iff]
  intro hle
  have hdb : dbSize ≤ maxWord := by omega
  have hdbx : dbxSize ≤ maxWord := by omega
  constructor
  · rintro rfl
    exact ⟨rfl, Bytes.toNat_ofNat_of_le_maxWord hdb,
      Bytes.toNat_ofNat_of_le_maxWord (le_of_add_le_left hle),
      Bytes.toNat_ofNat_of_le_maxWord hdbx⟩
  · rintro ⟨hoffset, rfl, hoffset', rfl⟩
    rw [← hoffset', ← hoffset]
    simp only [UInt32.ofNat_toNat]

theorem decode_encode_append (order : ByteOrder) (h : VendorHeader) (rest : Bytes) :
    decode order (h.encode order ++ rest) = .ok h := by
  have hlength : ¬ (h.encode order ++ rest).length < size := by
    rw [List.length_append, length_encode]
    exact Nat.not_lt.2 (Nat.le_add_right _ _)
  have hfields : h.encode order ++ rest = order.ofWord h.dbOffset ++ (order.ofWord h.dbSize ++
      (order.ofWord h.dbxOffset ++ (order.ofWord h.dbxSize ++ rest))) := by
    simp only [encode, List.append_assoc]
  have hdbOffset : order.word (h.encode order ++ rest) 0 = h.dbOffset := by
    rw [hfields]
    exact order.word_append (x := []) rfl _ _
  have hdbSize : order.word (h.encode order ++ rest) 4 = h.dbSize := by
    rw [hfields]
    exact order.word_append (order.length_ofWord _) _ _
  have hdbxOffset : order.word (h.encode order ++ rest) 8 = h.dbxOffset := by
    rw [hfields, ← List.append_assoc]
    exact order.word_append (by simp) _ _
  have hdbxSize : order.word (h.encode order ++ rest) 12 = h.dbxSize := by
    rw [hfields, ← List.append_assoc, ← List.append_assoc]
    exact order.word_append (by simp) _ _
  rw [decode, if_neg hlength, hdbOffset, hdbSize, hdbxOffset, hdbxSize]
  rfl

theorem of_decode (hdecode : decode order b = .ok h) :
    size ≤ b.length ∧ h.encode order = b.take size := by
  unfold decode at hdecode
  obtain ⟨hlength, hdecode⟩ := check_eq_ok.1 hdecode
  have hlength : 16 ≤ b.length := Nat.le_of_not_lt hlength
  rw [← pure_eq_ok.1 hdecode, encode, order.ofWord_word (by omega), order.ofWord_word (by omega),
    order.ofWord_word (by omega), order.ofWord_word (by omega)]
  refine ⟨hlength, ?_⟩
  rw [Bytes.slice_append_slice (by decide) (by decide),
    Bytes.slice_append_slice (by decide) (by decide),
    Bytes.slice_append_slice (by decide) (by decide), Bytes.slice_zero]
  rfl

end VendorHeader

/-! ## Readable lists -/

namespace SignatureList

/-- Lists that the reader knows: of certificates, or of digests that have 32 bytes. -/
def IsReadable (l : SignatureList) : Prop :=
  l.signatureType = Guid.x509 ∨
    l.signatureType = Guid.sha256 ∧ ∀ e ∈ l.entries, e.data.length = 32

instance (l : SignatureList) : Decidable l.IsReadable := inferInstanceAs (Decidable (_ ∨ _))

theorem IsUniform.isStored_iff {l : SignatureList} (h : l.IsUniform) (hsize : l.size ≤ maxWord) :
    l.IsStored ↔ l.IsReadable :=
  ⟨fun hl => (allows_signatureSize_iff h).1 hl.allowed,
    fun hl => ⟨h, hsize, (allows_signatureSize_iff h).2 hl⟩⟩

end SignatureList

namespace SignatureDatabase

variable {db : SignatureDatabase}

theorem size_le_length_encode (h : ∀ l ∈ db.lists, l.IsUniform) :
    ∀ l ∈ db.lists, l.size ≤ db.encode.length := by
  intro l hl
  rw [encode, List.length_flatMap, ← (h l hl).length_encode]
  exact List.single_le_sum (fun _ _ => Nat.zero_le _) _ (List.mem_map_of_mem hl)

theorem decode_encode_of_isUniform (h : ∀ l ∈ db.lists, l.IsUniform)
    (hsize : db.encode.length ≤ maxWord) :
    ((∀ l ∈ db.lists, l.IsReadable) → decode db.encode = .ok db) ∧
      (¬ (∀ l ∈ db.lists, l.IsReadable) → ∃ e, decode db.encode = .error e) := by
  have hfits : ∀ l ∈ db.lists, l.size ≤ maxWord :=
    fun l hl => (size_le_length_encode h l hl).trans hsize
  constructor
  · intro hreadable
    exact decode_eq_ok_iff.2
      ⟨fun l hl => ((h l hl).isStored_iff (hfits l hl)).2 (hreadable l hl), rfl⟩
  · intro hnot
    obtain ⟨l, hl, hrefused⟩ : ∃ l ∈ db.lists, ¬ l.IsReadable := by
      simpa only [not_forall, exists_prop] using hnot
    obtain ⟨e, he⟩ := exists_decodeLists_eq_error (fun l hl => ⟨h l hl, hfits l hl⟩)
      ⟨l, hl, fun hallows =>
        hrefused ((SignatureList.allows_signatureSize_iff (h l hl)).1 hallows)⟩ 0
    exact ⟨e, by rw [decode, encode, he]; rfl⟩

end SignatureDatabase

/-! ## Tables -/

namespace VendorTable

variable {order : ByteOrder} {t : VendorTable} {b s : Bytes}

/-- The lists of both parts. -/
def lists (t : VendorTable) : List SignatureList := t.db.lists ++ t.dbx.lists

theorem encode_eq_ok_iff : t.encode = .ok s ↔
    ∃ h, VendorHeader.new t.db.encode.length t.dbx.encode.length = .ok h ∧
      s = h.encode .little ++ (t.db.encode ++ t.dbx.encode) := by
  simp only [encode, bind_eq_ok, pure_eq_ok, List.append_assoc, eq_comm (b := s)]

/-- Behind a header the reader takes the two parts that it tells of, and ignores the rest. -/
theorem decode_header_append {h : VendorHeader} {db dbx : Bytes}
    (hnew : VendorHeader.new db.length dbx.length = .ok h) (order : ByteOrder) (padding : Bytes) :
    decode order (h.encode order ++ (db ++ dbx) ++ padding) =
      (SignatureDatabase.decode db >>= fun db => SignatureDatabase.decode dbx >>= fun dbx =>
        .ok { db, dbx }) := by
  obtain ⟨-, hdbOffset, hdbSize, hdbxOffset, hdbxSize⟩ := VendorHeader.new_eq_ok_iff.1 hnew
  have hheader := h.length_encode order
  have hdbStop : h.dbStop = (h.encode order).length + db.length := by
    rw [VendorHeader.dbStop, hdbOffset, hdbSize, hheader]
  have hdbxStop : h.dbxStop = (h.encode order ++ db).length + dbx.length := by
    rw [VendorHeader.dbxStop, hdbxOffset, hdbxSize, List.length_append, hheader]
  have hdb : (h.encode order ++ (db ++ dbx) ++ padding).slice h.dbOffset.toNat h.dbStop = db := by
    rw [hdbStop, hdbOffset, ← hheader, List.append_assoc, List.append_assoc,
      Bytes.slice_append_mid]
  have hdbx : (h.encode order ++ (db ++ dbx) ++ padding).slice h.dbxOffset.toNat h.dbxStop =
      dbx := by
    rw [hdbxStop, hdbxOffset, ← hheader, ← List.length_append, ← List.append_assoc,
      List.append_assoc, Bytes.slice_append_mid]
  have hlength : ¬ (h.encode order ++ (db ++ dbx) ++ padding).length < h.dbxStop := by
    rw [hdbxStop, ← List.append_assoc, List.length_append, List.length_append]
    exact Nat.not_lt.2 (Nat.le_add_right _ _)
  have hdecode := VendorHeader.decode_encode_append order h (db ++ dbx ++ padding)
  rw [← List.append_assoc] at hdecode
  unfold decode
  rw [hdecode]
  show (if h.dbOffset.toNat ≠ VendorHeader.size then _ else _) = _
  rw [if_neg (not_not_intro hdbOffset), if_neg (by rw [hdbxOffset, hdbStop, hheader]; simp),
    if_neg hlength, hdb, hdbx]
  rfl

/-- What was read is the header of two databases and these behind it, as they are written. -/
theorem of_decode (hb : b.length ≤ maxWord) (hdecode : decode order b = .ok t) :
    ∃ h, VendorHeader.decode order b = .ok h ∧
      VendorHeader.new t.db.encode.length t.dbx.encode.length = .ok h ∧
      h.encode order ++ (t.db.encode ++ t.dbx.encode) = b.take h.dbxStop ∧
        h.dbxStop ≤ b.length := by
  unfold decode at hdecode
  obtain ⟨h, hh, hdecode⟩ := bind_eq_ok.1 hdecode
  obtain ⟨hdbOffset, hdecode⟩ := check_bind_eq_ok.1 hdecode
  obtain ⟨hdbxOffset, hdecode⟩ := check_bind_eq_ok.1 hdecode
  obtain ⟨hlength, hdecode⟩ := check_bind_eq_ok.1 hdecode
  obtain ⟨db, hdb, hdecode⟩ := bind_eq_ok.1 hdecode
  obtain ⟨dbx, hdbx, hdecode⟩ := bind_eq_ok.1 hdecode
  rw [← pure_eq_ok.1 hdecode]
  have hdbOffset := Decidable.not_not.1 hdbOffset
  have hdbxOffset := Decidable.not_not.1 hdbxOffset
  have hlength := Nat.le_of_not_lt hlength
  obtain ⟨hsize, hfront⟩ := VendorHeader.of_decode hh
  have hdb := (SignatureDatabase.decode_eq_ok_iff.1 hdb).2
  have hdbx := (SignatureDatabase.decode_eq_ok_iff.1 hdbx).2
  have hdbLe : h.dbOffset.toNat ≤ h.dbStop := Nat.le_add_right _ _
  have hdbxLe : h.dbStop ≤ h.dbxStop := hdbxOffset ▸ Nat.le_add_right _ _
  refine ⟨h, hh, ?_, ?_, hlength⟩
  · have hdbLength : db.encode.length = h.dbSize.toNat := by
      rw [← hdb, Bytes.length_slice (hdbxLe.trans hlength), VendorHeader.dbStop,
        Nat.add_sub_cancel_left]
    have hdbxLength : dbx.encode.length = h.dbxSize.toNat := by
      rw [← hdbx, Bytes.length_slice hlength, VendorHeader.dbxStop, Nat.add_sub_cancel_left]
    have hstop : VendorHeader.size + h.dbSize.toNat + h.dbxSize.toNat = h.dbxStop := by
      rw [VendorHeader.dbxStop, hdbxOffset, VendorHeader.dbStop, hdbOffset]
    rw [VendorHeader.new_eq_ok_iff, hdbLength, hdbxLength, hstop]
    exact ⟨hlength.trans hb, hdbOffset, rfl, by rw [hdbxOffset, VendorHeader.dbStop, hdbOffset],
      rfl⟩
  · rw [hfront, ← hdb, ← hdbx, hdbxOffset, Bytes.slice_append_slice hdbLe hdbxLe, hdbOffset,
      ← Bytes.slice_zero, Bytes.slice_append_slice (Nat.zero_le _) (hdbOffset ▸ hdbLe.trans hdbxLe),
      Bytes.slice_zero]

theorem decode_append_of_encode (h : ∀ l ∈ t.lists, l.IsUniform) (hs : t.encode = .ok s)
    (padding : Bytes) :
    ((∀ l ∈ t.lists, l.IsReadable) → decode .little (s ++ padding) = .ok t) ∧
      (¬ (∀ l ∈ t.lists, l.IsReadable) → ∃ e, decode .little (s ++ padding) = .error e) := by
  obtain ⟨header, hnew, rfl⟩ := encode_eq_ok_iff.1 hs
  have hle := (VendorHeader.new_eq_ok_iff.1 hnew).1
  obtain ⟨hdb, hdbx⟩ := List.forall_mem_append.1 h
  obtain ⟨hdbOk, hdbError⟩ := SignatureDatabase.decode_encode_of_isUniform hdb (by omega)
  obtain ⟨hdbxOk, hdbxError⟩ := SignatureDatabase.decode_encode_of_isUniform hdbx (by omega)
  rw [decode_header_append hnew, lists, List.forall_mem_append]
  constructor
  · rintro ⟨hreadable, hreadable'⟩
    rw [hdbOk hreadable, hdbxOk hreadable']
    rfl
  · intro hnot
    by_cases hreadable : ∀ l ∈ t.db.lists, l.IsReadable
    · obtain ⟨e, he⟩ := hdbxError fun hreadable' => hnot ⟨hreadable, hreadable'⟩
      exact ⟨e, by rw [hdbOk hreadable, he]; rfl⟩
    · obtain ⟨e, he⟩ := hdbError hreadable
      exact ⟨e, by rw [he]; rfl⟩

/-- A table whose lists can be built is read back, behind any padding, exactly when the reader knows
all its lists; otherwise reading fails. A table that was read from less than 4 GiB, in either byte
order, is written as the bytes it was read from, with the header in the order of loaders. -/
theorem roundTrip :
    (∀ t s, (∀ l ∈ lists t, l.IsReachable) → t.encode = .ok s → ∀ padding,
      (decode .little (s ++ padding) = .ok t ↔ ∀ l ∈ t.lists, l.IsReadable) ∧
        (decode .little (s ++ padding) ≠ .ok t → ∃ e, decode .little (s ++ padding) = .error e)) ∧
    ∀ order b t, b.length ≤ maxWord → decode order b = .ok t →
      ∃ h body, VendorHeader.decode order b = .ok h ∧
        VendorHeader.size + h.dbSize.toNat + h.dbxSize.toNat ≤ b.length ∧
        b.take (VendorHeader.size + h.dbSize.toNat + h.dbxSize.toNat) = h.encode order ++ body ∧
        t.encode = .ok (h.encode .little ++ body) := by
  constructor
  · intro t s hreachable hs padding
    obtain ⟨hok, herror⟩ :=
      decode_append_of_encode (fun l hl => (hreachable l hl).isUniform) hs padding
    have hrefused : decode .little (s ++ padding) ≠ .ok t →
        ∃ e, decode .little (s ++ padding) = .error e :=
      fun hne => herror fun hreadable => hne (hok hreadable)
    refine ⟨⟨fun hdecode => ?_, hok⟩, hrefused⟩
    by_contra hnot
    obtain ⟨e, he⟩ := herror hnot
    rw [hdecode] at he
    cases he
  · intro order b t hb hdecode
    obtain ⟨h, hh, hnew, hfront, hlength⟩ := of_decode hb hdecode
    obtain ⟨-, -, hdbSize, hdbxOffset, -⟩ := VendorHeader.new_eq_ok_iff.1 hnew
    have hstop : VendorHeader.size + h.dbSize.toNat + h.dbxSize.toNat = h.dbxStop := by
      rw [VendorHeader.dbxStop, hdbxOffset, hdbSize]
    rw [← hstop] at hfront hlength
    exact ⟨h, _, hh, hlength, hfront.symm, encode_eq_ok_iff.2 ⟨h, hnew, rfl⟩⟩

/-- The small database, with a certificate that is revoked. -/
def smallTable : VendorTable where
  db := .smallDatabase
  dbx := ⟨[.ofCertificate ⟨Guid.sha256, [4]⟩]⟩

theorem isReachable_smallTable : ∀ l ∈ smallTable.lists, l.IsReachable :=
  List.forall_mem_append.2 ⟨SignatureDatabase.isReachable_smallDatabase,
    List.forall_mem_singleton.2 (.ofCertificate _)⟩

/-- A table that revokes a digest that was cut short. -/
def shortTable : VendorTable where
  dbx := .shortDigest

/-- The small table as a big-endian machine may have written it, with padding. -/
def bigTable : Bytes :=
  VendorHeader.encode .big ⟨16, 152, 168, 45⟩ ++
    (smallTable.db.encode ++ smallTable.dbx.encode) ++ [0, 0, 0]

theorem decode_bigTable : decode .big bigTable = .ok smallTable := by
  have hnew : VendorHeader.new smallTable.db.encode.length smallTable.dbx.encode.length =
      .ok ⟨16, 152, 168, 45⟩ := by decide +kernel
  have hs := encode_eq_ok_iff.2 ⟨_, hnew, rfl⟩
  have hread := (decode_append_of_encode (fun l hl => (isReachable_smallTable l hl).isUniform) hs
    []).1 (by decide)
  rw [decode_header_append hnew] at hread
  rw [bigTable, decode_header_append hnew, hread]

/-- The small table is read back in front of a zero byte, that of the short digest is refused, and
the big-endian one is written back with another header. -/
theorem roundTrip_smallTable :
    (∃ s, smallTable.encode = .ok s ∧ decode .little (s ++ [0]) = .ok smallTable) ∧
    (∃ s, shortTable.encode = .ok s ∧ ∃ e, decode .little (s ++ [0]) = .error e) ∧
    ∃ h body, VendorHeader.decode .big bigTable = .ok h ∧
      bigTable.take 213 = h.encode .big ++ body ∧
      smallTable.encode = .ok (h.encode .little ++ body) := by
  refine ⟨?_, ?_, ?_⟩
  · obtain ⟨s, hs, -⟩ := exists_eq_ok_of_any (e := smallTable.encode) (p := fun _ => true)
      (by decide +kernel)
    have hread := roundTrip.1 smallTable s isReachable_smallTable hs [0]
    exact ⟨s, hs, hread.1.2 (by decide)⟩
  · obtain ⟨s, hs, -⟩ := exists_eq_ok_of_any (e := shortTable.encode) (p := fun _ => true)
      (by decide +kernel)
    have hread := roundTrip.1 shortTable s
      (List.forall_mem_singleton.2 (.push _ (.new Guid.sha256))) hs [0]
    exact ⟨s, hs, hread.2 fun hok => absurd (hread.1.1 hok) (by decide)⟩
  · obtain ⟨h, body, hh, -, hfront, hs⟩ :=
      roundTrip.2 .big bigTable smallTable (by decide +kernel) decode_bigTable
    have hsizes : VendorHeader.decode .big bigTable = .ok ⟨16, 152, 168, 45⟩ := by decide +kernel
    obtain rfl : h = ⟨16, 152, 168, 45⟩ := Except.ok.inj (hh.symm.trans hsizes)
    exact ⟨_, body, hh, hfront, hs⟩

end VendorTable

end SecureBoot
