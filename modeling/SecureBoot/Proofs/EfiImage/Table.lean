import Mathlib
import SecureBoot.EfiImage
import SecureBoot.Proofs.Authenticode
import SecureBoot.Proofs.WinCertificate

/-!
# Reading the certificate table

`Entries` tells how a table is read entry by entry, and where reading stops. It does not depend on
the number of entries that `readEntries` has room for (`readEntries_eq_ok_iff`).

**Appending.** Where the entries of a table fill it to its end, further entries put behind them are
read after them (`Entries.append`). Entries that were written are read back, filled up with zeros
(`entries_encode`).
-/

namespace SecureBoot

/-- Whether the reader of certificate tables takes a signature. -/
structure WinCertificate.IsAccepted (w : WinCertificate) : Prop where
  revision : w.revision ∈ revisions
  kind : w.kind ∈ kinds
  signature : ∃ a, w.authenticode = .ok a ∧ EfiImage.checkSignature a = .ok ()

/-- Zeros behind a certificate do not change what the signature says. -/
theorem WinCertificate.authenticode_padded {w : WinCertificate} {a : Authenticode}
    (h : w.authenticode = .ok a) : w.padded.authenticode = .ok a :=
  Authenticode.decode_append h _

theorem WinCertificate.IsAccepted.padded {w : WinCertificate} (hw : w.IsAccepted) :
    w.padded.IsAccepted where
  revision := hw.revision
  kind := hw.kind
  signature := by
    obtain ⟨a, ha, hcheck⟩ := hw.signature
    exact ⟨a, authenticode_padded ha, hcheck⟩

namespace EfiImage

theorem readEntry_eq_ok_iff {x : Bytes} {start stop next : Nat} {w : WinCertificate} :
    readEntry x start stop = .ok (w, next) ↔
      next = start + (x.u32 start).toNat ∧ WinCertificate.headerSize ≤ (x.u32 start).toNat ∧
        next ≤ stop ∧ WinCertificate.decode (x.slice start next) = .ok w ∧
        ∃ a, w.authenticode = .ok a ∧ checkSignature a = .ok () := by
  rw [readEntry]
  dsimp only
  rw [check_bind_eq_ok, check_bind_eq_ok, Nat.not_lt, Nat.not_lt]
  constructor
  · intro h
    obtain ⟨hmin, hstop, h⟩ := h
    obtain ⟨entry, hentry, h⟩ := bind_eq_ok.1 h
    obtain ⟨a, ha, h⟩ := bind_eq_ok.1 h
    obtain ⟨_, hcheck, h⟩ := bind_eq_ok.1 h
    cases h
    exact ⟨rfl, hmin, hstop, hentry, a, ha, hcheck⟩
  · intro h
    obtain ⟨rfl, hmin, hstop, hentry, a, ha, hcheck⟩ := h
    refine ⟨hmin, hstop, bind_eq_ok.2 ⟨w, hentry, ?_⟩⟩
    refine bind_eq_ok.2 ⟨a, ha, ?_⟩
    exact bind_eq_ok.2 ⟨(), hcheck, rfl⟩

/-- Reading a table that ends at `stop` gives these entries, and stops at a place. -/
inductive Entries (x : Bytes) (stop : Nat) : Nat → List WinCertificate → Nat → Prop
  | done {start : Nat} (h : stop < start + WinCertificate.headerSize) :
      Entries x stop start [] start
  | entry {start next final : Nat} {w : WinCertificate} {rest : List WinCertificate}
      (hstart : start + WinCertificate.headerSize ≤ stop)
      (hentry : readEntry x start stop = .ok (w, next))
      (hrest : Entries x stop (WinCertificate.align next) rest final) :
      Entries x stop start (w :: rest) final

variable {x y : Bytes} {start stop final : Nat} {ws : List WinCertificate}

theorem readEntries_eq_ok_iff {room : Nat}
    (hroom : (stop - start) / WinCertificate.headerSize ≤ room) :
    readEntries x stop room start = .ok ws ↔ ∃ final, Entries x stop start ws final := by
  have hheader : WinCertificate.headerSize = 8 := rfl
  induction room generalizing start ws with
  | zero =>
    have hdone : stop < start + WinCertificate.headerSize := by
      rw [hheader] at hroom ⊢
      omega
    rw [readEntries, pure_eq_ok]
    constructor
    · rintro rfl
      exact ⟨start, Entries.done hdone⟩
    · intro h
      obtain ⟨final, h⟩ := h
      cases h with
      | done _ => rfl
      | entry hstart _ _ => omega
  | succ room ih =>
    rw [readEntries]
    split
    · rename_i hdone
      rw [pure_eq_ok]
      constructor
      · rintro rfl
        exact ⟨start, Entries.done hdone⟩
      · intro h
        obtain ⟨final, h⟩ := h
        cases h with
        | done _ => rfl
        | entry hstart _ _ => omega
    · rename_i hmore
      constructor
      · intro h
        obtain ⟨⟨w, next⟩, hentry, h⟩ := bind_eq_ok.1 h
        obtain ⟨rest, hrest, h⟩ := bind_eq_ok.1 h
        cases h
        obtain ⟨hnext, hmin, -⟩ := readEntry_eq_ok_iff.1 hentry
        have hle := WinCertificate.le_align next
        have hroom' : (stop - WinCertificate.align next) / WinCertificate.headerSize ≤ room := by
          rw [hheader] at *
          omega
        obtain ⟨final, hfinal⟩ := (ih hroom').1 hrest
        exact ⟨final, Entries.entry (by omega) hentry hfinal⟩
      · intro h
        obtain ⟨final, h⟩ := h
        cases h with
        | done hdone => omega
        | @entry _ next _ w rest _ hentry hrest =>
          obtain ⟨hnext, hmin, -⟩ := readEntry_eq_ok_iff.1 hentry
          have hle := WinCertificate.le_align next
          have hroom' : (stop - WinCertificate.align next) / WinCertificate.headerSize ≤ room := by
            rw [hheader] at *
            omega
          refine bind_eq_ok.2 ⟨(w, next), hentry, ?_⟩
          exact bind_eq_ok.2 ⟨rest, (ih hroom').2 ⟨final, hrest⟩, rfl⟩

/-! ## Where reading stops -/

theorem Entries.lt_final_add (h : Entries x stop start ws final) :
    stop < final + WinCertificate.headerSize := by
  induction h with
  | done h => exact h
  | entry _ _ _ ih => exact ih

theorem Entries.dvd_final (h : Entries x stop start ws final) (hstart : 8 ∣ start) : 8 ∣ final := by
  induction h with
  | done _ => exact hstart
  | entry _ _ _ ih => exact ih (WinCertificate.dvd_align _)

theorem Entries.final_le (h : Entries x stop start ws final) (hstart : start ≤ stop) :
    final ≤ WinCertificate.align stop := by
  have hmono : ∀ m n, m ≤ n → WinCertificate.align m ≤ WinCertificate.align n := fun m n hmn =>
    alignUp_le_alignUp hmn _
  -- the bound on the start that the recursion keeps is that of the aligned end
  have hbound := hstart.trans (WinCertificate.le_align stop)
  clear hstart
  induction h with
  | done _ => exact hbound
  | entry _ hentry _ ih => exact ih (hmono _ _ (readEntry_eq_ok_iff.1 hentry).2.2.1)

/-- In a table whose ends are aligned the entries fill it to its end. -/
theorem Entries.final_eq (h : Entries x stop start ws final) (hle : start ≤ stop)
    (hstart : 8 ∣ start) (hstop : 8 ∣ stop) : final = stop := by
  have hlt := h.lt_final_add
  have hfinal := h.dvd_final hstart
  have hmax := h.final_le hle
  have hheader : WinCertificate.headerSize = 8 := rfl
  rw [WinCertificate.align_of_dvd hstop] at hmax
  omega

/-! ## Other files -/

theorem readEntry_congr {next stop' : Nat} {w : WinCertificate}
    (h : readEntry x start stop = .ok (w, next)) (hstop : stop ≤ stop')
    (hxy : ∀ i, start ≤ i → i < stop → y[i]? = x[i]?) :
    readEntry y start stop' = .ok (w, next) := by
  obtain ⟨hnext, hmin, hle, hdecode, hcheck⟩ := readEntry_eq_ok_iff.1 h
  have hheader : WinCertificate.headerSize = 8 := rfl
  have hword : y.u32 start = x.u32 start := Bytes.u32_congr fun i hi hi' => hxy i hi (by omega)
  have hslice : y.slice start next = x.slice start next :=
    Bytes.slice_congr fun i hi hi' => hxy i hi (by omega)
  rw [readEntry_eq_ok_iff, hword, hslice]
  exact ⟨hnext, hmin, by omega, hdecode, hcheck⟩

/-- Entries behind a table that is filled to its end are read after those of the table. -/
theorem Entries.append {stop' final' : Nat} {more : List WinCertificate}
    (h : Entries x stop start ws final) (hstop : stop ≤ stop')
    (hxy : ∀ i, start ≤ i → i < stop → y[i]? = x[i]?)
    (hmore : Entries y stop' final more final') :
    Entries y stop' start (ws ++ more) final' := by
  induction h with
  | done _ => exact hmore
  | @entry start next final w rest hstart hentry _ ih =>
    obtain ⟨hnext, hmin, -⟩ := readEntry_eq_ok_iff.1 hentry
    have hle := WinCertificate.le_align next
    refine Entries.entry (hstart.trans hstop) (readEntry_congr hentry hstop hxy) (ih ?_ hmore)
    exact fun i hi => hxy i (by omega)

theorem Entries.congr (h : Entries x stop start ws final)
    (hxy : ∀ i, start ≤ i → i < stop → y[i]? = x[i]?) : Entries y stop start ws final := by
  have hdone := Entries.append h le_rfl hxy (Entries.done h.lt_final_add)
  rwa [List.append_nil] at hdone

/-- Where a table has become longer, the entries that it had are read first. -/
theorem Entries.split {stop' final' : Nat} {ws' : List WinCertificate}
    (h : Entries x stop start ws final) (hstop : stop ≤ stop')
    (hxy : ∀ i, start ≤ i → i < stop → y[i]? = x[i]?) (h' : Entries y stop' start ws' final') :
    ∃ more, ws' = ws ++ more ∧ Entries y stop' final more final' := by
  induction h generalizing ws' with
  | done _ => exact ⟨ws', rfl, h'⟩
  | @entry start next final w rest hstart hentry _ ih =>
    have hcongr := readEntry_congr hentry hstop hxy
    obtain ⟨hnext, -⟩ := readEntry_eq_ok_iff.1 hentry
    have hle := WinCertificate.le_align next
    cases h' with
    | done hdone => omega
    | entry _ hentry' hrest' =>
      rw [hcongr] at hentry'
      cases hentry'
      obtain ⟨more, hws', hmore⟩ := ih (fun i hi => hxy i (by omega)) hrest'
      exact ⟨more, by rw [hws', List.cons_append], hmore⟩

/-! ## Written entries -/

/-- Where entries were written the first of them stands in front, and the others stand behind. -/
theorem slices_of_encode {w : WinCertificate} {rest : List WinCertificate}
    (hx : x.slice start stop = (w :: rest).flatMap WinCertificate.encode)
    (hlength : stop = start + ((w :: rest).flatMap WinCertificate.encode).length)
    (hstop : stop ≤ maxWord) :
    (x.u32 start).toNat = w.size ∧ x.slice start (start + w.size) = w.encode ∧
      x.slice (start + w.size) stop = rest.flatMap WinCertificate.encode ∧
      stop = start + w.size + (rest.flatMap WinCertificate.encode).length := by
  rw [List.flatMap_cons] at hx hlength
  rw [List.length_append, w.length_encode] at hlength
  have hsize := w.headerSize_add_le_size
  have hheader : WinCertificate.headerSize = 8 := rfl
  have hin : stop ≤ x.length := by
    apply Bytes.le_length_of_slice hx
    · rw [List.length_append, w.length_encode]
      omega
    · omega
  have hjoin := Bytes.slice_append_slice (x := x) (show start ≤ start + w.size by omega)
    (show start + w.size ≤ stop by omega)
  rw [hx] at hjoin
  obtain ⟨hfirst, hrest⟩ := List.append_inj hjoin (by
    rw [Bytes.length_slice (by omega), w.length_encode]
    omega)
  refine ⟨?_, hfirst, hrest, by omega⟩
  rw [← WinCertificate.u32_encode (w := w) (by omega), ← hfirst, Bytes.u32, Bytes.u32,
    Bytes.slice_slice (by omega), Nat.add_zero start]

/-- Entries that were written are read back, filled up with zeros. -/
theorem entries_encode (haccepted : ∀ w ∈ ws, w.padded.IsAccepted)
    (hx : x.slice start stop = ws.flatMap WinCertificate.encode)
    (hlength : stop = start + (ws.flatMap WinCertificate.encode).length) (hstart : 8 ∣ start)
    (hstop : stop ≤ maxWord) :
    Entries x stop start (ws.map WinCertificate.padded) stop := by
  induction ws generalizing start with
  | nil =>
    rw [List.flatMap_nil, List.length_nil, Nat.add_zero] at hlength
    subst hlength
    exact Entries.done (Nat.lt_add_of_pos_right (by decide))
  | cons w rest ih =>
    rw [List.forall_mem_cons] at haccepted
    have hsize := (Nat.le_add_right _ _).trans w.headerSize_add_le_size
    obtain ⟨hword, hfirst, hrest, hlength⟩ := slices_of_encode hx hlength hstop
    obtain ⟨a, ha, hcheck⟩ := haccepted.1.signature
    have hentry : readEntry x start stop = .ok (w.padded, start + w.size) := by
      rw [readEntry_eq_ok_iff, hword, hfirst]
      exact ⟨rfl, hsize, by omega,
        WinCertificate.decode_encode haccepted.1.revision haccepted.1.kind, a, ha, hcheck⟩
    have hdvd : 8 ∣ start + w.size := Nat.dvd_add hstart w.dvd_size
    rw [List.map_cons]
    refine Entries.entry (by omega) hentry ?_
    rw [WinCertificate.align_of_dvd hdvd]
    exact ih haccepted.2 hrest hlength hdvd

/-- Whatever can be read where entries were written are these, filled up with zeros. -/
theorem Entries.eq_of_encode {read : List WinCertificate}
    (hknown : ∀ w ∈ ws, w.revision ∈ WinCertificate.revisions ∧ w.kind ∈ WinCertificate.kinds)
    (hx : x.slice start stop = ws.flatMap WinCertificate.encode)
    (hlength : stop = start + (ws.flatMap WinCertificate.encode).length) (hstart : 8 ∣ start)
    (hstop : stop ≤ maxWord) (h : Entries x stop start read final) :
    read = ws.map WinCertificate.padded ∧ final = stop := by
  have hheader : WinCertificate.headerSize = 8 := rfl
  induction ws generalizing start read with
  | nil =>
    rw [List.flatMap_nil, List.length_nil, Nat.add_zero] at hlength
    cases h with
    | done _ => exact ⟨rfl, hlength.symm⟩
    | entry hroom _ _ => omega
  | cons w rest ih =>
    rw [List.forall_mem_cons] at hknown
    have hsize := w.headerSize_add_le_size
    obtain ⟨hword, hfirst, hrest, hlength⟩ := slices_of_encode hx hlength hstop
    have hdvd : 8 ∣ start + w.size := Nat.dvd_add hstart w.dvd_size
    cases h with
    | done hdone => omega
    | entry _ hentry hbehind =>
      obtain ⟨hnext, -, -, hdecode, -⟩ := readEntry_eq_ok_iff.1 hentry
      rw [hword] at hnext
      subst hnext
      rw [hfirst, WinCertificate.decode_encode hknown.1.1 hknown.1.2] at hdecode
      cases hdecode
      rw [WinCertificate.align_of_dvd hdvd] at hbehind
      obtain ⟨hread, hfinal⟩ := ih hknown.2 hrest hlength hdvd hbehind
      exact ⟨by rw [hread, List.map_cons], hfinal⟩

end EfiImage

end SecureBoot
