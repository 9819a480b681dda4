import LibretroUae.Disk.PcdosRoundTrip
import LibretroUae.Lib.Crc

/-!
# LibretroUae.Disk.Crc

**The checksums of disks.** `make_crc_table` and the functions that look bytes up in its tables
compute what the bit-serial registers of `Lib.Crc` do, the one for `get_crc32` being turned round.

A sector of a PC track is only taken when its checksum is right, and so never when it has been
damaged in up to 16 bits in a row, wherever on the track it was found.
-/

namespace LibretroUae.Disk

open LibretroUae.Lib
open LibretroUae.Lib.Crc (feedBits messageBits byteBits shiftUp shiftsUp shiftDown Burst)

/-- A round of `make_crc_table` for `crc_table16`. -/
def crcRound16 (w : Word) : Word := (w <<< 1) ^^^ (if w &&& 0x8000 ≠ 0 then 0x1021 else 0)

def crcTable16 : List Word :=
  (List.range 256).map fun n => crcRound16^[8] (BitVec.ofNat 16 n <<< 8)

/-- `get_crc16`. -/
def getCrc16 (buf : List Byte) : Word :=
  buf.foldl
    (fun crc byte =>
      (crc <<< 8) ^^^ crcTable16.getD (((crc >>> 8) ^^^ byte.setWidth 16) &&& 0xff).toNat 0)
    0xffff

/-- A round of `make_crc_table` for `crc_table32`. -/
def crcRound32 (c : BitVec 32) : BitVec 32 := (c >>> 1) ^^^ (if c &&& 1 ≠ 0 then 0xedb88320 else 0)

def crcTable32 : List (BitVec 32) :=
  (List.range 256).map fun n => crcRound32^[8] (BitVec.ofNat 32 n)

/-- A byte in `get_crc32` and `get_crc32_val`. -/
def crcByte32 (crc : BitVec 32) (byte : Byte) : BitVec 32 :=
  crcTable32.getD ((crc ^^^ byte.setWidth 32) &&& 0xff).toNat 0 ^^^ (crc >>> 8)

/-- `get_crc32`. -/
def getCrc32 (buf : List Byte) : BitVec 32 := buf.foldl crcByte32 0xffffffff ^^^ 0xffffffff

/-- `get_crc32_val`. -/
def getCrc32Val (v : Byte) (crc : BitVec 32) : BitVec 32 :=
  crcByte32 (crc ^^^ 0xffffffff) v ^^^ 0xffffffff

/-! ### The tables -/

theorem crcRound16_eq : crcRound16 = shiftUp 0x1021 := by
  funext w
  have hmask : (0x8000 : Word) = BitVec.twoPow 16 15 := rfl
  have hbit : w &&& 0x8000 ≠ 0 ↔ w.msb = true := by
    rw [hmask, and_twoPow_ne_zero w (by decide), BitVec.msb_eq_getLsbD_last]
  by_cases h : w &&& 0x8000 ≠ 0
  · rw [crcRound16, shiftUp, if_pos h, if_pos (hbit.mp h)]
  · rw [crcRound16, shiftUp, if_neg h, if_neg (mt hbit.mpr h)]

theorem crcRound32_eq : crcRound32 = shiftDown 0xedb88320 := by
  funext c
  have hbit : c &&& 1 ≠ 0 ↔ c.getLsbD 0 = true := by
    rw [← and_one_ne_zero c (by decide), decide_eq_true_iff]
  by_cases h : c &&& 1 ≠ 0
  · rw [crcRound32, shiftDown, if_pos h, if_pos (hbit.mp h)]
  · rw [crcRound32, shiftDown, if_neg h, if_neg (mt hbit.mpr h)]

theorem crcTable16_getD (byte : Byte) :
    crcTable16.getD byte.toNat 0 = shiftsUp 0x1021 8 (byte.setWidth 16 <<< 8) := by
  have hlt := byte.isLt
  have hbyte : BitVec.ofNat 16 byte.toNat = byte.setWidth 16 := BitVec.ofNat_toNat 16 byte
  rw [crcTable16, List.getD_eq_getElem _ _ (by simpa using hlt), List.getElem_map,
    List.getElem_range, hbyte, crcRound16_eq, shiftsUp]

theorem crcTable32_getD (byte : Byte) :
    crcTable32.getD byte.toNat 0 = (shiftDown 0xedb88320)^[8] (byte.setWidth 32) := by
  have hlt := byte.isLt
  have hbyte : BitVec.ofNat 32 byte.toNat = byte.setWidth 32 := BitVec.ofNat_toNat 32 byte
  rw [crcTable32, List.getD_eq_getElem _ _ (by simpa using hlt), List.getElem_map,
    List.getElem_range, hbyte, crcRound32_eq]

/-! ### The functions -/

/-- A byte of `get_crc16` is eight bits of the message. -/
theorem crcByte16_eq (crc : Word) (byte : Byte) :
    (crc <<< 8) ^^^ crcTable16.getD (((crc >>> 8) ^^^ byte.setWidth 16) &&& 0xff).toNat 0 =
      feedBits 0x1021 crc (byteBits byte) := by
  rw [Crc.toNat_and_byte (by decide), crcTable16_getD, BitVec.setWidth_xor,
    BitVec.setWidth_setWidth_of_le _ (by decide), BitVec.setWidth_eq,
    Crc.feedBits_lookup (by decide) (by decide), Crc.upperByte]

theorem getCrc16_eq (buf : List Byte) :
    getCrc16 buf = feedBits 0x1021 0xffff (messageBits buf) := by
  rw [getCrc16, Crc.feedBits_messageBits]
  simp only [crcByte16_eq]

/-- A byte of `get_crc32` is eight bits of the message, the lowest one first. -/
theorem reverse_crcByte32 (crc : BitVec 32) (byte : Byte) :
    (crcByte32 crc byte).reverse = feedBits 0x04c11db7 crc.reverse (byteBits byte.reverse) := by
  have hpoly : (0xedb88320 : BitVec 32).reverse = 0x04c11db7 := by decide +kernel
  have hlast : (0xedb88320 : BitVec 32).reverse.getLsbD 0 = true := by rw [hpoly]; decide
  rw [crcByte32, Crc.toNat_and_byte (by decide), crcTable32_getD, BitVec.setWidth_xor,
    BitVec.setWidth_setWidth_of_le _ (by decide), BitVec.setWidth_eq,
    Crc.reverse_lookup hlast (by decide), hpoly]

theorem reverse_foldl_crcByte32 (crc : BitVec 32) (buf : List Byte) :
    (buf.foldl crcByte32 crc).reverse =
      feedBits 0x04c11db7 crc.reverse (messageBits (buf.map BitVec.reverse)) := by
  induction buf generalizing crc with
  | nil => rfl
  | cons byte buf ih =>
    rw [List.foldl_cons, ih, reverse_crcByte32, List.map_cons, messageBits, messageBits,
      List.flatMap_cons, Crc.feedBits_append]

theorem getCrc32_append (buf : List Byte) (v : Byte) :
    getCrc32 (buf ++ [v]) = getCrc32Val v (getCrc32 buf) := by
  rw [getCrc32, getCrc32Val, getCrc32, List.foldl_append, List.foldl_cons, List.foldl_nil,
    BitVec.xor_assoc, BitVec.xor_self, BitVec.xor_zero]

/-- The two checksums are what is left in the registers when the messages have been shifted
through, for `get_crc32` the lowest bits of the bytes first, and turned round. Byte by byte it is
the same. -/
theorem crc_bitSerial (buf : List Byte) :
    getCrc16 buf = feedBits 0x1021 0xffff (messageBits buf) ∧
    getCrc32 buf = (feedBits 0x04c11db7 0xffffffff
      (messageBits (buf.map BitVec.reverse))).reverse ^^^ 0xffffffff ∧
    ∀ v, getCrc32 (buf ++ [v]) = getCrc32Val v (getCrc32 buf) := by
  refine ⟨getCrc16_eq buf, ?_, getCrc32_append buf⟩
  have hstart : (0xffffffff : BitVec 32).reverse = 0xffffffff := by decide +kernel
  rw [getCrc32, ← hstart, ← reverse_foldl_crcByte32, BitVec.reverse_reverse_eq, hstart]

/-! ### Damaged sectors -/

theorem getCrc16_burst {xs ys : List Byte} (hburst : Burst 16 (messageBits xs) (messageBits ys))
    (h : getCrc16 xs = getCrc16 ys) : xs = ys := by
  rw [getCrc16_eq, getCrc16_eq] at h
  exact Crc.messageBits_injective (Crc.feedBits_burst (by decide) hburst h)

/-- What comes in front of both does not count as damage. -/
theorem burst_append {n : Nat} (pre : List Bool) {xs ys : List Bool} (h : Burst n xs ys) :
    Burst n (pre ++ xs) (pre ++ ys) := by
  obtain ⟨hlen, a, hwithin⟩ := h
  refine ⟨by rw [List.length_append, List.length_append, hlen], pre.length + a, fun i hi => ?_⟩
  by_cases hlt : i < pre.length
  · rw [List.getD_append _ _ _ _ hlt, List.getD_append _ _ _ _ hlt] at hi
    exact absurd rfl hi
  · rw [List.getD_append_right _ _ _ _ (by omega), List.getD_append_right _ _ _ _ (by omega)] at hi
    have hin := hwithin _ hi
    omega

namespace PcDrive

/-- The bytes a sector's checksum is about. -/
def checked (bytes : List Byte) : List Byte := [0xa1, 0xa1, 0xa1, 0xfb] ++ bytes

/-- The bytes have been read from the track, behind three sync words at `r` and a data mark, with the
checksum that stands behind them. -/
structure ReadAt (mbuf : Track) (bytes : List Byte) (s : Fin 16) (r : Nat) : Prop where
  sync : ∀ j < 3, getmfmword mbuf (r + j) s = 0x4489
  mark : mfmdecode mbuf (r + 3) s = 0xfb ∨ mfmdecode mbuf (r + 3) s = 0xfa
  read : bytes = mfmBytes mbuf s (r + 4) 512
  crc : getCrc16 (checked bytes) = mfmCrc mbuf s (r + 516)

variable {drv : PcDrive} {mbuf : Track} {p p' n : Nat} {shift shift' : Fin 16}
  {sector : Option Nat} {bytes : List Byte}

theorem skipSync_words {mend q : Nat} (h : skipSync mbuf mend p shift = some q) {j : Nat}
    (hj : p ≤ j) (hjq : j < q) : getmfmword mbuf j shift = 0x4489 := by
  fun_induction skipSync mbuf mend p shift with
  | case1 => simp at h
  | case2 p hs hlt ih =>
    rcases Nat.eq_or_lt_of_le hj with rfl | hnext
    · exact hs
    · exact ih h hnext
  | case3 p hs =>
    obtain rfl : p = q := Option.some.inj h
    omega

theorem turn_data_readAt
    (h : drv.turn getCrc16 mbuf p shift sector = some (.data n bytes, p', shift')) :
    ∃ s r, ReadAt mbuf bytes s r := by
  unfold turn at h
  cases hseek : seekSync mbuf drv.mend p shift with
  | none => simp [hseek] at h
  | some x =>
    obtain ⟨q, s⟩ := x
    cases hskip : skipSync mbuf drv.mend q s with
    | none => simp [hseek, hskip] at h
    | some r =>
      simp only [hseek, hskip, bind, Option.bind, pure] at h
      split_ifs at h
      all_goals cases sector
      all_goals simp only [Option.some.injEq, Prod.mk.injEq, Turn.data.injEq, reduceCtorEq,
        false_and] at h
      obtain ⟨⟨rfl, rfl⟩, -, rfl⟩ := h
      rename_i hthree _ hmark _ hcrc _
      obtain ⟨k, rfl⟩ : ∃ k, r = k + 3 := ⟨r - 3, by omega⟩
      refine ⟨s, k, fun j hj => skipSync_words hskip (by omega) (by omega), ?_, rfl, ?_⟩
      · by_contra hne
        exact hmark (not_or.mp hne)
      · rw [checked]
        exact Decidable.not_not.mp hcrc

/-- Every marked sector of the image has been read from the track. -/
def StoredRead (drv : PcDrive) (mbuf : Track) (w : PcWritten) : Prop :=
  ∀ n, w.sectable n = true → ∃ bytes s r, ReadAt mbuf bytes s r ∧
    ∀ j < 512, w.image (drv.offs + n * 512 + j) = bytes.getD j 0

theorem StoredRead.write {w : PcWritten} (hw : StoredRead drv mbuf w)
    (hread : ∃ s r, ReadAt mbuf bytes s r) : StoredRead drv mbuf (w.write drv.offs n bytes) := by
  intro k hk
  obtain ⟨s, r, hread⟩ := hread
  have hlen : bytes.length = 512 := by
    rw [hread.read, mfmBytes, List.length_map, List.length_range]
  by_cases hn : w.sectable n = true
  · rw [PcWritten.write, if_pos hn] at hk ⊢
    exact hw k hk
  · rw [PcWritten.write, if_neg hn] at hk ⊢
    by_cases hkn : k = n
    · refine ⟨bytes, s, r, hread, fun j hj => ?_⟩
      exact (storeBytes_offs w.image drv.offs n hlen k hj).trans (if_pos hkn)
    · obtain ⟨old, s', r', hold, hsame⟩ := hw k ((Function.update_of_ne hkn _ _).symm.trans hk)
      refine ⟨old, s', r', hold, fun j hj => ?_⟩
      exact ((storeBytes_offs w.image drv.offs n hlen k hj).trans (if_neg hkn)).trans (hsame j hj)

theorem writeLoop_storedRead {count : Bool} {seccnt : Nat} {w : PcWritten}
    (hw : StoredRead drv mbuf w) :
    StoredRead drv mbuf (writeLoop drv getCrc16 count mbuf p shift sector seccnt w).2 := by
  fun_induction writeLoop drv getCrc16 count mbuf p shift sector seccnt w with
  | case1 => exact hw
  | case2 =>
    rename_i ih
    exact ih hw
  | case3 => exact hw
  | case4 =>
    rename_i hturn _ _ ih
    exact ih (hw.write (turn_data_readAt hturn))
  | case5 => exact hw

/-- What is stored for a sector stands on the track under a sync mark, with a checksum that is right.
It is not what has become of other data with that checksum by damage to up to 16 bits in a row. -/
def Undamaged (drv : PcDrive) (mbuf : Track) (w : PcWritten) : Prop :=
  ∀ n, w.sectable n = true → ∃ (bytes : List Byte) (s : Fin 16) (r : Nat),
    ReadAt mbuf bytes s r ∧
    (∀ j < 512, w.image (drv.offs + n * 512 + j) = bytes.getD j 0) ∧
    ∀ data, getCrc16 (checked data) = getCrc16 (checked bytes) →
      Burst 16 (messageBits data) (messageBits bytes) → bytes = data

/-- Whatever is on a track, `drive_write_pcdos` stores no sector that has been damaged so. -/
theorem writePcdos_undamaged (drv : PcDrive) (count : Bool) (mbuf : Track) (image : Nat → Byte) :
    Undamaged drv (doubled drv.fwlen mbuf) (drv.writePcdos getCrc16 count mbuf image).2 := by
  intro n hn
  obtain ⟨bytes, s, r, hread, hstored⟩ :=
    @writeLoop_storedRead drv (doubled drv.fwlen mbuf) 0 0 none count 0
      { secwritten := 0, sectable := fun _ => false, image } nofun n hn
  refine ⟨bytes, s, r, hread, hstored, fun data hdata hburst => ?_⟩
  have hdamaged : Burst 16 (messageBits (checked data)) (messageBits (checked bytes)) := by
    rw [checked, checked, messageBits, messageBits, List.flatMap_append, List.flatMap_append]
    exact burst_append _ hburst
  have hsame := getCrc16_burst hdamaged hdata
  exact (List.append_cancel_left hsame).symm

end PcDrive

end LibretroUae.Disk
