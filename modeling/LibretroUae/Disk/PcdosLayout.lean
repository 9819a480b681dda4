import LibretroUae.Disk.Pcdos
import LibretroUae.Disk.MfmLegal
import LibretroUae.Lib.Words
import Mathlib.Data.List.GetD

/-!
# LibretroUae.Disk.PcdosLayout

The track that `decode_pcdos` leaves. A sync word lacks a clock between two zeros, and no
encoded byte does (`clocked_dosWord`), so a window that shows a sync word lies on one
(`Clocked.noSync`). `PcSectorAt` says what the reader needs to know of a sector's words.
-/

namespace LibretroUae.Disk

open LibretroUae.Lib

/-! ### Clocks -/

/-- From the third data bit of `w` to the fifth of `w'` no clock is missing. -/
def Clocked (w w' : Word) : Prop := ∀ k < 25, 4 ≤ k → k % 2 = 0 →
  pairBit w w' (k - 1) ∨ pairBit w w' k ∨ pairBit w w' (k + 1)

theorem getMsbD_window (w w' : Word) {shift j : Nat} (hs : shift < 16) (hj : j < 16) :
    (w <<< shift ||| w' >>> (16 - shift)).getMsbD j = pairBit w w' (shift + j) := by
  rw [BitVec.getMsbD_or, BitVec.getMsbD_shiftLeft, BitVec.getMsbD_ushiftRight, pairBit]
  split_ifs with h
  · have hlt : j < 16 - shift := by omega
    simp [hlt, Nat.add_comm shift j]
  · have hge : ¬ j < 16 - shift := by omega
    have hsub : j - (16 - shift) = shift + j - 16 := by omega
    have hout : w.getMsbD (j + shift) = false := BitVec.getMsbD_of_ge _ _ (by omega)
    simp [hge, hsub, hout, hj]

/-- Read at an even shift, a sync word lacks the clock behind its fifth data bit; at an odd one,
where its clocks are taken for data, the second. -/
theorem Clocked.noSync {w w' : Word} (h : Clocked w w') : NoSync w w' := by
  intro shift hsync
  have hbit : ∀ j < 16, pairBit w w' (shift.val + j) = (0x4489 : Word).getMsbD j := by
    intro j hj
    rw [← getMsbD_window w w' shift.isLt hj, hsync]
  have hmissing : ∀ k, 0 < k → k + 1 < 16 → (0x4489 : Word).getMsbD (k - 1) = false →
      (0x4489 : Word).getMsbD k = false → (0x4489 : Word).getMsbD (k + 1) = false →
      4 ≤ shift.val + k → shift.val + k < 25 → (shift.val + k) % 2 = 0 → False := by
    intro k hpos hk h0 h1 h2 h4 h25 heven
    have hpred : shift.val + k - 1 = shift.val + (k - 1) := by omega
    have hclock := h (shift.val + k) h25 h4 heven
    rw [hpred, Nat.add_assoc, hbit (k - 1) (by omega), hbit k (by omega), hbit (k + 1) hk, h0, h1,
      h2] at hclock
    simp at hclock
  have hlt := shift.isLt
  rcases Nat.mod_two_eq_zero_or_one shift.val with heven | hodd
  · exact hmissing 10 (by omega) (by omega) (by decide) (by decide) (by decide) (by omega)
      (by omega) (by omega)
  · exact hmissing 3 (by omega) (by omega) (by decide) (by decide) (by decide) (by omega)
      (by omega) (by omega)

/-! ### Words of bytes -/

theorem endBit_eq (w : Word) : endBit w = w.getMsbD 15 := by
  rw [endBit, Lib.and_one_ne_zero w (by decide), BitVec.getMsbD_eq_getLsbD]
  simp

/-- The last bit of a word is its byte's. -/
theorem endBit_dosWord : ∀ (c : Bool) (byte : Byte),
    endBit (dosWord c byte) = byte.getLsbD 0 := by decide

/-- Inside a word no clock is missing. -/
theorem dosWord_inner : ∀ (c : Bool) (byte : Byte), ∀ k < 15, 2 ≤ k → k % 2 = 0 →
    (dosWord c byte).getMsbD (k - 1) ∨ (dosWord c byte).getMsbD k ∨
      (dosWord c byte).getMsbD (k + 1) := by decide

/-- Nor is the first one, behind the right bit. -/
theorem dosWord_first : ∀ (c : Bool) (byte : Byte),
    c ∨ (dosWord c byte).getMsbD 0 ∨ (dosWord c byte).getMsbD 1 := by decide

theorem mfmdecode_dosWord : ∀ (c : Bool) (byte : Byte),
    mfmdecode (fun _ => dosWord c byte) 0 0 = byte := by decide

theorem mfmdecode_of_eq {m : Track} {p : Nat} {c : Bool} {byte : Byte}
    (h : m p = dosWord c byte) : mfmdecode m p 0 = byte := by
  rw [← mfmdecode_dosWord c byte, mfmdecode, mfmdecode, getmfmword_zero, getmfmword_zero, h]

/-- A word that may stand behind the word of a byte. -/
def Continues (w w' : Word) : Prop := w' = 0x4489 ∨ ∃ byte, w' = dosWord (endBit w) byte

theorem clocked_dosWord {w' : Word} (c : Bool) (byte : Byte)
    (h : Continues (dosWord c byte) w') : Clocked (dosWord c byte) w' := by
  have hfront : (dosWord c byte).getMsbD 15 ∨ w'.getMsbD 0 ∨ w'.getMsbD 1 := by
    rcases h with rfl | ⟨byte', rfl⟩
    · exact Or.inr (Or.inr (by decide))
    · rw [← endBit_eq]
      exact dosWord_first _ byte'
  have hinner : ∀ k < 9, 2 ≤ k → k % 2 = 0 →
      w'.getMsbD (k - 1) ∨ w'.getMsbD k ∨ w'.getMsbD (k + 1) := by
    rcases h with rfl | ⟨byte', rfl⟩
    · decide
    · exact fun k hk => dosWord_inner _ byte' k (by omega)
  intro k hk h4 heven
  rw [pairBit, pairBit, pairBit]
  rcases Nat.lt_trichotomy k 16 with hlt | rfl | hgt
  · have hlt' : k + 1 < 16 := by omega
    have hlt'' : k - 1 < 16 := by omega
    rw [if_pos hlt, if_pos hlt', if_pos hlt'']
    exact dosWord_inner c byte k (by omega) (by omega) heven
  · exact hfront
  · have hge : ¬ k < 16 := by omega
    have hge' : ¬ k + 1 < 16 := by omega
    have hge'' : ¬ k - 1 < 16 := by omega
    have hsub : k + 1 - 16 = k - 16 + 1 := by omega
    rw [if_neg hge, if_neg hge', if_neg hge'', hsub, Nat.sub_right_comm]
    exact hinner (k - 16) (by omega) (by omega) (by omega)

theorem noSync_dosWord {w' : Word} (c : Bool) (byte : Byte) (h : Continues (dosWord c byte) w') :
    NoSync (dosWord c byte) w' :=
  (clocked_dosWord c byte h).noSync

/-! ### The words of a sector -/

theorem length_mfmcoder (bytes : List Byte) : ∀ last, (mfmcoder last bytes).length = bytes.length := by
  induction bytes with
  | nil => exact fun _ => rfl
  | cons byte bytes ih =>
    intro last
    rw [mfmcoder, List.length_cons, ih, List.length_cons]

/-- The words of `mfmcoder` are their bytes' words, each behind the one before. -/
theorem getD_mfmcoder {bytes : List Byte} : ∀ (last : Word) {j : Nat}, j < bytes.length →
    (mfmcoder last bytes).getD j 0 =
      dosWord (if j = 0 then endBit last else (bytes.getD (j - 1) 0).getLsbD 0)
        (bytes.getD j 0) := by
  induction bytes with
  | nil => exact fun _ _ h => absurd h (Nat.not_lt_zero _)
  | cons byte bytes ih =>
    intro last j hj
    rw [mfmcoder]
    cases j with
    | zero => rfl
    | succ j =>
      rw [List.getD_cons_succ, ih _ (Nat.lt_of_succ_lt_succ hj), if_neg (Nat.succ_ne_zero j),
        List.getD_cons_succ, endBit_dosWord]
      cases j with
      | zero => rfl
      | succ j => rfl

theorem hasWords_iff {m : Track} {ws : List Word} : ∀ {p : Nat},
    HasWords m p ws ↔ ∀ j < ws.length, m (p + j) = ws.getD j 0 := by
  induction ws with
  | nil => exact fun {p} => iff_of_true trivial fun j hj => absurd hj (Nat.not_lt_zero j)
  | cons w ws ih =>
    intro p
    rw [HasWords, ih]
    constructor
    · rintro ⟨h0, h⟩ j hj
      cases j with
      | zero => exact h0
      | succ j =>
        rw [List.getD_cons_succ, ← h j (Nat.lt_of_succ_lt_succ hj), Nat.add_right_comm, Nat.add_assoc]
    · intro h
      refine ⟨h 0 (Nat.succ_pos _), fun j hj => ?_⟩
      have hsucc := h (j + 1) (Nat.succ_lt_succ hj)
      rwa [List.getD_cons_succ, ← Nat.add_assoc, Nat.add_right_comm] at hsucc

/-- Where the sync words of a sector are. -/
def IsSync (j : Nat) : Prop := 12 ≤ j ∧ j < 15 ∨ 56 ≤ j ∧ j < 59

instance (j : Nat) : Decidable (IsSync j) := inferInstanceAs (Decidable (_ ∨ _))

theorem length_syncWords (ws : List Word) : (PcDrive.syncWords ws).length = ws.length := by
  simp only [PcDrive.syncWords, List.length_set]

theorem getD_set {ws : List Word} {i j : Nat} (w : Word) (hi : i < ws.length) :
    (ws.set i w).getD j 0 = if i = j then w else ws.getD j 0 := by
  rw [List.getD_eq_getElem?_getD, List.getD_eq_getElem?_getD, List.getElem?_set]
  split_ifs
  · rfl
  · rfl

theorem getD_syncWords {ws : List Word} (j : Nat) (hlen : 59 ≤ ws.length) :
    (PcDrive.syncWords ws).getD j 0 = if IsSync j then 0x4489 else ws.getD j 0 := by
  have hin : ∀ i < 59, i < ws.length := fun i hi => Nat.lt_of_lt_of_le hi hlen
  rw [PcDrive.syncWords]
  simp only [getD_set, List.length_set, hin _ (by decide : 12 < 59), hin _ (by decide : 13 < 59),
    hin _ (by decide : 14 < 59), hin _ (by decide : 56 < 59), hin _ (by decide : 57 < 59),
    hin _ (by decide : 58 < 59)]
  by_cases h : IsSync j
  · rw [if_pos h]
    have hcases : 58 = j ∨ 57 = j ∨ 56 = j ∨ 14 = j ∨ 13 = j ∨ 12 = j := by
      rw [IsSync] at h
      omega
    rcases hcases with rfl | rfl | rfl | rfl | rfl | rfl
    all_goals rfl
  · rw [if_neg h]
    rw [IsSync] at h
    split_ifs
    all_goals first | rfl | omega

/-- The words of a sector with the given bytes stand on the track from `p` on. -/
structure PcSectorAt (m : Track) (p : Nat) (bytes : List Byte) : Prop where
  sync : ∀ j < bytes.length, IsSync j → m (p + j) = 0x4489
  byte : ∀ j < bytes.length, ¬ IsSync j → ∃ c, m (p + j) = dosWord c (bytes.getD j 0)
  noSync : ∀ j, j + 1 < bytes.length → ¬ IsSync j → NoSync (m (p + j)) (m (p + j + 1))
  lead : NoSync (m (p - 1)) (m p)

/-- What `mfmcoder` and the sync words leave behind the word of a byte. -/
theorem PcSectorAt.of_words {m : Track} {p : Nat} {bytes : List Byte} {c : Bool} {byte : Byte}
    (hlead : m (p - 1) = dosWord c byte) (hlen : 59 ≤ bytes.length)
    (hwords : HasWords m p (PcDrive.syncWords (mfmcoder (dosWord c byte) bytes))) :
    PcSectorAt m p bytes := by
  have hlen' : 59 ≤ (mfmcoder (dosWord c byte) bytes).length := by rwa [length_mfmcoder]
  rw [hasWords_iff, length_syncWords, length_mfmcoder] at hwords
  have hword : ∀ j < bytes.length, m (p + j) = if IsSync j then 0x4489 else
      dosWord (if j = 0 then endBit (dosWord c byte) else (bytes.getD (j - 1) 0).getLsbD 0)
        (bytes.getD j 0) := by
    intro j hj
    rw [hwords j hj, getD_syncWords j hlen', getD_mfmcoder _ hj]
  refine ⟨fun j hj hs => ?_, fun j hj hs => ⟨_, (hword j hj).trans (if_neg hs)⟩,
    fun j hj hs => ?_, ?_⟩
  · rw [hword j hj, if_pos hs]
  · rw [hword j (Nat.lt_of_succ_lt hj), if_neg hs, Nat.add_assoc, hword (j + 1) hj]
    refine noSync_dosWord _ _ ?_
    by_cases hs' : IsSync (j + 1)
    · rw [if_pos hs']
      exact Or.inl rfl
    · rw [if_neg hs', if_neg (Nat.succ_ne_zero j), Nat.add_sub_cancel]
      refine Or.inr ⟨bytes.getD (j + 1) 0, ?_⟩
      rw [endBit_dosWord]
  · have hfirst := hword 0 (by omega)
    rw [if_neg (by decide), if_pos rfl, Nat.add_zero] at hfirst
    rw [hlead, hfirst]
    exact noSync_dosWord _ _ (Or.inr ⟨bytes.getD 0 0, rfl⟩)

/-- Tracks that agree on a sector and the word before it hold it both or neither. -/
theorem PcSectorAt.congr {m m' : Track} {p : Nat} {bytes : List Byte} (hp : 0 < p)
    (hlen : 0 < bytes.length) (h : ∀ k, p ≤ k + 1 → k < p + bytes.length → m' k = m k)
    (hs : PcSectorAt m p bytes) : PcSectorAt m' p bytes := by
  have hin : ∀ j < bytes.length, m' (p + j) = m (p + j) := fun j hj => h _ (by omega) (by omega)
  refine ⟨fun j hj hsync => ?_, fun j hj hsync => ?_, fun j hj hsync => ?_, ?_⟩
  · rw [hin j hj]
    exact hs.sync j hj hsync
  · rw [hin j hj]
    exact hs.byte j hj hsync
  · rw [hin j (by omega), Nat.add_assoc, hin (j + 1) hj]
    exact hs.noSync j hj hsync
  · rw [h (p - 1) (by omega) (by omega), h p (by omega) (by omega)]
    exact hs.lead

/-! ### The bytes of a sector -/

namespace PcDrive

variable (drv : PcDrive) (getCrc16 : List Byte → Word) (stale : Nat → Byte)

/-- The words of a sector. -/
def step : Nat := 574 + 76 / drv.ddhd

theorem le_step : 574 ≤ drv.step := Nat.le_add_right 574 _

/-- The bytes in front of the data. -/
def frontBytes (i : Nat) : List Byte :=
  List.replicate 12 0 ++ drv.headerBytes i ++ be16 (getCrc16 (drv.headerBytes i)) ++
    List.replicate 22 0x4e ++ List.replicate 12 0 ++ [0xa1, 0xa1, 0xa1, 0xfb]

theorem sectorBytes_eq (i : Nat) (s : PcSector) :
    drv.sectorBytes getCrc16 stale i s = drv.frontBytes getCrc16 i ++
      (s.data ++ (be16 (getCrc16 (dataBytes s)) ++ drv.gapBytes stale)) := by
  simp only [sectorBytes, frontBytes, dataBytes, List.append_assoc]

theorem length_frontBytes (i : Nat) : (drv.frontBytes getCrc16 i).length = 60 := rfl

@[simp] theorem length_sectorBytes (i : Nat) (s : PcSector) :
    (drv.sectorBytes getCrc16 stale i s).length = drv.step := by
  rw [sectorBytes_eq, List.length_append, length_frontBytes, List.length_append, s.length_data,
    List.length_append, gapBytes, List.length_map, List.length_range, be16, step]
  simp only [List.length_cons, List.length_nil]
  omega

/-- The header and what comes before it do not depend on the data. -/
theorem getD_sectorBytes_front (i : Nat) (s : PcSector) {j : Nat} (hj : j < 60) :
    (drv.sectorBytes getCrc16 stale i s).getD j 0 = (drv.frontBytes getCrc16 i).getD j 0 := by
  rw [sectorBytes_eq, List.getD_append _ _ _ _ hj]

theorem getD_sectorBytes_data (i : Nat) (s : PcSector) {j : Nat} (hj : j < 512) :
    (drv.sectorBytes getCrc16 stale i s).getD (60 + j) 0 = s.data.getD j 0 := by
  have hdata : j < s.data.length := by rwa [s.length_data]
  rw [sectorBytes_eq, List.getD_append_right _ _ _ _ (Nat.le_add_right 60 j), length_frontBytes,
    Nat.add_sub_cancel_left, List.getD_append _ _ _ _ hdata]

theorem getD_sectorBytes_crc (i : Nat) (s : PcSector) {j : Nat} (hj : j < 2) :
    (drv.sectorBytes getCrc16 stale i s).getD (572 + j) 0 =
      (be16 (getCrc16 (dataBytes s))).getD j 0 := by
  have hsplit : 572 + j = 60 + (512 + j) := by omega
  rw [sectorBytes_eq, hsplit, List.getD_append_right _ _ _ _ (Nat.le_add_right 60 _),
    length_frontBytes, Nat.add_sub_cancel_left,
    List.getD_append_right _ _ _ _ (by rw [s.length_data]; omega), s.length_data,
    Nat.add_sub_cancel_left, List.getD_append _ _ _ _ hj]

/-! ### The track -/

/-- The sectors from number `i` on stand on the track from `p` on. -/
def SectorsAt (m : Track) : Nat → Nat → List PcSector → Prop
  | _, _, [] => True
  | i, p, s :: ss =>
    PcSectorAt m p (drv.sectorBytes getCrc16 stale i s) ∧ SectorsAt m (i + 1) (p + drv.step) ss

variable {drv getCrc16 stale}

theorem SectorsAt.congr {m m' : Track} {ss : List PcSector} : ∀ {i p : Nat}, 0 < p →
    (∀ k, p ≤ k + 1 → k < p + ss.length * drv.step → m' k = m k) →
      drv.SectorsAt getCrc16 stale m i p ss → drv.SectorsAt getCrc16 stale m' i p ss := by
  induction ss with
  | nil => exact fun _ _ _ => trivial
  | cons s ss ih =>
    intro i p hp h hs
    rw [List.length_cons, Nat.succ_mul] at h
    refine ⟨hs.1.congr hp ?_ fun k hle hlt => h k hle ?_,
      ih (by omega) (fun k hle hlt => h k (by omega) (by omega)) hs.2⟩
    · have := drv.le_step
      rw [length_sectorBytes]
      omega
    · rw [length_sectorBytes] at hlt
      omega

theorem getLastD_eq_getD {ws : List Word} (last : Word) (h : 0 < ws.length) :
    ws.getLastD last = ws.getD (ws.length - 1) 0 := by
  rw [List.getLastD_eq_getLast?, List.getLast?_eq_getElem?, List.getD_eq_getElem?_getD,
    List.getElem?_eq_getElem (Nat.sub_lt h Nat.one_pos)]
  rfl

/-- The last word of a sector is a byte's. -/
theorem getLastD_syncWords {bytes : List Byte} (last : Word) (hlen : 60 ≤ bytes.length) :
    ∃ c byte, (syncWords (mfmcoder last bytes)).getD (bytes.length - 1) 0 = dosWord c byte ∧
      (syncWords (mfmcoder last bytes)).getLastD last = dosWord c byte := by
  have hwords : (syncWords (mfmcoder last bytes)).length = bytes.length := by
    rw [length_syncWords, length_mfmcoder]
  have hnot : ¬ IsSync (bytes.length - 1) := by
    rw [IsSync]
    omega
  have hword : ∃ c byte,
      (syncWords (mfmcoder last bytes)).getD (bytes.length - 1) 0 = dosWord c byte := by
    rw [getD_syncWords _ (by rw [length_mfmcoder]; omega), if_neg hnot,
      getD_mfmcoder last (by omega)]
    exact ⟨_, _, rfl⟩
  obtain ⟨c, byte, hlast⟩ := hword
  refine ⟨c, byte, hlast, ?_⟩
  rw [getLastD_eq_getD last (by omega), hwords, hlast]

theorem sectorsAt_of_words {m : Track} {ss : List PcSector} :
    ∀ {i p : Nat} {c : Bool} {byte : Byte}, 0 < p → m (p - 1) = dosWord c byte →
      HasWords m p (drv.sectorsWords getCrc16 stale i (dosWord c byte) ss) →
        drv.SectorsAt getCrc16 stale m i p ss := by
  induction ss with
  | nil => exact fun _ _ _ => trivial
  | cons s ss ih =>
    intro i p c byte hp hlead hwords
    rw [sectorsWords, HasWords.append, length_syncWords, length_mfmcoder, length_sectorBytes]
      at hwords
    have hstep := drv.le_step
    have hlen : 60 ≤ (drv.sectorBytes getCrc16 stale i s).length := by
      rw [length_sectorBytes]
      omega
    obtain ⟨c', byte', hend, hlast⟩ := getLastD_syncWords (dosWord c byte) hlen
    rw [hlast] at hwords
    refine ⟨.of_words hlead (by omega) hwords.1, ih (by omega) ?_ hwords.2⟩
    have hword := (hasWords_iff.mp hwords.1) (drv.step - 1)
    rw [length_sectorBytes] at hlen hend
    rw [length_syncWords, length_mfmcoder, length_sectorBytes, hend] at hword
    rw [Nat.add_sub_assoc (by omega)]
    exact hword (by omega)

theorem length_preamble : preamble.length = 97 := by decide

/-- The preamble shows no sync word, nor does its end look like the middle of one. -/
theorem preamble_noSync :
    ∀ k < 96, NoSync (preamble.getD k 0) (preamble.getD (k + 1) 0) := by decide

theorem decodePcdos_preamble (secs : List PcSector) (old : Track) {k : Nat} (hk : k < 97) :
    drv.decodePcdos getCrc16 stale secs old k = preamble.getD k 0 := by
  have hlt : k < preamble.length := by rwa [length_preamble]
  rw [decodePcdos, if_pos (by rw [List.length_append]; omega), List.getD_append _ _ _ _ hlt]

theorem decodePcdos_words (secs : List PcSector) (old : Track) :
    HasWords (drv.decodePcdos getCrc16 stale secs old) 97
      (drv.sectorsWords getCrc16 stale 0 (preamble.getLastD 0) secs) := by
  rw [hasWords_iff]
  intro j hj
  have hle : preamble.length ≤ 97 + j := by
    rw [length_preamble]
    exact Nat.le_add_right 97 j
  rw [decodePcdos, if_pos (by rw [List.length_append, length_preamble]; omega),
    List.getD_append_right _ _ _ _ hle, length_preamble, Nat.add_sub_cancel_left]

/-- The track that `decode_pcdos` leaves. -/
theorem decodePcdos_layout (secs : List PcSector) (old : Track) :
    (∀ k < 96, NoSync (drv.decodePcdos getCrc16 stale secs old k)
        (drv.decodePcdos getCrc16 stale secs old (k + 1))) ∧
      drv.SectorsAt getCrc16 stale (drv.decodePcdos getCrc16 stale secs old) 0 97 secs := by
  have hlast : preamble.getLastD 0 = dosWord false 0x4e := by decide +kernel
  have hend : preamble.getD 96 0 = dosWord false 0x4e := by decide +kernel
  refine ⟨fun k hk => ?_, sectorsAt_of_words (by decide) ?_ (hlast ▸ decodePcdos_words secs old)⟩
  · rw [decodePcdos_preamble secs old (by omega), decodePcdos_preamble secs old (by omega)]
    exact preamble_noSync k hk
  · rw [decodePcdos_preamble secs old (by decide), hend]

end PcDrive

end LibretroUae.Disk
