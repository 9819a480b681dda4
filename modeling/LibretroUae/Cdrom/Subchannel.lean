import LibretroUae.Lib.Bytes
import LibretroUae.Lib.Words

/-!
# LibretroUae.Cdrom.Subchannel

**The subchannels of a sector.** A sector has 96 bits of each of the channels P to W. The drive
delivers them interleaved, a bit of every channel in each byte; deinterleaved, the twelve bytes
of a channel are together. Both routines gather a byte from eight others, first bit first, and
differ in which bytes these are and which bit they take.
-/

namespace LibretroUae.Cdrom

open Lib

/-- `SUB_ENTRY_SIZE`. -/
def subEntrySize : Nat := 12

/-- The subchannel bytes of a sector. -/
abbrev SubBlock := Fin 96 → Byte

/-! ### Bytes from bits -/

/-- The inner loop of both routines: `dmask` goes from the first bit of a byte to its last. -/
def gatherBits (n : Nat) (bit : Fin n → Bool) : Byte × Byte :=
  Fin.foldl n (fun (d, dmask) j => (d ||| (if bit j then dmask else 0), dmask >>> 1)) (0, 0x80)

/-- The byte after eight rounds. -/
def gather (bit : Fin 8 → Bool) : Byte := (gatherBits 8 bit).1

/-- Is the bit of `smask` set. -/
def masked (b : Byte) (shift : Nat) : Bool := b &&& (1#8 <<< shift) ≠ 0#8

/-- `sub_to_interleaved`. -/
def subToInterleaved (s : SubBlock) (i : Fin 96) : Byte :=
  gather fun j => masked (s ⟨i / 8 + j * subEntrySize, by
    have hi := i.isLt
    have hj := j.isLt
    simp only [subEntrySize]
    omega⟩) (7 - i % 8)

/-- `sub_to_deinterleaved`. -/
def subToDeinterleaved (s : SubBlock) (i : Fin 96) : Byte :=
  gather fun j => masked (s ⟨i % subEntrySize * 8 + j, by
    have hi := i.isLt
    have hj := j.isLt
    simp only [subEntrySize]
    omega⟩) (7 - i / subEntrySize)

/-! ### The bits of a gathered byte -/

theorem masked_eq (b : Byte) {shift : Nat} (h : shift < 8) : masked b shift = b.getLsbD shift := by
  rw [masked, Bool.eq_iff_iff, decide_eq_true_iff]
  exact and_twoPow_ne_zero b h

/-- After `n` rounds the first `n` bits are in place, and `dmask` is at the next one. -/
theorem gatherBits_spec (n : Nat) (hn : n ≤ 8) (bit : Fin n → Bool) :
    (gatherBits n bit).2 = 0x80#8 >>> n ∧
      ∀ k < 8, (gatherBits n bit).1.getLsbD (7 - k) = if h : k < n then bit ⟨k, h⟩ else false := by
  induction n with
  | zero => exact ⟨rfl, fun k _ => by simp [gatherBits]⟩
  | succ n ih =>
    obtain ⟨hmask, hbits⟩ := ih (by omega) fun j => bit j.castSucc
    have hstep : gatherBits (n + 1) bit
        = ((gatherBits n fun j => bit j.castSucc).1 |||
            (if bit (Fin.last n) then (gatherBits n fun j => bit j.castSucc).2 else 0),
          (gatherBits n fun j => bit j.castSucc).2 >>> 1) := by
      rw [gatherBits, Fin.foldl_succ_last]
      rfl
    -- `dmask` of this round is the bit `7 - n`
    have hplace : ∀ k < 8, (0x80#8 >>> n).getLsbD (7 - k) = decide (k = n) := by
      have hall : ∀ n < 8, ∀ k < 8, (0x80#8 >>> n).getLsbD (7 - k) = decide (k = n) := by decide
      exact hall n (by omega)
    rw [hstep]
    refine ⟨by rw [hmask, BitVec.shiftRight_add], fun k hk => ?_⟩
    rw [BitVec.getLsbD_or, hbits k hk, hmask]
    by_cases hkn : k < n
    · have hne : k ≠ n := by omega
      have hlt : k < n + 1 := by omega
      cases bit (Fin.last n) <;> simp [-BitVec.getLsbD_eq_getElem, hkn, hlt, hplace k hk, hne]
    · by_cases heq : k = n
      · subst heq
        have hlast : Fin.last k = ⟨k, Nat.lt_succ_self k⟩ := rfl
        rw [hlast]
        cases hb : bit ⟨k, Nat.lt_succ_self k⟩ <;>
          simp [-BitVec.getLsbD_eq_getElem, hb, hplace k hk]
      · have hlt : ¬ k < n + 1 := by omega
        cases bit (Fin.last n) <;>
          simp [-BitVec.getLsbD_eq_getElem, hkn, hlt, hplace k hk, heq]

theorem getLsbD_gather (bit : Fin 8 → Bool) (j : Fin 8) :
    (gather bit).getLsbD (7 - j) = bit j := by
  rw [gather, (gatherBits_spec 8 (Nat.le_refl 8) bit).2 j j.isLt, dif_pos j.isLt]

/-- Two blocks with the same bits, counted from the first bit of each byte. -/
theorem block_ext {s t : SubBlock} (h : ∀ i, ∀ j < 8, (s i).getLsbD (7 - j) = (t i).getLsbD (7 - j)) :
    s = t := by
  funext i
  apply BitVec.eq_of_getLsbD_eq
  intro k hk
  have hj := h i (7 - k) (by omega)
  rwa [show 7 - (7 - k) = k by omega] at hj

/-! ### Channels -/

/-- Bit `j` of a channel in a deinterleaved block. -/
def channelBit (s : SubBlock) (c : Fin 8) (j : Fin 96) : Bool :=
  (s ⟨c * subEntrySize + j / 8, by
    have hc := c.isLt
    have hj := j.isLt
    simp only [subEntrySize]
    omega⟩).getLsbD (7 - j % 8)

theorem getLsbD_interleaved (s : SubBlock) (i : Fin 96) (c : Fin 8) :
    (subToInterleaved s i).getLsbD (7 - c) = channelBit s c i := by
  rw [subToInterleaved, getLsbD_gather, masked_eq _ (by omega), channelBit]
  congr 3
  exact Nat.add_comm _ _

theorem getLsbD_deinterleaved (s : SubBlock) (i : Fin 96) (j : Fin 8) :
    (subToDeinterleaved s i).getLsbD (7 - j)
      = (s ⟨i % subEntrySize * 8 + j, by
          have hj := j.isLt
          simp only [subEntrySize]
          omega⟩).getLsbD (7 - i / subEntrySize) := by
  rw [subToDeinterleaved, getLsbD_gather, masked_eq _ (by simp only [subEntrySize]; omega)]

/-- A channel of a deinterleaved block is a bit of each byte of the interleaved one. -/
theorem channelBit_deinterleaved (s : SubBlock) (c : Fin 8) (j : Fin 96) :
    channelBit (subToDeinterleaved s) c j = (s j).getLsbD (7 - c) := by
  have hj := j.isLt
  have hc := c.isLt
  have h := getLsbD_deinterleaved s ⟨c * subEntrySize + j / 8, by simp only [subEntrySize]; omega⟩
    ⟨j % 8, Nat.mod_lt _ (by omega)⟩
  have hbyte : (c * subEntrySize + j / 8) % subEntrySize * 8 + j % 8 = (j : Nat) := by
    simp only [subEntrySize]
    omega
  have hbit : (c * subEntrySize + j / 8) / subEntrySize = (c : Nat) := by
    simp only [subEntrySize]
    omega
  simp only [hbyte, hbit] at h
  exact h

theorem interleaved_deinterleaved (s : SubBlock) : subToInterleaved (subToDeinterleaved s) = s := by
  refine block_ext fun i c hc => ?_
  rw [getLsbD_interleaved _ i ⟨c, hc⟩, channelBit_deinterleaved]

theorem deinterleaved_interleaved (s : SubBlock) : subToDeinterleaved (subToInterleaved s) = s := by
  refine block_ext fun i j hj => ?_
  have hi := i.isLt
  rw [getLsbD_deinterleaved _ i ⟨j, hj⟩,
    getLsbD_interleaved _ _ ⟨i / subEntrySize, by simp only [subEntrySize]; omega⟩, channelBit]
  have hbyte : i / subEntrySize * subEntrySize + (i % subEntrySize * 8 + j) / 8 = (i : Nat) := by
    simp only [subEntrySize]
    omega
  have hbit : (i % subEntrySize * 8 + j) % 8 = j := by omega
  simp only [hbyte, hbit]

/-- The two orders are each other's inverse, and a channel is a bit of every interleaved byte. -/
theorem subchannel_interleaving (s : SubBlock) :
    subToDeinterleaved (subToInterleaved s) = s ∧ subToInterleaved (subToDeinterleaved s) = s ∧
      ∀ (c : Fin 8) (j : Fin 96),
        channelBit (subToDeinterleaved s) c j = (s j).getLsbD (7 - c) :=
  ⟨deinterleaved_interleaved s, interleaved_deinterleaved s, channelBit_deinterleaved s⟩

end LibretroUae.Cdrom
