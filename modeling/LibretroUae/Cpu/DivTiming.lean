import LibretroUae.Lib.LongDivision
import LibretroUae.Lib.Loop

/-!
# LibretroUae.Cpu.DivTiming

**The timing of `DIVU`** on the 68000 and 68010. `getDivu68kCycles` runs the microcode's division
to count its cycles. The register has 32 bits only, so a carry out of the shift is lost and the
subtraction that follows it wraps back (`divuRegister_eq`).
-/

namespace LibretroUae.Cpu

open LibretroUae.Lib

/-! ### The source -/

/-- The locals of the loop. -/
structure DivuState where
  dividend : BitVec 32
  mcycles : Nat
  deriving DecidableEq, Repr

/-- `divisor << 16`. -/
def hdivisor (divisor : BitVec 16) : BitVec 32 := divisor.setWidth 32 <<< 16

/-- The loop on the 68000. -/
def divuStep (divisor : BitVec 16) (s : DivuState) : DivuState :=
  let temp := s.dividend
  let dividend := s.dividend <<< 1
  -- if carry from shift
  if temp.msb then { s with dividend := dividend - hdivisor divisor }
  else
    let mcycles := s.mcycles + 2
    if hdivisor divisor ≤ dividend then
      { dividend := dividend - hdivisor divisor, mcycles := mcycles - 1 }
    else { dividend, mcycles }

/-- The loop on the 68010, where a subtraction takes no time. -/
def divuStep010 (divisor : BitVec 16) (s : DivuState) : DivuState :=
  let temp := s.dividend
  let dividend := s.dividend <<< 1
  if temp.msb then { s with dividend := dividend - hdivisor divisor }
  else
    let mcycles := s.mcycles + 2
    if hdivisor divisor ≤ dividend then { dividend := dividend - hdivisor divisor, mcycles }
    else { dividend, mcycles }

/-- The register and the cycles after `k` rounds on the 68000. -/
def divuRounds (dividend : BitVec 32) (divisor : BitVec 16) (k : Nat) : DivuState :=
  loop (fun _ => divuStep divisor) k ⟨dividend, 38⟩

/-- `getDivu68kCycles`. -/
def getDivu68kCycles (cpu68010 : Bool) (dividend : BitVec 32) (divisor : BitVec 16) : Nat :=
  if divisor = 0 then 0
  else if cpu68010 then
    if divisor.setWidth 32 ≤ dividend >>> 16 then 4
    else (loop (fun _ => divuStep010 divisor) 15 ⟨dividend, 74⟩).mcycles
  else if divisor.setWidth 32 ≤ dividend >>> 16 then 5 * 2 - 4
  else (divuRounds dividend divisor 15).mcycles * 2 - 4

/-! ### The register -/

variable {dividend : BitVec 32} {divisor : BitVec 16} {k : Nat}

theorem toNat_hdivisor (divisor : BitVec 16) : (hdivisor divisor).toNat = divisor.toNat * 2 ^ 16 := by
  have hlt := divisor.isLt
  rw [hdivisor, BitVec.toNat_shiftLeft, BitVec.toNat_setWidth, Nat.mod_eq_of_lt (by omega),
    Nat.shiftLeft_eq, Nat.mod_eq_of_lt (by omega)]

theorem divuRounds_succ (dividend : BitVec 32) (divisor : BitVec 16) (k : Nat) :
    divuRounds dividend divisor (k + 1) = divuStep divisor (divuRounds dividend divisor k) := rfl

/-- The partial remainder before the subtraction, if it did not lose its carry. -/
def divuShifted (dividend : BitVec 32) (divisor : BitVec 16) (k : Nat) : Nat :=
  2 * divRegister dividend.toNat divisor.toNat 16 k

/-- What a round does, in numbers without a bound: the carry that is lost comes back with the
subtraction. -/
theorem divuStep_spec {s : DivuState} {d : Nat} (hd : s.dividend.toNat = d)
    (hlt : d < divisor.toNat * 2 ^ 16) :
    (divuStep divisor s).dividend.toNat =
        (if divisor.toNat * 2 ^ 16 ≤ 2 * d then 2 * d - divisor.toNat * 2 ^ 16 else 2 * d) ∧
      (divuStep divisor s).mcycles = s.mcycles +
        if divisor.toNat * 2 ^ 16 ≤ 2 * d then (if 2 * d < 2 ^ 32 then 1 else 0) else 2 := by
  have hdiv := divisor.isLt
  have hh := toNat_hdivisor divisor
  have hshift : (s.dividend <<< 1).toNat = d * 2 % 2 ^ 32 := by
    rw [BitVec.toNat_shiftLeft, Nat.shiftLeft_eq, Nat.pow_one, hd]
  have hmsb : s.dividend.msb = decide (2 ^ 31 ≤ d) := by rw [BitVec.msb_eq_decide, hd]
  rw [divuStep]
  dsimp only
  rw [hmsb]
  by_cases hcarry : 2 ^ 31 ≤ d
  · rw [if_pos (decide_eq_true hcarry), if_pos (by omega), if_pos (by omega), if_neg (by omega)]
    dsimp only
    rw [BitVec.toNat_sub, hshift, hh]
    omega
  · have hkeep : (s.dividend <<< 1).toNat = 2 * d := by
      rw [hshift]
      omega
    have hiff : hdivisor divisor ≤ s.dividend <<< 1 ↔ divisor.toNat * 2 ^ 16 ≤ 2 * d := by
      rw [BitVec.le_def, hh, hkeep]
    rw [if_neg (by simpa using hcarry)]
    by_cases hle : divisor.toNat * 2 ^ 16 ≤ 2 * d
    · have hle' := hiff.mpr hle
      rw [if_pos hle', if_pos hle, if_pos hle, if_pos (by omega)]
      refine ⟨?_, rfl⟩
      rw [BitVec.toNat_sub_of_le hle', hkeep, hh]
    · have hle' := fun h => hle (hiff.mp h)
      rw [if_neg hle', if_neg hle, if_neg hle]
      exact ⟨hkeep, rfl⟩

theorem divuRegister_eq (h0 : 0 < divisor.toNat) (hlt : dividend.toNat < divisor.toNat * 2 ^ 16)
    (k : Nat) : (divuRounds dividend divisor k).dividend.toNat =
      divRegister dividend.toNat divisor.toNat 16 k := by
  induction k with
  | zero => exact (divRegister_zero hlt).symm
  | succ k ih =>
    rw [divuRounds_succ, divRegister_succ h0]
    exact (divuStep_spec ih (divRegister_lt h0)).1

/-! ### The cycles -/

/-- The bit of the quotient that round `i` finds. -/
def quotientBit (dividend : BitVec 32) (divisor : BitVec 16) (i : Nat) : Bool :=
  (dividend.toNat / divisor.toNat).testBit (15 - i)

/-- The zeros among the first `k` bits. -/
def zeroBits (dividend : BitVec 32) (divisor : BitVec 16) (k : Nat) : Nat :=
  (List.range k).countP fun i => !quotientBit dividend divisor i

/-- The ones among the first `k` bits whose shift did not carry. -/
def keptOnes (dividend : BitVec 32) (divisor : BitVec 16) (k : Nat) : Nat :=
  (List.range k).countP fun i =>
    quotientBit dividend divisor i && decide (divuShifted dividend divisor i < 2 ^ 32)

theorem divuRounds_cycles (h0 : 0 < divisor.toNat)
    (hlt : dividend.toNat < divisor.toNat * 2 ^ 16) (hk : k ≤ 15) :
    (divuRounds dividend divisor k).mcycles =
      38 + 2 * zeroBits dividend divisor k + keptOnes dividend divisor k := by
  induction k with
  | zero => rfl
  | succ k ih =>
    have hround := (divuStep_spec (divuRegister_eq h0 hlt k) (divRegister_lt h0)).2
    have hbit : quotientBit dividend divisor k =
        decide (divisor.toNat * 2 ^ 16 ≤ 2 * divRegister dividend.toNat divisor.toNat 16 k) :=
      testBit_quotient h0 (show k < 16 by omega)
    rw [divuRounds_succ, hround, ih (Nat.le_of_succ_le hk), zeroBits, zeroBits, keptOnes, keptOnes,
      List.range_succ, List.countP_append, List.countP_append, List.countP_singleton,
      List.countP_singleton, hbit, divuShifted]
    -- two cycles for a zero, one for a one, none after a carry
    by_cases hle : divisor.toNat * 2 ^ 16 ≤ 2 * divRegister dividend.toNat divisor.toNat 16 k
    · simp only [hle, decide_true, Bool.true_and, Bool.not_true, decide_eq_true_eq, if_true,
        Bool.false_eq_true, if_false]
      omega
    · simp only [hle, decide_false, Bool.false_and, Bool.not_false, Bool.false_eq_true, if_false,
        if_true]
      omega

/-- **The timing of `DIVU`.** The register holds the partial remainder and the bits that were not
brought down, below the divisor; the cycles are those of a restoring division. -/
theorem getDivu68kCycles_eq (dividend : BitVec 32) (divisor : BitVec 16) (h0 : divisor ≠ 0)
    (hfits : dividend >>> 16 < divisor.setWidth 32) :
    (∀ k ≤ 15,
      (divuRounds dividend divisor k).dividend.toNat =
          dividend.toNat / 2 ^ (16 - k) % divisor.toNat * 2 ^ 16 +
            dividend.toNat % 2 ^ (16 - k) * 2 ^ k ∧
        (divuRounds dividend divisor k).dividend < hdivisor divisor) ∧
      getDivu68kCycles false dividend divisor =
        2 * (38 + 2 * zeroBits dividend divisor 15 + keptOnes dividend divisor 15) - 4 := by
  have hpos : 0 < divisor.toNat := by
    rw [Nat.pos_iff_ne_zero]
    exact fun h => h0 (BitVec.eq_of_toNat_eq h)
  have hlt : dividend.toNat < divisor.toNat * 2 ^ 16 := by
    have hdiv := divisor.isLt
    have hfits' := BitVec.lt_def.mp hfits
    rw [BitVec.toNat_ushiftRight, Nat.shiftRight_eq_div_pow, BitVec.toNat_setWidth,
      Nat.mod_eq_of_lt (by omega)] at hfits'
    omega
  refine ⟨fun k hk => ⟨?_, ?_⟩, ?_⟩
  · rw [divuRegister_eq hpos hlt, divRegister_eq (Nat.le_succ_of_le hk)]
  · rw [BitVec.lt_def, divuRegister_eq hpos hlt, toNat_hdivisor]
    exact divRegister_lt hpos
  · have hover : ¬ divisor.setWidth 32 ≤ dividend >>> 16 := BitVec.not_le.mpr hfits
    rw [getDivu68kCycles, if_neg h0, if_neg Bool.false_ne_true, if_neg hover,
      divuRounds_cycles hpos hlt (Nat.le_refl 15), Nat.mul_comm]

theorem getDivu68kCycles_example :
    (divuRounds 0x12345678 0x8001 3).dividend < hdivisor 0x8001 ∧
      getDivu68kCycles false 0x12345678 0x8001 =
        2 * (38 + 2 * zeroBits 0x12345678 0x8001 15 + keptOnes 0x12345678 0x8001 15) - 4 :=
  have h := getDivu68kCycles_eq 0x12345678 0x8001 (by decide) (by decide)
  ⟨(h.1 3 (by decide)).2, h.2⟩

end LibretroUae.Cpu
