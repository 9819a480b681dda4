import Mathlib.Tactic.Common
import Mathlib.Tactic.Ring

/-!
# LibretroUae.Lib.Words

**Machine words.** A mask of one bit tests that bit, and a number that goes through an `int`
comes back the same, or off by two to the width.
-/

namespace LibretroUae.Lib

theorem twoPow_ne_zero {w i : Nat} (hi : i < w) : BitVec.twoPow w i ≠ 0#w := by
  intro h0
  have hbit := congrArg (fun v => v.getLsbD i) h0
  simp [-BitVec.getLsbD_eq_getElem, BitVec.getLsbD_twoPow, hi] at hbit

theorem and_twoPow_ne_zero {w i : Nat} (v : BitVec w) (hi : i < w) :
    v &&& BitVec.twoPow w i ≠ 0 ↔ v.getLsbD i = true := by
  rw [BitVec.and_twoPow]
  cases v.getLsbD i with
  | true => simpa using twoPow_ne_zero hi
  | false => simp

theorem and_one_ne_zero {w : Nat} (v : BitVec w) (hw : 0 < w) :
    decide (v &&& 1 ≠ 0) = v.getLsbD 0 := by
  have hone : (1 : BitVec w) = BitVec.twoPow w 0 := BitVec.twoPow_zero.symm
  rw [hone, Bool.eq_iff_iff, decide_eq_true_iff]
  exact and_twoPow_ne_zero v hw

theorem toInt_ofNat (m : Nat) : (BitVec.ofNat 32 m).toInt =
    if m % 2 ^ 32 < 2 ^ 31 then ((m % 2 ^ 32 : Nat) : Int) else (m % 2 ^ 32 : Nat) - 2 ^ 32 := by
  rw [BitVec.toInt_eq_toNat_cond, BitVec.toNat_ofNat]
  split <;> split <;> first | rfl | omega

theorem toInt_ofNat_small {m : Nat} (hm : m < 2 ^ 31) : (BitVec.ofNat 32 m).toInt = m := by
  rw [toInt_ofNat, Nat.mod_eq_of_lt (by omega), if_pos hm]

end LibretroUae.Lib
