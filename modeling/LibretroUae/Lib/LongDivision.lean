import Mathlib.Tactic.Common
import Mathlib.Tactic.Ring

/-!
# LibretroUae.Lib.LongDivision

**Long division by shifting.** A quotient of `w` bits takes `w` rounds. The register holds the
partial remainder in its upper part and, behind it, the bits of the dividend that have not been
brought down yet. A round shifts it and takes the divisor off if it goes in, which is the next bit
of the quotient.
-/

namespace LibretroUae.Lib

variable {a b w k : Nat}

/-- The register after `k` rounds. -/
def divRegister (a b w k : Nat) : Nat := a * 2 ^ k % (b * 2 ^ w)

theorem divRegister_zero (h : a < b * 2 ^ w) : divRegister a b w 0 = a := by
  rw [divRegister, Nat.pow_zero, Nat.mul_one, Nat.mod_eq_of_lt h]

theorem divRegister_lt (hb : 0 < b) : divRegister a b w k < b * 2 ^ w :=
  Nat.mod_lt _ (Nat.mul_pos hb (Nat.two_pow_pos w))

/-- A round. -/
theorem divRegister_succ (hb : 0 < b) : divRegister a b w (k + 1) =
    if b * 2 ^ w ≤ 2 * divRegister a b w k then 2 * divRegister a b w k - b * 2 ^ w
    else 2 * divRegister a b w k := by
  have hlt := @divRegister_lt a b w k hb
  have hshift : divRegister a b w (k + 1) = 2 * divRegister a b w k % (b * 2 ^ w) := by
    rw [divRegister, divRegister, Nat.pow_succ, ← Nat.mul_assoc, Nat.mul_comm 2,
      Nat.mod_mul_mod]
  rw [hshift]
  split_ifs with h
  · rw [Nat.mod_eq_sub_mod h, Nat.mod_eq_of_lt (by omega)]
  · exact Nat.mod_eq_of_lt (Nat.lt_of_not_le h)

/-- What is in the register: the remainder of the bits that were brought down, and the others. -/
theorem divRegister_eq (hk : k ≤ w) :
    divRegister a b w k = a / 2 ^ (w - k) % b * 2 ^ w + a % 2 ^ (w - k) * 2 ^ k := by
  have hpow : 2 ^ (w - k) * 2 ^ k = 2 ^ w := by rw [← Nat.pow_add, Nat.sub_add_cancel hk]
  have hsplit : a * 2 ^ k = a / 2 ^ (w - k) * 2 ^ w + a % 2 ^ (w - k) * 2 ^ k := by
    calc a * 2 ^ k = (2 ^ (w - k) * (a / 2 ^ (w - k)) + a % 2 ^ (w - k)) * 2 ^ k := by
          rw [Nat.div_add_mod]
      _ = _ := by rw [Nat.add_mul, Nat.mul_comm (2 ^ (w - k)), Nat.mul_assoc, hpow]
  have hlow : a % 2 ^ (w - k) * 2 ^ k < 2 ^ w := by
    rw [← hpow]
    exact Nat.mul_lt_mul_of_pos_right (Nat.mod_lt _ (Nat.two_pow_pos _)) (Nat.two_pow_pos k)
  rw [divRegister, hsplit, Nat.mul_comm b, Nat.mod_mul, Nat.mul_comm _ (2 ^ w),
    Nat.mul_add_mod, Nat.mod_eq_of_lt hlow, Nat.mul_add_div (Nat.two_pow_pos w),
    Nat.div_eq_of_lt hlow, Nat.add_zero, Nat.add_comm, Nat.mul_comm (2 ^ w)]

/-- The bits of the quotient that are known after `k` rounds. -/
theorem divQuotient_eq (hk : k ≤ w) : a * 2 ^ k / (b * 2 ^ w) = a / b / 2 ^ (w - k) := by
  have hpow : 2 ^ w = 2 ^ (w - k) * 2 ^ k := by rw [← Nat.pow_add, Nat.sub_add_cancel hk]
  rw [hpow, ← Nat.mul_assoc, Nat.mul_div_mul_right _ _ (Nat.two_pow_pos k), Nat.div_div_eq_div_mul]

/-- The bit of a round says whether the divisor goes in. -/
theorem testBit_quotient (hb : 0 < b) (hk : k < w) :
    (a / b).testBit (w - 1 - k) = decide (b * 2 ^ w ≤ 2 * divRegister a b w k) := by
  have hm : 0 < b * 2 ^ w := Nat.mul_pos hb (Nat.two_pow_pos w)
  have hlt := @divRegister_lt a b w k hb
  have hdouble : a * 2 ^ (k + 1) =
      b * 2 ^ w * (2 * (a * 2 ^ k / (b * 2 ^ w))) + 2 * divRegister a b w k := by
    rw [Nat.pow_succ, ← Nat.mul_assoc]
    conv_lhs => rw [← Nat.div_add_mod (a * 2 ^ k) (b * 2 ^ w)]
    rw [divRegister]
    ring
  have hquot : a / b / 2 ^ (w - 1 - k) =
      2 * (a * 2 ^ k / (b * 2 ^ w)) + 2 * divRegister a b w k / (b * 2 ^ w) := by
    have hindex : w - 1 - k = w - (k + 1) := by omega
    rw [hindex, ← divQuotient_eq hk, hdouble, Nat.mul_add_div hm]
  rw [Nat.testBit_eq_decide_div_mod_eq, hquot, Nat.mul_add_mod]
  congr 1
  by_cases h : b * 2 ^ w ≤ 2 * divRegister a b w k
  · have hone : 2 * divRegister a b w k / (b * 2 ^ w) = 1 :=
      Nat.div_eq_of_lt_le (by omega) (by omega)
    simp [hone, h]
  · rw [Nat.div_eq_of_lt (Nat.lt_of_not_le h)]
    simp [h]

end LibretroUae.Lib
