import Mathlib.Tactic.Common
import Mathlib.Tactic.Ring

/-!
# LibretroUae.Lib.EndAround

**Sums with an end-around carry.** A carry out of the highest bit comes in again at the lowest
one, so words are added modulo one less than their range, and all ones is a second zero. The sum
does not depend on the order, and a word and its complement add up to all ones.
-/

namespace LibretroUae.Lib

variable {w : Nat}

/-- The sum wrapped around exactly when it is below a summand. -/
def endAround (a b : BitVec w) : BitVec w := if a + b < a then a + b + 1 else a + b

theorem toNat_endAround (a b : BitVec w) : (endAround a b).toNat =
    if a.toNat + b.toNat < 2 ^ w then a.toNat + b.toNat else a.toNat + b.toNat + 1 - 2 ^ w := by
  have ha := a.isLt
  have hb := b.isLt
  have hsum : (a + b).toNat =
      if a.toNat + b.toNat < 2 ^ w then a.toNat + b.toNat else a.toNat + b.toNat - 2 ^ w := by
    rw [BitVec.toNat_add]
    split
    · rename_i hlt
      exact Nat.mod_eq_of_lt hlt
    · rename_i hge
      rw [Nat.mod_eq_sub_mod (Nat.le_of_not_lt hge), Nat.mod_eq_of_lt (by omega)]
  rw [endAround]
  by_cases hlt : a.toNat + b.toNat < 2 ^ w
  · rw [if_pos hlt] at hsum ⊢
    rw [if_neg (by rw [BitVec.lt_def]; omega), hsum]
  · rw [if_neg hlt] at hsum ⊢
    have hone : (1 : BitVec w).toNat = 1 := by
      rw [show (1 : BitVec w) = 1#w from rfl, BitVec.toNat_ofNat]
      exact Nat.mod_eq_of_lt (by omega)
    rw [if_pos (by rw [BitVec.lt_def]; omega), BitVec.toNat_add, hsum, hone,
      Nat.mod_eq_of_lt (by omega)]
    omega

theorem endAround_comm (a b : BitVec w) : endAround a b = endAround b a := by
  apply BitVec.eq_of_toNat_eq
  rw [toNat_endAround, toNat_endAround, Nat.add_comm]

theorem endAround_assoc (a b c : BitVec w) :
    endAround (endAround a b) c = endAround a (endAround b c) := by
  have ha := a.isLt
  have hb := b.isLt
  have hc := c.isLt
  apply BitVec.eq_of_toNat_eq
  simp only [toNat_endAround]
  split_ifs <;> omega

theorem zero_endAround (a : BitVec w) : endAround 0 a = a := by
  have ha := a.isLt
  apply BitVec.eq_of_toNat_eq
  rw [toNat_endAround, show (0 : BitVec w) = 0#w from rfl, BitVec.toNat_ofNat, Nat.zero_mod,
    Nat.zero_add, if_pos ha]

theorem endAround_not (a : BitVec w) : endAround a (~~~a) = BitVec.allOnes w := by
  have ha := a.isLt
  apply BitVec.eq_of_toNat_eq
  rw [toNat_endAround, BitVec.toNat_not, BitVec.toNat_allOnes]
  split_ifs <;> omega

/-- Only the complement adds up to all ones, and all ones with itself. -/
theorem endAround_eq_allOnes {a b : BitVec w} (h : endAround a b = BitVec.allOnes w) :
    b = ~~~a ∨ (a = BitVec.allOnes w ∧ b = BitVec.allOnes w) := by
  have ha := a.isLt
  have hb := b.isLt
  have hnat := congrArg BitVec.toNat h
  rw [toNat_endAround, BitVec.toNat_allOnes] at hnat
  split at hnat
  · left
    apply BitVec.eq_of_toNat_eq
    rw [BitVec.toNat_not]
    omega
  · right
    constructor <;> apply BitVec.eq_of_toNat_eq <;> rw [BitVec.toNat_allOnes] <;> omega

/-! ### Sums of many words -/

def endAroundSum (l : List (BitVec w)) : BitVec w := l.foldl endAround 0

theorem foldl_endAround (l : List (BitVec w)) (a : BitVec w) :
    l.foldl endAround a = endAround a (endAroundSum l) := by
  induction l generalizing a with
  | nil => rw [endAroundSum, List.foldl_nil, List.foldl_nil, endAround_comm, zero_endAround]
  | cons b l ih =>
    rw [endAroundSum, List.foldl_cons, List.foldl_cons, ih, ih (endAround 0 b), zero_endAround,
      endAround_assoc]

theorem endAroundSum_append (l m : List (BitVec w)) :
    endAroundSum (l ++ m) = endAround (endAroundSum l) (endAroundSum m) := by
  rw [endAroundSum, List.foldl_append, foldl_endAround m]
  rfl

theorem endAroundSum_cons (a : BitVec w) (l : List (BitVec w)) :
    endAroundSum (a :: l) = endAround a (endAroundSum l) := by
  rw [endAroundSum, List.foldl_cons, foldl_endAround, zero_endAround]

/-- A summand can be taken out of any place. -/
theorem endAroundSum_middle (l m : List (BitVec w)) (a : BitVec w) :
    endAroundSum (l ++ a :: m) = endAround (endAroundSum (l ++ m)) a := by
  rw [endAroundSum_append, endAroundSum_cons, endAroundSum_append, endAround_comm a,
    endAround_assoc]

end LibretroUae.Lib
