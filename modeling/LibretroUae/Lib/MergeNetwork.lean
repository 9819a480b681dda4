import Mathlib.Tactic.Common
import Mathlib.Data.BitVec
import Mathlib.Logic.Function.Basic

/-!
# LibretroUae.Lib.MergeNetwork

**Networks of merges.** A merge lets two rows of bits exchange the bits that a mask selects, some
columns apart. It moves bits and never looks at them: every bit after a network of merges is a bit
from before, and its place then is found by going through the network from its end,
`getLsbD_network`. What a network does to all rows is thus seen from the places alone.
-/

namespace LibretroUae.Lib

/-- The bits of row `a` that the mask selects and those of row `b`, `shift` columns further up,
change places. -/
structure Merge (n w : Nat) where
  a : Fin n
  b : Fin n
  mask : BitVec w
  shift : Nat
  distinct : a ≠ b

namespace Merge

variable {n w : Nat}

def apply (m : Merge n w) (rows : Fin n → BitVec w) : Fin n → BitVec w :=
  let tmp := m.mask &&& (rows m.a ^^^ (rows m.b >>> m.shift))
  Function.update (Function.update rows m.a (rows m.a ^^^ tmp)) m.b (rows m.b ^^^ (tmp <<< m.shift))

/-- Where the bit at a place comes from. -/
def source (m : Merge n w) (p : Fin n × Nat) : Fin n × Nat :=
  if p.1 = m.b then
    if p.2 < w ∧ m.shift ≤ p.2 ∧ m.mask.getLsbD (p.2 - m.shift) then (m.a, p.2 - m.shift) else p
  else if p.1 = m.a ∧ m.mask.getLsbD p.2 then (m.b, p.2 + m.shift)
  else p

/-- The merges in their order. -/
def network (ms : List (Merge n w)) (rows : Fin n → BitVec w) : Fin n → BitVec w :=
  ms.foldl (fun rows m => m.apply rows) rows

/-- Where the bit at a place after a network comes from. -/
def trace (ms : List (Merge n w)) (p : Fin n × Nat) : Fin n × Nat := ms.foldr source p

/-- The bit at a place. -/
def bitAt (rows : Fin n → BitVec w) (p : Fin n × Nat) : Bool := (rows p.1).getLsbD p.2

variable (m : Merge n w) (rows : Fin n → BitVec w)

theorem apply_b : m.apply rows m.b = rows m.b ^^^
    ((m.mask &&& (rows m.a ^^^ (rows m.b >>> m.shift))) <<< m.shift) := by
  rw [apply, Function.update_self]

theorem apply_a : m.apply rows m.a = rows m.a ^^^
    (m.mask &&& (rows m.a ^^^ (rows m.b >>> m.shift))) := by
  rw [apply, Function.update_of_ne m.distinct, Function.update_self]

theorem apply_of_ne {r : Fin n} (ha : r ≠ m.a) (hb : r ≠ m.b) : m.apply rows r = rows r := by
  rw [apply, Function.update_of_ne hb, Function.update_of_ne ha]

theorem getLsbD_apply_b (c : Nat) : (m.apply rows m.b).getLsbD c =
    if c < w ∧ m.shift ≤ c ∧ m.mask.getLsbD (c - m.shift) then (rows m.a).getLsbD (c - m.shift)
    else (rows m.b).getLsbD c := by
  rw [apply_b, BitVec.getLsbD_xor, BitVec.getLsbD_shiftLeft, BitVec.getLsbD_and,
    BitVec.getLsbD_xor, BitVec.getLsbD_ushiftRight]
  by_cases hc : c < w
  · by_cases hshift : m.shift ≤ c
    · have hback : m.shift + (c - m.shift) = c := Nat.add_sub_cancel' hshift
      rw [hback]
      cases hmask : m.mask.getLsbD (c - m.shift)
      · simp
      · -- the row's own bit is added twice
        simp only [hc, hshift, Nat.not_lt.mpr hshift, decide_true, decide_false, Bool.not_false,
          Bool.true_and, if_pos, and_self]
        cases (rows m.b).getLsbD c <;> cases (rows m.a).getLsbD (c - m.shift) <;> rfl
    · simp [hshift, Nat.lt_of_not_le hshift]
  · simp [hc]

theorem getLsbD_apply_a (c : Nat) : (m.apply rows m.a).getLsbD c =
    if m.mask.getLsbD c then (rows m.b).getLsbD (c + m.shift) else (rows m.a).getLsbD c := by
  rw [apply_a, BitVec.getLsbD_xor, BitVec.getLsbD_and, BitVec.getLsbD_xor,
    BitVec.getLsbD_ushiftRight, Nat.add_comm]
  cases m.mask.getLsbD c <;> cases (rows m.a).getLsbD c <;> simp

theorem bitAt_apply (p : Fin n × Nat) : bitAt (m.apply rows) p = bitAt rows (m.source p) := by
  obtain ⟨r, c⟩ := p
  by_cases hb : r = m.b
  · subst hb
    rw [bitAt, getLsbD_apply_b, source, if_pos rfl]
    split <;> rfl
  · by_cases ha : r = m.a
    · subst ha
      rw [bitAt, getLsbD_apply_a, source, if_neg hb]
      by_cases hmask : m.mask.getLsbD c = true
      · rw [if_pos hmask, if_pos ⟨rfl, hmask⟩, bitAt]
      · rw [if_neg hmask, if_neg fun h => hmask h.2, bitAt]
    · rw [bitAt, apply_of_ne m rows ha hb, source, if_neg hb, if_neg fun h => ha h.1, bitAt]

/-- A network moves bits. -/
theorem bitAt_network (ms : List (Merge n w)) (p : Fin n × Nat) :
    bitAt (network ms rows) p = bitAt rows (trace ms p) := by
  induction ms generalizing rows with
  | nil => rfl
  | cons m ms ih =>
    have hrest := ih (m.apply rows)
    rw [bitAt_apply] at hrest
    exact hrest

end Merge

end LibretroUae.Lib
