import Mathlib.Tactic.Common
import Mathlib.Data.BitVec
import Mathlib.Logic.Function.Iterate

/-!
# LibretroUae.Lib.ParityCode

**Words with two parity symbols.** Symbols are added bit by bit. A word is good when the sum of its
symbols is zero, and so is their sum when each is multiplied by a power of a fixed factor, one more
for every place from the last. Multiplying is a linear map whose powers fix nothing but zero before
they are back at the identity.

Two good words that are not longer than that never differ in just one or two places,
`Codeword.eq_of_two`.
-/

namespace LibretroUae.Lib

/-- The sum of the first `n` symbols. -/
def xorSum {w : Nat} (s : Nat → BitVec w) : Nat → BitVec w
  | 0 => 0#w
  | n + 1 => xorSum s n ^^^ s n

section

variable {w : Nat} {s t : Nat → BitVec w}

@[simp] theorem xorSum_zero : xorSum s 0 = 0#w := rfl

@[simp] theorem xorSum_succ (n : Nat) : xorSum s (n + 1) = xorSum s n ^^^ s n := rfl

theorem xorSum_congr {n : Nat} (h : ∀ i < n, s i = t i) : xorSum s n = xorSum t n := by
  induction n with
  | zero => rfl
  | succ n ih =>
    rw [xorSum_succ, xorSum_succ, ih fun i hi => h i (Nat.lt_succ_of_lt hi),
      h n (Nat.lt_succ_self n)]

theorem xorSum_xor (n : Nat) :
    xorSum (fun i => s i ^^^ t i) n = xorSum s n ^^^ xorSum t n := by
  induction n with
  | zero => simp
  | succ n ih =>
    rw [xorSum_succ, xorSum_succ, xorSum_succ, ih]
    ac_rfl

theorem xorSum_eq_zero {n : Nat} (h : ∀ i < n, s i = 0#w) : xorSum s n = 0#w := by
  induction n with
  | zero => rfl
  | succ n ih => simp [ih fun i hi => h i (Nat.lt_succ_of_lt hi), h n (Nat.lt_succ_self n)]

/-- All symbols but one are zero. -/
theorem xorSum_one {n i : Nat} (hi : i < n) (h : ∀ k < n, k ≠ i → s k = 0#w) :
    xorSum s n = s i := by
  induction n with
  | zero => exact absurd hi (Nat.not_lt_zero i)
  | succ n ih =>
    rw [xorSum_succ]
    rcases Nat.lt_succ_iff_lt_or_eq.mp hi with hlt | rfl
    · have hlast := h n (Nat.lt_succ_self n) (Nat.ne_of_gt hlt)
      simp [ih hlt fun k hk => h k (Nat.lt_succ_of_lt hk), hlast]
    · simp [xorSum_eq_zero fun k hk => h k (Nat.lt_succ_of_lt hk) (Nat.ne_of_lt hk)]

/-- All symbols but two are zero. -/
theorem xorSum_two {n i j : Nat} (hij : i < j) (hj : j < n)
    (h : ∀ k < n, k ≠ i → k ≠ j → s k = 0#w) : xorSum s n = s i ^^^ s j := by
  induction n with
  | zero => exact absurd hj (Nat.not_lt_zero j)
  | succ n ih =>
    rw [xorSum_succ]
    rcases Nat.lt_succ_iff_lt_or_eq.mp hj with hlt | rfl
    · have hlast := h n (Nat.lt_succ_self n) (Nat.ne_of_gt (Nat.lt_trans hij hlt))
        (Nat.ne_of_gt hlt)
      simp [ih hlt fun k hk => h k (Nat.lt_succ_of_lt hk), hlast]
    · rw [xorSum_one hij fun k hk hki => h k (Nat.lt_succ_of_lt hk) hki (Nat.ne_of_lt hk)]

end

/-- A factor whose powers return to one after `order` steps. -/
structure Factor (w order : Nat) where
  mul : BitVec w → BitVec w
  mul_xor : ∀ a b, mul (a ^^^ b) = mul a ^^^ mul b
  pos : 0 < order
  period : ∀ a, mul^[order] a = a
  free : ∀ k a, 0 < k → k < order → mul^[k] a = a → a = 0#w

namespace Factor

variable {w order : Nat} (α : Factor w order)

/-- The product with a power. -/
def pow (k : Nat) (a : BitVec w) : BitVec w := α.mul^[k] a

@[simp] theorem pow_zero (a : BitVec w) : α.pow 0 a = a := rfl

theorem pow_add (k l : Nat) (a : BitVec w) : α.pow (k + l) a = α.pow k (α.pow l a) :=
  Function.iterate_add_apply α.mul k l a

theorem pow_comm (k l : Nat) (a : BitVec w) : α.pow k (α.pow l a) = α.pow l (α.pow k a) := by
  rw [← pow_add, Nat.add_comm, pow_add]

theorem pow_succ (k : Nat) (a : BitVec w) : α.pow (k + 1) a = α.pow k (α.mul a) :=
  Function.iterate_succ_apply α.mul k a

theorem pow_xor (k : Nat) (a b : BitVec w) : α.pow k (a ^^^ b) = α.pow k a ^^^ α.pow k b := by
  induction k generalizing a b with
  | zero => rfl
  | succ k ih => rw [pow_succ, pow_succ, pow_succ, α.mul_xor, ih]

theorem pow_apply_zero (k : Nat) : α.pow k 0#w = 0#w := by
  have h := α.pow_xor k 0#w 0#w
  rwa [BitVec.xor_self, BitVec.xor_self] at h

theorem pow_xorSum (k : Nat) (s : Nat → BitVec w) (n : Nat) :
    α.pow k (xorSum s n) = xorSum (fun i => α.pow k (s i)) n := by
  induction n with
  | zero => exact α.pow_apply_zero k
  | succ n ih => rw [xorSum_succ, xorSum_succ, pow_xor, ih]

theorem mul_injective : Function.Injective α.mul := by
  have hback : Function.LeftInverse (α.pow (order - 1)) α.mul := by
    intro a
    have hperiod := α.period a
    rwa [← pow_succ, Nat.sub_add_cancel α.pos]
  exact hback.injective

theorem pow_injective (k : Nat) : Function.Injective (α.pow k) := α.mul_injective.iterate k

/-- Different powers only take zero to the same. -/
theorem eq_zero_of_pow_eq {k l : Nat} {a : BitVec w} (hkl : k < l) (hl : l < order + k)
    (h : α.pow k a = α.pow l a) : a = 0#w := by
  have hsplit : l = k + (l - k) := (Nat.add_sub_cancel' (Nat.le_of_lt hkl)).symm
  rw [hsplit, pow_add] at h
  exact α.free (l - k) a (Nat.sub_pos_of_lt hkl) (by omega) (α.pow_injective k h).symm

/-! ### Good words -/

/-- The sum of `n` symbols with their places' powers. -/
def weighted (s : Nat → BitVec w) (n : Nat) : BitVec w :=
  xorSum (fun i => α.pow (n - 1 - i) (s i)) n

/-- A word of `n` symbols is good. -/
def Codeword (s : Nat → BitVec w) (n : Nat) : Prop := xorSum s n = 0#w ∧ α.weighted s n = 0#w

variable {α} {s t : Nat → BitVec w} {n : Nat}

theorem Codeword.congr (h : α.Codeword s n) (heq : ∀ i < n, s i = t i) : α.Codeword t n := by
  refine ⟨(xorSum_congr heq).symm.trans h.1, Eq.trans ?_ h.2⟩
  exact xorSum_congr fun i hi => by rw [heq i hi]

theorem Codeword.xor (hs : α.Codeword s n) (ht : α.Codeword t n) :
    α.Codeword (fun i => s i ^^^ t i) n := by
  constructor
  · rw [xorSum_xor, hs.1, ht.1, BitVec.xor_self]
  · have hsum : α.weighted (fun i => s i ^^^ t i) n = α.weighted s n ^^^ α.weighted t n := by
      simp only [weighted, pow_xor, xorSum_xor]
    rw [hsum, hs.2, ht.2, BitVec.xor_self]

/-- Good words that differ in two places at most are the same. -/
theorem Codeword.eq_of_two (hs : α.Codeword s n) (ht : α.Codeword t n) (hn : n ≤ order) {i j : Nat}
    (hij : i < j) (hj : j < n) (h : ∀ k < n, k ≠ i → k ≠ j → s k = t k) : ∀ k < n, s k = t k := by
  obtain ⟨hsum, hweighted⟩ := hs.xor ht
  have hsame : ∀ k < n, k ≠ i → k ≠ j → s k ^^^ t k = 0#w := fun k hk hi hj => by
    rw [h k hk hi hj, BitVec.xor_self]
  rw [xorSum_two hij hj hsame, BitVec.xor_eq_zero_iff] at hsum
  rw [weighted, xorSum_two hij hj fun k hk hi hj => by rw [hsame k hk hi hj, pow_apply_zero],
    BitVec.xor_eq_zero_iff, ← hsum] at hweighted
  have hzero : s i ^^^ t i = 0#w :=
    α.eq_zero_of_pow_eq (k := n - 1 - j) (l := n - 1 - i) (by omega) (by omega) hweighted.symm
  intro k hk
  by_cases hki : k = i
  · exact hki ▸ BitVec.xor_eq_zero_iff.mp hzero
  · by_cases hkj : k = j
    · exact hkj ▸ BitVec.xor_eq_zero_iff.mp (hsum ▸ hzero)
    · exact h k hk hki hkj

/-- What the parity symbols are made of: the two take each symbol with a power, such that the three
are a good word, wherever the symbol stands. -/
theorem codeword_of_parity {d0 d1 : Nat → Nat}
    (h0 : ∀ i < n, ∀ a, a ^^^ α.pow (d0 i) a ^^^ α.pow (d1 i) a = 0#w)
    (h1 : ∀ i < n, ∀ a, α.pow (n + 1 - i) a ^^^ α.pow (d0 i + 1) a ^^^ α.pow (d1 i) a = 0#w)
    (hp0 : s n = xorSum (fun i => α.pow (d0 i) (s i)) n)
    (hp1 : s (n + 1) = xorSum (fun i => α.pow (d1 i) (s i)) n) : α.Codeword s (n + 2) := by
  constructor
  · rw [xorSum_succ, xorSum_succ, hp0, hp1, ← xorSum_xor, ← xorSum_xor]
    exact xorSum_eq_zero fun i hi => h0 i hi (s i)
  · have hlast : n + 2 - 1 - n = 1 := by omega
    have hend : n + 2 - 1 - (n + 1) = 0 := by omega
    rw [weighted, xorSum_succ, xorSum_succ, hlast, hend, pow_zero, hp0, hp1, pow_xorSum,
      ← xorSum_xor, ← xorSum_xor]
    refine xorSum_eq_zero fun i hi => ?_
    rw [← pow_add, Nat.add_comm 1]
    exact h1 i hi (s i)

end Factor

end LibretroUae.Lib
