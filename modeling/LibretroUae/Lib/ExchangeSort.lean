import Mathlib.Tactic.Common
import Mathlib.Data.List.Sort

/-!
# LibretroUae.Lib.ExchangeSort

**Sorting by exchanges.** The first place is compared with every later one, and takes its value
whenever that is smaller; then the second place is, and so on. The comparison is a test of being
greater that no two values pass both ways and whose failures are transitive.
-/

namespace LibretroUae.Lib

section

variable {α : Type} (gt : α → α → Bool)

/-- What the first place has at the end of a round, and what the later places have. -/
def exchangeRound : α → List α → α × List α
  | a, [] => (a, [])
  | a, b :: l =>
    if gt a b then ((exchangeRound b l).1, a :: (exchangeRound b l).2)
    else ((exchangeRound a l).1, b :: (exchangeRound a l).2)

/-- The rounds for as many places as there are values. -/
def exchangeRounds : Nat → List α → List α
  | 0, l => l
  | _ + 1, [] => []
  | n + 1, a :: l => (exchangeRound gt a l).1 :: exchangeRounds n (exchangeRound gt a l).2

def exchangeSort (l : List α) : List α := exchangeRounds gt l.length l

variable {gt}

theorem exchangeRound_perm (a : α) (l : List α) :
    ((exchangeRound gt a l).1 :: (exchangeRound gt a l).2).Perm (a :: l) := by
  induction l generalizing a with
  | nil => simp [exchangeRound]
  | cons b l ih =>
    rw [exchangeRound]
    split
    · exact (List.Perm.swap _ _ _).trans ((ih b).cons a)
    · calc (exchangeRound gt a l).1 :: b :: (exchangeRound gt a l).2
        |>.Perm (b :: (exchangeRound gt a l).1 :: (exchangeRound gt a l).2) := List.Perm.swap _ _ _
        _ |>.Perm (b :: a :: l) := (ih a).cons b
        _ |>.Perm (a :: b :: l) := List.Perm.swap _ _ _

theorem exchangeRounds_perm (n : Nat) (l : List α) : (exchangeRounds gt n l).Perm l := by
  induction n generalizing l with
  | zero => exact List.Perm.refl l
  | succ n ih =>
    cases l with
    | nil => exact List.Perm.refl []
    | cons a l => exact ((ih _).cons _).trans (exchangeRound_perm a l)

theorem exchangeSort_perm (l : List α) : (exchangeSort gt l).Perm l := exchangeRounds_perm _ l

variable (hasymm : ∀ a b, gt a b = true → gt b a = false)
  (htrans : ∀ a b c, gt a b = false → gt b c = false → gt a c = false)

include hasymm htrans

/-- The first place ends with a least value. -/
theorem exchangeRound_least (a : α) (l : List α) :
    gt (exchangeRound gt a l).1 a = false ∧
      ∀ x ∈ (exchangeRound gt a l).2, gt (exchangeRound gt a l).1 x = false := by
  induction l generalizing a with
  | nil =>
    refine ⟨?_, by simp [exchangeRound]⟩
    cases hself : gt a a with
    | false => exact hself
    | true => exact (hasymm a a hself)
  | cons b l ih =>
    rw [exchangeRound]
    split
    · next hgt =>
      obtain ⟨hleast, hall⟩ := ih b
      have ha := htrans _ _ _ hleast (hasymm a b hgt)
      exact ⟨ha, by simpa using ⟨ha, hall⟩⟩
    · next hgt =>
      obtain ⟨hleast, hall⟩ := ih a
      have hb := htrans _ _ _ hleast (Bool.eq_false_iff.mpr hgt)
      exact ⟨hleast, by simpa using ⟨hb, hall⟩⟩

theorem exchangeRounds_pairwise (n : Nat) (l : List α) (hlen : l.length ≤ n) :
    (exchangeRounds gt n l).Pairwise fun a b => gt a b = false := by
  induction n generalizing l with
  | zero =>
    obtain rfl := List.length_eq_zero_iff.mp (Nat.le_zero.mp hlen)
    exact List.Pairwise.nil
  | succ n ih =>
    cases l with
    | nil => exact List.Pairwise.nil
    | cons a l =>
      have hrest := (@exchangeRound_perm α gt a l).length_eq
      rw [exchangeRounds, List.pairwise_cons]
      refine ⟨fun x hx => ?_, ih _ (by simp at hrest hlen; omega)⟩
      have hmem := (exchangeRounds_perm n _).mem_iff.mp hx
      exact (exchangeRound_least hasymm htrans a l).2 x hmem

theorem exchangeSort_pairwise (l : List α) :
    (exchangeSort gt l).Pairwise fun a b => gt a b = false :=
  exchangeRounds_pairwise hasymm htrans l.length l (Nat.le_refl _)

end

end LibretroUae.Lib
