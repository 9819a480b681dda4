import Mathlib.Tactic.Common

/-!
# LibretroUae.Lib.Loop

**Counted loops.** A loop runs its body for `0 … n - 1`. Its invariant is over the number of
rounds that are done, and two loops of one length are related round by round.
-/

namespace LibretroUae.Lib

variable {σ τ : Type}

/-- `for (i = 0; i < n; i++)`. -/
def loop (body : Nat → σ → σ) : Nat → σ → σ
  | 0, s => s
  | n + 1, s => body n (loop body n s)

variable {body : Nat → σ → σ} {body' : Nat → τ → τ} {n : Nat} {s : σ} {t : τ}

theorem loop_succ (body : Nat → σ → σ) (n : Nat) (s : σ) :
    loop body (n + 1) s = body n (loop body n s) := rfl

/-- What a round takes from `i` to `i + 1` holds after the loop. -/
theorem loop_induct {P : Nat → σ → Prop} (h0 : P 0 s)
    (hstep : ∀ i s, i < n → P i s → P (i + 1) (body i s)) : P n (loop body n s) := by
  induction n with
  | zero => exact h0
  | succ n ih =>
    exact hstep n _ (Nat.lt_succ_self n) (ih fun i s hi => hstep i s (Nat.lt_succ_of_lt hi))

/-- Two loops, related round by round. -/
theorem loop_sim {R : Nat → σ → τ → Prop} (h0 : R 0 s t)
    (hstep : ∀ i s t, i < n → R i s t → R (i + 1) (body i s) (body' i t)) :
    R n (loop body n s) (loop body' n t) := by
  induction n with
  | zero => exact h0
  | succ n ih =>
    exact hstep n _ _ (Nat.lt_succ_self n) (ih fun i s t hi => hstep i s t (Nat.lt_succ_of_lt hi))

end LibretroUae.Lib
