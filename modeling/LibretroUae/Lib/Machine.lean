import Mathlib.Tactic.Common
import Mathlib.Tactic.Ring

/-!
# LibretroUae.Lib.Machine

**Machines that may fault.** A machine takes inputs from an environment; the
environment promises something about each input (`legal`), and the machine either
moves to a next state or faults. A run is any list of legal inputs, and its result
is the last state or the fault that ended it.

The invariant rule is stated once: an invariant that holds at the start and lets
every legal input through to a state where it holds again keeps every run from
faulting.
-/

namespace LibretroUae.Lib

/-- What comes of a sequence of two steps comes of the second after the first. -/
theorem ok_of_bind {ε α β : Type} {x : Except ε α} {f : α → Except ε β} {r : β}
    (h : (x >>= f) = .ok r) : ∃ a, x = .ok a ∧ f a = .ok r := by
  cases x with
  | error e => cases h
  | ok a => exact ⟨a, rfl, h⟩

/-- A machine over states `σ` and inputs `ι` with faults `ε`. -/
structure Machine (σ ι ε : Type) where
  /-- What the environment promises of an input in a state. -/
  legal : σ → ι → Prop
  step : σ → ι → Except ε σ

namespace Machine

variable {σ ι ε : Type} {M : Machine σ ι ε}

/-- `M.Run s is r`: the legal inputs `is` take `s` to `r`. -/
inductive Run (M : Machine σ ι ε) : σ → List ι → Except ε σ → Prop
  | nil (s : σ) : Run M s [] (.ok s)
  | cons {s s' : σ} {i : ι} {is : List ι} {r : Except ε σ} :
      M.legal s i → M.step s i = .ok s' → Run M s' is r → Run M s (i :: is) r
  | fault {s : σ} {i : ι} (is : List ι) {e : ε} :
      M.legal s i → M.step s i = .error e → Run M s (i :: is) (.error e)

/-- Inputs that are always legal are a run, wherever they lead. -/
theorem Run.foldlM {s : σ} {is : List ι} (h : ∀ i ∈ is, ∀ s, M.legal s i) :
    M.Run s is (is.foldlM M.step s) := by
  induction is generalizing s with
  | nil => exact .nil s
  | cons i is ih =>
    have hi := h i List.mem_cons_self s
    rw [List.foldlM_cons]
    cases hstep : M.step s i with
    | error e => exact .fault is hi hstep
    | ok s' => exact .cons hi hstep (ih fun j hj => h j (List.mem_cons_of_mem i hj))

/-- The states that runs from `s` end in. -/
def Reachable (M : Machine σ ι ε) (s s' : σ) : Prop := ∃ is, M.Run s is (.ok s')

/-- Runs can be continued. -/
theorem Reachable.trans {s t u : σ} (h : M.Reachable s t) (h' : M.Reachable t u) :
    M.Reachable s u := by
  obtain ⟨is, hrun⟩ := h
  obtain ⟨js, hrun'⟩ := h'
  refine ⟨is ++ js, ?_⟩
  generalize hr : Except.ok t = r at hrun
  induction hrun with
  | nil _ => exact Except.ok.inj hr ▸ hrun'
  | cons hlegal hstep _ ih => exact .cons hlegal hstep (ih hr)
  | fault => cases hr

/-- What every step keeps holds wherever a run gets without a fault. -/
theorem Reachable.induct {P : σ → Prop} {s s' : σ} (h : M.Reachable s s')
    (hstep : ∀ {t i t'}, P t → M.legal t i → M.step t i = .ok t' → P t') (hs : P s) : P s' := by
  obtain ⟨is, hrun⟩ := h
  generalize hr : Except.ok s' = r at hrun
  induction hrun with
  | nil _ => exact Except.ok.inj hr ▸ hs
  | cons hlegal hnext _ ih => exact ih (hstep hs hlegal hnext) hr
  | fault => cases hr

/-- An inductive invariant: each legal input is let through and keeps it. -/
def Invariant (M : Machine σ ι ε) (Inv : σ → Prop) : Prop :=
  ∀ s i, Inv s → M.legal s i → ∃ s', M.step s i = .ok s' ∧ Inv s'

/-- An invariant that holds at the start makes every run end in a state where it
holds; in particular no run faults. -/
theorem Invariant.run {Inv : σ → Prop} (hinv : M.Invariant Inv) {s : σ} {is : List ι}
    {r : Except ε σ} (hrun : M.Run s is r) (hs : Inv s) : ∃ s', r = .ok s' ∧ Inv s' := by
  induction hrun with
  | nil s => exact ⟨s, rfl, hs⟩
  | cons hlegal hstep _ ih =>
    obtain ⟨s', hstep', hs'⟩ := hinv _ _ hs hlegal
    obtain rfl : s' = _ := Except.ok.inj (hstep'.symm.trans hstep)
    exact ih hs'
  | fault _ hlegal hstep =>
    obtain ⟨s', hstep', -⟩ := hinv _ _ hs hlegal
    rw [hstep] at hstep'
    exact absurd hstep' (by simp)

/-- Runs a list of inputs: the last state, if every input is legal and let through. -/
def exec (M : Machine σ ι ε) [∀ s i, Decidable (M.legal s i)] : σ → List ι → Option σ
  | s, [] => some s
  | s, i :: is =>
    if M.legal s i then
      match M.step s i with
      | .ok s' => exec M s' is
      | .error _ => none
    else none

/-- What `exec` computes is a run. -/
theorem run_of_exec [∀ s i, Decidable (M.legal s i)] {is : List ι} :
    ∀ {s s' : σ}, M.exec s is = some s' → M.Run s is (.ok s') := by
  induction is with
  | nil =>
    intro s s' h
    obtain rfl : s = s' := Option.some.inj h
    exact .nil s
  | cons i is ih =>
    intro s s' h
    rw [exec] at h
    split_ifs at h with hlegal
    cases hstep : M.step s i with
    | error e => simp [hstep] at h
    | ok t =>
      rw [hstep] at h
      exact .cons hlegal hstep (ih h)

theorem reachable_of_exec [∀ s i, Decidable (M.legal s i)] {is : List ι} {s s' : σ}
    (h : M.exec s is = some s') : M.Reachable s s' :=
  ⟨is, run_of_exec h⟩

theorem Invariant.reachable {Inv : σ → Prop} (hinv : M.Invariant Inv) {s s' : σ}
    (h : M.Reachable s s') (hs : Inv s) : Inv s' := by
  obtain ⟨is, hrun⟩ := h
  obtain ⟨t, ht, hInv⟩ := hinv.run hrun hs
  obtain rfl : s' = t := Except.ok.inj ht
  exact hInv

end Machine

end LibretroUae.Lib
