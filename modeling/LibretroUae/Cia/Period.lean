import LibretroUae.Cia.Lazy

/-!
# LibretroUae.Cia.Period

**The period of a continuous timer** in accurate mode. An underflow reloads the timer from its
latch `N` and takes one clock out of the pipe, so the next E-clock fills the pipe again without a
count and `N` more count down to zero; with `N = 0` the interrupt comes one E-clock early, as soon
as the pipe is full. Either way the timer is in one of `N + 1` phases (`Phase`) and underflows on
leaving the last one.
-/

namespace LibretroUae.CiaChips

open LibretroUae.Lib

/-! ### Continuous timers -/

/-- The timer counts E-clocks, goes on after an underflow and has no load pending. -/
structure Continuous (tn : Fin 2) (t : CiaTimer) : Prop where
  count : counting tn t
  runmode : t.cr &&& crRunmode = 0
  loaddelay : t.loaddelay = 0

/-- The bit of the interrupt register a timer sets. -/
def icrBit : Fin 2 → BitVec 8
  | 0 => icrA
  | 1 => icrB

/-- The count of one E-clock and the local `ovfl[tn]`. -/
def countOne (tn : Fin 2) (t : CiaTimer) : CiaTimer × Nat :=
  let r := processPipe true t 1 (eclockMask tn) 0 false
  if 0 < r.out then
    (r.t.countDown r.out, if (r.t.countDown r.out).timer = 0 then 2 else r.ovfl)
  else (r.t, r.ovfl)

/-- What one E-clock makes of a continuous timer. -/
def afterOne (tn : Fin 2) (t : CiaTimer) : CiaTimer :=
  reload true (countOne tn t).2 {} (countOne tn t).1

/-- Whether it underflows. -/
def Underflows (tn : Fin 2) (t : CiaTimer) : Prop := 1 < (countOne tn t).2

theorem countOne_cr (tn : Fin 2) (t : CiaTimer) : (countOne tn t).1.cr = t.cr := by
  unfold countOne processPipe
  dsimp only
  split_ifs <;> rfl

theorem countA_one {c : Cia} (hc : counting 0 c.t0) :
    (countA true 1 c {}).1.t0 = (countOne 0 c.t0).1 ∧
      (countA true 1 c {}).2.1 = (countOne 0 c.t0).2 := by
  unfold countA countOne
  rw [if_pos (Or.inl hc)]
  dsimp only
  split_ifs with hout hzero
  · rw [underflowA_t0, underflowA, if_pos hzero]
    exact ⟨rfl, rfl⟩
  · rw [underflowA_t0, underflowA, if_neg hzero]
    exact ⟨rfl, rfl⟩
  · exact ⟨rfl, rfl⟩

theorem countB_one {t : CiaTimer} (hc : counting 1 t) : countB true 1 t {} = countOne 1 t := by
  have hmode : (processPipe true t 1 (eclockMask 1) 0 false).t.cr &&& (crInmode ||| crInmode1) = 0 :=
    inmode_of_counting hc
  unfold countB countOne
  rw [if_pos (Or.inl hc)]
  dsimp only
  by_cases hout : 0 < (processPipe true t 1 (eclockMask 1) 0 false).out
  · rw [if_pos hout, if_pos hout, underflowB]
    simp only [hmode, ne_eq, not_true_eq_false, and_false, if_false, not_false_eq_true, and_true]
  · rw [if_neg hout, if_neg hout]

/-- A timer that counts E-clocks does not count underflows. -/
theorem feedB_of_counting {t : CiaTimer} (hc : counting 1 t) (ovfl : Nat) : feedB ovfl t = t := by
  have hmode : ∀ cr : BitVec 8, cr &&& (crInmode ||| crInmode1 ||| crStart) = crStart →
      ¬ (cr &&& (crInmode ||| crInmode1 ||| crStart) = crInmode1 ||| crStart ∨
        cr &&& (crInmode ||| crInmode1 ||| crStart) = crInmode ||| crInmode1 ||| crStart) := by
    decide
  rw [feedB, if_neg]
  rintro ⟨-, h⟩
  exact hmode t.cr hc h

theorem icrBits_A (a b : Nat) (sp : Bool) : icrBits a b sp &&& icrBit 0 ≠ 0 ↔ 1 < a := by
  unfold icrBits
  split_ifs with ha hb hsp hsp hb hsp hsp <;> simp [ha, icrBit]

theorem icrBits_B (a b : Nat) (sp : Bool) : icrBits a b sp &&& icrBit 1 ≠ 0 ↔ 1 < b := by
  unfold icrBits
  split_ifs with ha hb hsp hsp hb hsp hsp <;> simp [hb, icrBit]

/-- One update over one E-clock, seen from a continuous timer. -/
theorem updateChip_continuous {c c' : Cia} {icr icr' : Bool} {tn : Fin 2}
    (h : ChipOk False c) (ht : Continuous tn (c.t tn))
    (hup : updateChip true 1 icr c = .ok (c', icr')) :
    c'.t tn = afterOne tn (c.t tn) ∧ (c'.icr2 &&& icrBit tn ≠ 0 ↔ Underflows tn (c.t tn)) := by
  obtain ⟨t0, fl0, h0, hok0⟩ := loadSpecial_ok h.1 (fun _ => Nat.le_refl 1)
  obtain ⟨t1, fl1, h1, hok1⟩ := loadSpecial_ok h.2 (fun _ => Nat.le_refl 1)
  have hok : ChipOk False { foldIcr c with t0 := t0, t1 := t1 } := ⟨hok0, hok1⟩
  have hr := countTimers_ok hok true 1 fl0 fl1
  rw [updateChip_eq true icr h0 h1 hr.1.timer hr.2.timer, Except.ok.injEq, Prod.mk.injEq] at hup
  obtain ⟨rfl, -⟩ := hup
  have hload {t : CiaTimer} (hz : t.loaddelay = 0) : loadSpecial t 1 = .ok (t, {}) := by
    rw [loadSpecial, if_pos hz]
  rcases eq_zero_or_one tn with rfl | rfl
  · rw [Cia.t_zero] at ht
    rw [hload ht.loaddelay, Except.ok.injEq, Prod.mk.injEq] at h0
    obtain ⟨rfl, rfl⟩ := h0
    have hcount := countA_one (c := { foldIcr c with t0 := c.t0, t1 := t1 }) ht.count
    refine ⟨?_, ?_⟩
    · rw [Cia.t_zero, latchIcr_t0]
      change reload true (countA true 1 _ {}).2.1 {} (countA true 1 _ {}).1.t0 = _
      rw [hcount.1, hcount.2]
      rfl
    · change icrBits (countA true 1 _ {}).2.1 _ _ &&& icrBit 0 ≠ 0 ↔ _
      rw [icrBits_A, hcount.2]
      rfl
  · rw [Cia.t_one] at ht
    rw [hload ht.loaddelay, Except.ok.injEq, Prod.mk.injEq] at h1
    obtain ⟨rfl, rfl⟩ := h1
    have hb : (countTimers true 1 fl0 {} { foldIcr c with t0 := t0, t1 := c.t1 }).c.t1 =
          (countOne 1 c.t1).1 ∧
        (countTimers true 1 fl0 {} { foldIcr c with t0 := t0, t1 := c.t1 }).ovflB =
          (countOne 1 c.t1).2 := by
      simp only [countTimers, countA_t1, countB_one ht.count, and_self]
    have hfeed : counting 1 (countOne 1 c.t1).1 := by
      rw [counting, countOne_cr]
      exact ht.count
    refine ⟨?_, ?_⟩
    · rw [Cia.t_one, latchIcr_t1]
      change reload true (countTimers true 1 fl0 {} _).ovflB {}
        (feedB _ (countTimers true 1 fl0 {} _).c.t1) = _
      rw [hb.1, hb.2, feedB_of_counting hfeed]
      rfl
    · change icrBits _ (countTimers true 1 fl0 {} _).ovflB _ &&& icrBit 1 ≠ 0 ↔ _
      rw [icrBits_B, hb.2]
      rfl

/-! ### The phases -/

/-- The timer `k` E-clocks after an underflow, before the next one. -/
structure Phase (tn : Fin 2) (n k : Nat) (t : CiaTimer) : Prop where
  continuous : Continuous tn t
  latch : t.latch = n
  preovfl : t.preovfl = false
  timer : t.timer = n - (k - 1)
  pipe : t.inputpipe = if k = 0 then pipeInput else pipeAllMask

theorem countOne_loaddelay (tn : Fin 2) (t : CiaTimer) :
    (countOne tn t).1.loaddelay = t.loaddelay := by
  unfold countOne processPipe
  dsimp only
  split_ifs <;> rfl

theorem countOne_latch (tn : Fin 2) (t : CiaTimer) : (countOne tn t).1.latch = t.latch := by
  unfold countOne processPipe
  dsimp only
  split_ifs <;> rfl

theorem countOne_preovfl (tn : Fin 2) (t : CiaTimer) : (countOne tn t).1.preovfl = t.preovfl := by
  unfold countOne processPipe
  dsimp only
  split_ifs <;> rfl

/-- The pipe of a timer that counts E-clocks, over one of them. -/
theorem processPipe_one {tn : Fin 2} {t : CiaTimer} (hc : counting tn t) :
    processPipe true t 1 (eclockMask tn) 0 false =
      { t := { t with inputpipe := shiftPipe true t.inputpipe }
        out := if t.inputpipe &&& pipeOutput = 0 then 0 else 1
        ovfl := if t.timer = 0 ∧ t.latch = 0 ∧
          shiftPipe true t.inputpipe &&& pipeOutput ≠ 0 then 2 else 0 } := by
  have hin : decide (t.cr &&& eclockMask tn = crStart) = true := decide_eq_true hc
  unfold processPipe
  rw [hin]
  simp only [and_self, if_true, Bool.false_eq_true, if_false]

theorem countOne_pipe {tn : Fin 2} {t : CiaTimer} (hc : counting tn t) :
    (countOne tn t).1.inputpipe = shiftPipe true t.inputpipe := by
  rw [countOne, processPipe_one hc]
  dsimp only
  split_ifs <;> rfl

/-- What a restart leaves of a continuous timer: the pipe loses its output stage. -/
theorem restart_continuous {t : CiaTimer} (h : t.cr &&& crRunmode = 0) :
    restart true {} t = t.clrPipe pipeClr1 := by
  rw [restart, if_neg Bool.false_ne_true, if_neg (not_not.mpr h), if_pos rfl]

/-- An underflow is the start of a period. -/
theorem Continuous.underflow {tn : Fin 2} {t : CiaTimer} (h : Continuous tn t)
    (hok : PipeOk t.inputpipe) (hovfl : Underflows tn t) : Phase tn t.latch 0 (afterOne tn t) := by
  have hne : (countOne tn t).2 ≠ 0 := by
    have := hovfl
    unfold Underflows at this
    omega
  have hrun : (countOne tn t).1.load.cr &&& crRunmode = 0 := by
    change (countOne tn t).1.cr &&& crRunmode = 0
    rw [countOne_cr]
    exact h.runmode
  have hafter : afterOne tn t =
      { (countOne tn t).1.load.clrPipe pipeClr1 with preovfl := false } := by
    rw [afterOne, reload, if_pos (Or.inl hne), if_pos hne, restart_continuous hrun]
  rw [hafter]
  refine ⟨⟨?_, ?_, ?_⟩, countOne_latch tn t, rfl, ?_, ?_⟩
  · change (countOne tn t).1.cr &&& eclockMask tn = crStart
    rw [countOne_cr]
    exact h.count
  · change (countOne tn t).1.cr &&& crRunmode = 0
    rw [countOne_cr]
    exact h.runmode
  · exact (countOne_loaddelay tn t).trans h.loaddelay
  · exact countOne_latch tn t
  · change (countOne tn t).1.inputpipe &&& ~~~pipeClr1 = _
    rw [countOne_pipe h.count, if_pos rfl]
    rcases hok with hp | hp | hp | hp <;> rw [hp] <;> decide

theorem Continuous.counted {tn : Fin 2} {t : CiaTimer} (h : Continuous tn t) :
    Continuous tn (countOne tn t).1 := by
  refine ⟨?_, ?_, (countOne_loaddelay tn t).trans h.loaddelay⟩
  · rw [counting, countOne_cr]
    exact h.count
  · rw [countOne_cr]
    exact h.runmode

/-- An E-clock leaves a continuous timer continuous, with its latch. -/
theorem Continuous.afterOne {tn : Fin 2} {t : CiaTimer} (h : Continuous tn t) :
    Continuous tn (afterOne tn t) ∧ (afterOne tn t).latch = t.latch := by
  obtain ⟨hcount, hrunmode, hload⟩ := h.counted
  have hlatch := countOne_latch tn t
  unfold CiaChips.afterOne reload
  by_cases hne : (countOne tn t).2 ≠ 0
  · rw [if_pos (Or.inl hne), if_pos hne, restart_continuous (t := (countOne tn t).1.load) hrunmode]
    exact ⟨⟨hcount, hrunmode, hload⟩, hlatch⟩
  · by_cases hpre : (countOne tn t).1.preovfl = true
    · rw [if_pos (Or.inr hpre), if_neg hne, restart_continuous hrunmode]
      exact ⟨⟨hcount, hrunmode, hload⟩, hlatch⟩
    · rw [if_neg (not_or.2 ⟨hne, hpre⟩)]
      exact ⟨⟨hcount, hrunmode, hload⟩, hlatch⟩

/-- One E-clock without an underflow. -/
theorem afterOne_of_not_underflows {tn : Fin 2} {t : CiaTimer} (hzero : (countOne tn t).2 = 0)
    (hpre : t.preovfl = false) : afterOne tn t = (countOne tn t).1 := by
  have hpre' : (countOne tn t).1.preovfl = false := (countOne_preovfl tn t).trans hpre
  rw [afterOne, reload, if_neg]
  rintro (h | h)
  · exact h hzero
  · rw [hpre'] at h
    exact absurd h (by decide)

/-- What a timer at the start of its period does: the pipe fills, and with a zero latch that is
the underflow. -/
theorem Phase.countOne_zero {tn : Fin 2} {n : Nat} {t : CiaTimer} (h : Phase tn n 0 t) :
    countOne tn t = ({ t with inputpipe := pipeAllMask }, if n = 0 then 2 else 0) := by
  have hpipe : t.inputpipe = pipeInput := h.pipe
  have hshift : shiftPipe true pipeInput = pipeAllMask := by decide
  have hfull : pipeAllMask &&& pipeOutput ≠ 0 := by decide
  have hnone : pipeInput &&& pipeOutput = 0 := by decide
  have hiff : (t.timer = 0 ∧ t.latch = 0 ∧ pipeAllMask &&& pipeOutput ≠ 0) ↔ n = 0 := by
    rw [h.timer, h.latch]
    exact ⟨fun hz => hz.2.1, fun hz => ⟨by omega, hz, hfull⟩⟩
  rw [countOne, processPipe_one h.continuous.count, hpipe]
  simp only [hshift, hnone, hiff, if_true, Nat.lt_irrefl, if_false]

/-- What it does later in the period. -/
theorem Phase.countOne_pos {tn : Fin 2} {n k : Nat} {t : CiaTimer} (h : Phase tn n k t)
    (hk : 1 ≤ k ∧ k ≤ n) (hn : n < 65536) :
    countOne tn t = ({ t with timer := n - k }, if k = n then 2 else 0) := by
  have hpipe : t.inputpipe = pipeAllMask := by rw [h.pipe, if_neg (by omega)]
  have hshift : shiftPipe true pipeAllMask = pipeAllMask := by decide
  have hout : ¬ (pipeAllMask &&& pipeOutput = 0) := by decide
  have hpos : ¬ t.timer = 0 := by
    rw [h.timer]
    omega
  have hsub : subTimer t.timer 1 = n - k := by
    rw [subTimer_of_le (by rw [h.timer]; omega) (by rw [h.timer]; omega), h.timer]
    omega
  have hiff : n - k = 0 ↔ k = n := by omega
  rw [countOne, processPipe_one h.continuous.count, hpipe]
  simp only [hshift, hout, hpos, false_and, if_false, Nat.lt_add_one, if_true, CiaTimer.countDown,
    hsub, hiff]

/-- The step from one phase to the next. -/
theorem Phase.next {tn : Fin 2} {n k : Nat} {t : CiaTimer} (h : Phase tn n k t) (hk : k ≤ n)
    (hn : n < 65536) :
    (Underflows tn t ↔ k = n) ∧ Phase tn n (if k = n then 0 else k + 1) (afterOne tn t) := by
  have hpipe : PipeOk t.inputpipe := by
    rw [h.pipe]
    split_ifs <;> decide
  have hcount : (countOne tn t).2 = if k = n then 2 else 0 := by
    by_cases hzero : k = 0
    · subst hzero
      rw [h.countOne_zero]
      simp only [eq_comm]
    · rw [h.countOne_pos (by omega) hn]
  have hiff : Underflows tn t ↔ k = n := by
    unfold Underflows
    rw [hcount]
    split_ifs with hkn <;> simp [hkn]
  refine ⟨hiff, ?_⟩
  by_cases hkn : k = n
  · rw [if_pos hkn, ← h.latch]
    exact h.continuous.underflow hpipe (hiff.2 hkn)
  · rw [if_neg hkn] at hcount ⊢
    rw [afterOne_of_not_underflows hcount h.preovfl]
    refine ⟨h.continuous.counted, (countOne_latch tn t).trans h.latch, (countOne_preovfl tn t).trans h.preovfl,
      ?_, ?_⟩
    · by_cases hzero : k = 0
      · subst hzero
        rw [h.countOne_zero]
        exact h.timer
      · rw [h.countOne_pos (by omega) hn]
        rfl
    · rw [countOne_pipe h.continuous.count, h.pipe, if_neg (Nat.succ_ne_zero k)]
      split_ifs <;> decide

/-! ### Runs of E-clocks -/

/-- One E-clock: time passes, nothing touches the timers, and `CIA_handler` sees one clock. -/
def EClock (s s' : State) : Prop :=
  ∃ s1 dt, SameTimers s s1 ∧ ciaclocks { s1 with cycles := s1.cycles + dt } = 1 ∧
    ciaHandler { s1 with cycles := s1.cycles + dt } = .ok s'

/-- The E-clock sets the bit of timer `tn` of chip `num`. -/
def Fires (num tn : Fin 2) (s' : State) : Prop := (s'.cia num).icr2 &&& icrBit tn ≠ 0

theorem ciaCheckIcr_icr2 (s : State) (num : Fin 2) :
    ((ciaCheckIcr s).cia num).icr2 = (s.cia num).icr2 := by
  have hrethink (c : Cia) : (rethinkIcr c).icr2 = c.icr2 := by
    unfold rethinkIcr
    split <;> rfl
  match num with
  | 0 =>
    simp only [ciaCheckIcr, State.cia_zero]
    split
    · exact hrethink _
    · rfl
  | 1 =>
    simp only [ciaCheckIcr, State.cia_one]
    split
    · exact hrethink _
    · rfl

/-- An E-clock is one update over one clock of each chip. -/
theorem EClock.update {s s' : State} (h : EClock s s') (hok : TimersOk False s)
    (hacc : s.accurate = true) :
    TimersOk False s' ∧ s'.accurate = true ∧ ∀ num, ∃ c c' icr icr',
      c.t0 = (s.cia num).t0 ∧ c.t1 = (s.cia num).t1 ∧
      updateChip true 1 icr c = .ok (c', icr') ∧
      (∀ tn, (s'.cia num).t tn = c'.t tn) ∧ (s'.cia num).icr2 = c'.icr2 := by
  obtain ⟨s1, dt, hsame, hclock, hrun⟩ := h
  have hok1 := hsame.timersOk hok
  obtain ⟨c0, i0, h0, hok0⟩ :=
    updateChip_ok (n := 1) true false hok1.chip0 (fun _ _ => Nat.le_refl 1)
  obtain ⟨c1, i1, h1, hok1'⟩ :=
    updateChip_ok (n := 1) true i0 hok1.chip1 (fun _ _ => Nat.le_refl 1)
  have hacc1 : s1.accurate = true := hsame.accurate.trans hacc
  have hchips : updateChips 1 s1.cia0 s1.cia1 = .ok (c0, c1) := by
    simp only [updateChips, h0, h1, bind, Except.bind, pure, Except.pure]
  have hcheck := ciaUpdateCheck_of_updateChips (s := { s1 with cycles := s1.cycles + dt }) hacc1
    hclock Nat.one_ne_zero hchips
  set u : State := { s1 with cycles := s1.cycles + dt, cia0 := c0, cia1 := c1 } with hu
  have huok : TimersOk False u := ⟨hok0, hok1', fun hf => hf.elim⟩
  have hcok := (ciaCheckIcr_same u).timersOk huok
  have hsame' := ciaCheckIcr_same u
  rw [ciaHandler, ciaUpdate, hcheck] at hrun
  change ciaCalcTimers (ciaCheckIcr u) = .ok s' at hrun
  rw [ciaCalcTimers_eq hcok, Except.ok.injEq] at hrun
  subst hrun
  refine ⟨⟨hcok.chip0, hcok.chip1, fun hf => hf.elim⟩, hsame'.accurate.trans hacc1, fun num => ?_⟩
  rcases eq_zero_or_one num with rfl | rfl
  · refine ⟨s1.cia0, c0, false, i0, (hsame.timers 0).1, (hsame.timers 0).2, h0, fun tn => ?_, ?_⟩
    · exact hsame'.t 0 tn
    · exact ciaCheckIcr_icr2 u 0
  · refine ⟨s1.cia1, c1, i0, i1, (hsame.timers 1).1, (hsame.timers 1).2, h1, fun tn => ?_, ?_⟩
    · exact hsame'.t 1 tn
    · exact ciaCheckIcr_icr2 u 1

theorem EClock.timer {s s' : State} (h : EClock s s') (hok : TimersOk False s)
    (hacc : s.accurate = true) {num tn : Fin 2} (ht : Continuous tn ((s.cia num).t tn)) :
    (s'.cia num).t tn = afterOne tn ((s.cia num).t tn) ∧
      (Fires num tn s' ↔ Underflows tn ((s.cia num).t tn)) := by
  obtain ⟨-, -, hchips⟩ := h.update hok hacc
  obtain ⟨c, c', icr, icr', h0, h1, hup, htimers, hicr⟩ := hchips num
  have hc : c.t tn = (s.cia num).t tn := by
    match tn with
    | 0 => exact h0
    | 1 => exact h1
  have hchip : ChipOk False c := by
    refine ⟨?_, ?_⟩
    · rw [h0]
      exact hok.cia num 0
    · rw [h1]
      exact hok.cia num 1
  rw [← hc] at ht ⊢
  obtain ⟨hafter, hfires⟩ := updateChip_continuous hchip ht hup
  rw [htimers, hafter, Fires, hicr]
  exact ⟨rfl, hfires⟩

/-- `n` E-clocks in a row. -/
inductive EClocks : Nat → State → State → Prop
  | zero (s : State) : EClocks 0 s s
  | succ {n : Nat} {s s' s'' : State} : EClocks n s s' → EClock s' s'' → EClocks (n + 1) s s''

theorem EClocks.inv {n : Nat} {s s' : State} (h : EClocks n s s') (hok : TimersOk False s)
    (hacc : s.accurate = true) : TimersOk False s' ∧ s'.accurate = true := by
  induction h with
  | zero => exact ⟨hok, hacc⟩
  | succ _ hlast ih =>
    obtain ⟨hok', hacc'⟩ := ih hok hacc
    obtain ⟨hok'', hacc'', -⟩ := hlast.update hok' hacc'
    exact ⟨hok'', hacc''⟩

/-- The phase of a timer `m` E-clocks after an underflow. -/
theorem EClocks.phase {m : Nat} {s s' : State} (h : EClocks m s s') (hok : TimersOk False s)
    (hacc : s.accurate = true) {num tn : Fin 2} {n : Nat} (hn : n < 65536)
    (hs : Phase tn n 0 ((s.cia num).t tn)) : Phase tn n (m % (n + 1)) ((s'.cia num).t tn) := by
  induction h with
  | zero => rwa [Nat.zero_mod]
  | @succ m s s' s'' hrun hlast ih =>
    obtain ⟨hok', hacc'⟩ := hrun.inv hok hacc
    have hphase := ih hok hacc hs
    have hlt : m % (n + 1) ≤ n := Nat.le_of_lt_succ (Nat.mod_lt m (Nat.succ_pos n))
    have hnext := (hphase.next hlt hn).2
    rw [(hlast.timer hok' hacc' hphase.continuous).1]
    by_cases hend : m % (n + 1) = n
    · rw [if_pos hend] at hnext
      rwa [Nat.succ_mod_succ_eq_zero_iff.2 hend]
    · rw [if_neg hend] at hnext
      have hsucc : (m + 1) % (n + 1) = m % (n + 1) + 1 := by
        rw [Nat.add_mod, Nat.mod_eq_of_lt (a := 1) (by omega), Nat.mod_eq_of_lt (by omega)]
      rwa [hsucc]

/-- **The period of a continuous timer.** Take any state of a run in accurate mode in which the
timer counts E-clocks with `CR_RUNMODE` clear and no load pending, with the latch `N`. Once an
E-clock has set the bit of the timer, the E-clocks that set it are those a multiple of `N + 1`
later. -/
theorem fires_iff_period (env : Env) (cycles : Nat) (acc : Bool) (ev : Ev) (eclockphase : Int)
    {s0 s s' u u' : State} (h0 : ciaReset cycles acc ev eclockphase = .ok s0)
    (hreach : (machine env).Reachable s0 s) (hacc : s.accurate = true) (num tn : Fin 2)
    (ht : Continuous tn ((s.cia num).t tn)) (hclock : EClock s s') (hfires : Fires num tn s')
    {m : Nat} (hrun : EClocks m s' u) (hlast : EClock u u') :
    Fires num tn u' ↔ ((s.cia num).t tn).latch + 1 ∣ m + 1 := by
  obtain ⟨s0', h0', hInv0⟩ := ciaReset_inv False cycles (fun hf => hf.elim) ev eclockphase
  obtain rfl : s0 = s0' := Except.ok.inj (h0.symm.trans h0')
  have hok := ((inv_invariant env).reachable hreach hInv0).timersOk
  have hn : ((s.cia num).t tn).latch < 65536 := (hok.cia num tn).latch
  obtain ⟨hafter, hunder⟩ := hclock.timer hok hacc ht
  have hstart : Phase tn ((s.cia num).t tn).latch 0 ((s'.cia num).t tn) := by
    rw [hafter]
    exact ht.underflow (hok.cia num tn).pipe (hunder.1 hfires)
  obtain ⟨hok', hacc', -⟩ := hclock.update hok hacc
  have hphase := hrun.phase hok' hacc' hn hstart
  obtain ⟨hoku, haccu⟩ := hrun.inv hok' hacc'
  have hlt := Nat.le_of_lt_succ (Nat.mod_lt m (Nat.succ_pos ((s.cia num).t tn).latch))
  rw [(hlast.timer hoku haccu hphase.continuous).2, (hphase.next hlt hn).1,
    Nat.dvd_iff_mod_eq_zero]
  exact Nat.succ_mod_succ_eq_zero_iff.symm

/-! ### A timer with the latch 1 -/

/-- Timer A is loaded and started; the last load is over after three E-clocks. -/
def loadInputs : List Input :=
  [.write 0 4 0 1, .write 0 5 0 0, .write 0 14 0 0x11, .advance 2560, .handler, .advance 2560,
    .handler, .advance 2560, .handler]

/-- The state those inputs end in. -/
def loadedState : State :=
  { resetState with
    cia0 := { resetChip 0 with
      t0 := { resetTimer with timer := 1, latch := 1, inputpipe := 3, cr := 0x01 } }
    cycles := 7680
    evCia := { active := true, evtime := 10240, oldcycles := 7680 } }

/-- The state one E-clock later. -/
def clocked (s : State) : State :=
  (ciaHandler { s with cycles := s.cycles + div10 }).toOption.getD s

theorem fires_iff_period_one :
    Fires 0 0 (clocked (clocked (clocked loadedState))) ↔
      ((loadedState.cia 0).t 0).latch + 1 ∣ 1 + 1 :=
  fires_iff_period plainEnv 0 true ⟨false, 0, 0⟩ 0
    (by decide : ciaReset 0 true ⟨false, 0, 0⟩ 0 = .ok resetState)
    (Machine.reachable_of_exec
      (by decide : (machine plainEnv).exec resetState loadInputs = some loadedState))
    (by decide) 0 0 ⟨by decide, by decide +kernel, by decide +kernel⟩
    (⟨loadedState, div10, .refl _, by decide, by decide +kernel⟩ :
      EClock loadedState (clocked loadedState))
    (by unfold Fires; decide)
    (.succ (.zero _) ⟨clocked loadedState, div10, .refl _, by decide, by decide +kernel⟩)
    ⟨clocked (clocked loadedState), div10, .refl _, by decide, by decide +kernel⟩

end LibretroUae.CiaChips
