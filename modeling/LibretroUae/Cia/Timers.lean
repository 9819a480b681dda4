import LibretroUae.Cia.Chip

/-!
# LibretroUae.Cia.Timers

What one update and one scheduling keep of a timer.

* `TimerOk`: pipe and counters in range. The update keeps it and does not fault on
  it, with one exception: a pending load must not be met by an update over more
  than one E-clock (`updateChip_ok`).
* `nextUse`: the E-clocks until a timer needs an update. `CIA_calctimers` on timers
  in range is the smallest of them (`ciaCalcTimers_eq`), so the event it leaves comes
  no later than any timer needs it (`scheduled_attended`).
-/

namespace LibretroUae.CiaChips

/-! ### Timers in range -/

/-- A pipe the hardware can be in: two stages, each with a clock or without. -/
def PipeOk (p : BitVec 16) : Prop := p = 0 ∨ p = 1 ∨ p = 2 ∨ p = 3

instance (p : BitVec 16) : Decidable (PipeOk p) := inferInstanceAs (Decidable (_ ∨ _))

/-- `bitstodelay` on the pipes it accepts. -/
def pipeDelay (p : BitVec 16) : Nat := if p = 0 then 2 else if p = 3 then 0 else 1

/-- Pipe and counters of a timer are in range. `strict` marks runs that stay in
accurate mode, where `preovfl` is never set. -/
structure TimerOk (strict : Prop) (t : CiaTimer) : Prop where
  pipe : PipeOk t.inputpipe
  timer : t.timer < 65536
  latch : t.latch < 65536
  preovfl : strict → t.preovfl = false

variable {strict : Prop}

/-- The pending event comes no later than the first E-clock at which timer `tn`
can do something the lazy update must not skip. -/
structure Attended (ev : Ev) (tn : Fin 2) (t : CiaTimer) : Prop where
  /-- A pending load is looked at every E-clock. -/
  load : t.loaddelay ≠ 0 → ev.active ∧ ev.evtime ≤ ev.oldcycles + div10
  /-- A counting timer is looked at when it reaches zero. -/
  count : counting tn t →
    ev.active ∧ ev.evtime ≤ ev.oldcycles + div10 * max 1 (t.timer + pipeDelay t.inputpipe)

/-! ### Pipes -/

theorem PipeOk.shift {p : BitVec 16} (h : PipeOk p) (input : Bool) :
    PipeOk (shiftPipe input p) := by
  rcases h with rfl | rfl | rfl | rfl <;> cases input <;> decide

theorem PipeOk.and {p : BitVec 16} (h : PipeOk p) {m : BitVec 16} (hm : PipeOk m) :
    PipeOk (p &&& ~~~m) := by
  rcases h with rfl | rfl | rfl | rfl <;> rcases hm with rfl | rfl | rfl | rfl <;> decide

theorem PipeOk.or_input {p : BitVec 16} (h : PipeOk p) : PipeOk (p ||| pipeInput) := by
  rcases h with rfl | rfl | rfl | rfl <;> decide

theorem PipeOk.bitsToDelay_eq {p : BitVec 16} (h : PipeOk p) :
    bitsToDelay p = .ok (pipeDelay p) := by
  rcases h with rfl | rfl | rfl | rfl <;> rfl

theorem pipeLoop_pipeOk (input : Bool) (cc : Nat) {p : BitVec 16} (h : PipeOk p) (n : Nat) :
    PipeOk (pipeLoop input cc p n).1 := by
  induction cc generalizing p n with
  | zero => exact h
  | succ cc ih =>
    rw [pipeLoop]
    split
    · exact h
    · exact ih (h.shift input) _

/-! ### The update keeps timers in range -/

theorem TimerOk.setPipe {t : CiaTimer} (h : TimerOk strict t) {p : BitVec 16} (hp : PipeOk p) :
    TimerOk strict { t with inputpipe := p } := ⟨hp, h.timer, h.latch, h.preovfl⟩

theorem TimerOk.load {t : CiaTimer} (h : TimerOk strict t) : TimerOk strict t.load :=
  ⟨h.pipe, h.latch, h.latch, h.preovfl⟩

theorem TimerOk.clrPipe {t : CiaTimer} (h : TimerOk strict t) {m : BitVec 16} (hm : PipeOk m) :
    TimerOk strict (t.clrPipe m) := ⟨h.pipe.and hm, h.timer, h.latch, h.preovfl⟩

theorem TimerOk.stop {t : CiaTimer} (h : TimerOk strict t) : TimerOk strict t.stop :=
  ⟨h.pipe, h.timer, h.latch, h.preovfl⟩

theorem TimerOk.countDown {t : CiaTimer} (h : TimerOk strict t) (cc : Nat) :
    TimerOk strict (t.countDown cc) :=
  ⟨h.pipe, subTimer_lt _ _, h.latch, h.preovfl⟩

theorem TimerOk.delay {t : CiaTimer} (h : TimerOk strict t) (bits : BitVec 32) :
    TimerOk strict (t.delay bits) :=
  ⟨h.pipe, h.timer, h.latch, h.preovfl⟩

theorem delayedLoad_ok {t : CiaTimer} (h : TimerOk strict t) : TimerOk strict (delayedLoad t) := by
  unfold delayedLoad
  split
  · exact h.load.clrPipe (by decide)
  · exact h

theorem delayedStop_ok {t : CiaTimer} (h : TimerOk strict t) : TimerOk strict (delayedStop t) := by
  unfold delayedStop
  split
  · exact h.stop
  · exact h

/-- The only fault of the load-delay code is the one it checks for. -/
theorem loadSpecial_ok {t : CiaTimer} {n : Nat} (h : TimerOk strict t)
    (hn : t.loaddelay ≠ 0 → n ≤ 1) :
    ∃ t' fl, loadSpecial t n = .ok (t', fl) ∧ TimerOk strict t' := by
  unfold loadSpecial
  by_cases hd : t.loaddelay = 0
  · rw [if_pos hd]
    exact ⟨t, {}, rfl, h⟩
  · rw [if_neg hd, if_neg (Nat.not_lt.mpr (hn hd))]
    have hok := delayedStop_ok (delayedLoad_ok h)
    exact ⟨_, _, rfl, hok.pipe, hok.timer, hok.latch, hok.preovfl⟩

theorem processPipe_ok {t : CiaTimer} (h : TimerOk strict t) (acc : Bool) (cc : Nat) (m : BitVec 8)
    (ovfl : Nat) (l : Bool) : TimerOk strict (processPipe acc t cc m ovfl l).t := by
  unfold processPipe
  split
  · exact h.setPipe (h.pipe.shift _)
  · exact h.setPipe (pipeLoop_pipeOk _ _ h.pipe _)

@[simp] theorem nextSerial_t0 (c : Cia) : (nextSerial c).t0 = c.t0 := by
  unfold nextSerial
  split <;> rfl

@[simp] theorem nextSerial_t1 (c : Cia) : (nextSerial c).t1 = c.t1 := by
  unfold nextSerial
  split <;> rfl

@[simp] theorem shiftSerial_t0 (c : Cia) : (shiftSerial c).1.t0 = c.t0 := by
  unfold shiftSerial
  split_ifs
  · exact nextSerial_t0 (clockSerial c)
  · rfl
  · rfl

@[simp] theorem shiftSerial_t1 (c : Cia) : (shiftSerial c).1.t1 = c.t1 := by
  unfold shiftSerial
  split_ifs
  · exact nextSerial_t1 (clockSerial c)
  · rfl
  · rfl

@[simp] theorem underflowA_t0 (ovfl : Nat) (c : Cia) : (underflowA ovfl c).1.t0 = c.t0 := by
  unfold underflowA
  split <;> simp

@[simp] theorem underflowA_t1 (ovfl : Nat) (c : Cia) : (underflowA ovfl c).1.t1 = c.t1 := by
  unfold underflowA
  split <;> simp

theorem countA_ok {c : Cia} (h : TimerOk strict c.t0) (acc : Bool) (n : Nat) (fl : TimerFlags) :
    TimerOk strict (countA acc n c fl).1.t0 := by
  have hp := processPipe_ok h acc n (eclockMask 0) fl.ovfl fl.loaded3
  unfold countA
  dsimp only
  split_ifs
  · rw [underflowA_t0]
    exact hp.countDown _
  · exact hp
  · exact h

@[simp] theorem countA_t1 (acc : Bool) (n : Nat) (c : Cia) (fl : TimerFlags) :
    (countA acc n c fl).1.t1 = c.t1 := by
  unfold countA
  dsimp only
  split_ifs <;> simp

theorem underflowB_ok {t : CiaTimer} (h : TimerOk strict t) (cc ovfl : Nat) :
    TimerOk strict (underflowB cc ovfl t).1 := by
  unfold underflowB
  dsimp only
  split
  · exact h
  · exact h.countDown _

theorem countB_ok {t : CiaTimer} (h : TimerOk strict t) (acc : Bool) (n : Nat) (fl : TimerFlags) :
    TimerOk strict (countB acc n t fl).1 := by
  have hp := processPipe_ok h acc n (eclockMask 1) fl.ovfl fl.loaded3
  unfold countB
  dsimp only
  split_ifs
  · exact underflowB_ok hp _ _
  · exact hp
  · exact h

theorem feedB_ok {t : CiaTimer} (h : TimerOk strict t) (ovfl : Nat) : TimerOk strict (feedB ovfl t) := by
  unfold feedB
  split
  · exact h.setPipe h.pipe.or_input
  · exact h

theorem restart_ok {t : CiaTimer} (h : TimerOk strict t) (acc : Bool) (fl : TimerFlags) :
    TimerOk strict (restart acc fl t) := by
  have hstop : TimerOk strict (oneShotStop fl.loaded2 t) := by
    unfold oneShotStop
    split
    · exact h.delay _
    · exact h.stop
  unfold restart
  split_ifs
  · exact h
  · exact hstop.clrPipe (by decide)
  · exact hstop.setPipe (Or.inl rfl)
  · exact h.clrPipe (by decide)
  · exact h

theorem reload_ok {t : CiaTimer} (h : TimerOk strict t) (acc : Bool) (ovfl : Nat) (fl : TimerFlags) :
    TimerOk strict (reload acc ovfl fl t) := by
  have hl : TimerOk strict (if ovfl ≠ 0 then t.load else t) := by
    split
    · exact h.load
    · exact h
  have hr := restart_ok hl acc fl
  unfold reload
  split
  · exact ⟨hr.pipe, hr.timer, hr.latch, fun _ => rfl⟩
  · exact h

@[simp] theorem latchIcr_t0 (acc icr : Bool) (bits : BitVec 8) (c : Cia) :
    (latchIcr acc icr bits c).t0 = c.t0 := by
  unfold latchIcr
  split <;> rfl

@[simp] theorem latchIcr_t1 (acc icr : Bool) (bits : BitVec 8) (c : Cia) :
    (latchIcr acc icr bits c).t1 = c.t1 := by
  unfold latchIcr
  split <;> rfl

/-- Both timers of a chip are in range. -/
def ChipOk (strict : Prop) (c : Cia) : Prop := TimerOk strict c.t0 ∧ TimerOk strict c.t1

theorem countTimers_ok {c : Cia} (h : ChipOk strict c) (acc : Bool) (n : Nat)
    (fl0 fl1 : TimerFlags) : ChipOk strict (countTimers acc n fl0 fl1 c).c := by
  refine ⟨countA_ok h.1 acc n fl0, ?_⟩
  have h1 : TimerOk strict (countA acc n c fl0).1.t1 := by
    rw [countA_t1]
    exact h.2
  exact countB_ok h1 acc n fl1

/-- What one chip's update computes once the load-delay code of both timers is through
and the counters are in range. -/
theorem updateChip_eq {c : Cia} {n : Nat} {t0 t1 : CiaTimer} {fl0 fl1 : TimerFlags}
    (acc icr : Bool) (h0 : loadSpecial c.t0 n = .ok (t0, fl0))
    (h1 : loadSpecial c.t1 n = .ok (t1, fl1))
    (hr0 : (countTimers acc n fl0 fl1 { foldIcr c with t0 := t0, t1 := t1 }).c.t0.timer < 65536)
    (hr1 : (countTimers acc n fl0 fl1 { foldIcr c with t0 := t0, t1 := t1 }).c.t1.timer < 65536) :
    updateChip acc n icr c =
      let r := countTimers acc n fl0 fl1 { foldIcr c with t0 := t0, t1 := t1 }
      .ok (latchIcr acc (icr || decide (r.icr ≠ 0)) r.icr (r.reload acc fl0 fl1),
        icr || decide (r.icr ≠ 0)) := by
  have h0' : loadSpecial (foldIcr c).t0 n = .ok (t0, fl0) := h0
  have h1' : loadSpecial (foldIcr c).t1 n = .ok (t1, fl1) := h1
  simp only [updateChip, h0', h1', bind, Except.bind, hr0, hr1,
    not_true_eq_false, if_false, pure, Except.pure]

/-- One chip's update does not fault, and keeps its timers in range, unless a load
is pending and more than one E-clock has passed. -/
theorem updateChip_ok {c : Cia} {n : Nat} (acc icr : Bool) (h : ChipOk strict c)
    (hn : ∀ tn, (c.t tn).loaddelay ≠ 0 → n ≤ 1) :
    ∃ c' icr', updateChip acc n icr c = .ok (c', icr') ∧ ChipOk strict c' := by
  obtain ⟨t0, fl0, h0, hok0⟩ := loadSpecial_ok h.1 (hn 0)
  obtain ⟨t1, fl1, h1, hok1⟩ := loadSpecial_ok h.2 (hn 1)
  have hok : ChipOk strict { foldIcr c with t0 := t0, t1 := t1 } := ⟨hok0, hok1⟩
  have hr := countTimers_ok hok acc n fl0 fl1
  refine ⟨_, _, updateChip_eq acc icr h0 h1 hr.1.timer hr.2.timer, ?_, ?_⟩
  · rw [latchIcr_t0]
    exact reload_ok hr.1 acc _ _
  · rw [latchIcr_t1]
    exact reload_ok (feedB_ok hr.2 _) acc _ _

/-! ### Scheduling the event -/

/-- The E-clocks until timer `tn` needs an update. -/
def nextUse (tn : Fin 2) (t : CiaTimer) : Option Nat :=
  if timerSpecial tn t then some 1
  else if counting tn t then some (max 1 (t.timer + pipeDelay t.inputpipe))
  else none

/-- The E-clocks until a chip needs an update: a noted interrupt counts as one. -/
def Cia.nextUse (c : Cia) : Option Nat :=
  minTime (if c.icrChange then some 1 else CiaChips.nextUse 0 c.t0) (CiaChips.nextUse 1 c.t1)

/-- The E-clocks until one of the chips needs an update. -/
def State.nextUse (s : State) : Option Nat := minTime s.cia0.nextUse s.cia1.nextUse

/-- The event `CIA_calctimers` leaves. -/
def scheduled (cycles : Nat) (ev : Ev) : Option Nat → Ev
  | some k => { active := true, evtime := cycles + div10 * k, oldcycles := cycles }
  | none => { ev with active := false, oldcycles := cycles }

theorem one_le_of_mem_nextUse {tn : Fin 2} {t : CiaTimer} {k : Nat}
    (h : k ∈ CiaChips.nextUse tn t) : 1 ≤ k := by
  unfold CiaChips.nextUse at h
  split_ifs at h
  · simp_all
  · simp only [Option.mem_def, Option.some.injEq] at h
    omega
  · simp at h

theorem mem_nextUse_special {tn : Fin 2} {t : CiaTimer} (h : timerSpecial tn t = true) :
    1 ∈ CiaChips.nextUse tn t := by
  rw [CiaChips.nextUse, if_pos h]
  rfl

theorem minTime_map (a b : Option Nat) :
    minTime (a.map (div10 * ·)) (b.map (div10 * ·)) = (minTime a b).map (div10 * ·) := by
  cases a with
  | none => rfl
  | some a =>
    cases b with
    | none => rfl
    | some b => simp [minTime, Nat.mul_min_mul_left]

theorem div10_eq : div10 = 2560 := rfl

/-- A bound below both times is a bound below the smaller. -/
theorem forall_mem_minTime {a b : Option Nat} {k : Nat} :
    (∀ v ∈ minTime a b, k ≤ v) ↔ (∀ v ∈ a, k ≤ v) ∧ ∀ v ∈ b, k ≤ v := by
  cases a <;> cases b <;> simp [minTime]

/-- The smaller time is there, and no later, when either is. -/
theorem minTime_of_mem {a b : Option Nat} {k : Nat} (h : k ∈ a ∨ k ∈ b) :
    ∃ v ∈ minTime a b, v ≤ k := by
  rcases h with h | h
  · cases a with
    | none => simp at h
    | some a =>
      cases b with
      | none => exact ⟨k, h, Nat.le_refl k⟩
      | some b =>
        obtain rfl : a = k := by simpa using h
        exact ⟨min a b, rfl, Nat.min_le_left a b⟩
  · cases b with
    | none => simp at h
    | some b =>
      cases a with
      | none => exact ⟨k, h, Nat.le_refl k⟩
      | some a =>
        obtain rfl : b = k := by simpa using h
        exact ⟨min a b, rfl, Nat.min_le_right a b⟩

/-- `timevals` of a timer in range. -/
theorem timeval_eq {tn : Fin 2} {t : CiaTimer} (h : TimerOk strict t) :
    timeval tn t = .ok ((CiaChips.nextUse tn t).map (div10 * ·)) := by
  have hbase : ∀ k : Nat, (if div10 * k = 0 then div10 else div10 * k) = div10 * max 1 k := by
    intro k
    rcases Nat.eq_zero_or_pos k with rfl | hk
    · rfl
    · rw [div10_eq, if_neg (by omega), Nat.max_eq_right hk]
  unfold timeval CiaChips.nextUse
  by_cases hc : counting tn t
  · simp only [hc, if_true, h.pipe.bitsToDelay_eq, bind, Except.bind, pure, Except.pure, hbase]
    by_cases hs : timerSpecial tn t = true
    · rw [if_pos hs]
      by_cases h1 : t.timer + pipeDelay t.inputpipe ≤ 1
      · rw [Nat.max_eq_left h1]
        simp
      · rw [if_pos]
        · rfl
        · refine ⟨hs, ?_⟩
          intro v hv
          obtain rfl := Option.mem_some_iff.mp hv
          rw [div10_eq]
          omega
    · rw [if_neg hs, if_neg (fun hh => hs hh.1)]
      rfl
  · simp only [hc, if_false, bind, Except.bind, pure, Except.pure]
    by_cases hs : timerSpecial tn t = true
    · rw [if_pos hs, if_pos ⟨hs, by simp⟩]
      rfl
    · rw [if_neg hs, if_neg (fun hh => hs hh.1)]
      rfl

theorem timevals_eq {c : Cia} (h : ChipOk strict c) :
    ∃ a b, timevals c = .ok (a, b) ∧ minTime a b = c.nextUse.map (div10 * ·) := by
  unfold timevals
  simp only [timeval_eq h.1, timeval_eq h.2, bind, Except.bind, pure, Except.pure]
  refine ⟨_, _, rfl, ?_⟩
  rw [Cia.nextUse, ← minTime_map]
  congr 1
  cases hi : c.icrChange with
  | false => simp
  | true =>
    simp only [true_and, if_true, Option.map_some]
    cases hn : CiaChips.nextUse 0 c.t0 with
    | none => simp
    | some k =>
      have hk := one_le_of_mem_nextUse (Option.mem_def.mpr hn)
      by_cases h1 : k = 1
      · subst h1
        simp
      · rw [if_pos]
        · rfl
        · intro v hv
          obtain rfl := Option.mem_some_iff.mp hv
          change div10 < div10 * k
          rw [div10_eq]
          omega

/-- Every timer of both chips is in range, and a strict run is in accurate mode. -/
structure TimersOk (strict : Prop) (s : State) : Prop where
  chip0 : ChipOk strict s.cia0
  chip1 : ChipOk strict s.cia1
  accurate : strict → s.accurate = true

/-- `CIA_calctimers` with all timers in range. -/
theorem ciaCalcTimers_eq {s : State} (h : TimersOk strict s) :
    ciaCalcTimers s = .ok { s with evCia := scheduled s.cycles s.evCia s.nextUse } := by
  obtain ⟨a0, b0, h0, hm0⟩ := timevals_eq h.chip0
  obtain ⟨a1, b1, h1, hm1⟩ := timevals_eq h.chip1
  unfold ciaCalcTimers
  simp only [h0, h1, hm0, hm1, bind, Except.bind, pure, Except.pure, minTime_map]
  rw [← State.nextUse]
  cases s.nextUse <;> rfl

/-- The event comes no later than any timer needs it. -/
theorem le_of_mem_nextUse {s : State} {num tn : Fin 2} {k : Nat}
    (h : k ∈ CiaChips.nextUse tn ((s.cia num).t tn)) : ∃ v ∈ s.nextUse, v ≤ k := by
  have hc : ∃ v ∈ (s.cia num).nextUse, v ≤ k := by
    match tn with
    | 0 =>
      cases hi : (s.cia num).icrChange with
      | false => exact minTime_of_mem (Or.inl (by simpa [hi] using h))
      | true =>
        obtain ⟨v, hv, hv1⟩ := minTime_of_mem (k := 1) (b := CiaChips.nextUse 1 (s.cia num).t1)
          (Or.inl rfl)
        exact ⟨v, by rw [Cia.nextUse, hi, if_pos rfl]; exact hv,
          Nat.le_trans hv1 (one_le_of_mem_nextUse h)⟩
    | 1 => exact minTime_of_mem (Or.inr h)
  obtain ⟨v, hv, hvk⟩ := hc
  have hs : ∃ w ∈ s.nextUse, w ≤ v := by
    match num with
    | 0 => exact minTime_of_mem (Or.inl hv)
    | 1 => exact minTime_of_mem (Or.inr hv)
  obtain ⟨w, hw, hwv⟩ := hs
  exact ⟨w, hw, Nat.le_trans hwv hvk⟩

theorem scheduled_le {s : State} (num tn : Fin 2) {k : Nat} (ev : Ev)
    (h : k ∈ CiaChips.nextUse tn ((s.cia num).t tn)) :
    (scheduled s.cycles ev s.nextUse).active ∧
      (scheduled s.cycles ev s.nextUse).evtime ≤
        (scheduled s.cycles ev s.nextUse).oldcycles + div10 * k := by
  obtain ⟨v, hv, hvk⟩ := le_of_mem_nextUse h
  rw [Option.mem_def.mp hv]
  exact ⟨rfl, Nat.add_le_add_left (Nat.mul_le_mul_left div10 hvk) s.cycles⟩

theorem scheduled_attended (s : State) (ev : Ev) (num tn : Fin 2) :
    Attended (scheduled s.cycles ev s.nextUse) tn ((s.cia num).t tn) where
  load := by
    intro hl
    have hs : timerSpecial tn ((s.cia num).t tn) = true := by
      rw [timerSpecial, decide_eq_true hl, Bool.true_or]
    exact scheduled_le num tn ev (mem_nextUse_special hs)
  count := by
    intro hc
    by_cases hs : timerSpecial tn ((s.cia num).t tn) = true
    · obtain ⟨ha, hle⟩ := scheduled_le num tn ev (mem_nextUse_special hs)
      exact ⟨ha, Nat.le_trans hle (Nat.add_le_add_left
        (Nat.mul_le_mul_left div10 (Nat.le_max_left _ _)) _)⟩
    · refine scheduled_le num tn ev ?_
      simp [CiaChips.nextUse, hs, hc]

theorem TimersOk.cia {s : State} (h : TimersOk strict s) (num tn : Fin 2) :
    TimerOk strict ((s.cia num).t tn) := by
  match num, tn with
  | 0, 0 => exact h.chip0.1
  | 0, 1 => exact h.chip0.2
  | 1, 0 => exact h.chip1.1
  | 1, 1 => exact h.chip1.2

end LibretroUae.CiaChips
