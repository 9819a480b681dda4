import LibretroUae.Cia.Period

/-!
# LibretroUae.Cia.TimerReads

**Timer reads against the update.** A read of a timer register counts down with `bitstodelay` of
the pipe (`passedTime`), the update shifts the pipe clock by clock (`processPipe`). Over no E-clock
and over two or more the two agree on every timer in E-clock mode. Over exactly one they do not
when a clock is in the output stage of a pipe that is not full or belongs to a stopped timer: the
update counts it and the read does not. Neither does the read see a pending load.
-/

namespace LibretroUae.CiaChips

open LibretroUae.Lib

/-! ### Stopped timers with clocks in the pipe -/

/-- A stopped timer in E-clock mode whose pipe is not empty. -/
structure Draining (tn : Fin 2) (t : CiaTimer) : Prop where
  mode : ciaTimerInmode tn t.cr = false
  stopped : t.cr &&& crStart = 0
  pipe : t.inputpipe ≠ 0

/-- The next E-clock belongs to the pending event. -/
def DueNext (ev : Ev) : Prop := ev.active ∧ ev.evtime ≤ ev.oldcycles + div10

/-- While a pipe drains the event comes every E-clock. -/
def Drains (s : State) : Prop := ∀ num tn, Draining tn ((s.cia num).t tn) → DueNext s.evCia

theorem Drains.transfer {s s' : State} (h : Drains s) (hev : s'.evCia = s.evCia)
    (ht : ∀ num tn, Draining tn ((s'.cia num).t tn) → Draining tn ((s.cia num).t tn)) :
    Drains s' := by
  intro num tn hd
  rw [hev]
  exact h num tn (ht num tn hd)

theorem Drains.same {s s' : State} (h : Drains s) (hsame : SameTimers s s') : Drains s' :=
  h.transfer hsame.ev (fun num tn hd => by rwa [hsame.t] at hd)

/-- `CIA_calctimers` looks after draining pipes. -/
theorem ciaCalcTimers_drains {s s' : State} (hok : TimersOk False s)
    (h : ciaCalcTimers s = .ok s') : Drains s' := by
  rw [ciaCalcTimers_eq hok, Except.ok.injEq] at h
  subst h
  intro num tn hd
  have hspecial : timerSpecial tn ((s.cia num).t tn) = true := by
    have hpipe : ((s.cia num).t tn).inputpipe ≠ 0 := hd.pipe
    have hstop : ((s.cia num).t tn).cr &&& crStart = 0 := hd.stopped
    rw [timerSpecial, if_neg (not_not.mpr hstop), decide_eq_true hpipe, Bool.or_true]
  exact scheduled_le num tn s.evCia (mem_nextUse_special hspecial)

theorem countCnt_mode (acc : Bool) (tn : Fin 2) (t : CiaTimer) :
    ciaTimerInmode tn (countCnt acc t).1.cr = ciaTimerInmode tn t.cr := by
  have hclear : ∀ cr : BitVec 8, ∀ tn, ciaTimerInmode tn (cr &&& ~~~crStart) = ciaTimerInmode tn cr := by
    decide
  rcases countCnt_cr t acc with hcr | hcr <;> rw [hcr]
  exact hclear t.cr tn

/-- A CNT pulse counts only timers in other modes. -/
theorem ciaInmodeCnt_mode (acc : Bool) (c : Cia) (tn : Fin 2)
    (h : ciaTimerInmode tn ((ciaInmodeCnt acc c).1.t tn).cr = false) :
    (ciaInmodeCnt acc c).1.t tn = c.t tn := by
  match tn with
  | 0 =>
    unfold ciaInmodeCnt at h ⊢
    rw [Cia.t_zero] at h ⊢
    dsimp only at h ⊢
    split_ifs at h ⊢ with hA
    · have hmode : ∀ cr : BitVec 8, cr &&& (crInmode ||| crStart) = crInmode ||| crStart →
          ciaTimerInmode 0 cr = true := by
        decide
      rw [countCnt_mode, hmode _ hA] at h
      exact absurd h (by decide)
    · rfl
  | 1 =>
    unfold ciaInmodeCnt at h ⊢
    rw [Cia.t_one] at h ⊢
    dsimp only at h ⊢
    generalize (if c.t0.cr &&& (crInmode ||| crStart) = crInmode ||| crStart
      then countCnt acc c.t0 else (c.t0, false)) = a at h ⊢
    split_ifs at h ⊢ with hB
    · have hmode : ∀ cr : BitVec 8, cr &&& (crInmode1 ||| crStart) = crInmode1 ||| crStart ∨
          cr &&& (crInmode1 ||| crInmode ||| crStart) = crInmode ||| crStart →
          ciaTimerInmode 1 cr = true := by
        decide
      rw [countCnt_mode, hmode _ (hB.imp And.right id)] at h
      exact absurd h (by decide)
    · rfl

theorem writeCiabSerial_drains {s : State} (h : Drains s) (ndata odata ndir odir : BitVec 8) :
    Drains (writeCiabSerial ndata odata ndir odir s) := by
  unfold writeCiabSerial
  dsimp only
  generalize decide (ndata &&& ndir &&& 1 ≠ 0) = bit
  have hpulse : Drains { s with cia1 := (ciaInmodeCnt s.accurate (serialIn bit s.cia1).1).1 } := by
    refine h.transfer rfl (fun num tn hd => ?_)
    match num with
    | 0 => exact hd
    | 1 =>
      have ht := ciaInmodeCnt_mode s.accurate (serialIn bit s.cia1).1 tn hd.mode
      have hser : (serialIn bit s.cia1).1.t tn = s.cia1.t tn := by
        match tn with
        | 0 => exact serialIn_t0 bit s.cia1
        | 1 => exact serialIn_t1 bit s.cia1
      rw [State.cia_one] at hd ⊢
      rwa [ht, hser] at hd
  split_ifs
  · exact hpulse.same (ciaSyncInterrupt_same 1 _ _)
  · exact hpulse
  · exact h

/-- One case for each input. -/
theorem step_drains {env : Env} {s s' : State} {i : Input} (hInv : Inv False s) (h : Drains s)
    (hstep : step env s i = .ok s') : Drains s' := by
  have hhandler : ciaHandler s = .ok s' → Drains s' := by
    intro hrun
    obtain ⟨s1, h1, hok⟩ := ciaUpdate_ok hInv
    rw [ciaHandler, h1] at hrun
    exact ciaCalcTimers_drains hok hrun
  cases i with
  | advance dt =>
    obtain rfl := Except.ok.inj hstep
    exact h.transfer rfl (fun _ _ hd => hd)
  | handler => exact hhandler hstep
  | setAccurate acc =>
    obtain rfl := Except.ok.inj hstep
    exact h.transfer rfl (fun _ _ hd => hd)
  | read num reg hpos pins =>
    obtain ⟨p, q, p', q', hp⟩ := computePassedTime_eq hInv
    simp only [step, readCia, hp, bind, Except.bind, pure, Except.pure, Except.ok.injEq] at hstep
    subst hstep
    refine Drains.same ?_ (readCiaPassed_same env hpos pins num reg _)
    refine h.transfer rfl (fun num tn hd => ?_)
    rcases eq_zero_or_one num with rfl | rfl <;> rcases eq_zero_or_one tn with rfl | rfl <;>
      exact ⟨hd.mode, hd.stopped, hd.pipe⟩
  | write num reg hpos val =>
    simp only [step, writeCia] at hstep
    split_ifs at hstep
    · obtain rfl := Except.ok.inj hstep
      rcases eq_zero_or_one num with rfl | rfl
      · exact h.same (.setCia 0 rfl rfl)
      · have hserial := writeCiabSerial_drains h val s.cia1.pra s.cia1.dra s.cia1.dra
        exact hserial.same (.setCia 1 rfl rfl)
    · obtain rfl := Except.ok.inj hstep
      exact h.same (.setCia num rfl rfl)
    · obtain rfl := Except.ok.inj hstep
      rcases eq_zero_or_one num with rfl | rfl
      · exact h.same (.setCia 0 rfl rfl)
      · have hserial := writeCiabSerial_drains h s.cia1.pra s.cia1.pra val s.cia1.dra
        exact hserial.same (.setCia 1 rfl rfl)
    · obtain rfl := Except.ok.inj hstep
      exact h.same (.setCia num rfl rfl)
    · obtain ⟨s1, h1, hok⟩ := ciaUpdate_ok hInv
      rw [h1] at hstep
      exact ciaCalcTimers_drains (writeCiaReg_ok hok env hpos num reg val) hstep
  | serial ndata odata ndir odir =>
    obtain rfl := Except.ok.inj hstep
    exact writeCiabSerial_drains h ndata odata ndir odir
  | syncInterrupt num icr =>
    obtain rfl := Except.ok.inj hstep
    exact h.same (ciaSyncInterrupt_same num icr s)
  | syncedInterrupt => exact hhandler hstep
  | todIncEvent num =>
    obtain rfl := Except.ok.inj hstep
    exact h.same (eventCiaTodInc_same env num s)
  | todHandler num hoffset delayed =>
    obtain rfl := Except.ok.inj hstep
    exact h.same (ciaTodHandler_same env hoffset num delayed s)
  | delayedTod num =>
    obtain rfl := Except.ok.inj hstep
    exact h.same (ciaDelayedTod_same env num s)
  | todHack =>
    obtain rfl := Except.ok.inj hstep
    exact h.same (doTodHack_same env s)
  | keyreq kbcode =>
    obtain rfl := Except.ok.inj hstep
    exact h.same (keyreq_same kbcode s)

/-- In every run a draining pipe is looked at every E-clock. -/
theorem reachable_drains (env : Env) (cycles : Nat) (acc : Bool) (ev : Ev) (eclockphase : Int)
    {s0 s : State} (h0 : ciaReset cycles acc ev eclockphase = .ok s0)
    (hreach : (machine env).Reachable s0 s) : Inv False s ∧ Drains s := by
  obtain ⟨s0', h0', hInv0⟩ := ciaReset_inv False cycles (fun hf => hf.elim) ev eclockphase
  obtain rfl : s0 = s0' := Except.ok.inj (h0.symm.trans h0')
  have hdrains0 := ciaCalcTimers_drains
    ⟨⟨resetTimer_ok, resetTimer_ok⟩, ⟨resetTimer_ok, resetTimer_ok⟩, fun hf => hf.elim⟩ h0
  refine hreach.induct (P := fun s => Inv False s ∧ Drains s) ?_ ⟨hInv0, hdrains0⟩
  intro t i t' ht hlegal hstep
  obtain ⟨t'', ht'', hInv⟩ := step_inv ht.1 hlegal (fun hf => hf.elim)
  obtain rfl : t' = t'' := Except.ok.inj (hstep.symm.trans ht'')
  exact ⟨hInv, step_drains ht.1 ht.2 hstep⟩

/-! ### The counts of an update -/

/-- The counts the pipe lets through in `n` E-clocks. -/
def counts (acc : Bool) (n : Nat) (tn : Fin 2) (t : CiaTimer) : Nat :=
  if counting tn t ∨ t.inputpipe ≠ 0 then
    (processPipe acc t n (eclockMask tn) 0 false).out
  else 0

theorem processPipe_out (acc : Bool) (t : CiaTimer) (n : Nat) (m : BitVec 8) (ovfl : Nat)
    (loadednow : Bool) :
    (processPipe acc t n m ovfl loadednow).out = (processPipe acc t n m 0 false).out := by
  unfold processPipe
  dsimp only
  split_ifs <;> rfl

theorem processPipe_timer (acc : Bool) (t : CiaTimer) (n : Nat) (m : BitVec 8) (ovfl : Nat)
    (loadednow : Bool) :
    (processPipe acc t n m ovfl loadednow).t.timer = t.timer ∧
      (processPipe acc t n m ovfl loadednow).t.cr = t.cr := by
  unfold processPipe
  dsimp only
  split_ifs <;> exact ⟨rfl, rfl⟩

theorem subTimer_zero {timer : Nat} (h : timer < 65536) : subTimer timer 0 = timer :=
  subTimer_of_le (Nat.zero_le timer) h

/-- Timer A counts down by its counts. -/
theorem countA_timer (acc : Bool) (n : Nat) (c : Cia) (fl : TimerFlags)
    (h : c.t0.timer < 65536) :
    (countA acc n c fl).1.t0.timer = subTimer c.t0.timer (counts acc n 0 c.t0) := by
  unfold countA counts
  by_cases hrun : counting 0 c.t0 ∨ c.t0.inputpipe ≠ 0
  · rw [if_pos hrun, if_pos hrun]
    dsimp only
    rw [processPipe_out]
    split_ifs with hout
    · rw [underflowA_t0]
      simp only [CiaTimer.countDown]
      rw [(processPipe_timer _ _ _ _ _ _).1, processPipe_out]
    · have hzero : (processPipe acc c.t0 n (eclockMask 0) 0 false).out = 0 := by omega
      rw [hzero, subTimer_zero h]
      exact (processPipe_timer _ _ _ _ _ _).1
  · rw [if_neg hrun, if_neg hrun, subTimer_zero h]

/-- Timer B in E-clock mode counts down by its counts. -/
theorem countB_timer (acc : Bool) (n : Nat) (t : CiaTimer) (fl : TimerFlags)
    (hmode : ciaTimerInmode 1 t.cr = false) (h : t.timer < 65536) :
    (countB acc n t fl).1.timer = subTimer t.timer (counts acc n 1 t) := by
  unfold countB counts
  by_cases hrun : counting 1 t ∨ t.inputpipe ≠ 0
  · rw [if_pos hrun, if_pos hrun]
    dsimp only
    rw [processPipe_out]
    split_ifs with hout
    · have hin : ¬ (processPipe acc t n (eclockMask 1) fl.ovfl fl.loaded3).t.cr &&&
          (crInmode ||| crInmode1) ≠ 0 := by
        rw [(processPipe_timer _ _ _ _ _ _).2]
        simpa [ciaTimerInmode] using hmode
      rw [underflowB]
      simp only [hin, and_false, if_false, CiaTimer.countDown]
      rw [(processPipe_timer _ _ _ _ _ _).1]
    · have hzero : (processPipe acc t n (eclockMask 1) 0 false).out = 0 := by omega
      rw [hzero, subTimer_zero h]
      exact (processPipe_timer _ _ _ _ _ _).1
  · rw [if_neg hrun, if_neg hrun, subTimer_zero h]

/-- Without an underflow the timer keeps what it has counted to. -/
theorem reload_timer (acc : Bool) (fl : TimerFlags) (t : CiaTimer) :
    (reload acc 0 fl t).timer = t.timer := by
  unfold reload restart oneShotStop
  dsimp only
  split_ifs <;> first | rfl | contradiction

theorem feedB_timer (ovfl : Nat) (t : CiaTimer) : (feedB ovfl t).timer = t.timer := by
  unfold feedB
  split_ifs <;> rfl

/-! ### The counts against `bitstodelay` -/

/-- Over one E-clock the output stage counts, whoever filled it. -/
theorem counts_one (acc : Bool) (tn : Fin 2) {t : CiaTimer} (h : PipeOk t.inputpipe) :
    counts acc 1 tn t = if t.inputpipe &&& pipeOutput = 0 then 0 else 1 := by
  unfold counts processPipe
  by_cases hrun : counting tn t ∨ t.inputpipe ≠ 0
  · rw [if_pos hrun]
    cases acc with
    | true => simp only [and_self, if_true]
    | false =>
      simp only [Bool.false_eq_true, and_false, if_false, pipeLoop]
      rcases h with hp | hp | hp | hp <;> rw [hp] <;> rfl
  · rw [if_neg hrun]
    have hp : t.inputpipe = 0 := by
      by_contra hne
      exact hrun (Or.inr hne)
    rw [hp]
    decide

/-- What `compute_passed_time_cia` takes off. -/
def passedOf (tn : Fin 2) (t : CiaTimer) (n : Nat) : Nat :=
  if counting tn t then n - pipeDelay t.inputpipe else 0

theorem pipeLoop_full (input : Bool) (n k : Nat) :
    pipeLoop input n pipeAllMask k = (pipeAllMask, k) := by
  cases n with
  | zero => rfl
  | succ n => rw [pipeLoop, if_pos rfl]

/-- Over two E-clocks or more the counts of a timer that counts E-clocks are those of the read. -/
theorem counts_of_counting (acc : Bool) {tn : Fin 2} {t : CiaTimer} (hc : counting tn t)
    (h : PipeOk t.inputpipe) {n : Nat} (hn : 2 ≤ n) : counts acc n tn t = passedOf tn t n := by
  have hin : decide (t.cr &&& eclockMask tn = crStart) = true := decide_eq_true hc
  have hone : ¬ (n = 1 ∧ acc = true) := fun h => absurd h.1 (by omega)
  obtain ⟨m, rfl⟩ : ∃ m, n = m + 2 := ⟨n - 2, by omega⟩
  have hturn (k : Nat) (p : BitVec 16) (out : Nat) (hp : p ≠ pipeAllMask) :
      pipeLoop true (k + 1) p out =
        pipeLoop true k (shiftPipe true p) (if p &&& pipeOutput = 0 then out - 1 else out) := by
    rw [pipeLoop, if_neg hp]
  rw [counts, if_pos (Or.inl hc), passedOf, if_pos hc, processPipe, if_neg hone, hin]
  rcases h with hp | hp | hp | hp <;> rw [hp]
  · rw [hturn _ _ _ (by decide), hturn _ _ _ (by decide)]
    exact congrArg Prod.snd (pipeLoop_full true m _)
  · rw [hturn _ _ _ (by decide), hturn _ _ _ (by decide)]
    exact congrArg Prod.snd (pipeLoop_full true m _)
  · rw [hturn _ _ _ (by decide)]
    exact congrArg Prod.snd (pipeLoop_full true (m + 1) _)
  · rw [pipeLoop_full]
    rfl

/-! ### One update of a timer in E-clock mode -/

/-- The local `ovfl[tn]` at the end of the update of a chip. -/
def localOvfl (acc : Bool) (n : Nat) (tn : Fin 2) (c : Cia) : Nat :=
  match loadSpecial c.t0 n, loadSpecial c.t1 n with
  | .ok (t0, fl0), .ok (t1, fl1) =>
    let r := countTimers acc n fl0 fl1 { foldIcr c with t0 := t0, t1 := t1 }
    match tn with
    | 0 => r.ovflA
    | 1 => r.ovflB
  | _, _ => 0

/-- The pipe clears `ovfl` never. -/
theorem processPipe_ovfl {acc : Bool} {t : CiaTimer} {n : Nat} {m : BitVec 8} {ovfl : Nat}
    {loadednow : Bool} (h : (processPipe acc t n m ovfl loadednow).ovfl = 0) : ovfl = 0 := by
  unfold processPipe at h
  dsimp only at h
  split_ifs at h <;> exact h

theorem countA_ovfl {acc : Bool} {n : Nat} {c : Cia} {fl : TimerFlags}
    (h : (countA acc n c fl).2.1 = 0) : fl.ovfl = 0 := by
  unfold countA at h
  dsimp only at h
  split_ifs at h
  · unfold underflowA at h
    split_ifs at h
    exact processPipe_ovfl h
  · exact processPipe_ovfl h
  · exact h

theorem countB_ovfl {acc : Bool} {n : Nat} {t : CiaTimer} {fl : TimerFlags}
    (h : (countB acc n t fl).2 = 0) : fl.ovfl = 0 := by
  unfold countB at h
  dsimp only at h
  split_ifs at h
  · unfold underflowB at h
    dsimp only at h
    split_ifs at h
    exact processPipe_ovfl h
  · exact processPipe_ovfl h
  · exact h

/-- The timer the count starts from: without the delayed stop only bit 0 of the load-delay register
acts. -/
theorem loadSpecial_loaded {t t' : CiaTimer} {n : Nat} {fl : TimerFlags}
    (h : loadSpecial t n = .ok (t', fl)) (hovfl : fl.ovfl = 0) :
    t'.timer = (delayedLoad t).timer ∧ t'.inputpipe = (delayedLoad t).inputpipe ∧ t'.cr = t.cr := by
  unfold loadSpecial at h
  have hcr : (delayedLoad t).cr = t.cr := by
    unfold delayedLoad
    split_ifs <;> rfl
  have hdelay : (delayedLoad t).loaddelay = t.loaddelay := by
    unfold delayedLoad
    split_ifs <;> rfl
  split_ifs at h with hzero
  · obtain ⟨rfl, rfl⟩ := Prod.mk.inj (Except.ok.inj h)
    have hload : delayedLoad t = t := by
      rw [delayedLoad, hzero, if_neg (by decide)]
    rw [hload]
    exact ⟨rfl, rfl, rfl⟩
  · obtain ⟨rfl, rfl⟩ := Prod.mk.inj (Except.ok.inj h)
    have hlast : (delayedStop (delayedLoad t)).loaddelay = t.loaddelay := by
      rw [← hdelay]
      unfold delayedStop
      split_ifs <;> rfl
    have hstop : delayedStop (delayedLoad t) = delayedLoad t := by
      rw [delayedStop, hdelay, if_neg]
      intro hbit
      simp only [delayFlags, hlast, if_pos hbit] at hovfl
      exact absurd hovfl (by decide)
    rw [hstop]
    exact ⟨rfl, rfl, hcr⟩

theorem counts_congr (acc : Bool) (n : Nat) (tn : Fin 2) {t t' : CiaTimer} (hcr : t'.cr = t.cr)
    (hpipe : t'.inputpipe = t.inputpipe) : counts acc n tn t' = counts acc n tn t := by
  obtain ⟨timer, latch, passed, pipe, delay, preovfl, cr⟩ := t
  obtain ⟨timer', latch', passed', pipe', delay', preovfl', cr'⟩ := t'
  dsimp only at hcr hpipe
  subst hcr hpipe
  unfold counts counting processPipe
  dsimp only
  split_ifs <;> rfl

/-- What the update stores. -/
theorem updateChip_timer {acc : Bool} {n : Nat} {c c' : Cia} {icr icr' : Bool} {tn : Fin 2}
    (hok : ChipOk False c) (hmode : ciaTimerInmode tn (c.t tn).cr = false)
    (hup : updateChip acc n icr c = .ok (c', icr')) (hn : ∀ k, (c.t k).loaddelay ≠ 0 → n ≤ 1)
    (hovfl : localOvfl acc n tn c = 0) :
    (c'.t tn).timer =
      subTimer (delayedLoad (c.t tn)).timer (counts acc n tn (delayedLoad (c.t tn))) := by
  obtain ⟨t0, fl0, h0, hok0⟩ := loadSpecial_ok hok.1 (hn 0)
  obtain ⟨t1, fl1, h1, hok1⟩ := loadSpecial_ok hok.2 (hn 1)
  have hr := countTimers_ok (⟨hok0, hok1⟩ : ChipOk False { foldIcr c with t0 := t0, t1 := t1 })
    acc n fl0 fl1
  rw [updateChip_eq acc icr h0 h1 hr.1.timer hr.2.timer, Except.ok.injEq, Prod.mk.injEq] at hup
  obtain ⟨rfl, -⟩ := hup
  have hcr (t : CiaTimer) : (delayedLoad t).cr = t.cr := by
    unfold delayedLoad
    split_ifs <;> rfl
  rw [localOvfl, h0, h1] at hovfl
  match tn with
  | 0 =>
    have hA : (countA acc n { foldIcr c with t0 := t0, t1 := t1 } fl0).2.1 = 0 := hovfl
    obtain ⟨htimer, hpipe, hc⟩ := loadSpecial_loaded h0 (countA_ovfl hA)
    rw [Cia.t_zero, Cia.t_zero, latchIcr_t0]
    change (reload acc (countA acc n _ fl0).2.1 fl0 (countA acc n _ fl0).1.t0).timer = _
    rw [hA, reload_timer, countA_timer acc n _ fl0 hok0.timer]
    dsimp only
    rw [htimer, counts_congr acc n 0 (hc.trans (hcr c.t0).symm) hpipe]
  | 1 =>
    have hB : (countTimers acc n fl0 fl1 { foldIcr c with t0 := t0, t1 := t1 }).ovflB = 0 := hovfl
    have hcount : (countTimers acc n fl0 fl1 { foldIcr c with t0 := t0, t1 := t1 }).c.t1 =
          (countB acc n t1 fl1).1 ∧
        (countTimers acc n fl0 fl1 { foldIcr c with t0 := t0, t1 := t1 }).ovflB =
          (countB acc n t1 fl1).2 := by
      simp only [countTimers, countA_t1, and_self]
    obtain ⟨htimer, hpipe, hc⟩ := loadSpecial_loaded h1 (countB_ovfl (hcount.2.symm.trans hB))
    have hmode' : ciaTimerInmode 1 t1.cr = false := by
      rw [hc]
      exact hmode
    rw [Cia.t_one, Cia.t_one, latchIcr_t1]
    change (reload acc (countTimers acc n fl0 fl1 _).ovflB fl1
      (feedB _ (countTimers acc n fl0 fl1 _).c.t1)).timer = _
    rw [hB, reload_timer, feedB_timer, hcount.1, countB_timer acc n t1 fl1 hmode' hok1.timer,
      htimer, counts_congr acc n 1 (hc.trans (hcr c.t1).symm) hpipe]

/-! ### Reads -/

/-- The register with the low byte of a timer. -/
def loReg : Fin 2 → Fin 16
  | 0 => 4
  | 1 => 6

/-- The register with its high byte. -/
def hiReg : Fin 2 → Fin 16
  | 0 => 5
  | 1 => 7

/-- A timer read through both registers. -/
def readTimer (env : Env) (hpos : Int) (pins : BitVec 8) (num tn : Fin 2) (s : State) :
    Except CiaFault (BitVec 16) := do
  let (lo, _) ← readCia env hpos pins num (loReg tn) s
  let (hi, _) ← readCia env hpos pins num (hiReg tn) s
  return hi ++ lo

theorem passedTime_eq {tn : Fin 2} {t : CiaTimer} {n : Nat} (h : TimerOk False t)
    (hn : counting tn t → n ≤ max 1 (t.timer + pipeDelay t.inputpipe)) :
    passedTime tn t n = .ok { t with passed := passedOf tn t n } := by
  unfold passedTime passedOf
  by_cases hc : counting tn t
  · have hcc : n - pipeDelay t.inputpipe < 65536 := by
      have := hn hc
      have := h.timer
      omega
    simp only [hc, if_true, h.pipe.bitsToDelay_eq, bind, Except.bind, pure, Except.pure, hcc,
      not_true_eq_false, if_false]
  · rw [if_neg hc, if_neg hc]
    rfl

/-- `timer - passed` in 16 bits. -/
theorem append_bytes_toNat (timer passed : Nat) :
    (byteOf (BitVec.ofNat 32 timer - BitVec.ofNat 32 passed) 8 ++
      byteOf (BitVec.ofNat 32 timer - BitVec.ofNat 32 passed) 0 : BitVec 16).toNat =
      subTimer timer passed := by
  have hbytes (v : BitVec 32) : (byteOf v 8 ++ byteOf v 0 : BitVec 16).toNat = v.toNat % 65536 := by
    have hsplit : (byteOf v 8 ++ byteOf v 0 : BitVec 16) = v.setWidth 16 := by
      apply BitVec.eq_of_getLsbD_eq
      intro i hi
      rw [BitVec.getLsbD_append, BitVec.getLsbD_setWidth]
      by_cases hlow : i < 8
      · simp [byteOf, hlow, hi]
      · have hback : 8 + (i - 8) = i := by omega
        have hhigh : i - 8 < 8 := by omega
        simp [byteOf, hlow, hi, hback, hhigh]
    rw [hsplit, BitVec.toNat_setWidth]
  rw [hbytes, BitVec.toNat_sub, BitVec.toNat_ofNat, BitVec.toNat_ofNat, subTimer]
  omega

theorem readTimer_eq {s : State} (h : Inv False s) (env : Env) (hpos : Int) (pins : BitVec 8)
    (num tn : Fin 2) : ∃ v, readTimer env hpos pins num tn s = .ok v ∧
      v.toNat = subTimer ((s.cia num).t tn).timer
        (passedOf tn ((s.cia num).t tn) (ciaclocks s)) := by
  have hone (num tn : Fin 2) : passedTime tn ((s.cia num).t tn) (ciaclocks s) =
      .ok { (s.cia num).t tn with passed := passedOf tn ((s.cia num).t tn) (ciaclocks s) } :=
    passedTime_eq (h.timers num tn) (fun hc => h.ciaclocks_le ((h.attended num tn).count hc))
  have h00 := hone 0 0
  have h01 := hone 0 1
  have h10 := hone 1 0
  have h11 := hone 1 1
  simp only [State.cia_zero, State.cia_one, Cia.t_zero, Cia.t_one] at h00 h01 h10 h11
  refine ⟨_, ?_, append_bytes_toNat _ _⟩
  simp only [readTimer, readCia, computePassedTime, computePassedTimeCia, h00, h01, h10, h11, bind,
    Except.bind, pure, Except.pure]
  rcases eq_zero_or_one num with rfl | rfl <;> rcases eq_zero_or_one tn with rfl | rfl <;> rfl

/-- The state in which the read after one E-clock follows the update. With a load due, the latch is
what the timer counts to; else no clock sits in the output stage but that of a full pipe of a timer
that counts E-clocks. -/
def ReadInStep (tn : Fin 2) (t : CiaTimer) : Prop :=
  if t.loaddelay &&& 0x00000001 ≠ 0 then
    t.latch = subTimer t.timer (if counting tn t ∧ t.inputpipe = pipeAllMask then 1 else 0)
  else t.inputpipe &&& pipeOutput = 0 ∨ (counting tn t ∧ t.inputpipe = pipeAllMask)

instance (tn : Fin 2) (t : CiaTimer) : Decidable (ReadInStep tn t) := by
  unfold ReadInStep
  infer_instance

theorem passedOf_one (tn : Fin 2) (t : CiaTimer) :
    passedOf tn t 1 = if counting tn t ∧ t.inputpipe = pipeAllMask then 1 else 0 := by
  unfold passedOf
  by_cases hc : counting tn t
  · rw [if_pos hc]
    by_cases hfull : t.inputpipe = pipeAllMask
    · have hdelay : pipeDelay t.inputpipe = 0 := by
        rw [hfull, pipeDelay, if_neg (by decide), if_pos rfl]
      rw [if_pos (And.intro hc hfull), hdelay]
    · have hdelay : 1 ≤ pipeDelay t.inputpipe := by
        rw [pipeDelay, if_neg hfull]
        split_ifs <;> decide
      rw [if_neg (fun h : counting tn t ∧ t.inputpipe = pipeAllMask => hfull h.2)]
      omega
  · rw [if_neg hc, if_neg (fun h : counting tn t ∧ t.inputpipe = pipeAllMask => hc h.1)]

theorem subTimer_one_ne {timer : Nat} : subTimer timer 1 ≠ subTimer timer 0 := by
  rw [subTimer, subTimer]
  omega

/-- Read and update over one E-clock. -/
theorem readInStep_iff {acc : Bool} {tn : Fin 2} {t : CiaTimer} (h : TimerOk False t) :
    subTimer t.timer (passedOf tn t 1) =
        subTimer (delayedLoad t).timer (counts acc 1 tn (delayedLoad t)) ↔ ReadInStep tn t := by
  rw [passedOf_one, ReadInStep, delayedLoad]
  by_cases hload : t.loaddelay &&& 0x00000001 ≠ 0
  · rw [if_pos hload, if_pos hload]
    have hpipe : PipeOk (t.load.clrPipe pipeClr1).inputpipe := h.pipe.and (by decide)
    have hnone : (t.load.clrPipe pipeClr1).inputpipe &&& pipeOutput = 0 := by
      change t.inputpipe &&& ~~~pipeClr1 &&& pipeOutput = 0
      rcases h.pipe with hp | hp | hp | hp <;> rw [hp] <;> decide
    rw [counts_one acc tn hpipe, if_pos hnone]
    have hlatch : subTimer (t.load.clrPipe pipeClr1).timer 0 = t.latch := subTimer_zero h.latch
    rw [hlatch, eq_comm]
  · rw [if_neg hload, if_neg hload, counts_one acc tn h.pipe]
    by_cases hout : t.inputpipe &&& pipeOutput = 0
    · have hnot : ¬ (counting tn t ∧ t.inputpipe = pipeAllMask) := by
        rintro ⟨-, hfull⟩
        rw [hfull] at hout
        exact absurd hout (by decide)
      rw [if_neg hnot, if_pos hout]
      exact iff_of_true rfl (Or.inl hout)
    · rw [if_neg hout]
      by_cases hfull : counting tn t ∧ t.inputpipe = pipeAllMask
      · rw [if_pos hfull]
        exact iff_of_true rfl (Or.inr hfull)
      · rw [if_neg hfull]
        refine iff_of_false (fun heq => subTimer_one_ne heq.symm) ?_
        rintro (h | h)
        · exact hout h
        · exact hfull h

/-- Read and update over two E-clocks or more. -/
theorem read_of_two_le {acc : Bool} {tn : Fin 2} {t : CiaTimer} (h : TimerOk False t) {n : Nat}
    (hn : 2 ≤ n) (hload : t.loaddelay = 0) (hmode : ciaTimerInmode tn t.cr = false)
    (hdrain : ¬ Draining tn t) :
    passedOf tn t n = counts acc n tn (delayedLoad t) := by
  have hsame : delayedLoad t = t := by
    rw [delayedLoad, hload, if_neg (by decide)]
  rw [hsame]
  by_cases hc : counting tn t
  · exact (counts_of_counting acc hc h.pipe hn).symm
  · have hstop : t.cr &&& crStart = 0 := by
      have hbits : ∀ cr : BitVec 8, ∀ tn, ciaTimerInmode tn cr = false →
          ¬ cr &&& eclockMask tn = crStart → cr &&& crStart = 0 := by
        decide
      exact hbits t.cr tn hmode hc
    have hpipe : t.inputpipe = 0 := by
      by_contra hne
      exact hdrain ⟨hmode, hstop, hne⟩
    rw [passedOf, if_neg hc, counts, if_neg]
    rintro (hc' | hne)
    · exact hc hc'
    · exact hne hpipe

/-- No underflow comes between the last update and now. -/
def NoUnderflow (num tn : Fin 2) (s : State) : Prop :=
  ciaclocks s = 0 ∨ localOvfl s.accurate (ciaclocks s) tn (s.cia num) = 0

/-- What the update stores in a timer in E-clock mode when no underflow comes. -/
theorem ciaUpdateCheck_timer {s : State} (hInv : Inv False s) (hn : ciaclocks s ≠ 0)
    (num tn : Fin 2) (hmode : ciaTimerInmode tn ((s.cia num).t tn).cr = false)
    (hovfl : localOvfl s.accurate (ciaclocks s) tn (s.cia num) = 0) :
    ∃ s', ciaUpdateCheck s = .ok s' ∧ ((s'.cia num).t tn).timer =
      subTimer (delayedLoad ((s.cia num).t tn)).timer
        (counts s.accurate (ciaclocks s) tn (delayedLoad ((s.cia num).t tn))) := by
  have hok := hInv.timersOk
  obtain ⟨c0, icr, h0, -⟩ :=
    updateChip_ok s.accurate false hok.chip0 (fun k hl => hInv.load_clocks 0 k hl)
  obtain ⟨c1, icr', h1, -⟩ :=
    updateChip_ok s.accurate icr hok.chip1 (fun k hl => hInv.load_clocks 1 k hl)
  refine ⟨{ s with cia0 := c0, cia1 := c1 }, ?_, ?_⟩
  · simp only [ciaUpdateCheck, hn, h0, h1, if_false, bind, Except.bind, pure, Except.pure]
  · match num with
    | 0 => exact updateChip_timer hok.chip0 hmode h0 (fun k hl => hInv.load_clocks 0 k hl) hovfl
    | 1 => exact updateChip_timer hok.chip1 hmode h1 (fun k hl => hInv.load_clocks 1 k hl) hovfl

/-- **Reads against the update.** In every state of a run, for every timer in E-clock mode without
an underflow since the last update, the value read through the two registers is the one that
`CIA_update_check` would store, unless exactly one E-clock has passed and `ReadInStep` fails. -/
theorem readTimer_iff (env : Env) (cycles : Nat) (acc : Bool) (ev : Ev) (eclockphase : Int)
    {s0 s : State} (h0 : ciaReset cycles acc ev eclockphase = .ok s0)
    (hreach : (machine env).Reachable s0 s) (hpos : Int) (pins : BitVec 8) (num tn : Fin 2)
    (hmode : ciaTimerInmode tn ((s.cia num).t tn).cr = false) (hovfl : NoUnderflow num tn s) :
    ∃ v s', readTimer env hpos pins num tn s = .ok v ∧ ciaUpdateCheck s = .ok s' ∧
      (v.toNat = ((s'.cia num).t tn).timer ↔
        (ciaclocks s = 1 → ReadInStep tn ((s.cia num).t tn))) := by
  obtain ⟨hInv, hdrains⟩ := reachable_drains env cycles acc ev eclockphase h0 hreach
  obtain ⟨v, hv, hval⟩ := readTimer_eq hInv env hpos pins num tn
  have ht : TimerOk False ((s.cia num).t tn) := hInv.timers num tn
  by_cases hn : ciaclocks s = 0
  · refine ⟨v, s, hv, ?_, ?_⟩
    · rw [ciaUpdateCheck]
      dsimp only
      rw [if_pos hn]
      rfl
    · have hnone : passedOf tn ((s.cia num).t tn) 0 = 0 := by
        unfold passedOf
        rw [Nat.zero_sub, ite_self]
      rw [hval, hn, hnone, subTimer_zero ht.timer]
      exact iff_of_true rfl (fun h => absurd h (by decide))
  · have hovfl' := hovfl.resolve_left hn
    obtain ⟨s', hcheck, hstored⟩ := ciaUpdateCheck_timer hInv hn num tn hmode hovfl'
    refine ⟨v, s', hv, hcheck, ?_⟩
    rw [hval, hstored]
    by_cases hone : ciaclocks s = 1
    · rw [hone, readInStep_iff ht]
      exact ⟨fun h _ => h, fun h => h rfl⟩
    · have htwo : 2 ≤ ciaclocks s := by omega
      have hload : ((s.cia num).t tn).loaddelay = 0 := by
        by_contra hl
        have := hInv.load_clocks num tn hl
        omega
      have hdrain : ¬ Draining tn ((s.cia num).t tn) := by
        intro hd
        have := hInv.ciaclocks_le (k := 1) (hdrains num tn hd)
        omega
      have hsame : (delayedLoad ((s.cia num).t tn)).timer = ((s.cia num).t tn).timer := by
        rw [delayedLoad, hload, if_neg (by decide)]
      rw [hsame, ← read_of_two_le ht htwo hload hmode hdrain]
      exact iff_of_true rfl (fun h => absurd h hone)

theorem readTimer_counting :
    ∃ v s', readTimer plainEnv 0 0 0 0 { countingState with cycles := 7680 } = .ok v ∧
      ciaUpdateCheck { countingState with cycles := 7680 } = .ok s' ∧
      (v.toNat = ((s'.cia 0).t 0).timer ↔
        (ciaclocks { countingState with cycles := 7680 } = 1 →
          ReadInStep 0 ((countingState.cia 0).t 0))) :=
  readTimer_iff plainEnv 0 true ⟨false, 0, 0⟩ 0
    (by decide : ciaReset 0 true ⟨false, 0, 0⟩ 0 = .ok resetState)
    (Machine.reachable_of_exec
      (by decide : (machine plainEnv).exec resetState (startInputs ++ [.advance 2560]) =
        some { countingState with cycles := 7680 }))
    0 0 0 0 (by decide) (Or.inr (by decide))

/-! ### A stopped timer -/

/-- Timer A is started and stopped again, and its pipe drains for one E-clock. -/
def drainInputs : List Input :=
  startInputs ++ [.write 0 14 0 0x00, .advance 2560, .handler, .advance 2560]

/-- The state those inputs end in. -/
def drainingState : State :=
  { resetState with
    cia0 := { resetChip 0 with t0 := { resetTimer with inputpipe := 1 } }
    cycles := 10240
    evCia := { active := true, evtime := 10240, oldcycles := 7680 } }

/-- The read returns 65535 where the update stores 65534. -/
theorem readTimer_draining :
    ciaReset 0 true ⟨false, 0, 0⟩ 0 = .ok resetState ∧
      (machine plainEnv).Reachable resetState drainingState ∧
      ciaTimerInmode 0 ((drainingState.cia 0).t 0).cr = false ∧ NoUnderflow 0 0 drainingState ∧
      (readTimer plainEnv 0 0 0 0 drainingState).toOption.map (·.toNat) = some 65535 ∧
      (ciaUpdateCheck drainingState).toOption.map (·.cia0.t0.timer) = some 65534 := by
  refine ⟨by decide, ?_, by decide, Or.inr (by decide +kernel), by decide +kernel,
    by decide⟩
  have hexec : (machine plainEnv).exec resetState drainInputs = some drainingState := by
    decide
  exact Machine.reachable_of_exec hexec

end LibretroUae.CiaChips
