import LibretroUae.Cia.Registers
import LibretroUae.Cia.Timers
import LibretroUae.Lib.Machine

/-!
# LibretroUae.Cia.Runs

The chip pair as a **machine**, and the invariant of all its runs.

The environment reads and writes registers, pulses CNT, raises interrupts, lets
the beam drive the time-of-day counters, switches between the two timing modes
and lets time pass. Its one promise is that time does not pass the pending
`ev_cia` event: whatever asks for more time first gets the event handled.

The invariant `Inv` says of every timer that its pipe and counters are in range
and that the pending event comes no later than the first E-clock at which the
timer needs attention (`Attended`). Everything that can reach an `abort()` or an
`assert()` follows from it.
-/

namespace LibretroUae.CiaChips

open LibretroUae.Lib

/-! ### The machine -/

/-- What the environment can do to the chips. -/
inductive Input
  /-- Let `dt` raw cycles pass. -/
  | advance (dt : Nat)
  /-- `CIA_handler`, at or before the event's time. -/
  | handler
  /-- `CIA_vsync_prehandler` recomputes `cia_cycle_accurate`. -/
  | setAccurate (acc : Bool)
  | read (num : Fin 2) (reg : Fin 16) (hpos : Int) (pins : BitVec 8)
  | write (num : Fin 2) (reg : Fin 16) (hpos : Int) (val : BitVec 8)
  | serial (ndata odata ndir odir : BitVec 8)
  | syncInterrupt (num : Fin 2) (icr : BitVec 8)
  /-- `event_CIA_synced_interrupt`, the queued half of an accurate interrupt. -/
  | syncedInterrupt
  | todIncEvent (num : Fin 2)
  | todHandler (num : Fin 2) (hoffset : Int) (delayedevent : Bool)
  | delayedTod (num : Fin 2)
  | todHack
  | keyreq (kbcode : BitVec 8)
  deriving DecidableEq

/-- What one input does. -/
def step (env : Env) (s : State) : Input → Except CiaFault State
  | .advance dt => .ok { s with cycles := s.cycles + dt }
  | .handler => ciaHandler s
  | .setAccurate acc => .ok { s with accurate := acc }
  | .read num reg hpos pins => do return (← readCia env hpos pins num reg s).2
  | .write num reg hpos val => writeCia env hpos num reg val s
  | .serial ndata odata ndir odir => .ok (writeCiabSerial ndata odata ndir odir s)
  | .syncInterrupt num icr => .ok (ciaSyncInterrupt num icr s)
  | .syncedInterrupt => ciaHandler s
  | .todIncEvent num => .ok (eventCiaTodInc env num s)
  | .todHandler num hoffset delayed => .ok (ciaTodHandler env hoffset num delayed s)
  | .delayedTod num => .ok (ciaDelayedTod env num s)
  | .todHack => .ok (doTodHack env s)
  | .keyreq kbcode => .ok (keyreq kbcode s)

/-- Time does not pass the pending event. -/
def legal (s : State) : Input → Prop
  | .advance dt => s.evCia.active → s.cycles + dt ≤ s.evCia.evtime
  | _ => True

instance (s : State) (i : Input) : Decidable (legal s i) := by
  cases i <;> unfold legal <;> infer_instance

/-- The chip pair as a machine. -/
def machine (env : Env) : Machine State Input CiaFault := ⟨legal, step env⟩

instance (env : Env) (s : State) (i : Input) : Decidable ((machine env).legal s i) :=
  inferInstanceAs (Decidable (legal s i))

/-! ### The invariant -/

/-- The invariant of the machine. -/
structure Inv (strict : Prop) (s : State) : Prop where
  timers : ∀ num tn, TimerOk strict ((s.cia num).t tn)
  accurate : strict → s.accurate = true
  attended : ∀ num tn, Attended s.evCia tn ((s.cia num).t tn)
  onTime : s.evCia.active → s.cycles ≤ s.evCia.evtime

variable {strict : Prop}

theorem Inv.timersOk {s : State} (h : Inv strict s) : TimersOk strict s :=
  ⟨⟨h.timers 0 0, h.timers 0 1⟩, ⟨h.timers 1 0, h.timers 1 1⟩, h.accurate⟩

/-- `CIA_calctimers` does not abort on timers in range, and establishes the invariant. -/
theorem ciaCalcTimers_inv {s : State} (h : TimersOk strict s) :
    ∃ s', ciaCalcTimers s = .ok s' ∧ Inv strict s' := by
  refine ⟨_, ciaCalcTimers_eq h, h.cia, h.accurate, fun num tn => scheduled_attended s s.evCia num tn, ?_⟩
  intro ha
  change s.cycles ≤ (scheduled s.cycles s.evCia s.nextUse).evtime
  cases hn : s.nextUse with
  | none => simp [hn, scheduled] at ha
  | some k => exact Nat.le_add_right _ _

/-! ### The update does not fault -/

/-- With an event `k` E-clocks after the last update, no update sees more than `k`. -/
theorem Inv.ciaclocks_le {s : State} (h : Inv strict s) {k : Nat}
    (hev : s.evCia.active ∧ s.evCia.evtime ≤ s.evCia.oldcycles + div10 * k) :
    ciaclocks s ≤ k := by
  have hon := h.onTime hev.1
  have hd : s.cycles - s.evCia.oldcycles ≤ div10 * k := by omega
  unfold ciaclocks
  calc min (s.cycles - s.evCia.oldcycles) maxInt / div10
      ≤ div10 * k / div10 := Nat.div_le_div_right (Nat.le_trans (Nat.min_le_left _ _) hd)
    _ = k := Nat.mul_div_cancel_left k (by decide)

/-- A pending load is met by an update over at most one E-clock. -/
theorem Inv.load_clocks {s : State} (h : Inv strict s) (num tn : Fin 2)
    (hl : ((s.cia num).t tn).loaddelay ≠ 0) : ciaclocks s ≤ 1 :=
  h.ciaclocks_le (k := 1) ((h.attended num tn).load hl)

/-- `CIA_update_check` does not fault and keeps the timers in range. -/
theorem ciaUpdateCheck_ok {s : State} (h : Inv strict s) :
    ∃ s', ciaUpdateCheck s = .ok s' ∧ TimersOk strict s' := by
  unfold ciaUpdateCheck
  dsimp only
  by_cases hn : ciaclocks s = 0
  · rw [if_pos hn]
    exact ⟨s, rfl, h.timersOk⟩
  · rw [if_neg hn]
    obtain ⟨c0, icr, h0, hok0⟩ :=
      updateChip_ok s.accurate false h.timersOk.chip0 (fun tn hl => h.load_clocks 0 tn hl)
    obtain ⟨c1, icr', h1, hok1⟩ :=
      updateChip_ok s.accurate icr h.timersOk.chip1 (fun tn hl => h.load_clocks 1 tn hl)
    exact ⟨{ s with cia0 := c0, cia1 := c1 }, by simp [h0, h1, bind, Except.bind, pure, Except.pure],
      hok0, hok1, h.accurate⟩

/-! ### Accesses that leave the timers alone -/

/-- Nothing the timers depend on differs between two states. -/
structure SameTimers (s s' : State) : Prop where
  timers : ∀ num, (s'.cia num).t0 = (s.cia num).t0 ∧ (s'.cia num).t1 = (s.cia num).t1
  ev : s'.evCia = s.evCia
  cycles : s'.cycles = s.cycles
  accurate : s'.accurate = s.accurate

namespace SameTimers

theorem refl (s : State) : SameTimers s s := ⟨fun _ => ⟨rfl, rfl⟩, rfl, rfl, rfl⟩

theorem trans {s s' s'' : State} (h : SameTimers s s') (h' : SameTimers s' s'') :
    SameTimers s s'' where
  timers num := ⟨(h'.timers num).1.trans (h.timers num).1, (h'.timers num).2.trans (h.timers num).2⟩
  ev := h'.ev.trans h.ev
  cycles := h'.cycles.trans h.cycles
  accurate := h'.accurate.trans h.accurate

theorem t {s s' : State} (h : SameTimers s s') (num tn : Fin 2) :
    (s'.cia num).t tn = (s.cia num).t tn := by
  match tn with
  | 0 => exact (h.timers num).1
  | 1 => exact (h.timers num).2

theorem timersOk {s s' : State} (h : SameTimers s s') (hok : TimersOk strict s) : TimersOk strict s' := by
  have ht : ∀ num tn, TimerOk strict ((s'.cia num).t tn) := by
    intro num tn
    rw [h.t]
    exact hok.cia num tn
  refine ⟨⟨ht 0 0, ht 0 1⟩, ⟨ht 1 0, ht 1 1⟩, ?_⟩
  rw [h.accurate]
  exact hok.accurate

theorem inv {s s' : State} (h : SameTimers s s') (hInv : Inv strict s) : Inv strict s' where
  timers num tn := by
    rw [h.t]
    exact hInv.timers num tn
  accurate := by
    rw [h.accurate]
    exact hInv.accurate
  attended num tn := by
    rw [h.t, h.ev]
    exact hInv.attended num tn
  onTime := by
    rw [h.ev, h.cycles]
    exact hInv.onTime

/-- Replacing a chip by one with the same timers. -/
theorem setCia {s : State} (num : Fin 2) {c : Cia} (h0 : c.t0 = (s.cia num).t0)
    (h1 : c.t1 = (s.cia num).t1) : SameTimers s (s.setCia num c) := by
  match num with
  | 0 =>
    refine ⟨fun n => ?_, rfl, rfl, rfl⟩
    match n with
    | 0 => exact ⟨h0, h1⟩
    | 1 => exact ⟨rfl, rfl⟩
  | 1 =>
    refine ⟨fun n => ?_, rfl, rfl, rfl⟩
    match n with
    | 0 => exact ⟨rfl, rfl⟩
    | 1 => exact ⟨h0, h1⟩

end SameTimers

@[simp] theorem rethinkIcr_t0 (c : Cia) : (rethinkIcr c).t0 = c.t0 := by
  unfold rethinkIcr
  split <;> rfl

@[simp] theorem rethinkIcr_t1 (c : Cia) : (rethinkIcr c).t1 = c.t1 := by
  unfold rethinkIcr
  split <;> rfl

theorem ciaCheckIcr_same (s : State) : SameTimers s (ciaCheckIcr s) := by
  refine ⟨fun num => ?_, rfl, rfl, rfl⟩
  match num with
  | 0 => constructor <;> simp only [ciaCheckIcr, State.cia_zero] <;> split <;> simp
  | 1 => constructor <;> simp only [ciaCheckIcr, State.cia_one] <;> split <;> simp

theorem ciaSyncInterrupt_same (num : Fin 2) (icr : BitVec 8) (s : State) :
    SameTimers s (ciaSyncInterrupt num icr s) := by
  unfold ciaSyncInterrupt
  dsimp only
  split_ifs
  · exact .setCia num rfl rfl
  · exact .setCia num rfl rfl
  · refine .trans ?_ (ciaCheckIcr_same _)
    exact .setCia num rfl rfl

theorem ciaCheckAlarm_same (env : Env) (inc irq : Bool) (num : Fin 2) (s : State) :
    SameTimers s (ciaCheckAlarm env inc irq num s) := by
  unfold ciaCheckAlarm
  dsimp only
  split
  · exact ciaSyncInterrupt_same _ _ _
  · exact .refl s

theorem ciaTodInc_same (env : Env) (irq : Bool) (num : Fin 2) (s : State) :
    SameTimers s (ciaTodInc env irq num s) := by
  unfold ciaTodInc
  dsimp only
  split
  · exact .setCia num rfl rfl
  · refine .trans ?_ (ciaCheckAlarm_same env true irq num _)
    exact .setCia num rfl rfl

theorem eventCiaTodInc_same (env : Env) (num : Fin 2) (s : State) :
    SameTimers s (eventCiaTodInc env num s) := by
  unfold eventCiaTodInc
  split
  · exact .refl s
  · exact ciaTodInc_same _ _ _ _

theorem ciaTodEventCheck_same (env : Env) (hpos : Int) (num : Fin 2) (s : State) :
    SameTimers s (ciaTodEventCheck env hpos num s) := by
  unfold ciaTodEventCheck
  dsimp only
  split
  · exact (ciaTodInc_same env false num s).trans (.setCia num rfl rfl)
  · exact .refl s

theorem ciaTodCheck_same (env : Env) (hpos : Int) (num : Fin 2) (s : State) :
    SameTimers s (ciaTodCheck env hpos num s) := by
  refine (ciaTodEventCheck_same env hpos num s).trans ?_
  unfold ciaTodCheck
  dsimp only
  split_ifs
  · exact .refl _
  · exact ciaTodInc_same _ _ _ _
  · exact .setCia num rfl rfl

theorem ciaTodHandler_same (env : Env) (hoffset : Int) (num : Fin 2) (delayed : Bool) (s : State) :
    SameTimers s (ciaTodHandler env hoffset num delayed s) := by
  unfold ciaTodHandler
  dsimp only
  split_ifs <;> exact .setCia num rfl rfl

theorem ciaDelayedTod_same (env : Env) (num : Fin 2) (s : State) :
    SameTimers s (ciaDelayedTod env num s) := by
  unfold ciaDelayedTod
  dsimp only
  split_ifs
  · exact .setCia num rfl rfl
  · exact (ciaTodInc_same env false num s).trans (.setCia num rfl rfl)
  · exact .setCia num rfl rfl

theorem doTodHack_same (env : Env) (s : State) : SameTimers s (doTodHack env s) := by
  refine .trans ?_ (ciaCheckAlarm_same env false true 0 _)
  exact .setCia 0 rfl rfl

theorem keyreq_same (kbcode : BitVec 8) (s : State) : SameTimers s (keyreq kbcode s) := by
  refine .trans ?_ (ciaSyncInterrupt_same 0 icrSp _)
  exact .setCia 0 rfl rfl

/-! ### Register reads -/

theorem readTod_same (env : Env) (hpos : Int) (num : Fin 2) (reg : Fin 16) (s : State) :
    SameTimers s (readTod env hpos num reg s).2 := by
  refine (ciaTodCheck_same env hpos num s).trans ?_
  unfold readTod
  dsimp only
  split_ifs
  all_goals first
    | exact .refl _
    | exact .setCia num rfl rfl

theorem readCiaReg_same (env : Env) (hpos : Int) (num : Fin 2) (reg : Fin 16) (s : State) :
    SameTimers s (readCiaReg env hpos num reg s).2 := by
  unfold readCiaReg
  dsimp only
  split_ifs
  all_goals first
    | exact .refl _
    | exact .setCia num rfl rfl
    | exact readTod_same _ _ _ _ _

theorem readCiaPassed_same (env : Env) (hpos : Int) (pins : BitVec 8) (num : Fin 2)
    (reg : Fin 16) (s : State) : SameTimers s (readCiaPassed env hpos pins num reg s).2 := by
  unfold readCiaPassed
  by_cases h4 : reg = 0 ∨ reg = 1 ∨ reg = 2 ∨ reg = 3
  · rcases h4 with rfl | rfl | rfl | rfl <;> exact .refl s
  · simp only [not_or] at h4
    obtain ⟨h0, h1, h2, h3⟩ := h4
    simp only [h0, h1, h2, h3, if_false]
    exact readCiaReg_same env hpos num reg s

/-- The chip with the `passed` field of both timers set. -/
def Cia.setPassed (c : Cia) (p0 p1 : Nat) : Cia :=
  { c with t0 := { c.t0 with passed := p0 }, t1 := { c.t1 with passed := p1 } }

/-- `compute_passed_time_cia` looks at no more E-clocks than a counting timer has left. -/
theorem passedTime_ok {tn : Fin 2} {t : CiaTimer} {n : Nat} (h : TimerOk strict t)
    (hn : counting tn t → n ≤ max 1 (t.timer + pipeDelay t.inputpipe)) :
    ∃ p, passedTime tn t n = .ok { t with passed := p } := by
  unfold passedTime
  by_cases hc : counting tn t
  · have hcc : n - pipeDelay t.inputpipe < 65536 := by
      have := hn hc
      have := h.timer
      omega
    simp only [hc, if_true, h.pipe.bitsToDelay_eq, bind, Except.bind, pure, Except.pure, hcc,
      not_true_eq_false, if_false]
    exact ⟨_, rfl⟩
  · rw [if_neg hc]
    exact ⟨0, rfl⟩

/-- `compute_passed_time` only fills in the `passed` fields. -/
theorem computePassedTime_eq {s : State} (h : Inv strict s) :
    ∃ p q p' q', computePassedTime s =
      .ok { s with cia0 := s.cia0.setPassed p q, cia1 := s.cia1.setPassed p' q' } := by
  have hone : ∀ num tn, ∃ p, passedTime tn ((s.cia num).t tn) (ciaclocks s) =
      .ok { (s.cia num).t tn with passed := p } := by
    intro num tn
    refine passedTime_ok (h.timers num tn) (fun hc => ?_)
    exact h.ciaclocks_le ((h.attended num tn).count hc)
  obtain ⟨p, hp⟩ := hone 0 0
  obtain ⟨q, hq⟩ := hone 0 1
  obtain ⟨p', hp'⟩ := hone 1 0
  obtain ⟨q', hq'⟩ := hone 1 1
  refine ⟨p, q, p', q', ?_⟩
  simp only [State.cia_zero, State.cia_one, Cia.t_zero, Cia.t_one] at hp hq hp' hq'
  simp only [computePassedTime, computePassedTimeCia, hp, hq, hp', hq', bind, Except.bind, pure,
    Except.pure, Cia.setPassed]

theorem Inv.setPassed {s : State} (h : Inv strict s) (p q p' q' : Nat) :
    Inv strict { s with cia0 := s.cia0.setPassed p q, cia1 := s.cia1.setPassed p' q' } where
  timers num tn := by
    have ht := h.timers num tn
    match num, tn with
    | 0, 0 | 0, 1 | 1, 0 | 1, 1 => exact ⟨ht.pipe, ht.timer, ht.latch, ht.preovfl⟩
  accurate := h.accurate
  attended num tn := by
    have ha := h.attended num tn
    match num, tn with
    | 0, 0 | 0, 1 | 1, 0 | 1, 1 => exact ⟨ha.load, ha.count⟩
  onTime := h.onTime

theorem readCia_inv {s : State} (h : Inv strict s) (env : Env) (hpos : Int) (pins : BitVec 8)
    (num : Fin 2) (reg : Fin 16) :
    ∃ v s', readCia env hpos pins num reg s = .ok (v, s') ∧ Inv strict s' := by
  obtain ⟨p, q, p', q', hp⟩ := computePassedTime_eq h
  have hi := h.setPassed p q p' q'
  simp only [readCia, hp, bind, Except.bind, pure, Except.pure]
  exact ⟨_, _, rfl, (readCiaPassed_same env hpos pins num reg _).inv hi⟩

/-! ### Register writes -/

theorem TimerOk.writeLo {t : CiaTimer} (h : TimerOk strict t) (val : BitVec 8) :
    TimerOk strict { t with latch := (t.latch &&& 0xff00) ||| val.toNat } := by
  refine ⟨h.pipe, h.timer, ?_, h.preovfl⟩
  have hv : val.toNat < 2 ^ 16 := Nat.lt_trans val.isLt (by decide)
  exact Nat.or_lt_two_pow (Nat.and_lt_two_pow _ (by decide)) hv

theorem TimerOk.writeHi {t : CiaTimer} (h : TimerOk strict t) (val : BitVec 8) :
    TimerOk strict { t with latch := (t.latch &&& 0xff) ||| (val.toNat <<< 8) } := by
  refine ⟨h.pipe, h.timer, ?_, h.preovfl⟩
  have hv : val.toNat <<< 8 < 2 ^ 16 := by
    rw [Nat.shiftLeft_eq]
    have := val.isLt
    omega
  exact Nat.or_lt_two_pow (Nat.and_lt_two_pow _ (by decide)) hv

/-- Only the fast mode sets `preovfl`. -/
theorem preovfl_of_fast (hacc : strict → false = true) {p : Prop} : strict → p :=
  fun hs => absurd (hacc hs) (by decide)

theorem ciaThiWrite_ok {t : CiaTimer} (h : TimerOk strict t) {acc : Bool}
    (hacc : strict → acc = true) (tn : Fin 2) (val : BitVec 8) :
    TimerOk strict (ciaThiWrite acc tn val t) := by
  have hw := h.writeHi val
  have hfull : PipeOk pipeAllMask := by decide
  unfold ciaThiWrite
  cases acc with
  | true =>
    dsimp only
    simp only [not_true_eq_false, if_false]
    split_ifs <;> exact ⟨hw.pipe, hw.timer, hw.latch, hw.preovfl⟩
  | false =>
    have hfast : ∀ p : Prop, strict → p := fun p => preovfl_of_fast hacc
    dsimp only
    simp only [Bool.false_eq_true, not_false_eq_true, if_true]
    split_ifs
    all_goals first
      | exact ⟨hw.pipe, hw.timer, hw.latch, hfast _⟩
      | exact ⟨hw.pipe, hw.latch, hw.latch, hfast _⟩
      | exact ⟨hfull, hw.timer, hw.latch, hfast _⟩
      | exact ⟨hfull, hw.latch, hw.latch, hfast _⟩

theorem ciaCrWrite_ok {t : CiaTimer} (h : TimerOk strict t) {acc : Bool}
    (hacc : strict → acc = true) (tn : Fin 2) (val : BitVec 8) :
    TimerOk strict (ciaCrWrite acc tn val t) := by
  have hclr : PipeOk (t.inputpipe &&& ~~~pipeClr1) := h.pipe.and (by decide)
  have hfull : PipeOk pipeAllMask := by decide
  have hempty : PipeOk 0 := Or.inl rfl
  unfold ciaCrWrite
  cases acc with
  | true =>
    dsimp only
    simp only [not_true_eq_false, if_false]
    split_ifs
    all_goals first
      | exact ⟨h.pipe, h.timer, h.latch, h.preovfl⟩
      | exact ⟨hclr, h.timer, h.latch, h.preovfl⟩
  | false =>
    have hfast : ∀ p : Prop, strict → p := fun p => preovfl_of_fast hacc
    dsimp only
    simp only [Bool.false_eq_true, not_false_eq_true, if_true]
    split_ifs
    all_goals first
      | exact ⟨h.pipe, h.timer, h.latch, hfast _⟩
      | exact ⟨h.pipe, h.latch, h.latch, hfast _⟩
      | exact ⟨hempty, h.timer, h.latch, hfast _⟩
      | exact ⟨hempty, h.latch, h.latch, hfast _⟩
      | exact ⟨hfull, h.timer, h.latch, hfast _⟩
      | exact ⟨hfull, h.latch, h.latch, hfast _⟩

theorem writeTod_same (env : Env) (hpos : Int) (num : Fin 2) (reg : Fin 16) (val : BitVec 8)
    (s : State) : SameTimers s (writeTod env hpos num reg val s) := by
  refine (ciaTodCheck_same env hpos num s).trans ?_
  unfold writeTod
  dsimp only
  split_ifs
  case neg =>
    refine .trans ?_ (ciaTodCheck_same env hpos num _)
    refine .trans ?_ (ciaCheckAlarm_same env false true num _)
    exact .setCia num rfl rfl
  all_goals first
    | exact .refl _
    | exact .setCia num rfl rfl

@[simp] theorem writeSdr_t0 (val : BitVec 8) (c : Cia) : (writeSdr val c).t0 = c.t0 := by
  unfold writeSdr
  dsimp only
  split_ifs <;> rfl

@[simp] theorem writeSdr_t1 (val : BitVec 8) (c : Cia) : (writeSdr val c).t1 = c.t1 := by
  unfold writeSdr
  dsimp only
  split_ifs <;> rfl

theorem TimersOk.setT {s : State} (h : TimersOk strict s) (num tn : Fin 2) {t : CiaTimer}
    (ht : TimerOk strict t) : TimersOk strict (s.setCia num ((s.cia num).setT tn t)) := by
  match num, tn with
  | 0, 0 => exact ⟨⟨ht, h.chip0.2⟩, h.chip1, h.accurate⟩
  | 0, 1 => exact ⟨⟨h.chip0.1, ht⟩, h.chip1, h.accurate⟩
  | 1, 0 => exact ⟨h.chip0, ⟨ht, h.chip1.2⟩, h.accurate⟩
  | 1, 1 => exact ⟨h.chip0, ⟨h.chip1.1, ht⟩, h.accurate⟩

theorem writeCiaReg_ok {s : State} (h : TimersOk strict s) (env : Env) (hpos : Int) (num : Fin 2)
    (reg : Fin 16) (val : BitVec 8) : TimersOk strict (writeCiaReg env hpos num reg val s) := by
  have ht := h.cia num (timerOf reg)
  unfold writeCiaReg
  dsimp only
  split_ifs
  · exact h.setT num _ (ht.writeLo val)
  · exact h.setT num _ (ciaThiWrite_ok ht h.accurate _ val)
  · exact (writeTod_same env hpos num reg val s).timersOk h
  · exact (SameTimers.setCia num (writeSdr_t0 _ _) (writeSdr_t1 _ _)).timersOk h
  · refine SameTimers.timersOk (.setCia num ?_ ?_) h
    · rw [rethinkIcr_t0]
    · rw [rethinkIcr_t1]
  · exact h.setT num _ (ciaCrWrite_ok ht h.accurate _ val)
  · exact h

/-! ### CNT pulses -/

/-- A CNT pulse changes a timer only when it does not count E-clocks, and leaves it
so: neither a load nor a count becomes due. -/
structure Untimed (tn : Fin 2) (t t' : CiaTimer) : Prop where
  loaddelay : t'.loaddelay = t.loaddelay
  counting : t' = t ∨ ¬ CiaChips.counting tn t'

theorem Untimed.attended {ev : Ev} {tn : Fin 2} {t t' : CiaTimer} (hu : Untimed tn t t')
    (h : Attended ev tn t) : Attended ev tn t' where
  load := by
    rw [hu.loaddelay]
    exact h.load
  count := by
    intro hc
    rcases hu.counting with rfl | hn
    · exact h.count hc
    · exact absurd hc hn

theorem countCnt_ok {t : CiaTimer} (h : TimerOk strict t) (acc : Bool) : TimerOk strict (countCnt acc t).1 := by
  have h1 : PipeOk (t.inputpipe &&& ~~~pipeClr1) := h.pipe.and (by decide)
  have h2 : PipeOk (t.inputpipe &&& ~~~pipeClr2) := h.pipe.and (by decide)
  unfold countCnt timerReset
  dsimp only
  split_ifs
  all_goals first
    | exact ⟨h.pipe, h.latch, h.latch, h.preovfl⟩
    | exact ⟨h1, h.latch, h.latch, h.preovfl⟩
    | exact ⟨h2, h.latch, h.latch, h.preovfl⟩
    | exact ⟨h.pipe, Nat.lt_of_le_of_lt (Nat.sub_le _ _) h.timer, h.latch, h.preovfl⟩

theorem countCnt_loaddelay (t : CiaTimer) (acc : Bool) :
    (countCnt acc t).1.loaddelay = t.loaddelay := by
  unfold countCnt timerReset
  dsimp only
  split_ifs <;> rfl

/-- The control register after a CNT count: at most `START` is cleared. -/
theorem countCnt_cr (t : CiaTimer) (acc : Bool) :
    (countCnt acc t).1.cr = t.cr ∨ (countCnt acc t).1.cr = t.cr &&& ~~~crStart := by
  unfold countCnt timerReset
  dsimp only
  split_ifs <;> simp

theorem countCnt_untimed {tn : Fin 2} {t : CiaTimer} (h : ¬ counting tn t) (acc : Bool) :
    Untimed tn t (countCnt acc t).1 := by
  refine ⟨countCnt_loaddelay t acc, Or.inr ?_⟩
  unfold counting at h ⊢
  rcases countCnt_cr t acc with hc | hc <;> rw [hc]
  · exact h
  · -- without `START` the masked register cannot be `CR_START`
    intro heq
    have hbit := congrArg (BitVec.getLsbD · 0) heq
    simp at hbit

theorem serialIn_t0 (bit : Bool) (c : Cia) : (serialIn bit c).1.t0 = c.t0 := by
  unfold serialIn
  dsimp only
  split_ifs <;> rfl

theorem serialIn_t1 (bit : Bool) (c : Cia) : (serialIn bit c).1.t1 = c.t1 := by
  unfold serialIn
  dsimp only
  split_ifs <;> rfl

/-- The timers of a chip after a CNT pulse. -/
structure Pulsed (c c' : Cia) : Prop where
  ok : ∀ {strict : Prop}, ChipOk strict c → ChipOk strict c'
  untimed : ∀ tn, Untimed tn (c.t tn) (c'.t tn)

theorem ciaInmodeCnt_pulsed (acc : Bool) (c : Cia) : Pulsed c (ciaInmodeCnt acc c).1 := by
  have hrefl : ∀ (tn : Fin 2) (t : CiaTimer), Untimed tn t t := fun _ _ => ⟨rfl, Or.inl rfl⟩
  have h0 : (∀ {strict : Prop}, TimerOk strict c.t0 → TimerOk strict (ciaInmodeCnt acc c).1.t0) ∧
      Untimed 0 c.t0 (ciaInmodeCnt acc c).1.t0 := by
    unfold ciaInmodeCnt
    dsimp only
    by_cases hA : c.t0.cr &&& (crInmode ||| crStart) = crInmode ||| crStart
    · have hn : ¬ counting 0 c.t0 := by
        intro hc
        rw [counting, eclockMask, hA] at hc
        exact (by decide : crInmode ||| crStart ≠ crStart) hc
      rw [if_pos hA]
      exact ⟨fun h => countCnt_ok h acc, countCnt_untimed hn acc⟩
    · rw [if_neg hA]
      exact ⟨id, hrefl 0 c.t0⟩
  have h1 : (∀ {strict : Prop}, TimerOk strict c.t1 → TimerOk strict (ciaInmodeCnt acc c).1.t1) ∧
      Untimed 1 c.t1 (ciaInmodeCnt acc c).1.t1 := by
    unfold ciaInmodeCnt
    dsimp only
    generalize (if c.t0.cr &&& (crInmode ||| crStart) = crInmode ||| crStart
      then countCnt acc c.t0 else (c.t0, false)) = a
    split_ifs with hB
    · refine ⟨fun h => countCnt_ok h acc, countCnt_untimed ?_ acc⟩
      intro hc
      have hmode : ∀ cr : BitVec 8, cr &&& eclockMask 1 = crStart →
          cr &&& (crInmode1 ||| crStart) ≠ crInmode1 ||| crStart ∧
            cr &&& (crInmode1 ||| crInmode ||| crStart) ≠ crInmode ||| crStart := by
        decide
      rcases hB with ⟨-, hB⟩ | hB
      · exact (hmode _ hc).1 hB
      · exact (hmode _ hc).2 hB
    · exact ⟨id, hrefl 1 c.t1⟩
  refine ⟨fun h => ⟨h0.1 h.1, h1.1 h.2⟩, fun tn => ?_⟩
  match tn with
  | 0 => exact h0.2
  | 1 => exact h1.2

theorem Pulsed.inv {s : State} {c : Cia} (hp : Pulsed s.cia1 c) (h : Inv strict s) :
    Inv strict { s with cia1 := c } where
  timers num tn := by
    have hok := hp.ok h.timersOk.chip1
    match num, tn with
    | 0, 0 | 0, 1 => exact h.timers 0 _
    | 1, 0 => exact hok.1
    | 1, 1 => exact hok.2
  accurate := h.accurate
  attended num tn := by
    match num with
    | 0 => exact h.attended 0 tn
    | 1 => exact (hp.untimed tn).attended (h.attended 1 tn)
  onTime := h.onTime

theorem writeCiabSerial_inv {s : State} (h : Inv strict s) (ndata odata ndir odir : BitVec 8) :
    Inv strict (writeCiabSerial ndata odata ndir odir s) := by
  unfold writeCiabSerial
  dsimp only
  generalize decide (ndata &&& ndir &&& 1 ≠ 0) = bit
  have hp := ciaInmodeCnt_pulsed s.accurate (serialIn bit s.cia1).1
  have hser : Pulsed s.cia1 (ciaInmodeCnt s.accurate (serialIn bit s.cia1).1).1 := by
    refine ⟨fun hok => hp.ok ?_, fun tn => ?_⟩
    · rw [ChipOk, serialIn_t0, serialIn_t1]
      exact hok
    · have ht : (serialIn bit s.cia1).1.t tn = s.cia1.t tn := by
        match tn with
        | 0 => exact serialIn_t0 bit s.cia1
        | 1 => exact serialIn_t1 bit s.cia1
      rw [← ht]
      exact hp.untimed tn
  have hInv := hser.inv h
  split_ifs
  · exact (ciaSyncInterrupt_same 1 _ _).inv hInv
  · exact hInv
  · exact h

/-! ### No run faults -/

theorem ciaUpdate_ok {s : State} (h : Inv strict s) : ∃ s', ciaUpdate s = .ok s' ∧ TimersOk strict s' := by
  obtain ⟨s', hs', hok⟩ := ciaUpdateCheck_ok h
  refine ⟨ciaCheckIcr s', ?_, (ciaCheckIcr_same s').timersOk hok⟩
  simp only [ciaUpdate, hs', bind, Except.bind, pure, Except.pure]

theorem ciaHandler_inv {s : State} (h : Inv strict s) : ∃ s', ciaHandler s = .ok s' ∧ Inv strict s' := by
  obtain ⟨s1, h1, hok⟩ := ciaUpdate_ok h
  simp only [ciaHandler, h1, bind, Except.bind]
  exact ciaCalcTimers_inv hok

theorem writeCia_inv {s : State} (h : Inv strict s) (env : Env) (hpos : Int) (num : Fin 2) (reg : Fin 16)
    (val : BitVec 8) : ∃ s', writeCia env hpos num reg val s = .ok s' ∧ Inv strict s' := by
  unfold writeCia
  dsimp only
  split_ifs
  · refine ⟨_, rfl, ?_⟩
    match num with
    | 0 =>
      refine SameTimers.inv ?_ h
      exact .setCia 0 rfl rfl
    | 1 =>
      refine SameTimers.inv ?_ (writeCiabSerial_inv h val s.cia1.pra s.cia1.dra s.cia1.dra)
      exact .setCia 1 rfl rfl
  · refine ⟨_, rfl, SameTimers.inv ?_ h⟩
    exact .setCia num rfl rfl
  · refine ⟨_, rfl, ?_⟩
    match num with
    | 0 =>
      refine SameTimers.inv ?_ h
      exact .setCia 0 rfl rfl
    | 1 =>
      refine SameTimers.inv ?_ (writeCiabSerial_inv h s.cia1.pra s.cia1.pra val s.cia1.dra)
      exact .setCia 1 rfl rfl
  · refine ⟨_, rfl, SameTimers.inv ?_ h⟩
    exact .setCia num rfl rfl
  · obtain ⟨s1, h1, hok⟩ := ciaUpdate_ok h
    simp only [h1, bind, Except.bind]
    exact ciaCalcTimers_inv (writeCiaReg_ok hok env hpos num reg val)

/-- Each input is let through and keeps the invariant: one case for each input. -/
theorem step_inv {env : Env} {s : State} {i : Input} (h : Inv strict s) (hlegal : legal s i)
    (hstrict : strict → i ≠ .setAccurate false) :
    ∃ s', step env s i = .ok s' ∧ Inv strict s' := by
  cases i with
  | advance dt => exact ⟨_, rfl, h.timers, h.accurate, h.attended, hlegal⟩
  | handler => exact ciaHandler_inv h
  | setAccurate acc =>
    refine ⟨_, rfl, h.timers, fun hs => ?_, h.attended, h.onTime⟩
    cases acc with
    | true => rfl
    | false => exact absurd rfl (hstrict hs)
  | read num reg hpos pins =>
    obtain ⟨v, s', hs', hInv⟩ := readCia_inv h env hpos pins num reg
    refine ⟨s', ?_, hInv⟩
    simp only [step, hs', bind, Except.bind, pure, Except.pure]
  | write num reg hpos val => exact writeCia_inv h env hpos num reg val
  | serial ndata odata ndir odir => exact ⟨_, rfl, writeCiabSerial_inv h ndata odata ndir odir⟩
  | syncInterrupt num icr => exact ⟨_, rfl, (ciaSyncInterrupt_same num icr s).inv h⟩
  | syncedInterrupt => exact ciaHandler_inv h
  | todIncEvent num => exact ⟨_, rfl, (eventCiaTodInc_same env num s).inv h⟩
  | todHandler num hoffset delayed =>
    exact ⟨_, rfl, (ciaTodHandler_same env hoffset num delayed s).inv h⟩
  | delayedTod num => exact ⟨_, rfl, (ciaDelayedTod_same env num s).inv h⟩
  | todHack => exact ⟨_, rfl, (doTodHack_same env s).inv h⟩
  | keyreq kbcode => exact ⟨_, rfl, (keyreq_same kbcode s).inv h⟩

/-- The machine's invariant, in both timing modes. -/
theorem inv_invariant (env : Env) : (machine env).Invariant (Inv False) :=
  fun _ _ h hlegal => step_inv h hlegal (fun hf => hf.elim)

/-- The chip pair in an environment that never leaves accurate mode. -/
def accurateMachine (env : Env) : Machine State Input CiaFault :=
  ⟨fun s i => legal s i ∧ i ≠ .setAccurate false, step env⟩

instance (env : Env) (s : State) (i : Input) : Decidable ((accurateMachine env).legal s i) :=
  inferInstanceAs (Decidable (legal s i ∧ i ≠ .setAccurate false))

/-- The invariant of runs in accurate mode. -/
theorem inv_invariant_accurate (env : Env) : (accurateMachine env).Invariant (Inv True) :=
  fun _ _ h hlegal => step_inv h hlegal.1 (fun _ => hlegal.2)

theorem resetTimer_ok : TimerOk strict resetTimer :=
  ⟨Or.inl rfl, by decide, by decide, fun _ => rfl⟩

/-- `CIA_reset` does not fault and establishes the invariant. -/
theorem ciaReset_inv (strict : Prop) (cycles : Nat) {acc : Bool} (hacc : strict → acc = true) (ev : Ev)
    (eclockphase : Int) :
    ∃ s0, ciaReset cycles acc ev eclockphase = .ok s0 ∧ Inv strict s0 :=
  ciaCalcTimers_inv
    ⟨⟨resetTimer_ok, resetTimer_ok⟩, ⟨resetTimer_ok, resetTimer_ok⟩, hacc⟩

/-- From reset no run of the chips ends in an `abort()` or a failed `assert()`, and
in every state reached pipes and counters are in range and a pending load is met by
an update over at most one E-clock: the event that forces the update is at most one
E-clock after the last one. -/
theorem runs_never_fault (env : Env) (cycles : Nat) (acc : Bool) (ev : Ev) (eclockphase : Int) :
    ∃ s0, ciaReset cycles acc ev eclockphase = .ok s0 ∧
      ∀ is r, (machine env).Run s0 is r →
        ∃ s, r = .ok s ∧ ∀ num tn,
          (s.cia num |>.t tn).inputpipe.toNat ≤ 3 ∧
          (s.cia num |>.t tn).timer < 65536 ∧
          (s.cia num |>.t tn).latch < 65536 ∧
          ((s.cia num |>.t tn).loaddelay ≠ 0 →
            ciaclocks s ≤ 1 ∧ s.evCia.active ∧ s.evCia.evtime ≤ s.evCia.oldcycles + div10) := by
  obtain ⟨s0, h0, hInv0⟩ :=
    ciaReset_inv False cycles (fun hf => hf.elim) ev eclockphase
  refine ⟨s0, h0, fun is r hrun => ?_⟩
  obtain ⟨s, hr, hInv⟩ := (inv_invariant env).run hrun hInv0
  refine ⟨s, hr, fun num tn => ?_⟩
  have ht := hInv.timers num tn
  have hpipe : ((s.cia num).t tn).inputpipe.toNat ≤ 3 := by
    rcases ht.pipe with hp | hp | hp | hp <;> rw [hp] <;> decide
  exact ⟨hpipe, ht.timer, ht.latch,
    fun hl => ⟨hInv.load_clocks num tn hl, (hInv.attended num tn).load hl⟩⟩

end LibretroUae.CiaChips
