import Mathlib.Tactic.Common
import Mathlib.Tactic.Ring

/-!
# LibretroUae.Cia.Chip

The two 8520 chips and the **timer update** of `cia.c`.

The emulator does not clock its CIA timers one E-clock at a time. It stores when
the timers were last brought up to date (`eventtab[ev_cia].oldcycles`), advances
them by however many E-clocks have passed when somebody looks
(`CIA_update_check`), and schedules the next event at the first E-clock where
something can happen (`CIA_calctimers`). This module holds the chip state and
those functions, translated from the source.

Design points:

* `abort()` and `assert()` are kept: every function that contains one returns
  `Except CiaFault`, so "the assertions never fire" is a statement about these
  definitions.
* Counters and times are `Nat`, with the 32-bit wrap written out where the code
  can wrap; registers, pipes and the load-delay shift register are `BitVec`s.
* Fields that only ever hold 0 or 1 and are only tested (`preovfl`, `tlatch`,
  `todon`, `sdr_load`, `icr_change`) are `Bool`.
-/

namespace LibretroUae.CiaChips

-- the numerals of chips, timers and registers
scoped instance neZero_two : NeZero 2 := ⟨by decide⟩
scoped instance neZero_sixteen : NeZero 16 := ⟨by decide⟩

theorem eq_zero_or_one (num : Fin 2) : num = 0 ∨ num = 1 := by omega

/-! ### Constants -/

/-- `CR_START`: the timer is started. -/
abbrev crStart : BitVec 8 := 0x01
abbrev crPbon : BitVec 8 := 0x02
abbrev crOutmode : BitVec 8 := 0x04
/-- `CR_RUNMODE`: one-shot when set. -/
abbrev crRunmode : BitVec 8 := 0x08
abbrev crLoad : BitVec 8 := 0x10
abbrev crInmode : BitVec 8 := 0x20
abbrev crInmode1 : BitVec 8 := 0x40
/-- `CR_SPMODE`: the serial port of timer A's register shares `CR_INMODE1`'s bit. -/
abbrev crSpmode : BitVec 8 := 0x40
abbrev crAlarm : BitVec 8 := 0x80

abbrev icrA : BitVec 8 := 0x01
abbrev icrB : BitVec 8 := 0x02
abbrev icrAlarm : BitVec 8 := 0x04
abbrev icrSp : BitVec 8 := 0x08
abbrev icrFlag : BitVec 8 := 0x10
abbrev icrMask : BitVec 8 := 0x1f

/-- `CIA_PIPE_ALL_MASK`: both stages of the count pipeline hold a clock. -/
abbrev pipeAllMask : BitVec 16 := 3
abbrev pipeInput : BitVec 16 := 2
abbrev pipeOutput : BitVec 16 := 1
abbrev pipeClr1 : BitVec 16 := 1
abbrev pipeClr2 : BitVec 16 := 3

/-- `CYCLE_UNIT`. -/
abbrev cycleUnit : Nat := 512
/-- `E_CYCLE_UNIT`, half a colour clock. -/
abbrev eCycleUnit : Nat := cycleUnit / 2
/-- `DIV10`: the length of one E-clock in raw cycles. -/
abbrev div10 : Nat := 10 * eCycleUnit
/-- `MAXINT`, the clamp on the cycles looked at in one update. -/
abbrev maxInt : Nat := 2 ^ 31 - 1

/-! ### Chip state -/

/-- The `abort()`s and `assert()`s of the timer code. -/
inductive CiaFault
  /-- `bitstodelay` on a pipe outside `0..3`. -/
  | bitsToDelay
  /-- A pending load delay met by an update over more than one E-clock. -/
  | loadDelay
  /-- `assert(cc < 65536)` in `compute_passed_time_cia`. -/
  | passed
  /-- `assert(c->t[tn].timer < 0x10000)` in `CIA_update_check`. -/
  | timer
  deriving Repr, DecidableEq

/-- `struct CIATimer`. -/
structure CiaTimer where
  timer : Nat
  latch : Nat
  passed : Nat
  inputpipe : BitVec 16
  loaddelay : BitVec 32
  preovfl : Bool
  cr : BitVec 8
  deriving Repr, DecidableEq

/-- `(timer - cc) & 0xffff` on 32-bit counters: the mask absorbs the wrap. -/
def subTimer (timer cc : Nat) : Nat := (((timer : Int) - cc) % 65536).toNat

theorem subTimer_lt (timer cc : Nat) : subTimer timer cc < 65536 := by
  rw [subTimer]
  omega

/-- No wrap when there is enough to count down. -/
theorem subTimer_of_le {timer cc : Nat} (hcc : cc ≤ timer) (ht : timer < 65536) :
    subTimer timer cc = timer - cc := by
  rw [subTimer]
  omega

namespace CiaTimer

/-- `t->timer = t->latch`. -/
def load (t : CiaTimer) : CiaTimer := { t with timer := t.latch }

/-- `t->inputpipe &= ~mask`. -/
def clrPipe (mask : BitVec 16) (t : CiaTimer) : CiaTimer :=
  { t with inputpipe := t.inputpipe &&& ~~~mask }

/-- `t->cr &= ~CR_START`. -/
def stop (t : CiaTimer) : CiaTimer := { t with cr := t.cr &&& ~~~crStart }

/-- `t->timer -= cc; t->timer &= 0xffff`. -/
def countDown (cc : Nat) (t : CiaTimer) : CiaTimer := { t with timer := subTimer t.timer cc }

/-- `t->loaddelay |= bits`. -/
def delay (bits : BitVec 32) (t : CiaTimer) : CiaTimer :=
  { t with loaddelay := t.loaddelay ||| bits }

end CiaTimer

/-- `struct CIA`. -/
structure Cia where
  pra : BitVec 8
  prb : BitVec 8
  dra : BitVec 8
  drb : BitVec 8
  t0 : CiaTimer
  t1 : CiaTimer
  tod : BitVec 32
  tol : BitVec 32
  alarm : BitVec 32
  tlatch : Bool
  todon : Bool
  todEventState : Nat
  todOffset : Int
  icr1 : BitVec 8
  icr2 : BitVec 8
  icrChange : Bool
  imask : BitVec 8
  sdr : BitVec 8
  sdrBuf : BitVec 8
  sdrLoad : Bool
  sdrCnt : BitVec 8
  deriving Repr, DecidableEq

namespace Cia

/-- `c->t[tn]`. -/
def t (c : Cia) : Fin 2 → CiaTimer
  | 0 => c.t0
  | 1 => c.t1

/-- The chip with `c->t[tn]` replaced. -/
def setT (c : Cia) (tn : Fin 2) (t : CiaTimer) : Cia :=
  match tn with
  | 0 => { c with t0 := t }
  | 1 => { c with t1 := t }

@[simp] theorem t_zero (c : Cia) : c.t 0 = c.t0 := rfl
@[simp] theorem t_one (c : Cia) : c.t 1 = c.t1 := rfl
@[simp] theorem setT_zero (c : Cia) (t : CiaTimer) : c.setT 0 t = { c with t0 := t } := rfl
@[simp] theorem setT_one (c : Cia) (t : CiaTimer) : c.setT 1 t = { c with t1 := t } := rfl

end Cia

/-- `CR_INMODE | CR_START` for timer A, `CR_INMODE | CR_INMODE1 | CR_START` for
timer B: the bits that say whether the timer counts E-clocks. -/
def eclockMask : Fin 2 → BitVec 8
  | 0 => crInmode ||| crStart
  | 1 => crInmode ||| crInmode1 ||| crStart

/-- The timer is started and its input is the E-clock. -/
def counting (tn : Fin 2) (t : CiaTimer) : Prop := t.cr &&& eclockMask tn = crStart

instance (tn : Fin 2) (t : CiaTimer) : Decidable (counting tn t) :=
  inferInstanceAs (Decidable (_ = _))

/-! ### The count pipeline -/

/-- How many E-clocks it takes a pipe to let the first count through. -/
def bitsToDelay (v : BitVec 16) : Except CiaFault Nat :=
  if v = 0 then .ok 2
  else if v = 1 ∨ v = 2 then .ok 1
  else if v = 3 then .ok 0
  else .error .bitsToDelay

/-- One clock of the pipeline: shift, and let a clock in when the timer counts
E-clocks. -/
def shiftPipe (input : Bool) (pipe : BitVec 16) : BitVec 16 :=
  if input then (pipe >>> 1) ||| pipeInput else pipe >>> 1

/-- The loop of `process_pipe`: fill the pipe, one clock a turn, taking from
`ccout` the clocks that let no count through. -/
def pipeLoop (input : Bool) : Nat → BitVec 16 → Nat → BitVec 16 × Nat
  | 0, pipe, ccout => (pipe, ccout)
  | cc + 1, pipe, ccout =>
    if pipe = pipeAllMask then (pipe, ccout)
    else
      pipeLoop input cc (shiftPipe input pipe)
        (if pipe &&& pipeOutput = 0 then ccout - 1 else ccout)

/-- What `process_pipe` leaves: the timer, the counts it lets through, `*ovfl`. -/
structure PipeResult where
  t : CiaTimer
  out : Nat
  ovfl : Nat

/-- `process_pipe`. -/
def processPipe (acc : Bool) (t : CiaTimer) (cc : Nat) (crmask : BitVec 8) (ovfl : Nat)
    (loadednow : Bool) : PipeResult :=
  let input := decide (t.cr &&& crmask = crStart)
  if cc = 1 ∧ acc then
    let out := if t.inputpipe &&& pipeOutput = 0 then 0 else 1
    let pipe := shiftPipe input t.inputpipe
    -- interrupt 1 cycle early if timer is already zero
    let early := t.timer = 0 ∧ t.latch = 0 ∧ pipe &&& pipeOutput ≠ 0
    { t := { t with inputpipe := pipe }
      out := out
      ovfl := if early then (if loadednow then 1 else 2) else ovfl }
  else
    let r := pipeLoop input cc t.inputpipe cc
    { t := { t with inputpipe := r.1 }, out := r.2, ovfl := ovfl }

/-! ### `CIA_update_check`, one chip -/

/-- The locals `ovfl[tn]`, `loaded[tn]`, `loaded2[tn]`, `loaded3[tn]`. -/
structure TimerFlags where
  ovfl : Nat := 0
  loaded : Bool := false
  loaded2 : Bool := false
  loaded3 : Bool := false

/-- Bit 0 of the load-delay register: the latch reaches the counter. -/
def delayedLoad (t : CiaTimer) : CiaTimer :=
  if t.loaddelay &&& 0x00000001 ≠ 0 then t.load.clrPipe pipeClr1 else t

/-- Bit 16 of the load-delay register: the delayed stop of the timer=0 case. -/
def delayedStop (t : CiaTimer) : CiaTimer :=
  if t.loaddelay &&& 0x00010000 ≠ 0 then t.stop else t

/-- The locals the load-delay register sets. -/
def delayFlags (t : CiaTimer) : TimerFlags :=
  { ovfl := if t.loaddelay &&& 0x00010000 ≠ 0 then 2 else 0
    -- do not set START=0 until timer has started (timer==0 special case)
    loaded2 := decide (t.loaddelay &&& 0x00000100 ≠ 0 ∧ t.timer = 0)
    loaded := decide (t.loaddelay &&& 0x01000000 ≠ 0)
    loaded3 := decide (t.loaddelay &&& 0x10000000 ≠ 0) }

/-- The `CIA special cases` loop body: act on the bits of the load-delay shift
register that reach their position this clock, then shift it. -/
def loadSpecial (t : CiaTimer) (ciaclocks : Nat) : Except CiaFault (CiaTimer × TimerFlags) :=
  if t.loaddelay = 0 then .ok (t, {})
  else if 1 < ciaclocks then .error .loadDelay
  else
    let t := delayedStop (delayedLoad t)
    .ok ({ t with loaddelay := (t.loaddelay >>> 1) &&& 0x77777777 }, delayFlags t)

/-- The shift register has run empty: take the next byte if one is waiting. -/
def nextSerial (c : Cia) : Cia :=
  if c.sdrLoad then { c with sdrLoad := false, sdrBuf := c.sdr, sdrCnt := 16 } else c

/-- One clock of the shift register: every second one moves a bit out. -/
def clockSerial (c : Cia) : Cia :=
  let cnt := c.sdrCnt - 1
  { c with sdrCnt := cnt, sdrBuf := if cnt &&& 1 ≠ 0 then c.sdrBuf <<< 1 else c.sdrBuf }

/-- The serial port in output mode: a timer A underflow clocks the shift register.
Returns the chip and `sp`. -/
def shiftSerial (c : Cia) : Cia × Bool :=
  if c.t0.cr &&& (crSpmode ||| crRunmode) = crSpmode ∧ c.sdrCnt ≠ 0 then
    if (clockSerial c).sdrCnt = 0 then (nextSerial (clockSerial c), true)
    else (clockSerial c, false)
  else (c, false)

/-- Timer A after its count: an underflow when it is zero. -/
def underflowA (ovfl : Nat) (c : Cia) : Cia × Nat × Bool :=
  if c.t0.timer = 0 then ((shiftSerial c).1, 2, (shiftSerial c).2) else (c, ovfl, false)

/-- The timer A part of the update. Returns the chip, `ovfl[0]` and `sp`. -/
def countA (acc : Bool) (ciaclocks : Nat) (c : Cia) (fl : TimerFlags) : Cia × Nat × Bool :=
  if counting 0 c.t0 ∨ c.t0.inputpipe ≠ 0 then
    let r := processPipe acc c.t0 ciaclocks (eclockMask 0) fl.ovfl fl.loaded3
    if 0 < r.out then underflowA r.ovfl { c with t0 := r.t.countDown r.out }
    else ({ c with t0 := r.t }, r.ovfl, false)
  else (c, fl.ovfl, false)

/-- Timer B's count. In the modes that do not count E-clocks it underflows one
count late, from zero. -/
def underflowB (cc ovfl : Nat) (t : CiaTimer) : CiaTimer × Nat :=
  let inmode := t.cr &&& (crInmode ||| crInmode1) ≠ 0
  if t.timer = 0 ∧ inmode then (t, 2)
  else (t.countDown cc, if (t.countDown cc).timer = 0 ∧ ¬ inmode then 2 else ovfl)

/-- The timer B part of the update. Returns the timer and `ovfl[1]`. -/
def countB (acc : Bool) (ciaclocks : Nat) (t : CiaTimer) (fl : TimerFlags) : CiaTimer × Nat :=
  if counting 1 t ∨ t.inputpipe ≠ 0 then
    let r := processPipe acc t ciaclocks (eclockMask 1) fl.ovfl fl.loaded3
    if 0 < r.out then underflowB r.out r.ovfl r.t else (r.t, r.ovfl)
  else (t, fl.ovfl)

/-- Timer B counts timer A underflows: `INMODE` is 10 or 11 and B is started. -/
def countsUnderflows (t : CiaTimer) : Prop :=
  t.cr &&& (crInmode ||| crInmode1 ||| crStart) = crInmode1 ||| crStart ∨
    t.cr &&& (crInmode ||| crInmode1 ||| crStart) = crInmode ||| crInmode1 ||| crStart

instance (t : CiaTimer) : Decidable (countsUnderflows t) :=
  inferInstanceAs (Decidable (_ ∨ _))

/-- A timer A underflow enters timer B's pipe. -/
def feedB (ovflA : Nat) (t : CiaTimer) : CiaTimer :=
  if ovflA ≠ 0 ∧ countsUnderflows t then { t with inputpipe := t.inputpipe ||| pipeInput }
  else t

/-- A one-shot underflow stops the timer; with `loaded2` it only arms the delayed
stop. -/
def oneShotStop (loaded2 : Bool) (t : CiaTimer) : CiaTimer :=
  if loaded2 then t.delay 0x00010000 else t.stop

/-- What an underflow does to the run state and the pipe. -/
def restart (acc : Bool) (fl : TimerFlags) (t : CiaTimer) : CiaTimer :=
  if fl.loaded then t
  else if t.cr &&& crRunmode ≠ 0 then
    let t := oneShotStop fl.loaded2 t
    if acc then t.clrPipe pipeClr2 else { t with inputpipe := 0 }
  else if acc then t.clrPipe pipeClr1
  else t

/-- The underflow handling of one timer: reload, and stop or restart the pipe. -/
def reload (acc : Bool) (ovfl : Nat) (fl : TimerFlags) (t : CiaTimer) : CiaTimer :=
  if ovfl ≠ 0 ∨ t.preovfl then
    { restart acc fl (if ovfl ≠ 0 then t.load else t) with preovfl := false }
  else t

/-- The bits of `icr2` set by the two timers and the serial port. -/
def icrBits (ovflA ovflB : Nat) (sp : Bool) : BitVec 8 :=
  (if 1 < ovflA then icrA else 0) ||| (if 1 < ovflB then icrB else 0) |||
    (if sp then icrSp else 0)

/-- A chip whose timers have counted, with the locals `ovfl` and `sp`. -/
structure Counted where
  c : Cia
  ovflA : Nat
  ovflB : Nat
  sp : Bool

/-- The timer A and timer B parts of the update. -/
def countTimers (acc : Bool) (ciaclocks : Nat) (fl0 fl1 : TimerFlags) (c : Cia) : Counted :=
  let a := countA acc ciaclocks c fl0
  let b := countB acc ciaclocks a.1.t1 fl1
  { c := { a.1 with t1 := b.1 }, ovflA := a.2.1, ovflB := b.2, sp := a.2.2 }

/-- The chip after the underflow handling of both timers. -/
def Counted.reload (acc : Bool) (fl0 fl1 : TimerFlags) (r : Counted) : Cia :=
  { r.c with
    t0 := CiaChips.reload acc r.ovflA fl0 r.c.t0
    t1 := CiaChips.reload acc r.ovflB fl1 (feedB r.ovflA r.c.t1) }

/-- The bits the update sets in `icr2`. -/
def Counted.icr (r : Counted) : BitVec 8 := icrBits r.ovflA r.ovflB r.sp

/-- `icr1 |= icr2; icr2 = 0; icr_change = false`. -/
def foldIcr (c : Cia) : Cia := { c with icr1 := c.icr1 ||| c.icr2, icr2 := 0, icrChange := false }

/-- The end of the update: interrupts wait one E-clock in accurate mode. -/
def latchIcr (acc icr : Bool) (bits : BitVec 8) (c : Cia) : Cia :=
  if acc then { c with icr2 := bits, icrChange := icr }
  else { c with icr1 := c.icr1 ||| bits, icr2 := 0 }

/-- The loop body of `CIA_update_check` for one chip. `icr` is the local that
both chips share: the second chip sees the first one's interrupts in it. -/
def updateChip (acc : Bool) (ciaclocks : Nat) (icr : Bool) (c : Cia) :
    Except CiaFault (Cia × Bool) := do
  let c := foldIcr c
  let (t0, fl0) ← loadSpecial c.t0 ciaclocks
  let (t1, fl1) ← loadSpecial c.t1 ciaclocks
  let r := countTimers acc ciaclocks fl0 fl1 { c with t0 := t0, t1 := t1 }
  if ¬ r.c.t0.timer < 0x10000 then throw .timer
  if ¬ r.c.t1.timer < 0x10000 then throw .timer
  let icr := icr || decide (r.icr ≠ 0)
  return (latchIcr acc icr r.icr (r.reload acc fl0 fl1), icr)

/-! ### The chip pair and its event -/

/-- `struct ev`, as far as the CIA code uses it. -/
structure Ev where
  active : Bool
  evtime : Nat
  oldcycles : Nat
  deriving Repr, DecidableEq

/-- The globals of `cia.c`: the chips, `currcycle`, `eventtab[ev_cia]`,
`cia_cycle_accurate` and the two E-clock phases. -/
structure State where
  cia0 : Cia
  cia1 : Cia
  cycles : Nat
  evCia : Ev
  accurate : Bool
  eclockphase : Int
  internaleclockphase : Int
  deriving Repr, DecidableEq

namespace State

/-- `cia[num]`. -/
def cia (s : State) : Fin 2 → Cia
  | 0 => s.cia0
  | 1 => s.cia1

/-- The state with `cia[num]` replaced. -/
def setCia (s : State) (num : Fin 2) (c : Cia) : State :=
  match num with
  | 0 => { s with cia0 := c }
  | 1 => { s with cia1 := c }

@[simp] theorem cia_zero (s : State) : s.cia 0 = s.cia0 := rfl
@[simp] theorem cia_one (s : State) : s.cia 1 = s.cia1 := rfl
@[simp] theorem setCia_zero (s : State) (c : Cia) : s.setCia 0 c = { s with cia0 := c } := rfl
@[simp] theorem setCia_one (s : State) (c : Cia) : s.setCia 1 c = { s with cia1 := c } := rfl

end State

/-- `ciaclocks`: the whole E-clocks since the timers were last brought up to date. -/
def ciaclocks (s : State) : Nat := min (s.cycles - s.evCia.oldcycles) maxInt / div10

/-- `CIA_update_check`. -/
def ciaUpdateCheck (s : State) : Except CiaFault State := do
  let n := ciaclocks s
  if n = 0 then return s
  let (c0, icr) ← updateChip s.accurate n false s.cia0
  let (c1, _) ← updateChip s.accurate n icr s.cia1
  return { s with cia0 := c0, cia1 := c1 }

/-- `RethinkICR`, with the flag bits of `ICR`. The interrupt line itself is
outside the chips. -/
def rethinkIcr (c : Cia) : Cia :=
  if c.icr1 &&& c.imask &&& icrMask ≠ 0 ∧ c.icr1 &&& 0x80 = 0 then
    { c with icr1 := c.icr1 ||| 0x80 ||| 0x40 ||| 0x20 }
  else c

/-- `CIA_check_ICR`. -/
def ciaCheckIcr (s : State) : State :=
  let check (c : Cia) : Cia := if c.icr1 &&& icrMask ≠ 0 then rethinkIcr c else c
  { s with cia0 := check s.cia0, cia1 := check s.cia1 }

/-- `CIA_update`. -/
def ciaUpdate (s : State) : Except CiaFault State := do
  return ciaCheckIcr (← ciaUpdateCheck s)

/-- The timer keeps the next E-clock busy: a load is pending, or its pipe is
neither empty nor steadily full. -/
def timerSpecial (tn : Fin 2) (t : CiaTimer) : Bool :=
  t.loaddelay ≠ 0 ||
    if t.cr &&& crStart ≠ 0 then
      decide (t.inputpipe ≠ pipeAllMask ∧ (counting tn t ∨ t.inputpipe ≠ 0))
    else decide (t.inputpipe ≠ 0)

/-- The entry of `timevals` for one timer; `none` is the source's `-1`. -/
def timeval (tn : Fin 2) (t : CiaTimer) : Except CiaFault (Option Nat) := do
  let base ← if counting tn t then do
      let pipe ← bitsToDelay t.inputpipe
      let v := div10 * (t.timer + pipe)
      pure (some (if v = 0 then div10 else v))
    else pure none
  return if timerSpecial tn t ∧ (∀ v ∈ base, div10 < v) then some div10 else base

/-- The two entries of `timevals` of one chip, `icr_change` taken into account. -/
def timevals (c : Cia) : Except CiaFault (Option Nat × Option Nat) := do
  let a ← timeval 0 c.t0
  let b ← timeval 1 c.t1
  return (if c.icrChange ∧ (∀ v ∈ a, div10 < v) then some div10 else a, b)

/-- The smaller of two `timevals` entries. -/
def minTime : Option Nat → Option Nat → Option Nat
  | none, b => b
  | a, none => a
  | some a, some b => some (min a b)

/-- `CIA_calctimers`. -/
def ciaCalcTimers (s : State) : Except CiaFault State := do
  let (a0, b0) ← timevals s.cia0
  let (a1, b1) ← timevals s.cia1
  let ev : Ev := match minTime (minTime a0 b0) (minTime a1 b1) with
    | some ciatime => { active := true, evtime := s.cycles + ciatime, oldcycles := s.cycles }
    | none => { s.evCia with active := false, oldcycles := s.cycles }
  return { s with evCia := ev }

/-- `compute_passed_time_cia`, one timer. -/
def passedTime (tn : Fin 2) (t : CiaTimer) (ciaclocks : Nat) : Except CiaFault CiaTimer := do
  if counting tn t then
    let pipe ← bitsToDelay t.inputpipe
    let cc := ciaclocks - pipe
    if ¬ cc < 65536 then throw .passed
    return { t with passed := cc }
  else return { t with passed := 0 }

/-- `compute_passed_time_cia`. -/
def computePassedTimeCia (c : Cia) (ciaclocks : Nat) : Except CiaFault Cia := do
  let t0 ← passedTime 0 c.t0 ciaclocks
  let t1 ← passedTime 1 c.t1 ciaclocks
  return { c with t0 := t0, t1 := t1 }

/-- `compute_passed_time`. -/
def computePassedTime (s : State) : Except CiaFault State := do
  let n := ciaclocks s
  let c0 ← computePassedTimeCia s.cia0 n
  let c1 ← computePassedTimeCia s.cia1 n
  return { s with cia0 := c0, cia1 := c1 }

/-- `CIA_handler`. -/
def ciaHandler (s : State) : Except CiaFault State := do
  ciaCalcTimers (← ciaUpdate s)

end LibretroUae.CiaChips
