import LibretroUae.Cia.Chip

/-!
# LibretroUae.Cia.Registers

The **register file** of the chips: reads and writes through the 16 addresses of
each chip, the time-of-day counters, the CNT and serial inputs, and reset.

What lies outside the chips stays outside the model. A read of a port register
takes the level of the pins as an argument, the beam position is an argument of
every access that looks at the TOD counter, and the `event2` entries the code
queues (`event_CIA_synced_interrupt`, `event_CIA_tod_inc_event`) are inputs of
the machine of `LibretroUae.Cia.Runs`, which may deliver them at any time.
-/

namespace LibretroUae.CiaChips

/-- The settings the register code looks at. -/
structure Env where
  /-- `currprefs.cs_cia6526`: BCD time of day. -/
  cia6526 : Bool
  /-- `currprefs.cs_ciatodbug`. -/
  ciaTodBug : Bool
  /-- `currprefs.cs_ciatype`. -/
  ciaType : Fin 2 → Bool
  /-- `e_clock_tod`. -/
  eClockTod : Int
  maxhpos : Int

/-! ### Interrupts raised by the outside -/

/-- `CIA_sync_interrupt`. In accurate mode the interrupt is only noted; the
queued event brings the chips up to date later. -/
def ciaSyncInterrupt (num : Fin 2) (icr : BitVec 8) (s : State) : State :=
  let c := s.cia num
  if s.accurate then
    if icr &&& c.imask = 0 then s.setCia num { c with icr1 := c.icr1 ||| icr }
    else s.setCia num { c with icr2 := c.icr2 ||| icr }
  else ciaCheckIcr (s.setCia num { c with icr1 := c.icr1 ||| icr })

/-! ### Time of day -/

/-- `checkalarm`. -/
def checkAlarm (env : Env) (tod alarm : BitVec 32) (inc : Bool) : Bool :=
  if tod = alarm then true
  else if ¬ env.ciaTodBug then false
  else if ¬ inc then false
  -- the buggy TODMED counter passes 2F -> 20 -> 30
  else if tod &&& 0x000fff ≠ 0 then false
  else decide ((tod - 1) &&& 0xfff000 = alarm)

/-- `cia_checkalarm`. -/
def ciaCheckAlarm (env : Env) (inc irq : Bool) (num : Fin 2) (s : State) : State :=
  let c := s.cia num
  if checkAlarm env c.tod c.alarm inc ∧ irq then ciaSyncInterrupt num icrAlarm s else s

/-- `CIA_tod_inc`. -/
def ciaTodInc (env : Env) (irq : Bool) (num : Fin 2) (s : State) : State :=
  let c := { s.cia num with todEventState := 3 }
  if ¬ c.todon then s.setCia num c
  else
    ciaCheckAlarm env true irq num (s.setCia num { c with tod := (c.tod + 1) &&& 0xffffff })

/-- `event_CIA_tod_inc_event`. -/
def eventCiaTodInc (env : Env) (num : Fin 2) (s : State) : State :=
  if (s.cia num).todEventState ≠ 2 then s else ciaTodInc env true num s

/-- `CIA_tod_event_check`. -/
def ciaTodEventCheck (env : Env) (hpos : Int) (num : Fin 2) (s : State) : State :=
  let c := s.cia num
  if c.todEventState = 1 ∧ c.todOffset ≤ hpos then
    let s := ciaTodInc env false num s
    s.setCia num { s.cia num with todEventState := 0 }
  else s

/-- `CIA_tod_check`. -/
def ciaTodCheck (env : Env) (hpos : Int) (num : Fin 2) (s : State) : State :=
  let s := ciaTodEventCheck env hpos num s
  let c := s.cia num
  if ¬ c.todon ∨ c.todEventState ≠ 1 ∨ c.todOffset < 0 then s
  else if 0 ≤ hpos - c.todOffset ∨ ¬ s.accurate then ciaTodInc env true num s
  else s.setCia num { c with todEventState := 2 }

/-- `get_e_cycles`. -/
def getECycles (s : State) : Int :=
  s.cycles + s.eclockphase * eCycleUnit + s.internaleclockphase * 2 * eCycleUnit

/-- `tod_inc_delay`. -/
def todIncDelay (env : Env) (hoffset : Int) (s : State) : Int :=
  let hoff := hoffset + 1
  let c := getECycles s + 6 * eCycleUnit + hoff * cycleUnit
  let unit : Int := 20
  hoff + 60 + (unit - (c.tdiv cycleUnit).tmod unit) + env.eClockTod

/-- `CIA_tod_handler`. -/
def ciaTodHandler (env : Env) (hoffset : Int) (num : Fin 2) (delayedevent : Bool) (s : State) :
    State :=
  let offset := todIncDelay env hoffset s
  let c := { s.cia num with todEventState := 0, todOffset := offset }
  if env.maxhpos ≤ offset then
    if ¬ delayedevent then s.setCia num c
    else s.setCia num { c with todOffset := offset - env.maxhpos, todEventState := 4 }
  else if checkAlarm env ((c.tod + 1) &&& 0xffffff) c.alarm true then
    s.setCia num { c with todEventState := 2 }
  else s.setCia num { c with todEventState := 1 }

/-- `cia_delayed_tod`. -/
def ciaDelayedTod (env : Env) (num : Fin 2) (s : State) : State :=
  let c := s.cia num
  if c.todEventState = 4 then s.setCia num { c with todEventState := 1 }
  else
    let s := if c.todEventState = 1 then ciaTodInc env false num s else s
    s.setCia num { s.cia num with todEventState := 0, todOffset := -1 }

/-- The counting part of `do_tod_hack`. -/
def doTodHack (env : Env) (s : State) : State :=
  let c := s.cia0
  ciaCheckAlarm env false true 0 { s with cia0 := { c with tod := (c.tod + 1) &&& 0x00ffffff } }

/-- `getciatod`: the counter as four decimal digits in BCD on a 6526. -/
def getCiaTod (env : Env) (tod : BitVec 32) : BitVec 32 :=
  let rec digits : Nat → BitVec 32 → BitVec 32 → BitVec 32
    | 0, _, bcd => bcd
    | n + 1, tod, bcd => digits n (tod / 10) (bcd * 16 + tod % 10)
  if env.cia6526 then digits 4 tod 0 else tod

/-- The value `setciatod` stores. -/
def setCiaTod (env : Env) (v : BitVec 32) : BitVec 32 :=
  let rec digits : Nat → BitVec 32 → BitVec 32 → BitVec 32
    | 0, _, bin => bin
    | n + 1, v, bin => digits n (v / 16) (bin * 10 + v / 16)
  if env.cia6526 then digits 4 v 0 else v

/-- A byte written to a TOD or alarm register: `(getciatod(x) & ~mask) | (val << shift)`,
converted back. -/
def putTodByte (env : Env) (tod : BitVec 32) (shift : Nat) (val : BitVec 8) : BitVec 32 :=
  setCiaTod env
    ((getCiaTod env tod &&& ~~~((0xff : BitVec 32) <<< shift)) ||| (val.setWidth 32 <<< shift))

/-! ### Register access -/

/-- The timer a register number belongs to. -/
def timerOf (reg : Fin 16) : Fin 2 := if reg = 6 ∨ reg = 7 ∨ reg = 15 then 1 else 0

/-- A byte of a 32-bit value. -/
def byteOf (v : BitVec 32) (shift : Nat) : BitVec 8 := (v >>> shift).setWidth 8

/-- `ReadCIAReg` for the TOD registers: latch on the top byte, release on the
bottom one. -/
def readTod (env : Env) (hpos : Int) (num : Fin 2) (reg : Fin 16) (s : State) :
    BitVec 8 × State :=
  let s := ciaTodCheck env hpos num s
  let c := s.cia num
  let cur := if c.tlatch then c.tol else c.tod
  let latched := if c.tlatch then c
    else { c with tol := c.tod, tlatch := decide (c.t1.cr &&& crAlarm = 0) }
  if reg = 8 then
    (byteOf (getCiaTod env cur) 0, s.setCia num { c with tlatch := false })
  else if reg = 9 then (byteOf (getCiaTod env cur) 8, s)
  else if reg = 10 then
    if env.cia6526 then (byteOf (getCiaTod env cur) 16, s)
    else (byteOf (getCiaTod env latched.tol) 16, s.setCia num latched)
  else
    if env.cia6526 then
      let v := if latched.tlatch then latched.tol else latched.tod
      (byteOf (getCiaTod env v) 24, s.setCia num latched)
    else (0xff, s)

/-- `ReadCIAReg`. -/
def readCiaReg (env : Env) (hpos : Int) (num : Fin 2) (reg : Fin 16) (s : State) :
    BitVec 8 × State :=
  let c := s.cia num
  let t := c.t (timerOf reg)
  if reg = 4 ∨ reg = 6 then (byteOf (BitVec.ofNat 32 t.timer - BitVec.ofNat 32 t.passed) 0, s)
  else if reg = 5 ∨ reg = 7 then
    (byteOf (BitVec.ofNat 32 t.timer - BitVec.ofNat 32 t.passed) 8, s)
  else if 8 ≤ reg ∧ reg ≤ 11 then readTod env hpos num reg s
  else if reg = 12 then (c.sdr, s)
  else if reg = 13 then (c.icr1 &&& ~~~0x60, s.setCia num { c with icr1 := 0 })
  else if reg = 14 ∨ reg = 15 then (t.cr, s)
  else (0xff, s)

/-- `CIA_PBON`: the timer outputs on port B. -/
def ciaPbon (c : Cia) (v : BitVec 8) : BitVec 8 :=
  let out (t : CiaTimer) : Bool := t.cr &&& crOutmode ≠ 0 ∧ t.cr &&& crStart ≠ 0
  let v := if c.t0.cr &&& crPbon = 0 then v
    else (v &&& ~~~0x40) ||| (if out c.t0 then 0x40 else 0)
  if c.t1.cr &&& crPbon = 0 then v else (v &&& ~~~0x80) ||| (if out c.t1 then 0x80 else 0)

/-- `ReadCIAA` and `ReadCIAB` after `compute_passed_time`. `pins` is the level the
devices on the port give a port register. -/
def readCiaPassed (env : Env) (hpos : Int) (pins : BitVec 8) (num : Fin 2) (reg : Fin 16)
    (s : State) : BitVec 8 × State :=
  let c := s.cia num
  let outputs (v r dir : BitVec 8) : BitVec 8 :=
    if env.ciaType num then (v &&& ~~~dir) ||| (r &&& dir) else v
  if reg = 0 then (outputs pins c.pra c.dra, s)
  else if reg = 1 then (outputs (ciaPbon c pins) c.prb c.drb, s)
  else if reg = 2 then (c.dra, s)
  else if reg = 3 then (c.drb, s)
  else readCiaReg env hpos num reg s

/-- `ReadCIAA` and `ReadCIAB`. -/
def readCia (env : Env) (hpos : Int) (pins : BitVec 8) (num : Fin 2) (reg : Fin 16) (s : State) :
    Except CiaFault (BitVec 8 × State) := do
  return readCiaPassed env hpos pins num reg (← computePassedTime s)

/-- `CIA_timer_inmode`: the timer does not count E-clocks. -/
def ciaTimerInmode (tn : Fin 2) (cr : BitVec 8) : Bool :=
  match tn with
  | 0 => cr &&& crInmode ≠ 0
  | 1 => cr &&& (crInmode ||| crInmode1) ≠ 0

/-- `CIA_thi_write`. -/
def ciaThiWrite (acc : Bool) (tn : Fin 2) (val : BitVec 8) (t : CiaTimer) : CiaTimer :=
  let t := { t with latch := (t.latch &&& 0xff) ||| (val.toNat <<< 8) }
  if ¬ acc then
    let t := if t.cr &&& crStart = 0 then { t with timer := t.latch } else t
    let t : CiaTimer := if t.cr &&& crRunmode ≠ 0 then
        let t := { t with cr := t.cr ||| crStart }
        if ciaTimerInmode tn t.cr then t else { t with inputpipe := pipeAllMask }
      else t
    if t.cr &&& crStart ≠ 0 ∧ ¬ ciaTimerInmode tn t.cr ∧ t.timer ≤ 1 then
      { t with preovfl := true }
    else t
  else
    let t := if t.cr &&& crStart = 0 then
        { t with loaddelay := t.loaddelay ||| 0x00000002 ||| 0x00000004 } else t
    if t.cr &&& crRunmode ≠ 0 then
      { t with
        cr := t.cr ||| crStart
        loaddelay := t.loaddelay ||| 0x00000004 ||| 0x02000000 ||| 0x20000000 }
    else t

/-- `CIA_cr_write`. -/
def ciaCrWrite (acc : Bool) (tn : Fin 2) (val : BitVec 8) (t : CiaTimer) : CiaTimer :=
  let val := if tn = 0 then val &&& 0x7f else val
  let load := val &&& crLoad ≠ 0
  let val := if load then val &&& ~~~crLoad else val
  if ¬ acc then
    let t := if load then { t with timer := t.latch } else t
    let t := if val &&& crStart ≠ 0 then
        if ciaTimerInmode tn val then t
        else { t with inputpipe := pipeAllMask, preovfl := decide (t.timer ≤ 1) || t.preovfl }
      else { t with inputpipe := 0 }
    { t with cr := val }
  else
    let t := if load then
        let d := t.loaddelay ||| 0x00000004 ||| 0x00000100 ||| 0x00000200
        let d := if t.cr &&& crStart = 0 then d ||| 0x00000002 else d
        { t with loaddelay := d ||| 0x20000000 }
      else t
    let t := if val &&& crStart = 0 then { t with inputpipe := t.inputpipe &&& ~~~pipeClr1 } else t
    { t with cr := val }

/-- `WriteCIAReg` for the TOD registers. -/
def writeTod (env : Env) (hpos : Int) (num : Fin 2) (reg : Fin 16) (val : BitVec 8) (s : State) :
    State :=
  let s := ciaTodCheck env hpos num s
  let c := s.cia num
  let alarm := c.t1.cr &&& crAlarm ≠ 0
  if reg = 8 then
    if alarm then s.setCia num { c with alarm := putTodByte env c.alarm 0 val }
    else
      let s := s.setCia num { c with tod := putTodByte env c.tod 0 val, todon := true }
      ciaTodCheck env hpos num (ciaCheckAlarm env false true num s)
  else if reg = 9 then
    if alarm then s.setCia num { c with alarm := putTodByte env c.alarm 8 val }
    else s.setCia num { c with tod := putTodByte env c.tod 8 val }
  else if reg = 10 then
    if alarm then s.setCia num { c with alarm := putTodByte env c.alarm 16 val }
    else s.setCia num
      { c with tod := putTodByte env c.tod 16 val, todon := c.todon && env.cia6526 }
  else if env.cia6526 then
    if alarm then s.setCia num { c with alarm := putTodByte env c.alarm 24 val }
    else s.setCia num { c with tod := putTodByte env c.tod 24 val, todon := false }
  else s

/-- `WriteCIAReg` for the serial data register. -/
def writeSdr (val : BitVec 8) (c : Cia) : Cia :=
  let c := { c with sdr := val }
  if c.t0.cr &&& (crInmode1 ||| crStart) = crInmode1 ||| crStart then
    if c.sdrCnt = 0 then { c with sdrCnt := 16, sdrLoad := false, sdrBuf := c.sdr }
    else { c with sdrLoad := true }
  else c

/-- `setclr`. -/
def setclr (p val : BitVec 8) : BitVec 8 :=
  if val &&& 0x80 ≠ 0 then p ||| (val &&& 0x7f) else p &&& ~~~val

/-- `WriteCIAReg`. -/
def writeCiaReg (env : Env) (hpos : Int) (num : Fin 2) (reg : Fin 16) (val : BitVec 8) (s : State) :
    State :=
  let c := s.cia num
  let tn := timerOf reg
  let t := c.t tn
  if reg = 4 ∨ reg = 6 then
    s.setCia num (c.setT tn { t with latch := (t.latch &&& 0xff00) ||| val.toNat })
  else if reg = 5 ∨ reg = 7 then s.setCia num (c.setT tn (ciaThiWrite s.accurate tn val t))
  else if 8 ≤ reg ∧ reg ≤ 11 then writeTod env hpos num reg val s
  else if reg = 12 then s.setCia num (writeSdr val c)
  else if reg = 13 then s.setCia num (rethinkIcr { c with imask := setclr c.imask val })
  else if reg = 14 ∨ reg = 15 then s.setCia num (c.setT tn (ciaCrWrite s.accurate tn val t))
  else s

/-! ### The CNT pin -/

/-- `timer_reset`. -/
def timerReset (acc : Bool) (t : CiaTimer) : CiaTimer :=
  let t := { t with timer := t.latch }
  if ¬ acc then t
  else if t.cr &&& crRunmode ≠ 0 then { t with inputpipe := t.inputpipe &&& ~~~pipeClr1 }
  else { t with inputpipe := t.inputpipe &&& ~~~pipeClr2 }

/-- One count of `cia_inmode_cnt`: count down, or underflow at zero. Returns the
timer and whether it underflowed. -/
def countCnt (acc : Bool) (t : CiaTimer) : CiaTimer × Bool :=
  if t.timer = 0 then
    let t := timerReset acc t
    (if t.cr &&& crRunmode ≠ 0 then { t with cr := t.cr &&& ~~~crStart } else t, true)
  else ({ t with timer := t.timer - 1 }, false)

/-- `cia_inmode_cnt`. Returns the chip and its `icr` bits. -/
def ciaInmodeCnt (acc : Bool) (c : Cia) : Cia × BitVec 8 :=
  let a := if c.t0.cr &&& (crInmode ||| crStart) = crInmode ||| crStart then countCnt acc c.t0
    else (c.t0, false)
  let decb := (a.2 ∧ c.t1.cr &&& (crInmode1 ||| crStart) = crInmode1 ||| crStart) ∨
    c.t1.cr &&& (crInmode1 ||| crInmode ||| crStart) = crInmode ||| crStart
  let b := if decb then countCnt acc c.t1 else (c.t1, false)
  ({ c with t0 := a.1, t1 := b.1 }, (if a.2 then icrA else 0) ||| (if b.2 then icrB else 0))

/-- The serial input of `write_ciab_serial`: a data bit shifted in on CNT. -/
def serialIn (bit : Bool) (c : Cia) : Cia × BitVec 8 :=
  if c.t0.cr &&& crSpmode = 0 then
    let buf := (c.sdrBuf <<< 1) ||| (if bit then 1 else 0)
    let cnt := c.sdrCnt + 1
    if 8 ≤ cnt then ({ c with sdrBuf := buf, sdr := buf, sdrCnt := 0 }, icrSp)
    else ({ c with sdrBuf := buf, sdrCnt := cnt }, 0)
  else (c, 0)

/-- `write_ciab_serial`. -/
def writeCiabSerial (ndata odata ndir odir : BitVec 8) (s : State) : State :=
  let val := ndata &&& ndir
  if val &&& 2 ≠ 0 ∧ odata &&& odir &&& 2 = 0 then
    let (c, icrS) := serialIn (decide (val &&& 1 ≠ 0)) s.cia1
    let (c, icrT) := ciaInmodeCnt s.accurate c
    let s := { s with cia1 := c }
    if icrS ||| icrT ≠ 0 then ciaSyncInterrupt 1 (icrS ||| icrT) s else s
  else s

/-- `WriteCIAA` and `WriteCIAB`. -/
def writeCia (env : Env) (hpos : Int) (num : Fin 2) (reg : Fin 16) (val : BitVec 8) (s : State) :
    Except CiaFault State :=
  let c := s.cia num
  if reg = 0 then
    return match num with
      | 0 => { s with cia0 := { c with pra := (c.pra &&& ~~~0xc3) ||| (val &&& 0xc3) } }
      | 1 =>
        let s := writeCiabSerial val c.pra c.dra c.dra s
        { s with cia1 := { s.cia1 with pra := val } }
  else if reg = 1 then return s.setCia num { c with prb := val }
  else if reg = 2 then
    return match num with
      | 0 => { s with cia0 := { c with dra := val } }
      | 1 =>
        let s := writeCiabSerial c.pra c.pra val c.dra s
        { s with cia1 := { s.cia1 with dra := val } }
  else if reg = 3 then return s.setCia num { c with drb := val }
  else do ciaCalcTimers (writeCiaReg env hpos num reg val (← ciaUpdate s))

/-- `keyreq`: the keyboard hands over a key code. -/
def keyreq (kbcode : BitVec 8) (s : State) : State :=
  ciaSyncInterrupt 0 icrSp { s with cia0 := { s.cia0 with sdr := kbcode } }

/-! ### Reset -/

/-- A timer after `memset` and the two assignments of `CIA_reset`. -/
def resetTimer : CiaTimer :=
  { timer := 0xffff, latch := 0xffff, passed := 0, inputpipe := 0, loaddelay := 0,
    preovfl := false, cr := 0 }

/-- A chip after `CIA_reset`. -/
def resetChip (pra : BitVec 8) : Cia :=
  { pra := pra, prb := 0, dra := 0, drb := 0, t0 := resetTimer, t1 := resetTimer
    tod := 0, tol := 0, alarm := 0, tlatch := false, todon := false
    todEventState := 0, todOffset := 0, icr1 := 0, icr2 := 0, icrChange := false
    imask := 0, sdr := 0, sdrBuf := 0, sdrLoad := false, sdrCnt := 0 }

/-- `CIA_reset` without a savestate, at cycle `cycles` and in mode `acc`. -/
def ciaReset (cycles : Nat) (acc : Bool) (ev : Ev) (eclockphase : Int) : Except CiaFault State :=
  ciaCalcTimers
    { cia0 := resetChip 0, cia1 := resetChip 0x8c, cycles := cycles, evCia := ev
      accurate := acc, eclockphase := eclockphase, internaleclockphase := 0 }

end LibretroUae.CiaChips
