import Mathlib.Logic.Function.Basic
import LibretroUae.Lib.Bytes

/-!
# LibretroUae.Audio.Channels

**The four audio channels.** A channel waits for its event time, plays the two bytes of a word in
states 2 and 3, and asks for the next word. Interrupts and some words come in one clock later.

The hacks for tracker players are off. The mixer, which only cuts the time into smaller pieces, is
left out, and so are extra streams and the sample ripper.
-/

namespace LibretroUae.Audio

open Lib

/-! ### The data -/

/-- The states 0, 1, 5, 2, 3 and 3 + 16. -/
inductive ChannelState
  | idle
  | one
  | five
  | two
  | three
  | manual
  deriving DecidableEq, Repr

/-- `audio_channel_data`. -/
structure AudioChannel where
  evtime : BitVec 32
  dmaenstore : Bool
  intreq2 : Bool
  irqcheck : Int
  dr : Bool
  dsr : Bool
  datWritten : Bool
  lc : BitVec 32
  pt : BitVec 32
  state : ChannelState
  per : Int
  len : BitVec 16
  wlen : BitVec 16
  dat : BitVec 16
  dat2 : BitVec 16
  audvol : Byte
  minperloop : Nat
  deriving DecidableEq, Repr

/-- Events that come later: words and pointer resets a clock, delayed interrupts two. -/
inductive AudioEvent
  | irq (nr : Fin 4)
  | setdsr (nr : Fin 4)
  | audxdat (nr : Fin 4) (chanEna : Bool) (v : BitVec 16) (early : Bool)
  deriving DecidableEq, Repr

/-- What is heard and seen of the channels. -/
inductive AudioOutput
  | sample (nr : Fin 4) (v : Byte)
  | irq (nr : Fin 4)
  | requests (dmal : BitVec 16)
  | address (nr : Fin 4) (p : BitVec 32)
  deriving DecidableEq, Repr

/-- The preferences; `workTime` is how long sound stays active. -/
structure AudioPrefs where
  produceSound : Bool
  cachesize : Bool
  cpuCompatible : Bool
  memoryCycleExact : Bool
  interruptDelay : Bool
  soundAuto : Bool
  workTime : Nat

/-- The channels and what they share; `pending` is the time since they were updated. -/
structure Paula where
  chan : Fin 4 → AudioChannel
  dmacon : BitVec 16
  adkcon : BitVec 16
  intreq : BitVec 16
  pending : Nat
  work : Nat
  events : List AudioEvent
  out : List AudioOutput

/-- What programs and time do. -/
inductive AudioOp
  | lch (nr : Fin 4) (v : BitVec 16)
  | lcl (nr : Fin 4) (v : BitVec 16)
  | len (nr : Fin 4) (v : BitVec 16)
  | per (nr : Fin 4) (v : BitVec 16)
  | vol (nr : Fin 4) (v : BitVec 16)
  | dat (nr : Fin 4) (v : BitVec 16)
  | dmacon (v : BitVec 16)
  | adkcon (v : BitVec 16)
  | intreq (v : BitVec 16)
  | dmal
  | getpt (nr : Fin 4) (reset : Bool)
  | elapse (cycles : Nat)
  | update
  | hsync
  | fire (i : Nat)
  deriving DecidableEq, Repr

abbrev cycleUnit : Int := 512

/-- `PERIOD_MAX` in an `int`. -/
abbrev periodMax : Int := -1

/-- `MAX_EV`. -/
abbrev maxEv : BitVec 32 := 0xffffffff

namespace AudioChannel

/-- `audio_reset`. -/
def reset : AudioChannel where
  evtime := maxEv
  dmaenstore := false
  intreq2 := false
  irqcheck := 0
  dr := false
  dsr := false
  datWritten := false
  lc := 0
  pt := 0
  state := .idle
  per := periodMax - 1
  len := 0
  wlen := 0
  dat := 0
  dat2 := 0
  audvol := 0
  minperloop := 0

/-- `zerostate`. -/
def zerostate (prefs : AudioPrefs) (reset : Bool) (c : AudioChannel) : AudioChannel :=
  { c with
    state := .idle
    irqcheck := 0
    evtime := maxEv
    intreq2 := if !prefs.memoryCycleExact || reset then false else c.intreq2
    dmaenstore := false
    minperloop := 0 }

/-- `update_volume`. -/
def updateVolume (v : BitVec 16) (c : AudioChannel) : AudioChannel :=
  { c with audvol := if 64 < (v &&& 127).toNat then 64 else (v &&& 127).setWidth 8 }

def loadper (c : AudioChannel) : AudioChannel := { c with evtime := BitVec.ofInt 32 c.per }

def loadper1 (c : AudioChannel) : AudioChannel :=
  { c with evtime := BitVec.ofInt 32 cycleUnit }

def loadperm1 (isirq : Bool) (c : AudioChannel) : AudioChannel :=
  if c.per = cycleUnit then
    { c with evtime := BitVec.ofInt 32 cycleUnit, irqcheck := if isirq then 1 else -1 }
  else if cycleUnit < c.per then
    { c with evtime := BitVec.ofInt 32 (c.per - cycleUnit), state := .manual }
  else { c with evtime := BitVec.ofInt 32 (65536 * cycleUnit), state := .manual }

/-- States 2 and 3. -/
def playing (c : AudioChannel) : Bool := c.state = .two || c.state = .three || c.state = .manual

end AudioChannel

namespace Paula

def reset : Paula := ⟨fun _ => .reset, 0, 0, 0, 0, 0, [], []⟩

def onChan (nr : Fin 4) (f : AudioChannel → AudioChannel) (p : Paula) : Paula :=
  { p with chan := Function.update p.chan nr (f (p.chan nr)) }

def dmaMaster (p : Paula) : Bool := p.dmacon &&& 0x200 ≠ 0

def chanEna (nr : Fin 4) (p : Paula) : Bool :=
  p.dmaMaster && p.dmacon &&& ((1 : BitVec 16) <<< nr.val) ≠ 0

def audav (nr : Fin 4) (p : Paula) : Bool := p.adkcon &&& ((0x01 : BitVec 16) <<< nr.val) ≠ 0

def audap (nr : Fin 4) (p : Paula) : Bool := p.adkcon &&& ((0x10 : BitVec 16) <<< nr.val) ≠ 0

def napnav (nr : Fin 4) (p : Paula) : Bool := !p.audav nr && !p.audap nr || p.audav nr

def isirq (nr : Fin 4) (p : Paula) : Bool := p.intreq &&& ((0x80 : BitVec 16) <<< nr.val) ≠ 0

/-! ### Activity -/

/-- `audio_event_reset`. -/
def audioEventReset (prefs : AudioPrefs) (p : Paula) : Paula :=
  { p with chan := fun nr => (p.chan nr).zerostate prefs true, pending := 0 }

/-- `audio_activate`. -/
def audioActivate (prefs : AudioPrefs) (p : Paula) : Paula :=
  { if p.work = 0 then p.audioEventReset prefs else p with work := prefs.workTime }

/-! ### What the states do -/

/-- An interrupt request that arrives. -/
def raise (nr : Fin 4) (p : Paula) : Paula :=
  { p with intreq := p.intreq ||| ((0x80 : BitVec 16) <<< nr.val), out := p.out ++ [.irq nr] }

def post (e : AudioEvent) (p : Paula) : Paula := { p with events := p.events ++ [e] }

def setirq (prefs : AudioPrefs) (nr : Fin 4) (p : Paula) : Paula :=
  if prefs.interruptDelay then p.post (.irq nr) else p.raise nr

def newsample (nr : Fin 4) (v : Byte) (p : Paula) : Paula :=
  { p with out := p.out ++ [.sample nr v] }

def eventSetdsr (nr : Fin 4) : Paula → Paula := onChan nr fun c => { c with dsr := true }

/-- Whether words and pointer resets take a clock. -/
def delayed (prefs : AudioPrefs) (nr : Fin 4) (p : Paula) : Bool :=
  !prefs.cachesize && ((p.chan nr).per < 124 * cycleUnit || prefs.cpuCompatible)

def setdr (prefs : AudioPrefs) (nr : Fin 4) (startup : Bool) (p : Paula) : Paula :=
  if p.dmaMaster then
    if !startup && (p.chan nr).wlen = 1 then
      if p.delayed prefs nr then p.post (.setdsr nr) else p.eventSetdsr nr
    else p.onChan nr fun c => { c with dr := true }
  else p

/-- The period that a word sets for the next channel. -/
def attachedPer (dat : BitVec 16) : Int :=
  if dat = 0 then 65536 * cycleUnit else if 1 < dat.toNat then dat.toNat * cycleUnit else cycleUnit

def loaddat (nr : Fin 4) (modper : Bool) (p : Paula) : Paula :=
  if p.audav nr || modper && p.audap nr then
    if h : nr.val < 3 then
      let next : Fin 4 := ⟨nr.val + 1, by omega⟩
      if modper && p.audap nr then
        p.onChan next fun c => { c with per := attachedPer (p.chan nr).dat }
      else p.onChan next (.updateVolume (p.chan nr).dat)
    else p
  else p.onChan nr fun c => { c with dat2 := c.dat }

/-- The handler calling itself in state 2: the high byte. -/
def playHigh (nr : Fin 4) (p : Paula) : Paula :=
  (p.newsample nr (byteAt (p.chan nr).dat2 8)).onChan nr .loadper

/-- The handler calling itself in state 3: the low byte. -/
def playLow (nr : Fin 4) (p : Paula) : Paula :=
  let p := p.newsample nr (byteAt (p.chan nr).dat2 0)
  if p.chanEna nr then p.onChan nr .loadper else p.onChan nr (.loadperm1 (p.isirq nr))

def toState (nr : Fin 4) (s : ChannelState) : Paula → Paula :=
  onChan nr fun c => { c with state := s }

def stateIdle (prefs : AudioPrefs) (nr : Fin 4) (p : Paula) : Paula :=
  if p.chanEna nr then
    let p := p.onChan nr fun c => { c with evtime := maxEv, state := .one }
    let p := p.setdr prefs nr true
    p.onChan nr fun c => { c with wlen := c.len, dsr := true }
  else if (p.chan nr).datWritten && !p.isirq nr then
    let p := (p.toState nr .two).setirq prefs nr
    (p.loaddat nr false).playHigh nr
  else p.onChan nr (.zerostate prefs false)

def stateOne (prefs : AudioPrefs) (nr : Fin 4) (p : Paula) : Paula :=
  let p := p.onChan nr fun c => { c with evtime := maxEv }
  if !p.chanEna nr then p.onChan nr (.zerostate prefs false)
  else if !(p.chan nr).datWritten then p
  else
    let p := (p.setirq prefs nr).setdr prefs nr false
    p.onChan nr fun c =>
      { c with wlen := if c.wlen ≠ 1 then c.wlen - 1 else c.wlen, state := .five }

def stateFive (prefs : AudioPrefs) (nr : Fin 4) (p : Paula) : Paula :=
  let p := p.onChan nr fun c => { c with evtime := maxEv }
  if !p.chanEna nr then p.onChan nr (.zerostate prefs false)
  else if !(p.chan nr).datWritten then p
  else
    let p := p.loaddat nr false
    let p := if p.napnav nr then p.setdr prefs nr false else p
    let p := p.onChan nr fun c => { c.loadper with state := .two, intreq2 := false }
    p.playHigh nr

/-- The interrupt at the end of a block. -/
def blockIrq (prefs : AudioPrefs) (nr : Fin 4) (attached : Bool) (p : Paula) : Paula :=
  if (p.chan nr).intreq2 && attached then
    (p.setirq prefs nr).onChan nr fun c => { c with intreq2 := false }
  else p

def stateTwo (prefs : AudioPrefs) (nr : Fin 4) (perfin : Bool) (p : Paula) : Paula :=
  if !perfin then p
  else
    let p := if p.audap nr then p.loaddat nr true else p
    let p :=
      if p.chanEna nr then
        let p := if p.audap nr then p.setdr prefs nr false else p
        p.blockIrq prefs nr (p.audap nr)
      else if p.audap nr then p.setirq prefs nr
      else p
    let p := p.onChan nr fun c => { c with irqcheck := 0, state := .three }
    p.playLow nr

/-- State 3 + 16. -/
def stateManual (nr : Fin 4) (perfin : Bool) (p : Paula) : Paula :=
  if !perfin then p
  else
    let irq := !p.chanEna nr && p.isirq nr
    p.onChan nr fun c => { c.loadper1 with state := .three, irqcheck := if irq then 1 else -1 }

def stateThree (prefs : AudioPrefs) (nr : Fin 4) (perfin : Bool) (p : Paula) : Paula :=
  if !perfin then p
  else if p.chanEna nr then
    let p := p.loaddat nr false
    let p := if p.napnav nr then p.setdr prefs nr false else p
    let p := p.blockIrq prefs nr (p.napnav nr)
    (p.toState nr .two).playHigh nr
  else
    let p := p.onChan nr fun c =>
      { c with irqcheck := if c.irqcheck = 0 && p.isirq nr then 1 else c.irqcheck }
    let p := if p.napnav nr then p.setirq prefs nr else p
    if 0 < (p.chan nr).irqcheck then p.onChan nr (.zerostate prefs false)
    else ((p.loaddat nr false).toState nr .two).playHigh nr

/-- `audio_state_channel2`, and whether the written word is used up. -/
def audioStateChannel2 (prefs : AudioPrefs) (nr : Fin 4) (perfin : Bool) (p : Paula) :
    Paula × Bool :=
  let p := p.onChan nr fun c => { c with dmaenstore := p.chanEna nr }
  if !prefs.produceSound then (p.onChan nr (.zerostate prefs true), true)
  else
    let p := p.audioActivate prefs
    match (p.chan nr).state with
    | .idle => (p.stateIdle prefs nr, true)
    | .one => (p.stateOne prefs nr, true)
    | .five => (p.stateFive prefs nr, true)
    | .two => (p.stateTwo prefs nr perfin, true)
    | .manual => (p.stateManual nr perfin, !perfin)
    | .three => (p.stateThree prefs nr perfin, true)

/-- `audio_state_channel`. -/
def audioStateChannel (prefs : AudioPrefs) (nr : Fin 4) (perfin : Bool) (p : Paula) : Paula :=
  let (p, used) := p.audioStateChannel2 prefs nr perfin
  if used then p.onChan nr fun c => { c with datWritten := false } else p

/-! ### Time -/

/-- The time to the next event, at most the pending time. -/
def bestEvtime (p : Paula) : Nat :=
  (List.finRange 4).foldl (fun best nr =>
    if (p.chan nr).evtime = maxEv then best else min best (p.chan nr).evtime.toNat) p.pending

def countDown (best : Nat) (p : Paula) : Paula :=
  { p with
    chan := fun nr =>
      if (p.chan nr).evtime = maxEv then p.chan nr
      else { p.chan nr with evtime := (p.chan nr).evtime - BitVec.ofNat 32 best }
    pending := p.pending - best }

/-- A channel whose time has come. -/
def finishPeriod (prefs : AudioPrefs) (p : Paula) (nr : Fin 4) : Paula :=
  if (p.chan nr).evtime = 0 then p.audioStateChannel prefs nr true else p

/-- The channels whose time has come, in order. -/
def finishPeriods (prefs : AudioPrefs) (p : Paula) : Paula :=
  (List.finRange 4).foldl (finishPeriod prefs) p

/-- The loop of `update_audio`; no event time is 0 there, so each round takes some time. -/
def updateLoop (prefs : AudioPrefs) : Nat → Paula → Paula
  | 0, p => p
  | fuel + 1, p =>
    if p.pending = 0 then p
    else updateLoop prefs fuel ((p.countDown p.bestEvtime).finishPeriods prefs)

/-- `update_audio`. -/
def updateAudio (prefs : AudioPrefs) (p : Paula) : Paula :=
  if !prefs.produceSound || p.work = 0 then { p with pending := 0 }
  else p.updateLoop prefs (p.pending + 1)

/-- `audio_state_machine`. -/
def audioStateMachine (prefs : AudioPrefs) (p : Paula) : Paula :=
  (List.finRange 4).foldl (fun p nr => p.audioStateChannel prefs nr false) (p.updateAudio prefs)

/-! ### Words -/

/-- The length counter after a word of a channel that plays. -/
def countWord (early : Bool) (c : AudioChannel) : AudioChannel :=
  if c.wlen = 1 then
    let loops := if c.per < 16 * cycleUnit then c.minperloop + 1 else c.minperloop
    { c with
      wlen := c.len
      minperloop := loops
      per := if c.per < 16 * cycleUnit && 64 ≤ loops then 16 * cycleUnit else c.per
      intreq2 := !early || c.intreq2 }
  else { c with wlen := c.wlen - 1 }

/-- `event_audxdat_func`. -/
def eventAudxdat (prefs : AudioPrefs) (nr : Fin 4) (chanEna : Bool) (v : BitVec 16) (early : Bool)
    (p : Paula) : Paula :=
  let p :=
    if (p.chan nr).playing then
      if chanEna then p.onChan nr (countWord early)
      else p.onChan nr fun c => { c with dat := v, datWritten := true }
    else
      let p := p.onChan nr fun c => { c with dat := v, datWritten := true }
      ((p.audioActivate prefs).updateAudio prefs).audioStateChannel prefs nr false
  p.onChan nr fun c => { c with datWritten := false }

/-- `AUDxDAT_addr`. -/
def audxDat (prefs : AudioPrefs) (nr : Fin 4) (v : BitVec 16) (p : Paula) : Paula :=
  let ena := p.chanEna nr
  let p := if ena then p.onChan nr fun c => { c with dat := v, datWritten := true } else p
  if p.delayed prefs nr && ena then
    let early := (p.chan nr).playing
    let p := p.onChan nr fun c => { c with intreq2 := early && c.wlen = 1 || c.intreq2 }
    p.post (.audxdat nr ena v early)
  else p.eventAudxdat prefs nr ena v false

/-! ### Registers and events -/

/-- A period as it is written. -/
def writtenPer (prefs : AudioPrefs) (v : BitVec 16) (dmaenstore : Bool) : Int :=
  let per := (if v = 0 then 65536 else v.toNat) * cycleUnit
  let per := if per < cycleUnit then cycleUnit else per
  if per < 60 * cycleUnit && !prefs.memoryCycleExact && dmaenstore then 60 * cycleUnit else per

/-- `AUDxPER`, when the channels are updated. -/
def storePer (prefs : AudioPrefs) (v : BitVec 16) (c : AudioChannel) : AudioChannel :=
  let per := writtenPer prefs v c.dmaenstore
  { c with
    evtime := if c.per = periodMax - 1 && per ≠ periodMax - 1 then BitVec.ofInt 32 cycleUnit
      else c.evtime
    per := per }

/-- The registers that are written when the channels are updated. -/
def writeReg (prefs : AudioPrefs) (nr : Fin 4) (f : AudioChannel → AudioChannel) (p : Paula) :
    Paula :=
  ((p.audioActivate prefs).updateAudio prefs).onChan nr f

def writeDmacon (prefs : AudioPrefs) (v : BitVec 16) (p : Paula) : Paula :=
  let changed := (p.dmacon ^^^ v) &&& 0x20f ≠ 0
  let p := { p with dmacon := v }
  if changed then p.audioStateMachine prefs else p

/-- `ADKCON`, when the low byte of the old value is the one that was last looked at. -/
def writeAdkcon (prefs : AudioPrefs) (v : BitVec 16) (p : Paula) : Paula :=
  let changed := (p.adkcon ^^^ v) &&& 0xff ≠ 0
  let p := if prefs.produceSound then p.updateAudio prefs else p
  let p := { p with adkcon := v }
  if changed then p.audioActivate prefs else p

/-- `audio_dmal`. -/
def audioDmal (p : Paula) : Paula :=
  let dmal := (List.finRange 4).foldl (fun (dmal : BitVec 16) nr =>
    let dmal := if (p.chan nr).dr then dmal ||| (1 <<< (nr.val * 2 + 1)) else dmal
    if (p.chan nr).dsr then dmal ||| (1 <<< (nr.val * 2)) else dmal) 0
  { p with
    chan := fun nr => { p.chan nr with dr := false, dsr := false }
    out := p.out ++ [.requests dmal] }

/-- `audio_getpt`. -/
def audioGetpt (nr : Fin 4) (reset : Bool) (p : Paula) : Paula :=
  let address := (p.chan nr).pt &&& ~~~1
  let p := p.onChan nr fun c => { c with pt := if reset then c.lc else c.pt + 2 }
  { p with out := p.out ++ [.address nr address] }

/-- A line less of activity; the last one deactivates. -/
def audioRest (prefs : AudioPrefs) (p : Paula) : Paula :=
  if p.work = 1 then { p.audioEventReset prefs with work := 0 } else { p with work := p.work - 1 }

/-- `audio_hsync`. -/
def audioHsync (prefs : AudioPrefs) (p : Paula) : Paula :=
  if !prefs.produceSound then p
  else
    let p := if 0 < p.work && prefs.soundAuto then p.audioRest prefs else p
    p.updateAudio prefs

/-- Whichever of the events comes; those of interrupts take longer than the others. -/
def fire (prefs : AudioPrefs) (i : Nat) (p : Paula) : Paula :=
  match p.events[i]? with
  | none => p
  | some e =>
    let p := { p with events := p.events.eraseIdx i }
    match e with
    | .irq nr => p.raise nr
    | .setdsr nr => p.eventSetdsr nr
    | .audxdat nr ena v early => p.eventAudxdat prefs nr ena v early

def step (prefs : AudioPrefs) (p : Paula) : AudioOp → Paula
  | .lch nr v => p.writeReg prefs nr fun c => { c with lc := v ++ c.lc.setWidth 16 }
  | .lcl nr v =>
    p.writeReg prefs nr fun c => { c with lc := c.lc.extractLsb' 16 16 ++ (v &&& 0xfffe) }
  | .len nr v => p.writeReg prefs nr fun c => { c with len := v }
  | .per nr v => p.writeReg prefs nr (storePer prefs v)
  | .vol nr v => p.writeReg prefs nr (.updateVolume v)
  | .dat nr v => p.audxDat prefs nr v
  | .dmacon v => p.writeDmacon prefs v
  | .adkcon v => p.writeAdkcon prefs v
  | .intreq v => { p with intreq := v }
  | .dmal => p.audioDmal
  | .getpt nr reset => p.audioGetpt nr reset
  | .elapse cycles => { p with pending := p.pending + cycles }
  | .update => p.updateAudio prefs
  | .hsync => p.audioHsync prefs
  | .fire i => p.fire prefs i

def run (prefs : AudioPrefs) (p : Paula) (ops : List AudioOp) : Paula := ops.foldl (step prefs) p

end Paula

end LibretroUae.Audio
