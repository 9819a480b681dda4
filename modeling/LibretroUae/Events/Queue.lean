import LibretroUae.Lib.Machine
import Mathlib.Data.List.FinRange
import Mathlib.Logic.Function.Basic

/-!
# LibretroUae.Events.Queue

The event queue of `events.c`.

`eventtab2` has twelve slots. Whoever registers an event gets a slot and a call of
`MISC_handler`, which runs the handlers that are due and reschedules
`eventtab[ev_misc]`. Handlers are C functions that may themselves use the queue, so
they are programs over its calls (`Prog`), and running a function pointer is a
parameter `call` of everything below `callFunc`. There the recursion is tied, with a
number that bounds its depth and the loops: `none` is a call that has not returned yet.

Two things are not in the source: registrations are numbered (`serial`, `Ev2.id`), and
`log` keeps what became of each.
-/

namespace LibretroUae.Events

open LibretroUae.Lib

/-! ### Data -/

/-- `EVT_MAX`, the time that stands for "never". Times (`evt_t`) are integers here; the source
has 64 bits for them. -/
def evtMax : Int := 0x7fffffffffffffff

/-- `CYCLE_UNIT`. -/
def cycleUnit : Int := 512

/-- The entries of `eventtab`. -/
inductive EvId
  | cia | hsync | hsynch | misc | audio
  deriving DecidableEq, Repr

/-- `0 .. ev_max - 1`. -/
def EvId.all : List EvId := [.cia, .hsync, .hsynch, .misc, .audio]

structure Ev where
  active : Bool
  evtime : Int
  oldcycles : Int
  deriving DecidableEq, Repr

/-- The entries of `eventtab2`; `ev2_max` is 12. -/
abbrev Slot := Fin 12

/-- `ev2_blitter`. -/
def ev2Blitter : Slot := 0

/-- `ev2_misc`, the first slot that is handed out. -/
def ev2Misc : Slot := 1

/-- `0 .. ev2_max - 1`. -/
def slots : List Slot := List.finRange 12

variable {F : Type}

structure Ev2 (F : Type) where
  active : Bool
  evtime : Int
  data : BitVec 32
  handler : F
  next : Option Slot
  /-- The number of the registration. -/
  id : Nat
  deriving DecidableEq, Repr

/-- How a registered event left its slot. -/
inductive How
  /-- Its handler was called by the scan of `MISC_handler`. -/
  | due
  /-- Its handler was called behind the event whose `next` it was. -/
  | chained
  /-- Its handler was called to make room. -/
  | evicted
  | removed
  /-- Its slot was registered anew. -/
  | replaced
  deriving DecidableEq, Repr

structure Item where
  id : Nat
  evtime : Int
  /-- `currcycle` at that time. -/
  cycle : Int
  how : How
  slot : Slot
  deriving DecidableEq, Repr

/-- The variables of `events.c`, and the static ones of its functions. -/
structure State (F : Type) where
  currcycle : Int
  nextevent : Int
  pissoff : Int
  eventtab : EvId → Ev
  eventtab2 : Slot → Ev2 F
  /-- `none` is `dummy_event`, which is never active. -/
  lastEvent2 : Option Slot
  /-- `next` of `event2_newevent_xx`. -/
  next : Slot
  /-- `dorecheck` of `MISC_handler`. -/
  dorecheck : Bool
  /-- `recursive` of `MISC_handler`. -/
  recursive : Bool
  serial : Nat
  log : List Item

/-- The calls of the queue that a handler may make. -/
inductive Call (F : Type)
  /-- `event2_newevent_xx`; `none` is a negative `no`. -/
  | newevent (no : Option Slot) (t : Int) (data : BitVec 32) (func : F)
  /-- `event2_newevent_x_replace`. -/
  | replace (t : Int) (data : BitVec 32) (func : F)
  /-- `event2_newevent_x_remove`. -/
  | remove (func : F)
  /-- `event2_remevent`. -/
  | remevent (no : Slot)

/-- A handler's use of the queue: each call may depend on what the ones before it did. -/
inductive Prog (F : Type)
  | done
  | call (c : Call F) (rest : State F → Prog F)

/-- What every handler does, given its argument and the state it is called in. -/
abbrev Bodies (F : Type) := F → BitVec 32 → State F → Prog F

/-- Calling through a function pointer. -/
abbrev CallFunc (F : Type) := F → BitVec 32 → State F → Option (State F)

/-! ### Slots -/

namespace State

/-- `eventtab2[i].active = false`, with what became of the event. -/
def retire (s : State F) (i : Slot) (how : How) : State F :=
  { s with
    eventtab2 := Function.update s.eventtab2 i { s.eventtab2 i with active := false }
    log := ⟨(s.eventtab2 i).id, (s.eventtab2 i).evtime, s.currcycle, how, i⟩ :: s.log }

/-- `eventtab2[i].next = e`. -/
def setNext (s : State F) (i : Slot) (e : Option Slot) : State F :=
  { s with eventtab2 := Function.update s.eventtab2 i { s.eventtab2 i with next := e } }

/-- `events_schedule`. -/
def eventsSchedule (s : State F) : State F :=
  let mintime := EvId.all.foldl
    (fun mintime i =>
      if (s.eventtab i).active ∧ (s.eventtab i).evtime - s.currcycle < mintime then
        (s.eventtab i).evtime - s.currcycle
      else mintime) evtMax
  { s with nextevent := if mintime < evtMax then s.currcycle + mintime else evtMax }

/-- `clear_events`. -/
def clearEvents (s : State F) : State F :=
  { s with
    nextevent := evtMax
    eventtab := fun i => { s.eventtab i with active := false, oldcycles := s.currcycle }
    eventtab2 := fun i => { s.eventtab2 i with active := false } }

/-- `event_init`. -/
def eventInit (s : State F) : State F := { s with lastEvent2 := none }

/-- Whether `last_event2` is another active event with expiry time `et`. -/
def lastExpiresAt (s : State F) (e : Slot) (et : Int) : Option Slot :=
  match s.lastEvent2 with
  | none => none
  | some l =>
    if (s.eventtab2 l).active ∧ l ≠ e ∧ et = (s.eventtab2 l).evtime then some l else none

/-- `e->active = true; ... last_event2 = e;` -/
def fill (s : State F) (e : Slot) (et : Int) (data : BitVec 32) (func : F) : State F :=
  { s with
    eventtab2 := Function.update s.eventtab2 e
      { active := true, evtime := et, data := data, handler := func,
        next := (s.eventtab2 e).next, id := s.serial }
    lastEvent2 := some e
    serial := s.serial + 1 }

/-- The part of `event2_newevent_xx` that takes slot `e`: "if previous event has same expiry
time, make sure it gets executed first". -/
def register (s : State F) (e : Slot) (et : Int) (data : BitVec 32) (func : F) : State F :=
  let s := if (s.eventtab2 e).active then s.retire e .replaced else s
  match s.lastExpiresAt e et with
  | some l => (s.setNext l (some e)).fill e (et + 1) data func
  | none => s.fill e et data func

/-- `MISC_handler` begins. -/
def enterMisc (s : State F) : State F :=
  { s with
    recursive := true
    eventtab := Function.update s.eventtab .misc { s.eventtab .misc with active := false } }

/-- `MISC_handler` reschedules itself. -/
def scheduleMisc (s : State F) (mintime : Int) : State F :=
  eventsSchedule { s with
    eventtab := Function.update s.eventtab .misc
      { active := true, evtime := s.currcycle + mintime, oldcycles := s.currcycle } }

/-- The loop of `event2_newevent_x_remove`. -/
def removeAll [DecidableEq F] (s : State F) (func : F) : State F :=
  slots.foldl
    (fun s i =>
      if (s.eventtab2 i).active ∧ (s.eventtab2 i).handler = func then s.retire i .removed else s) s

/-- `event2_remevent`. -/
def remevent (s : State F) (no : Slot) : State F :=
  if (s.eventtab2 no).active then s.retire no .removed else s

/-- The active event that expires first. -/
def mostRecent (s : State F) : Option Slot :=
  (slots.foldl
    (fun (m : Int × Option Slot) i =>
      if (s.eventtab2 i).active ∧ (s.eventtab2 i).evtime - s.currcycle < m.1 then
        ((s.eventtab2 i).evtime - s.currcycle, some i)
      else m) (evtMax, none)).2

end State

/-! ### MISC_handler -/

section Calls

variable (call : CallFunc F)

/-- `e->active = false; e->handler (e->data)`. -/
def fire (how : How) (i : Slot) (s : State F) : Option (State F) :=
  call (s.eventtab2 i).handler (s.eventtab2 i).data (s.retire i how)

/-- What follows the handler of slot `i`: the event chained to it. -/
def chain (i : Slot) (s : State F) : Option (State F) :=
  match (s.eventtab2 i).next with
  | none => some s
  | some j =>
    let s := s.setNext i none
    if (s.eventtab2 j).active ∧ (s.eventtab2 j).evtime = (s.eventtab2 i).evtime + 1 then
      fire call .chained j s
    else some s

/-- A pass over the slots: the state, `mintime` and `recheck`. -/
structure Pass (F : Type) where
  state : State F
  mintime : Int
  recheck : Bool

/-- One slot of a pass. -/
def visit (ct : Int) (i : Slot) (p : Pass F) : Option (Pass F) :=
  if (p.state.eventtab2 i).active then
    if (p.state.eventtab2 i).evtime = ct then do
      let s ← fire call .due i p.state
      let s ← chain call i s
      if s.dorecheck || (s.eventtab2 i).active then
        return ⟨{ s with dorecheck := false }, p.mintime, true⟩
      else return ⟨s, p.mintime, p.recheck⟩
    else
      let eventtime := (p.state.eventtab2 i).evtime - ct
      return { p with mintime := if eventtime < p.mintime then eventtime else p.mintime }
  else return p

/-- The slots of a pass, in order. -/
def scan (ct : Int) : List Slot → Pass F → Option (Pass F)
  | [], p => some p
  | i :: is, p => do scan ct is (← visit call ct i p)

/-- `while (recheck)`: the state and the last pass's `mintime`. -/
def rescan (ct : Int) : Nat → State F → Option (State F × Int)
  | 0, _ => none
  | n + 1, s => do
    let p ← scan call ct slots ⟨s, evtMax, false⟩
    if p.recheck then rescan ct n p.state else return (p.state, p.mintime)

/-- `MISC_handler`. -/
def miscHandler (n : Nat) (s : State F) : Option (State F) :=
  if s.recursive then some { s with dorecheck := true }
  else do
    let (s, mintime) ← rescan call s.currcycle n s.enterMisc
    let s := if mintime < evtMax then s.scheduleMisc mintime else s
    return { s with recursive := false }

/-! ### Registering events -/

/-- `no++; if (no == ev2_max) no = ev2_misc;` -/
def succSlot (no : Slot) : Slot := if h : no.val + 1 < 12 then ⟨no.val + 1, h⟩ else ev2Misc

/-- "execute most recent event immediately" -/
def evict (s : State F) : Option (State F) :=
  match s.mostRecent with
  | none => some s
  | some i => fire call .evicted i s

variable [DecidableEq F]

/-- The search for a slot: a free one, or one that holds this very event. -/
def findSlot (et : Int) (data : BitVec 32) (func : F) :
    Nat → Slot → State F → Option (Slot × State F)
  | 0, _, _ => none
  | n + 1, no, s =>
    if ¬ (s.eventtab2 no).active ∨ ((s.eventtab2 no).evtime = et ∧
        (s.eventtab2 no).handler = func ∧ (s.eventtab2 no).data = data) then
      some (no, s)
    else if succSlot no = s.next then do
      findSlot et data func n (succSlot no) (← evict call s)
    else findSlot et data func n (succSlot no) s

/-- `event2_newevent_xx`. -/
def newevent (n : Nat) (no : Option Slot) (t : Int) (data : BitVec 32) (func : F) (s : State F) :
    Option (State F) :=
  let et := t + s.currcycle
  match no with
  | some no => miscHandler call n (s.register no et data func)
  | none => do
    let (no, s) ← findSlot call et data func n s.next s
    miscHandler call n (State.register { s with next := no } no et data func)

/-- `event2_newevent_x_replace`. -/
def replace (n : Nat) (t : Int) (data : BitVec 32) (func : F) (s : State F) :
    Option (State F) :=
  let s := s.removeAll func
  if t ≤ 0 then call func data s else newevent call n none (t * cycleUnit) data func s

/-- One call of the queue. -/
def exec (n : Nat) (c : Call F) (s : State F) : Option (State F) :=
  match c with
  | .newevent no t data func => newevent call n no t data func s
  | .replace t data func => replace call n t data func s
  | .remove func => some (s.removeAll func)
  | .remevent no => some (s.remevent no)

/-- The calls of a handler. -/
def runProg (n : Nat) : Prog F → State F → Option (State F)
  | .done, s => some s
  | .call c rest, s => do
    let s' ← exec call n c s
    runProg n (rest s') s'

end Calls

/-- Calling a handler, to a depth of `n` calls inside calls. -/
def callFunc [DecidableEq F] (bodies : Bodies F) : Nat → CallFunc F
  | 0, _, _, _ => none
  | n + 1, func, data, s => runProg (callFunc bodies n) n (bodies func data s) s

/-! ### do_cycles_slow -/

section Cycles

variable (call : CallFunc F) (n : Nat)

/-- One entry of `eventtab`. None of the calls here activates another entry than
`ev_misc`, so only that one has a handler; the others are treated like those without. -/
def runEv (i : EvId) (s : State F) : Option (State F) :=
  if (s.eventtab i).active ∧ (s.eventtab i).evtime = s.currcycle then
    match i with
    | .misc => miscHandler call n s
    | i => some { s with
        eventtab := Function.update s.eventtab i { s.eventtab i with active := false } }
  else some s

/-- `for (int i = 0; i < ev_max; i++)`. -/
def runEvs : List EvId → State F → Option (State F)
  | [], s => some s
  | i :: is, s => do runEvs is (← runEv call n i s)

/-- `while ((nextevent - currcycle) <= cycles_to_add)`. -/
def advance : Nat → Int → State F → Option (State F)
  | 0, _, _ => none
  | k + 1, cycles, s =>
    if s.nextevent - s.currcycle ≤ cycles then do
      let cycles := cycles - (s.nextevent - s.currcycle)
      let s ← runEvs call n EvId.all { s with currcycle := s.nextevent }
      advance k cycles s.eventsSchedule
    else some { s with currcycle := s.currcycle + cycles }

/-- `do_cycles_slow`, with `is_syncline` 0: only the line counter sets it. -/
def doCyclesSlow (cpuThread : Bool) (cycles : Int) (s : State F) : Option (State F) :=
  if cpuThread then advance call n n cycles { s with pissoff := 0x40000000 }
  else if 0 ≤ s.pissoff - cycles then some { s with pissoff := s.pissoff - cycles }
  else advance call n n (cycles - s.pissoff) { s with pissoff := 0 }

end Cycles

/-- What happens at the top level: a call of the queue, or time passing. -/
inductive Op (F : Type)
  | call (c : Call F)
  | cycles (cycles : Int)

/-- A top-level call, given to a depth. -/
def topLevel [DecidableEq F] (bodies : Bodies F) (cpuThread : Bool) (n : Nat) (op : Op F)
    (s : State F) : Option (State F) :=
  match op with
  | .call c => exec (callFunc bodies n) n c s
  | .cycles cycles => doCyclesSlow (callFunc bodies n) n cpuThread cycles s

end LibretroUae.Events
