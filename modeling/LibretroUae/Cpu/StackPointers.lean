import Mathlib.Tactic.Common

/-!
# LibretroUae.Cpu.StackPointers

**The three stack pointers.** Address register 7 is the stack pointer of the mode that the CPU is
in, the user's, the interrupts' or the master's; the other two are kept in registers of their own
and are exchanged with it when the mode changes. A program sees three registers, of which the mode
chooses one.

The modes change in `MakeFromSR_x` and when an exception is taken, and the pointers are written to
by `MOVEC` and `MOVE USP` besides. The 68060 has a master bit but no pointer for it.
-/

namespace LibretroUae.Cpu

/-- What decides how the status register is taken. -/
structure CpuPrefs where
  cpuModel : Nat
  cachesize : Nat
  m68kAccurateIpl : Bool
  mmuModel : Nat

/-- Bits of `spcflags`. -/
structure SpcFlags where
  int : Bool
  doint : Bool
  endCompile : Bool
  trace : Bool
  dotrace : Bool

/-- The registers of `regs` that the status register is about. -/
structure SrRegs where
  /-- `m68k_areg (regs, 7)`. -/
  a7 : UInt32
  usp : UInt32
  isp : UInt32
  msp : UInt32
  sr : UInt16
  x : Bool
  n : Bool
  z : Bool
  v : Bool
  c : Bool
  t1 : Bool
  t0 : Bool
  s : Bool
  m : Bool
  intmask : Nat
  /-- `ipl[0]`. -/
  ipl : Nat
  iplPin : Nat
  stopped : Bool
  spcflags : SpcFlags
  /-- What `mmu_set_super` was told last. -/
  mmuSuper : Bool

namespace SrRegs

/-- `(regs.sr >> k) & 1`. -/
def srBit (r : SrRegs) (k : Nat) : Bool := r.sr.toNat.testBit k

/-- `(regs.sr >> 8) & 7`. -/
def srMask (r : SrRegs) : Nat := r.sr.toNat / 256 % 8

/-- `MakeSR`. -/
def makeSR (r : SrRegs) : SrRegs :=
  let bit (b : Bool) (k : Nat) : UInt16 := if b then 1 <<< UInt16.ofNat k else 0
  { r with
    sr := bit r.t1 15 ||| bit r.t0 14 ||| bit r.s 13 ||| bit r.m 12 |||
      (UInt16.ofNat r.intmask <<< 8) ||| bit r.x 4 ||| bit r.n 3 ||| bit r.z 2 ||| bit r.v 1 |||
      bit r.c 0 }

/-- The interrupt mask in `MakeFromSR_x`, which may let in an interrupt that waits. -/
def setIntmask (prefs : CpuPrefs) (t0trace : Int) (r : SrRegs) (newimask : Nat) : SrRegs :=
  if r.intmask = newimask then r
  else
    let r :=
      if prefs.m68kAccurateIpl then
        -- STOP lets the interrupt in one round later.
        if t0trace < 0 ∧ r.ipl ≤ r.intmask ∧ r.ipl > newimask ∧ r.ipl < 7 then
          { r with ipl := 0 }
        else r
      else if r.iplPin ≤ r.intmask ∧ r.iplPin > newimask then
        if prefs.cachesize = 0 then { r with spcflags := { r.spcflags with int := true } }
        else { r with spcflags := { r.spcflags with doint := true } }
      else r
    { r with intmask := newimask }

/-- The stack pointers in `MakeFromSR_x`, the mode having been `olds` and `oldm`. -/
def exchange (prefs : CpuPrefs) (olds oldm : Bool) (r : SrRegs) : SrRegs :=
  if prefs.cpuModel ≥ 68020 then
    let r := if prefs.cpuModel ≥ 68060 then { r with msp := r.isp } else r
    let r :=
      if olds ≠ r.s then
        if olds then
          let r := if oldm then { r with msp := r.a7 } else { r with isp := r.a7 }
          { r with a7 := r.usp }
        else { r with usp := r.a7, a7 := if r.m then r.msp else r.isp }
      else if olds ∧ oldm ≠ r.m then
        if oldm then { r with msp := r.a7, a7 := r.isp } else { r with isp := r.a7, a7 := r.msp }
      else r
    if prefs.cpuModel ≥ 68060 then { r with t0 := false } else r
  else
    let r := { r with t0 := false, m := false }
    if olds ≠ r.s then
      if olds then { r with isp := r.a7, a7 := r.usp } else { r with usp := r.a7, a7 := r.isp }
    else r

/-- The end of `MakeFromSR_x`: the MMU, the compiler and the trace bits. -/
def watchTrace (prefs : CpuPrefs) (t0trace : Int) (oldt0 oldt1 oldm : Bool) (r : SrRegs) :
    SrRegs :=
  -- `activate_trace`: the bits were set before, even if they are not any more.
  let activate := !r.stopped &&
    ((oldt0 && t0trace ≠ 0 && 68020 ≤ prefs.cpuModel) || oldt1)
  let ended := prefs.cachesize ≠ 0 && (oldt0 ≠ r.t0 || oldt1 ≠ r.t1 || oldm ≠ r.m)
  { r with
    mmuSuper := if prefs.mmuModel ≠ 0 then r.s else r.mmuSuper
    spcflags := { r.spcflags with
      endCompile := r.spcflags.endCompile || ended
      trace := if activate then false else r.t1 || r.t0
      dotrace := r.spcflags.dotrace || activate } }

/-- The condition codes of `MakeFromSR_x`. -/
def setFlags (r : SrRegs) : SrRegs :=
  { r with x := r.srBit 4, n := r.srBit 3, z := r.srBit 2, v := r.srBit 1, c := r.srBit 0 }

/-- The trace bits and the mode. -/
def setModes (r : SrRegs) : SrRegs :=
  { r with t1 := r.srBit 15, t0 := r.srBit 14, s := r.srBit 13, m := r.srBit 12 }

/-- `MakeFromSR_x`. -/
def makeFromSR (prefs : CpuPrefs) (t0trace : Int) (r : SrRegs) : SrRegs :=
  if r.t1 = r.srBit 15 ∧ r.t0 = r.srBit 14 ∧ r.s = r.srBit 13 ∧ r.m = r.srBit 12 ∧
      r.intmask = r.srMask then r.setFlags
  else
    ((r.setFlags.setModes.setIntmask prefs t0trace r.srMask).exchange prefs r.s r.m).watchTrace
      prefs t0trace r.t0 r.t1 r.m

/-- How an exception begins in `Exception_normal`. -/
def enterException (prefs : CpuPrefs) (r : SrRegs) : SrRegs :=
  let r := r.makeSR
  if r.s then r
  else
    { r with
      usp := r.a7
      a7 := if prefs.cpuModel ≥ 68020 ∧ prefs.cpuModel < 68060 then
          if r.m then r.msp else r.isp
        else r.isp
      s := true
      mmuSuper := if prefs.mmuModel ≠ 0 then true else r.mmuSuper }

/-- The frame of an interrupt in the master's mode, and the throwaway frame behind it. -/
def throwaway (prefs : CpuPrefs) (r : SrRegs) : SrRegs :=
  let r := { r with a7 := r.a7 - 2 }
  if prefs.cpuModel < 68060 then
    let r := { r with a7 := r.a7 - 4 - 2, sr := r.sr ||| ((1 : UInt16) <<< 13) }
    { r with msp := r.a7, m := false, a7 := r.isp - 2 }
  else r

/-- The stack pointer of `Exception_normal`, up to what comes after all frames alike. -/
def takeException (prefs : CpuPrefs) (interrupt : Bool) (r : SrRegs) : SrRegs :=
  let r := r.enterException prefs
  if r.m ∧ interrupt ∧ prefs.cpuModel > 68000 then r.throwaway prefs else r

/-- `movec_illg`. -/
def movecIllg (prefs : CpuPrefs) (regno : Nat) : Bool :=
  let regno2 := regno % 0x800
  if prefs.cpuModel = 68060 then
    if regno ≤ 8 then false
    else if regno = 0x800 ∨ regno = 0x801 ∨ regno = 0x806 ∨ regno = 0x807 ∨ regno = 0x808 then
      false
    else true
  else if prefs.cpuModel = 68010 then decide (¬ regno2 < 2)
  else if prefs.cpuModel = 68020 then
    if regno = 3 then true else decide (¬ (regno2 < 4 ∨ regno = 0x804))
  else if prefs.cpuModel = 68030 then
    if regno2 ≤ 2 then false else decide (¬ (regno = 0x803 ∨ regno = 0x804))
  else if prefs.cpuModel = 68040 then
    if regno = 0x802 then true else decide (¬ regno2 < 8)
  else true

/-- The stack pointers in `m68k_move2c`. -/
def moveToControl (prefs : CpuPrefs) (regno : Nat) (val : UInt32) (r : SrRegs) : SrRegs :=
  if movecIllg prefs regno ∨ !r.s then r.takeException prefs false
  else if regno = 0x800 then { r with usp := val }
  else if regno = 0x803 then { r with msp := val, a7 := if r.m then val else r.a7 }
  else if regno = 0x804 then { r with isp := val, a7 := if r.m then r.a7 else val }
  else r

/-- The stack pointers in `m68k_movec2`: `none` is an exception. -/
def moveFromControl (prefs : CpuPrefs) (regno : Nat) (r : SrRegs) : Option UInt32 :=
  if movecIllg prefs regno ∨ !r.s then none
  else if regno = 0x800 then some r.usp
  else if regno = 0x803 then some (if r.m then r.a7 else r.msp)
  else if regno = 0x804 then some (if r.m then r.isp else r.a7)
  else none

/-! ### Programs -/

/-- What changes the stack pointers: any instruction may write to address register 7 or to the
status register, and only a supervisor's to the others. -/
inductive Op
  | areg (val : UInt32)
  | sr (t0trace : Int) (val : UInt16)
  | moveUsp (val : UInt32)
  | movec (regno : Nat) (val : UInt32)
  | exception (interrupt : Bool)

def step (prefs : CpuPrefs) (r : SrRegs) : Op → SrRegs
  | .areg val => { r with a7 := val }
  | .sr t0trace val => ({ r with sr := val }).makeFromSR prefs t0trace
  | .moveUsp val => if r.s then { r with usp := val } else r.takeException prefs false
  | .movec regno val => r.moveToControl prefs regno val
  | .exception interrupt => r.takeException prefs interrupt

def run (prefs : CpuPrefs) (r : SrRegs) (ops : List Op) : SrRegs := ops.foldl (step prefs) r

end SrRegs

/-! ### Three registers -/

/-- The registers as a program sees them, with the mode. -/
structure Stacks where
  usp : UInt32
  isp : UInt32
  msp : UInt32
  s : Bool
  m : Bool

namespace Stacks

/-- The pointer of the mode. -/
def active (t : Stacks) : UInt32 := if t.s then if t.m then t.msp else t.isp else t.usp

def setActive (t : Stacks) (val : UInt32) : Stacks :=
  if t.s then if t.m then { t with msp := val } else { t with isp := val }
  else { t with usp := val }

/-- An exception is taken by the supervisor, and an interrupt by the interrupts' stack, with a
frame on the master's that it leaves. -/
def takeException (interrupt : Bool) (t : Stacks) : Stacks :=
  if t.m ∧ interrupt then
    { t with s := true, m := false, msp := t.msp - 2 - 4 - 2, isp := t.isp - 2 }
  else { t with s := true }

def step (prefs : CpuPrefs) (t : Stacks) : SrRegs.Op → Stacks
  | .areg val => t.setActive val
  | .sr _ val =>
    { t with
      s := val.toNat.testBit 13
      m := if prefs.cpuModel ≥ 68020 then val.toNat.testBit 12 else false }
  | .moveUsp val => if t.s then { t with usp := val } else t.takeException false
  | .movec regno val =>
    if SrRegs.movecIllg prefs regno ∨ !t.s then t.takeException false
    else if regno = 0x800 then { t with usp := val }
    else if regno = 0x803 then { t with msp := val }
    else if regno = 0x804 then { t with isp := val }
    else t
  | .exception interrupt => t.takeException interrupt

def run (prefs : CpuPrefs) (t : Stacks) (ops : List SrRegs.Op) : Stacks :=
  ops.foldl (step prefs) t

end Stacks

namespace SrRegs

/-- What the registers stand for: one of the three is in address register 7. -/
def pointers (r : SrRegs) : Stacks where
  usp := if r.s then r.usp else r.a7
  isp := if r.s ∧ !r.m then r.a7 else r.isp
  msp := if r.s ∧ r.m then r.a7 else r.msp
  s := r.s
  m := r.m

/-- Only the 68020 and its successors have a master bit. -/
def Valid (prefs : CpuPrefs) (r : SrRegs) : Prop := prefs.cpuModel < 68020 → r.m = false

variable {prefs : CpuPrefs} {r : SrRegs}

theorem active_pointers (r : SrRegs) : r.pointers.active = r.a7 := by
  cases hs : r.s <;> cases hm : r.m <;> simp [pointers, Stacks.active, hs, hm]

theorem pointers_areg (val : UInt32) :
    ({ r with a7 := val }).pointers = r.pointers.setActive val := by
  cases hs : r.s <;> cases hm : r.m <;> simp [pointers, Stacks.setActive, hs, hm]

theorem setIntmask_frame (t0trace : Int) (newimask : Nat) :
    ∃ ipl spcflags intmask, r.setIntmask prefs t0trace newimask =
      { r with ipl := ipl, spcflags := spcflags, intmask := intmask } := by
  unfold setIntmask
  split_ifs <;> exact ⟨_, _, _, rfl⟩

theorem pointers_exchange (hmodel : prefs.cpuModel < 68060) (olds oldm : Bool)
    (hold : prefs.cpuModel < 68020 → oldm = false) :
    (r.exchange prefs olds oldm).pointers =
      { ({ r with s := olds, m := oldm }).pointers with
        s := r.s, m := if prefs.cpuModel ≥ 68020 then r.m else false } := by
  have h060 : ¬ prefs.cpuModel ≥ 68060 := Nat.not_le.mpr hmodel
  by_cases h020 : prefs.cpuModel ≥ 68020
  · simp only [exchange, h020, h060, if_true, if_false]
    cases hs : r.s <;> cases hm : r.m <;> cases olds <;> cases oldm <;> simp [pointers, hs, hm]
  · obtain rfl := hold (Nat.lt_of_not_le h020)
    simp only [exchange, h020, if_false]
    cases r.s <;> cases olds <;> simp [pointers]

theorem pointers_watchTrace (t0trace : Int) (oldt0 oldt1 oldm : Bool) :
    (r.watchTrace prefs t0trace oldt0 oldt1 oldm).pointers = r.pointers := rfl

/-- The status register changes the mode and none of the three. -/
theorem pointers_makeFromSR (hmodel : prefs.cpuModel < 68060) (hvalid : r.Valid prefs)
    (t0trace : Int) :
    (r.makeFromSR prefs t0trace).pointers =
      { r.pointers with
        s := r.srBit 13, m := if prefs.cpuModel ≥ 68020 then r.srBit 12 else false } := by
  rw [makeFromSR]
  split_ifs with hsame h020 h020
  · rw [← hsame.2.2.1, ← hsame.2.2.2.1]
    rfl
  · rw [← hsame.2.2.1, ← hvalid (Nat.lt_of_not_le h020)]
    rfl
  · obtain ⟨ipl, spcflags, intmask, hframe⟩ :=
      @setIntmask_frame prefs r.setFlags.setModes t0trace r.srMask
    rw [pointers_watchTrace, hframe, pointers_exchange hmodel _ _ hvalid, if_pos h020]
    rfl
  · obtain ⟨ipl, spcflags, intmask, hframe⟩ :=
      @setIntmask_frame prefs r.setFlags.setModes t0trace r.srMask
    rw [pointers_watchTrace, hframe, pointers_exchange hmodel _ _ hvalid, if_neg h020]
    rfl

/-- The pointer that an exception begins with. -/
theorem supervisor_pointer (hmodel : prefs.cpuModel < 68060) (hvalid : r.Valid prefs) :
    (if prefs.cpuModel ≥ 68020 ∧ prefs.cpuModel < 68060 then if r.m then r.msp else r.isp
      else r.isp) = if r.m then r.msp else r.isp := by
  by_cases h020 : prefs.cpuModel ≥ 68020
  · rw [if_pos ⟨h020, hmodel⟩]
  · rw [if_neg (fun h => h020 h.1), hvalid (Nat.lt_of_not_le h020)]
    rfl

theorem pointers_enterException (hmodel : prefs.cpuModel < 68060) (hvalid : r.Valid prefs) :
    (r.enterException prefs).pointers = { r.pointers with s := true } ∧
      (r.enterException prefs).m = r.m := by
  cases hs : r.s with
  | true =>
    have henter : r.enterException prefs = r.makeSR := by
      rw [enterException]
      exact if_pos hs
    rw [henter]
    exact ⟨congrArg (fun s => { r.pointers with s := s }) hs, rfl⟩
  | false =>
    have henter : r.enterException prefs = { r.makeSR with
        usp := r.a7
        a7 := if r.m then r.msp else r.isp
        s := true
        mmuSuper := if prefs.mmuModel ≠ 0 then true else r.mmuSuper } := by
      rw [← supervisor_pointer hmodel hvalid, enterException]
      exact if_neg (by simp [makeSR, hs])
    rw [henter]
    refine ⟨?_, rfl⟩
    cases hm : r.m <;> simp [pointers, makeSR, hs, hm]

/-- Nor does an exception, but for the frames that an interrupt writes. -/
theorem pointers_takeException (hmodel : prefs.cpuModel < 68060) (hvalid : r.Valid prefs)
    (interrupt : Bool) :
    (r.takeException prefs interrupt).pointers = r.pointers.takeException interrupt := by
  obtain ⟨hstacks, hm⟩ := pointers_enterException hmodel hvalid
  have hmaster : r.pointers.m = r.m := rfl
  rw [takeException, Stacks.takeException, hmaster]
  generalize r.enterException prefs = q at hstacks hm
  rw [hm]
  by_cases hthrow : r.m ∧ interrupt
  · have hmodel' : prefs.cpuModel > 68000 := by
      by_contra hle
      exact absurd (hthrow.1.symm.trans (hvalid (by omega))) nofun
    rw [if_pos hthrow, if_pos ⟨hthrow.1, hthrow.2, hmodel'⟩, throwaway, if_pos hmodel]
    have hqs : q.s = true := congrArg Stacks.s hstacks
    have hqm : q.m = true := hm.trans hthrow.1
    have husp : q.pointers.usp = r.pointers.usp := by rw [hstacks]
    have hisp : q.pointers.isp = r.pointers.isp := by rw [hstacks]
    have hmsp : q.pointers.msp = r.pointers.msp := by rw [hstacks]
    rw [← husp, ← hisp, ← hmsp]
    simp [pointers, hqs, hqm]
  · rw [if_neg hthrow, if_neg (fun h => hthrow ⟨h.1, h.2.1⟩), hstacks]
    rfl

theorem pointers_moveToControl (hmodel : prefs.cpuModel < 68060) (hvalid : r.Valid prefs)
    (regno : Nat) (val : UInt32) :
    (r.moveToControl prefs regno val).pointers = r.pointers.step prefs (.movec regno val) := by
  have hmode : r.pointers.s = r.s := rfl
  rw [moveToControl, Stacks.step, hmode]
  by_cases hillegal : movecIllg prefs regno ∨ !r.s
  · rw [if_pos hillegal, if_pos hillegal]
    exact pointers_takeException hmodel hvalid false
  · have hs : r.s = true := by simpa using (not_or.mp hillegal).2
    rw [if_neg hillegal, if_neg hillegal]
    cases hm : r.m <;> split_ifs <;> simp_all [pointers]

theorem pointers_step (hmodel : prefs.cpuModel < 68060) (hvalid : r.Valid prefs) (op : Op) :
    (r.step prefs op).pointers = r.pointers.step prefs op := by
  cases op with
  | areg val => exact pointers_areg val
  | sr t0trace val => exact pointers_makeFromSR (r := { r with sr := val }) hmodel hvalid t0trace
  | moveUsp val =>
    have hmode : r.pointers.s = r.s := rfl
    rw [step, Stacks.step, hmode]
    split_ifs with hs
    · cases hm : r.m <;> simp [pointers, hs, hm]
    · exact pointers_takeException hmodel hvalid false
  | movec regno val => exact pointers_moveToControl hmodel hvalid regno val
  | exception interrupt => exact pointers_takeException hmodel hvalid interrupt

/-- A CPU without a master bit never sets it. -/
theorem valid_step (hmodel : prefs.cpuModel < 68060) (hvalid : r.Valid prefs) (op : Op) :
    (r.step prefs op).Valid prefs := by
  intro h020
  have hm : r.pointers.m = false := hvalid h020
  have hstep : (r.step prefs op).m = (r.pointers.step prefs op).m :=
    congrArg Stacks.m (pointers_step hmodel hvalid op)
  rw [hstep]
  cases op with
  | areg val =>
    rw [Stacks.step, Stacks.setActive]
    split_ifs <;> exact hm
  | sr t0trace val => exact if_neg (Nat.not_le.mpr h020)
  | moveUsp val =>
    rw [Stacks.step, Stacks.takeException]
    split_ifs <;> simp_all
  | movec regno val =>
    rw [Stacks.step, Stacks.takeException]
    split_ifs <;> simp_all
  | exception interrupt =>
    rw [Stacks.step, Stacks.takeException]
    split_ifs <;> simp_all

/-- Before the 68060, the registers that are exchanged are three that are not: whatever a program
does, address register 7 is the one of the mode, each of them holds what was written to it last,
and `MOVEC` reads it. -/
theorem stackPointers_refine (hmodel : prefs.cpuModel < 68060) (hvalid : r.Valid prefs)
    (ops : List Op) :
    (r.run prefs ops).pointers = r.pointers.run prefs ops ∧
    (r.run prefs ops).a7 = (r.pointers.run prefs ops).active ∧
    ∀ regno val, (r.run prefs ops).moveFromControl prefs regno = some val →
      regno = 0x800 ∧ val = (r.pointers.run prefs ops).usp ∨
      regno = 0x803 ∧ val = (r.pointers.run prefs ops).msp ∨
      regno = 0x804 ∧ val = (r.pointers.run prefs ops).isp := by
  have hrun : (r.run prefs ops).pointers = r.pointers.run prefs ops := by
    induction ops generalizing r with
    | nil => rfl
    | cons op ops ih =>
      have hrest := ih (valid_step hmodel hvalid op)
      rw [pointers_step hmodel hvalid op] at hrest
      exact hrest
  rw [← hrun]
  refine ⟨rfl, (active_pointers _).symm, fun regno val hread => ?_⟩
  generalize r.run prefs ops = q at hread
  rw [moveFromControl] at hread
  by_cases hillegal : movecIllg prefs regno ∨ !q.s
  · rw [if_pos hillegal] at hread
    cases hread
  · have hs : q.s = true := by simpa using (not_or.mp hillegal).2
    rw [if_neg hillegal] at hread
    split_ifs at hread with husp hmsp hm hisp hm <;> cases hread
    · exact .inl ⟨husp, by simp [pointers, hs]⟩
    · exact .inr (.inl ⟨hmsp, by simp [pointers, hs, hm]⟩)
    · exact .inr (.inl ⟨hmsp, by simp [pointers, hm]⟩)
    · exact .inr (.inr ⟨hisp, by simp [pointers, hm]⟩)
    · exact .inr (.inr ⟨hisp, by simp [pointers, hs, hm]⟩)

/-- The registers after a reset. -/
def reset (a7 : UInt32) : SrRegs where
  a7 := a7
  usp := 0
  isp := 0
  msp := 0
  sr := 0
  x := false
  n := false
  z := false
  v := false
  c := false
  t1 := false
  t0 := false
  s := true
  m := false
  intmask := 7
  ipl := 0
  iplPin := 0
  stopped := false
  spcflags := ⟨false, false, false, false, false⟩
  mmuSuper := true

/-- To the user's mode and back by an interrupt. -/
theorem stackPointers_refine_reset :
    ((reset 0x400).run ⟨68020, 0, false, 0⟩ [.moveUsp 0x800, .sr 0 0, .exception true]).a7 =
      0x400 :=
  (@stackPointers_refine ⟨68020, 0, false, 0⟩ (reset 0x400) (by decide) (fun _ => rfl) _).2.1.trans
    (by decide)

end SrRegs

end LibretroUae.Cpu
