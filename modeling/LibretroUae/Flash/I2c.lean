import LibretroUae.Lib.Image
import Mathlib.Tactic.IntervalCases

/-!
# LibretroUae.Flash.I2c

**The I2C EEPROM.** `eeprom_i2c_set` sees one line change at a time. A fall of the data line
while the clock is high is a START and a rise is a STOP; at every rise of the clock a bit goes
to or comes from the device.

The interface keeps three things apart: the state of the bus, that of the protocol and the
address counter. The one that `eeprom_new` makes has no functions for reads and writes, so it
works on its memory.
-/

namespace LibretroUae.Flash

open Lib Lib.Image

-- the numerals of bits
scoped instance neZero_eight : NeZero 8 := ⟨by decide⟩

/-- `bitbang_i2c_state`, with the number of the bit. -/
inductive BitbangState
  | stopped
  | sendingBit (bit : Fin 8)
  | waitingForAck
  | receivingBit (bit : Fin 8)
  | sendingAck
  | sentNack
  deriving DecidableEq

/-- `eeprom_state`. -/
inductive EepromState
  | deviceaddr
  | wordaddr
  | data
  deriving DecidableEq

def nvramPageSize : Nat := 16

/-- `struct bitbang_i2c_interface`. -/
structure BitbangI2c where
  state : BitbangState
  lastData : Bool
  lastClock : Bool
  deviceOut : Bool
  buffer : Byte
  currentAddr : Int
  deviceAddress : Byte
  deviceAddressMask : Byte
  estate : EepromState
  eepromAddr : Nat
  size : Nat
  writeOffset : Option Nat
  addressbitmask : Nat
  memory : Image
  zf : Option Image

namespace BitbangI2c

/-- `nvram_write`. -/
def nvramWrite (i : BitbangI2c) (offset len : Nat) : BitbangI2c :=
  { i with zf := i.zf.map fun f => f.blit offset (i.memory.slice offset len) }

/-- The flush of `bitbang_i2c_enter_stop`. -/
def flush (i : BitbangI2c) : BitbangI2c :=
  match i.writeOffset with
  | none => i
  | some w =>
    let len := min (i.size - w) 16
    let i := if len > 0 then i.nvramWrite w len else i
    if len < 16 then i.nvramWrite 0 (16 - len) else i

/-- `bitbang_i2c_enter_stop`. -/
def enterStop (i : BitbangI2c) : BitbangI2c :=
  { i.flush with writeOffset := none, currentAddr := -1, state := .stopped, estate := .deviceaddr }

/-- `bitbang_i2c_ret`: the level of the data pin, and that of the line. -/
def ret (i : BitbangI2c) (level : Bool) : Bool × BitbangI2c :=
  (level && i.lastData, { i with deviceOut := level })

/-- `bitbang_i2c_nop`. -/
def nop (i : BitbangI2c) : Bool × BitbangI2c := i.ret i.deviceOut

/-- The bus state after the one of a bit. -/
def nextState : BitbangState → BitbangState
  | .sendingBit n => if n = 0 then .waitingForAck else .sendingBit (n - 1)
  | .receivingBit n => if n = 0 then .sendingAck else .receivingBit (n - 1)
  | s => s

/-- `(eeprom_addr & ~15) | ((eeprom_addr + 1) & 15)`. -/
def nextInPage (a : Nat) : Nat := a / nvramPageSize * nvramPageSize + (a + 1) % nvramPageSize

/-- A byte that was sent, by the state of the protocol. -/
def received (i : BitbangI2c) : BitbangI2c :=
  match i.estate with
  | .deviceaddr =>
    let i := { i with currentAddr := i.buffer.toNat }
    if i.buffer.toNat % 2 = 1 then { i with estate := .data }
    else { i with
      estate := .wordaddr, eepromAddr := (i.buffer.toNat / 2 &&& i.addressbitmask) * 2 ^ 8 }
  | .wordaddr => { i with
      estate := .data
      eepromAddr := (i.eepromAddr &&& i.addressbitmask * 2 ^ 8) ||| i.buffer.toNat }
  | .data =>
    if i.currentAddr % 2 = 0 then
      { i with
        writeOffset := some (i.writeOffset.getD i.eepromAddr)
        memory := Function.update i.memory i.eepromAddr i.buffer
        eepromAddr := nextInPage i.eepromAddr }
    else i

/-- The device address is not the one of the device. -/
def refuses (i : BitbangI2c) : Prop :=
  i.estate = .deviceaddr ∧ i.buffer &&& i.deviceAddressMask ≠ i.deviceAddress

instance (i : BitbangI2c) : Decidable i.refuses := inferInstanceAs (Decidable (_ ∧ _))

/-- The acknowledge of a byte that was sent. -/
def acknowledge (i : BitbangI2c) : Bool × BitbangI2c :=
  if i.refuses then { i with currentAddr := i.buffer.toNat, state := .stopped }.ret false
  else
    let i := i.received
    if i.currentAddr % 2 = 1 then { i with state := .receivingBit 7 }.ret false
    else { i with state := .sendingBit 7 }.ret false

/-- The next byte that is read. -/
def fetch (i : BitbangI2c) : BitbangI2c :=
  { i with buffer := i.memory i.eepromAddr, eepromAddr := (i.eepromAddr + 1) &&& (i.size - 1) }

/-- A bit shifted into a byte. -/
def push (v : Byte) (b : Bool) : Byte := (v <<< 1) ||| (BitVec.ofBool b).setWidth 8

/-- A rise of the clock. -/
def clockRise (i : BitbangI2c) : Bool × BitbangI2c :=
  match i.state with
  | .stopped | .sentNack => i.ret true
  | .sendingBit n =>
    { i with
      buffer := push i.buffer i.lastData
      state := nextState (.sendingBit n) }.ret true
  | .waitingForAck => i.acknowledge
  | .receivingBit n =>
    let i := if n = 7 then i.fetch else i
    { i with buffer := i.buffer <<< 1, state := nextState (.receivingBit n) }.ret i.buffer.msb
  | .sendingAck => { i with state := if i.lastData then .sentNack else .receivingBit 7 }.ret true

end BitbangI2c

open BitbangI2c

inductive Line
  | sda
  | scl
  deriving DecidableEq

/-- A call of `eeprom_i2c_set`; a negative level only asks for that of the line. -/
structure Change where
  line : Line
  level : Option Bool
  deriving DecidableEq

/-- The level of the data line and the interface afterwards. -/
def eepromI2cSet (i : BitbangI2c) (c : Change) : Bool × BitbangI2c :=
  match c.line with
  | .sda =>
    let level := c.level.getD i.lastData
    if level = i.lastData then i.nop
    else
      let i := { i with lastData := level }
      if !i.lastClock then i.nop
      else if !level then { i with state := .sendingBit 7, currentAddr := -1 }.ret true
      else i.enterStop.ret true
  | .scl =>
    let level := c.level.getD i.lastClock
    if i.lastClock = level then i.nop
    else
      let i := { i with lastClock := level }
      if !level then i.ret true
      else i.clockRise

/-- `eeprom_reset`. -/
def eepromReset (i : BitbangI2c) : BitbangI2c :=
  { i with
    lastData := true, lastClock := true, deviceOut := true, eepromAddr := 0, writeOffset := none
    estate := .deviceaddr }

def eepromNew (memory : Image) (size : Nat) (zf : Option Image) : BitbangI2c :=
  eepromReset {
    state := .stopped, lastData := false, lastClock := false, deviceOut := false, buffer := 0
    currentAddr := 0, deviceAddress := 0xa0, deviceAddressMask := 0xf0, estate := .deviceaddr
    eepromAddr := 0, size, writeOffset := none, addressbitmask := size / 256 - 1, memory, zf }

/-- The interface after some calls. -/
def changes (i : BitbangI2c) (cs : List Change) : BitbangI2c :=
  cs.foldl (fun i c => (eepromI2cSet i c).2) i

theorem changes_append (i : BitbangI2c) (cs cs' : List Change) :
    changes i (cs ++ cs') = changes (changes i cs) cs' := by
  simp [changes, List.foldl_append]

/-! ### Bits on the lines -/

/-- A change while the clock is low. -/
def Change.KeepsLow (c : Change) : Prop := c.line = .sda ∨ c.level ≠ some true

/-- The clock goes low, the data line settles at the bit, and the clock goes high. The level
of a line may be asked for at any time. -/
inductive Clocked (b : Bool) : List Change → Prop
  | mk {low high : List Change} : (∀ c ∈ low, c.KeepsLow) → (∀ c ∈ high, c.level = none) →
      Clocked b (⟨.scl, some false⟩ :: low ++ ⟨.sda, some b⟩ :: ⟨.scl, some true⟩ :: high)

inductive ClockedBits : List Bool → List Change → Prop
  | nil : ClockedBits [] []
  | cons {b : Bool} {bs : List Bool} {c cs : List Change} :
      Clocked b c → ClockedBits bs cs → ClockedBits (b :: bs) (c ++ cs)

/-- The interface after a bit is clocked. -/
def rise (i : BitbangI2c) (b : Bool) : BitbangI2c :=
  ({ i with lastData := b, lastClock := true } : BitbangI2c).clockRise.2

/-- A rise of the clock sets the data pin. -/
theorem clockRise_deviceOut (i : BitbangI2c) (o : Bool) :
    ({ i with deviceOut := o } : BitbangI2c).clockRise.2 = i.clockRise.2 := by
  obtain ⟨state, _, _, _, buffer, _, _, _, estate, _, _, _, _, _, _⟩ := i
  cases state with
  | receivingBit n =>
    simp only [clockRise]
    split_ifs <;> rfl
  | waitingForAck =>
    simp only [clockRise, acknowledge, refuses, received]
    cases estate <;> simp only <;> split_ifs <;> rfl
  | _ => rfl

theorem set_keepsLow {i : BitbangI2c} {c : Change} (h : i.lastClock = false) (hc : c.KeepsLow) :
    ∃ d o, (eepromI2cSet i c).2 = { i with lastData := d, deviceOut := o } := by
  obtain ⟨line, level⟩ := c
  cases line with
  | sda =>
    simp only [eepromI2cSet, nop, ret, h, Bool.not_false, if_true]
    split_ifs with h1
    · exact ⟨i.lastData, i.deviceOut, by cases i; simp_all⟩
    · exact ⟨level.getD i.lastData, i.deviceOut, by cases i; simp_all⟩
  | scl =>
    have hlevel : level.getD i.lastClock = i.lastClock := by
      rcases hc with hc | hc
      · cases hc
      · match level with
        | none => rfl
        | some false => exact h.symm
        | some true => exact absurd rfl hc
    simp only [eepromI2cSet, hlevel, if_true, nop, ret]
    exact ⟨_, _, rfl⟩

theorem changes_keepsLow {low : List Change} : ∀ {i : BitbangI2c}, i.lastClock = false →
    (∀ c ∈ low, c.KeepsLow) → ∃ d o, changes i low = { i with lastData := d, deviceOut := o } := by
  induction low with
  | nil => exact fun {i} _ _ => ⟨i.lastData, i.deviceOut, rfl⟩
  | cons c low ih =>
    intro i h hlow
    obtain ⟨d, o, hc⟩ := set_keepsLow h (hlow c (by simp))
    obtain ⟨d', o', hrest⟩ := ih (i := { i with lastData := d, deviceOut := o }) h
      fun c hc => hlow c (by simp [hc])
    refine ⟨d', o', ?_⟩
    rw [changes, List.foldl_cons, hc]
    exact hrest

theorem changes_asks {high : List Change} (i : BitbangI2c) (h : ∀ c ∈ high, c.level = none) :
    changes i high = i := by
  induction high with
  | nil => rfl
  | cons c high ih =>
    obtain ⟨line, level⟩ := c
    obtain rfl : level = none := h ⟨line, level⟩ (by simp)
    have hc : (eepromI2cSet i ⟨line, none⟩).2 = i := by
      cases line <;> simp [eepromI2cSet, nop, ret]
    rw [changes, List.foldl_cons, hc]
    exact ih fun c hc => h c (by simp [hc])

theorem changes_clocked {b : Bool} {c : List Change} (hc : Clocked b c) (i : BitbangI2c) :
    changes i c = rise i b := by
  cases hc with
  | @mk low high hlow hhigh =>
    obtain ⟨o, hfirst⟩ : ∃ o, (eepromI2cSet i ⟨.scl, some false⟩).2 =
        { i with lastClock := false, deviceOut := o } := by
      by_cases h : i.lastClock = false
      · refine ⟨i.deviceOut, ?_⟩
        obtain ⟨_, _, _⟩ := i
        simp_all [eepromI2cSet, nop, ret]
      · exact ⟨true, by simp [eepromI2cSet, ret, h]⟩
    obtain ⟨d, o', hlows⟩ :=
      changes_keepsLow (i := { i with lastClock := false, deviceOut := o }) rfl hlow
    obtain ⟨o'', hdata⟩ : ∃ o'', (eepromI2cSet
        { i with lastData := d, lastClock := false, deviceOut := o' } ⟨.sda, some b⟩).2 =
        { i with lastData := b, lastClock := false, deviceOut := o'' } := by
      simp only [eepromI2cSet, Option.getD_some, nop, ret, Bool.not_false, if_true]
      split_ifs with h
      · exact ⟨o', by rw [h]⟩
      · exact ⟨o', rfl⟩
    have hrise : (eepromI2cSet { i with lastData := b, lastClock := false, deviceOut := o'' }
        ⟨.scl, some true⟩).2 = rise i b := by
      simp only [eepromI2cSet, Option.getD_some]
      exact clockRise_deviceOut { i with lastData := b, lastClock := true } o''
    rw [List.cons_append, changes, List.foldl_cons, hfirst, ← changes, changes_append, hlows, changes,
      List.foldl_cons, List.foldl_cons, hdata, hrise]
    exact changes_asks _ hhigh

/-- Bits on the lines are clocked one by one. -/
theorem changes_clockedBits {bits : List Bool} {cs : List Change} (h : ClockedBits bits cs) :
    ∀ i : BitbangI2c, changes i cs = bits.foldl rise i := by
  induction h with
  | nil => exact fun _ => rfl
  | cons hbit _ ih =>
    intro i
    rw [changes_append, changes_clocked hbit, List.foldl_cons, ih]

/-- Bits with no more changes than needed. -/
def bitCalls (bits : List Bool) : List Change :=
  bits.flatMap fun b => [⟨.scl, some false⟩, ⟨.sda, some b⟩, ⟨.scl, some true⟩]

theorem clockedBits_bitCalls (bits : List Bool) : ClockedBits bits (bitCalls bits) := by
  induction bits with
  | nil => exact .nil
  | cons b bs ih => exact .cons (@Clocked.mk b [] [] (by simp) (by simp)) ih

/-- A byte, most significant bit first. -/
def byteBits (b : Byte) : List Bool := (List.range 8).map b.getMsbD

/-- The interface at the acknowledge of a byte that was sent. -/
def sentByte (i : BitbangI2c) (b : Byte) (d : Bool) : BitbangI2c :=
  { i with
    state := .waitingForAck, buffer := b, lastData := d, lastClock := true, deviceOut := true }

theorem getLsbD_push (v : Byte) (b : Bool) {k : Nat} (hk : k < 8) :
    (push v b).getLsbD k = if k = 0 then b else v.getLsbD (k - 1) := by
  rw [push, BitVec.getLsbD_or, BitVec.getLsbD_shiftLeft, BitVec.getLsbD_setWidth]
  cases k with
  | zero => simp
  | succ k => simp [hk]

/-- The bits of a byte drive out what was in the buffer. -/
theorem foldl_push (v b : Byte) : (byteBits b).foldl push v = b := by
  apply BitVec.eq_of_getLsbD_eq
  intro k hk
  simp only [byteBits, List.range, List.range.loop, List.map_cons, List.map_nil, List.foldl_cons,
    List.foldl_nil]
  rw [getLsbD_push _ _ hk]
  interval_cases k <;>
    simp only [getLsbD_push, BitVec.getMsbD_eq_getLsbD, Nat.reduceLT, Nat.reduceSub,
      Nat.reduceEqDiff, reduceIte, decide_true, Bool.true_and]

theorem foldl_byteBits {i : BitbangI2c} (h : i.state = .sendingBit 7) (b : Byte) (d : Bool) :
    (byteBits b ++ [d]).foldl rise i = (sentByte i b d).acknowledge.2 := by
  have hbuffer : (sentByte i ((byteBits b).foldl push i.buffer) d).acknowledge.2 =
      (sentByte i b d).acknowledge.2 := by rw [foldl_push]
  rw [← hbuffer]
  simp only [byteBits, List.range, List.range.loop, List.map_cons, List.map_nil, List.cons_append,
    List.nil_append, List.foldl_cons, List.foldl_nil, rise, clockRise, h, ret, nextState]
  rfl

end LibretroUae.Flash
