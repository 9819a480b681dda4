import LibretroUae.Lib.Image
import LibretroUae.Lib.Loop
import Mathlib.Logic.Function.Basic

/-!
# LibretroUae.Flash.Rom

**Flash memory.** Writes go through the command decoder, whose state is one number: 1 to 6 while
a command is unlocked, 7 and 8 while bytes are taken, from 100 and from 200 while the chip is
busy. The `rom` may be every other byte of a memory, so what a byte of the chip is in the memory
is its address times `otherByteMult`.
-/

namespace LibretroUae.Flash

open Lib Lib.Image

/-- The `FLASHROM_` flags. -/
structure FlashromFlags where
  everyOtherByte : Bool
  everyOtherByteOdd : Bool
  parallelEeprom : Bool
  skipEveryOtherByte : Bool
  dataProtect : Bool
  deriving DecidableEq, Repr

/-- `flashrom_data`. The memory behind `rom` is an image, and `lastpagewrite` is `none` for -1. -/
structure FlashromData where
  rom : Image
  flashsize : Nat
  allocsize : Nat
  mask : BitVec 32
  state : Nat
  modified : Bool
  sectorsize : Nat
  pagesize : Nat
  devicecode : Byte
  mfgcode : Byte
  flags : FlashromFlags
  writeprot : Int
  lastpagewrite : Option Nat
  firstwriteoffset : Nat
  lastwriteoffset : Nat
  page : Nat → Byte
  mpage : Nat → Bool
  pagemodified : Bool

def flashNew (rom : Image) (flashsize allocsize : Nat) (mfgcode devcode : Byte)
    (flags : FlashromFlags) : FlashromData where
  rom := rom
  flashsize := flashsize
  allocsize := allocsize
  mask := BitVec.ofNat 32 flashsize - 1
  state := 0
  modified := false
  sectorsize := if devcode = 0x20 then 16384 else 65536
  pagesize := if mfgcode = 0xbf then 128 else 64
  devicecode := devcode
  mfgcode := mfgcode
  flags := flags
  writeprot := if flags.dataProtect then 1 else 0
  lastpagewrite := none
  firstwriteoffset := allocsize
  lastwriteoffset := 0
  page := fun _ => 0
  mpage := fun _ => false
  pagemodified := false

namespace FlashromData

def setmodified (fd : FlashromData) (offset : Nat) : FlashromData :=
  { fd with
    modified := true
    firstwriteoffset := if offset < fd.firstwriteoffset then offset else fd.firstwriteoffset
    lastwriteoffset := if offset > fd.lastwriteoffset then offset else fd.lastwriteoffset }

def otherByteMult (fd : FlashromData) : Nat :=
  if fd.flags.skipEveryOtherByte ∨ fd.flags.everyOtherByte then 2 else 1

/-- The address on the pins of the chip. -/
def pins (fd : FlashromData) (addr : BitVec 32) : BitVec 32 :=
  if fd.flags.skipEveryOtherByte ∨ fd.flags.everyOtherByte then addr >>> 1 else addr

/-- The check of an address. -/
def Selects (fd : FlashromData) (addr : BitVec 32) : Prop :=
  ¬ (fd.pins addr).toNat * fd.otherByteMult ≥ fd.allocsize

instance (fd : FlashromData) (addr : BitVec 32) : Decidable (fd.Selects addr) :=
  inferInstanceAs (Decidable (¬ _))

/-- The address in the chip. -/
def chipAddr (fd : FlashromData) (addr : BitVec 32) : Nat := (fd.pins addr &&& fd.mask).toNat

/-! ### Writing -/

/-- The page of an address in the memory: `addr & ~(fd->pagesize - 1)`. -/
def pageOf (fd : FlashromData) (a : Nat) : Nat := a - a % fd.pagesize

/-- The page buffer is turned to the page of a byte. -/
def turnPage (fd : FlashromData) (a : Nat) : FlashromData :=
  if fd.lastpagewrite ≠ some (fd.pageOf a) then
    { fd with mpage := fun _ => false, pagemodified := false, lastpagewrite := fd.pageOf a } else fd

def bufferByte (fd : FlashromData) (a : Nat) (v : Byte) : FlashromData :=
  { fd with
    page := Function.update fd.page (a % fd.pagesize) v
    mpage := Function.update fd.mpage (a % fd.pagesize) true
    pagemodified := true }

def writeflash (fd : FlashromData) (a : Nat) (v : Byte) : FlashromData :=
  if fd.flags.parallelEeprom = false then
    let fd := { fd with state := 100 }
    if fd.writeprot ≤ 0 then
      let fd := if fd.rom a ≠ v then { fd with rom := Function.update fd.rom a v, modified := true }
        else fd
      if fd.modified then fd.setmodified a else fd
    else fd
  else
    let fd := fd.turnPage a
    let fd := if fd.writeprot ≤ 0 then fd.bufferByte a v else fd
    { fd with state := 7 + 1 }

/-- A byte of the memory is set: `if (fd->rom[a] != v) { fd->rom[a] = v; setmodified(fd, a); }`. -/
def store (fd : FlashromData) (a : Nat) (v : Byte) : FlashromData :=
  if fd.rom a ≠ v then { fd with rom := Function.update fd.rom a v }.setmodified a else fd

/-- The loop of an erase. -/
def eraseBytes (fd : FlashromData) (addr n : Nat) : FlashromData :=
  loop (fun i fd => fd.store ((addr + i) * fd.otherByteMult) 0xff) n fd

/-- The first address of a sector: `addr & ~(fd->sectorsize - 1)`. -/
def sectorOf (fd : FlashromData) (addr : Nat) : Nat := addr - addr % fd.sectorsize

def eraseSector (fd : FlashromData) (addr : Nat) : FlashromData :=
  if fd.sectorOf addr < fd.allocsize then fd.eraseBytes (fd.sectorOf addr) fd.sectorsize else fd

/-- The unlock part of the decoder: the state and `det`. -/
def unlock (addr : Nat) (v : Byte) (s : Nat × Bool) : Nat × Bool :=
  let s := if addr = 0x5555 ∧ s.1 ≤ 2 ∧ v = 0xaa then (1, true) else s
  let s := if addr = 0x2aaa ∧ s.1 = 1 ∧ v = 0x55 then (2, true) else s
  -- software id exit and reset first byte
  let s := if addr = 0x5555 ∧ s.1 = 3 ∧ v = 0xaa then (1, true) else s
  -- autoselect
  if addr = 0x5555 ∧ s.1 = 2 ∧ v = 0x90 then (3, true) else s

/-- The erase part of the decoder. -/
def prepareErase (addr : Nat) (v : Byte) (s : Nat × Bool) : Nat × Bool :=
  let s := if addr = 0x5555 ∧ s.1 = 2 ∧ v = 0x80 then (4, true) else s
  let s := if addr = 0x5555 ∧ s.1 = 4 ∧ v = 0xaa then (5, true) else s
  if addr = 0x2aaa ∧ s.1 = 5 ∧ v = 0x55 then (6, true) else s

/-- `flash_write` behind the check of the address; `take` is what is done with a byte. -/
def decode (take : FlashromData → FlashromData) (fd : FlashromData) (addr : Nat) (v : Byte) :
    FlashromData × Bool :=
  if fd.state = 7 ∨ fd.state = 8 then (take fd, true)
  else if v = 0xf0 ∧ fd.state > 0 ∧ fd.state < 7 then ({ fd with state := 0 }, false)
  else
    let s := unlock addr v (fd.state, false)
    -- data protect enable
    if addr = 0x5555 ∧ s.1 = 2 ∧ v = 0xa0 then ({ fd with state := 7, writeprot := -1 }, false)
    -- data protect disable
    else if addr = 0x5555 ∧ s.1 = 6 ∧ v = 0x20 then ({ fd with state := 0, writeprot := 0 }, false)
    else
      let s := prepareErase addr v s
      if addr = 0x5555 ∧ s.1 = 6 ∧ v = 0x10 then
        ({ fd.eraseBytes 0 fd.allocsize with state := 200 }, true)
      else if s.1 = 6 ∧ v = 0x30 then ({ fd.eraseSector addr with state := 200 }, true)
      else
        let fd := { fd with state := if s.1 = fd.state ∨ s.2 = false then 0 else s.1 }
        if s.2 = false ∧ fd.flags.parallelEeprom then (take fd, true) else (fd, false)

def command (fd : FlashromData) (addr : Nat) (v : Byte) : FlashromData × Bool :=
  fd.decode (·.writeflash (addr * fd.otherByteMult) v) addr v

def flashWrite (fd : FlashromData) (addr : BitVec 32) (v : Byte) : FlashromData × Bool :=
  if fd.Selects addr then fd.command (fd.chipAddr addr) v else (fd, false)

/-! ### Reading -/

/-- A byte of the page buffer goes to the memory. -/
def commitByte (i : Nat) (fd : FlashromData) : FlashromData :=
  if fd.mpage i then
    { fd.store (fd.lastpagewrite.getD 0 + i) (fd.page i) with
      mpage := Function.update fd.mpage i false }
  else fd

/-- Write data in pagebuffer when any read is done. -/
def commitPage (fd : FlashromData) : FlashromData :=
  if fd.flags.parallelEeprom ∧ fd.pagemodified then
    loop commitByte fd.pagesize { fd with pagemodified := false }
  else fd

/-- The toggle bit while the chip is busy. -/
def toggle (fd : FlashromData) (v : Byte) : Byte := if fd.state % 2 = 1 then v ^^^ 0x40 else v

/-- `flash_read` behind the commit of the page buffer. -/
def answer (fd : FlashromData) (addr : Nat) : FlashromData × Byte :=
  if fd.state = 3 then
    let a := addr % 256
    (fd, if a = 0 then fd.mfgcode else if a = 1 then fd.devicecode else if a = 2 then 0 else 0xff)
  else if fd.state ≥ 200 then
    ({ fd with state := if fd.state + 1 ≥ 210 then 0 else fd.state + 1 }, fd.toggle 0 ||| 0x08)
  else if fd.state > 7 then
    ({ fd with state := if fd.state + 1 ≥ 110 then 0 else fd.state + 1 },
      fd.toggle ((fd.rom (addr * fd.otherByteMult) &&& 0x80) ^^^ 0x80))
  else ({ fd with state := 0 }, fd.rom (addr * fd.otherByteMult))

def flashRead (fd : FlashromData) (addr : BitVec 32) : FlashromData × Byte :=
  if fd.Selects addr then fd.commitPage.answer (fd.chipAddr addr) else (fd, 0xff)

end FlashromData

/-! ### Calls -/

/-- A call of `flash_write` or `flash_read`. -/
inductive FlashCall
  | write (addr : BitVec 32) (v : Byte)
  | read (addr : BitVec 32)
  deriving DecidableEq, Repr

namespace FlashromData

def call (fd : FlashromData) : FlashCall → FlashromData
  | .write addr v => (fd.flashWrite addr v).1
  | .read addr => (fd.flashRead addr).1

def calls (fd : FlashromData) (cs : List FlashCall) : FlashromData := cs.foldl call fd

/-- What does not change: the geometry of the chip. -/
structure SameChip (fd fd' : FlashromData) : Prop where
  allocsize : fd'.allocsize = fd.allocsize
  mask : fd'.mask = fd.mask
  sectorsize : fd'.sectorsize = fd.sectorsize
  pagesize : fd'.pagesize = fd.pagesize
  flags : fd'.flags = fd.flags

variable {fd fd' : FlashromData} {a addr n : Nat} {v : Byte}

theorem SameChip.refl (fd : FlashromData) : SameChip fd fd := ⟨rfl, rfl, rfl, rfl, rfl⟩

theorem SameChip.symm (h : SameChip fd fd') : SameChip fd' fd :=
  ⟨h.1.symm, h.2.symm, h.3.symm, h.4.symm, h.5.symm⟩

theorem SameChip.trans {fd'' : FlashromData} (h : SameChip fd fd') (h' : SameChip fd' fd'') :
    SameChip fd fd'' :=
  ⟨h'.1.trans h.1, h'.2.trans h.2, h'.3.trans h.3, h'.4.trans h.4, h'.5.trans h.5⟩

theorem SameChip.otherByteMult (h : SameChip fd fd') : fd'.otherByteMult = fd.otherByteMult := by
  rw [FlashromData.otherByteMult, h.flags, FlashromData.otherByteMult]

theorem SameChip.pins (h : SameChip fd fd') (addr : BitVec 32) : fd'.pins addr = fd.pins addr := by
  rw [FlashromData.pins, h.flags, FlashromData.pins]

theorem SameChip.selects (h : SameChip fd fd') (addr : BitVec 32) :
    fd'.Selects addr ↔ fd.Selects addr := by
  rw [Selects, h.pins, h.otherByteMult, h.allocsize, Selects]

theorem SameChip.chipAddr (h : SameChip fd fd') (addr : BitVec 32) :
    fd'.chipAddr addr = fd.chipAddr addr := by
  rw [FlashromData.chipAddr, h.pins, h.mask, FlashromData.chipAddr]

/-- Setting a byte changes that byte, and what tracks the changes. -/
theorem store_spec (fd : FlashromData) (a : Nat) (v : Byte) :
    ∃ modified first last, fd.store a v = { fd with
      rom := Function.update fd.rom a v, modified := modified, firstwriteoffset := first,
      lastwriteoffset := last } := by
  rw [store]
  split_ifs with h
  · exact ⟨_, _, _, rfl⟩
  · have hsame : Function.update fd.rom a v = fd.rom := by
      rw [← not_not.mp h, Function.update_eq_self]
    exact ⟨fd.modified, fd.firstwriteoffset, fd.lastwriteoffset, by rw [hsame]⟩

/-- A byte taken by a chip without pages. -/
theorem writeflash_plain (h : fd.flags.parallelEeprom = false) (a : Nat) (v : Byte) :
    ∃ modified first last, fd.writeflash a v = { fd with
      rom := if fd.writeprot ≤ 0 then Function.update fd.rom a v else fd.rom, state := 100,
      modified := modified, firstwriteoffset := first, lastwriteoffset := last } := by
  rw [writeflash, if_pos h]
  simp only
  by_cases hw : fd.writeprot ≤ 0
  · rw [if_pos hw, if_pos hw]
    by_cases hv : fd.rom a = v
    · have hsame : Function.update fd.rom a v = fd.rom := by rw [← hv, Function.update_eq_self]
      rw [if_neg (not_not.mpr hv), hsame]
      simp only
      split_ifs <;> exact ⟨_, _, _, rfl⟩
    · rw [if_pos hv]
      exact ⟨_, _, _, rfl⟩
  · rw [if_neg hw, if_neg hw]
    exact ⟨_, _, _, rfl⟩

/-! ### What an erase does -/

theorem eraseBytes_succ (fd : FlashromData) (addr n : Nat) : fd.eraseBytes addr (n + 1) =
    (fd.eraseBytes addr n).store ((addr + n) * (fd.eraseBytes addr n).otherByteMult) 0xff := rfl

/-- The loop of an erase, after `n` rounds. -/
structure Erased (fd : FlashromData) (addr n : Nat) (fd' : FlashromData) : Prop where
  chip : SameChip fd fd'
  rom : ∀ j, fd'.rom j = if ∃ i < n, j = (addr + i) * fd.otherByteMult then 0xff else fd.rom j
  state : fd'.state = fd.state
  writeprot : fd'.writeprot = fd.writeprot
  pagemodified : fd'.pagemodified = fd.pagemodified
  lastpagewrite : fd'.lastpagewrite = fd.lastpagewrite
  mpage : fd'.mpage = fd.mpage

theorem erased_round (h : Erased fd addr n fd') :
    Erased fd addr (n + 1) (fd'.store ((addr + n) * fd'.otherByteMult) 0xff) := by
  obtain ⟨modified, first, last, heq⟩ := store_spec fd' ((addr + n) * fd'.otherByteMult) 0xff
  rw [heq]
  refine ⟨⟨h.chip.1, h.chip.2, h.chip.3, h.chip.4, h.chip.5⟩, fun j => ?_, h.state, h.writeprot,
    h.pagemodified, h.lastpagewrite, h.mpage⟩
  simp only
  rw [Function.update_apply, h.chip.otherByteMult, h.rom j]
  by_cases hj : j = (addr + n) * fd.otherByteMult
  · rw [if_pos hj, if_pos ⟨n, Nat.lt_succ_self n, hj⟩]
  · rw [if_neg hj]
    refine if_congr ⟨fun ⟨i, hi, he⟩ => ⟨i, Nat.lt_succ_of_lt hi, he⟩, fun ⟨i, hi, he⟩ => ⟨i, ?_, he⟩⟩
      rfl rfl
    refine lt_of_le_of_ne (Nat.le_of_lt_succ hi) ?_
    rintro rfl
    exact hj he

theorem erased_eraseBytes (fd : FlashromData) (addr n : Nat) :
    Erased fd addr n (fd.eraseBytes addr n) := by
  refine loop_induct (P := Erased fd addr) ?_ fun i s _ h => erased_round h
  exact ⟨.refl fd, fun j => by simp, rfl, rfl, rfl, rfl, rfl⟩

theorem erased_eraseSector (h : fd.sectorOf addr < fd.allocsize) :
    Erased fd (fd.sectorOf addr) fd.sectorsize (fd.eraseSector addr) := by
  rw [eraseSector, if_pos h]
  exact erased_eraseBytes fd _ _

theorem le_mul_otherByteMult (fd : FlashromData) (a : Nat) : a ≤ a * fd.otherByteMult := by
  refine Nat.le_mul_of_pos_right a ?_
  rw [otherByteMult]
  split_ifs <;> decide

theorem chipAddr_lt {addr : BitVec 32} (h : fd.Selects addr) :
    fd.chipAddr addr * fd.otherByteMult < fd.allocsize := by
  refine lt_of_le_of_lt (Nat.mul_le_mul_right _ ?_) (Nat.lt_of_not_le h)
  rw [chipAddr, BitVec.toNat_and]
  exact Nat.and_le_left

theorem writeflash_chip (fd : FlashromData) (a : Nat) (v : Byte) :
    SameChip fd (fd.writeflash a v) := by
  simp only [writeflash, turnPage]
  split_ifs <;> exact ⟨rfl, rfl, rfl, rfl, rfl⟩

/-! ### The decoder -/

/-- What the decoder makes of a write in a state below 7: the next state, if it knows the write. -/
inductive Decodes (addr : Nat) (v : Byte) : Nat → Nat → Prop
  | unlock {s : Nat} : s ≤ 3 → addr = 0x5555 → v = 0xaa → Decodes addr v s 1
  | unlocked : addr = 0x2aaa → v = 0x55 → Decodes addr v 1 2
  | autoselect : addr = 0x5555 → v = 0x90 → Decodes addr v 2 3
  | prepareErase : addr = 0x5555 → v = 0x80 → Decodes addr v 2 4
  | unlockErase : addr = 0x5555 → v = 0xaa → Decodes addr v 4 5
  | unlockedErase : addr = 0x2aaa → v = 0x55 → Decodes addr v 5 6

/-- The unlock part leaves the state, or decodes the write. -/
theorem unlock_decodes (addr : Nat) (v : Byte) (s : Nat) :
    unlock addr v (s, false) = (s, false) ∨
      ∃ s', Decodes addr v s s' ∧ s' ≤ 3 ∧ unlock addr v (s, false) = (s', true) := by
  have hne : ¬ 0x5555 = 0x2aaa := by decide
  by_cases h5 : addr = 0x5555
  · subst h5
    by_cases haa : v = 0xaa
    · subst haa
      by_cases hs : s ≤ 3
      · refine .inr ⟨1, .unlock hs rfl rfl, by decide, ?_⟩
        obtain rfl | hlt : s = 3 ∨ s ≤ 2 := by omega
        · rfl
        · simp [unlock, hlt]
      · refine .inl ?_
        have h2 : ¬ s ≤ 2 := by omega
        have h3 : ¬ s = 3 := by omega
        have h2' : ¬ s = 2 := by omega
        simp only [unlock, h2, h2', h3, hne, false_and, and_false, if_false]
    · by_cases h2 : s = 2 ∧ v = 0x90
      · obtain ⟨rfl, rfl⟩ := h2
        exact .inr ⟨3, .autoselect rfl rfl, by decide, by decide⟩
      · refine .inl ?_
        simp only [unlock, haa, h2, hne, false_and, and_false, if_false]
  · by_cases h1 : addr = 0x2aaa ∧ s = 1 ∧ v = 0x55
    · obtain ⟨rfl, rfl, rfl⟩ := h1
      exact .inr ⟨2, .unlocked rfl rfl, by decide, by decide⟩
    · refine .inl ?_
      simp only [unlock, h5, h1, false_and, if_false]

/-- Both parts leave the state, or decode the write. -/
theorem prepareErase_decodes (addr : Nat) (v : Byte) (s : Nat) :
    (prepareErase addr v (unlock addr v (s, false)) = (s, false) ∧
      unlock addr v (s, false) = (s, false)) ∨
      ∃ s', Decodes addr v s s' ∧ prepareErase addr v (unlock addr v (s, false)) = (s', true) := by
  rcases unlock_decodes addr v s with h | ⟨s', hd, hle, h⟩
  · rw [h]
    by_cases h2 : addr = 0x5555 ∧ s = 2 ∧ v = 0x80
    · obtain ⟨rfl, rfl, rfl⟩ := h2
      exact .inr ⟨4, .prepareErase rfl rfl, by decide⟩
    · by_cases h4 : addr = 0x5555 ∧ s = 4 ∧ v = 0xaa
      · obtain ⟨rfl, rfl, rfl⟩ := h4
        exact .inr ⟨5, .unlockErase rfl rfl, by decide⟩
      · by_cases h5 : addr = 0x2aaa ∧ s = 5 ∧ v = 0x55
        · obtain ⟨rfl, rfl, rfl⟩ := h5
          exact .inr ⟨6, .unlockedErase rfl rfl, by decide⟩
        · exact .inl ⟨by simp only [prepareErase, h2, h4, h5, if_false], rfl⟩
  · refine .inr ⟨s', hd, ?_⟩
    rw [h]
    -- a write that was decoded is none of those that prepare an erase
    have hkeep : ¬ (addr = 0x5555 ∧ s' = 2 ∧ v = 0x80) := by
      rintro ⟨rfl, rfl, rfl⟩
      cases hd
      contradiction
    have h4 : ¬ s' = 4 := by omega
    have h5 : ¬ s' = 5 := by omega
    simp only [prepareErase, hkeep, h4, h5, false_and, and_false, if_false]

/-- A decoded byte is none of the bytes that act at once. -/
theorem decodes_byte {s s' : Nat} (h : Decodes addr v s s') :
    ¬ v = 0xa0 ∧ ¬ v = 0x20 ∧ ¬ v = 0x10 ∧ ¬ v = 0x30 := by
  cases h <;> subst_vars <;> decide

/-- What `flash_write` makes of a write while no byte is taken. -/
inductive Commanded (fd : FlashromData) (addr : Nat) (v : Byte) : FlashromData → Prop
  | forgotten : Commanded fd addr v { fd with state := 0 }
  | decoded {s : Nat} : Decodes addr v fd.state s → Commanded fd addr v { fd with state := s }
  | enabled : fd.state = 2 → addr = 0x5555 → v = 0xa0 →
      Commanded fd addr v { fd with state := 7, writeprot := -1 }
  | disabled : fd.state = 6 → Commanded fd addr v { fd with state := 0, writeprot := 0 }
  | chipErased : fd.state = 6 → addr = 0x5555 → v = 0x10 →
      Commanded fd addr v { fd.eraseBytes 0 fd.allocsize with state := 200 }
  | sectorErased : fd.state = 6 → v = 0x30 →
      Commanded fd addr v { fd.eraseSector addr with state := 200 }
  | byte : fd.flags.parallelEeprom = true →
      Commanded fd addr v ({ fd with state := 0 }.writeflash (addr * fd.otherByteMult) v)

theorem command_taken (h : fd.state = 7 ∨ fd.state = 8) :
    (fd.command addr v).1 = fd.writeflash (addr * fd.otherByteMult) v := by
  rw [command, decode, if_pos h]

theorem command_cases (h : ¬ (fd.state = 7 ∨ fd.state = 8)) :
    Commanded fd addr v (fd.command addr v).1 := by
  rw [command, decode, if_neg h]
  by_cases hf0 : v = 0xf0 ∧ fd.state > 0 ∧ fd.state < 7
  · rw [if_pos hf0]
    exact .forgotten
  rw [if_neg hf0]
  simp only
  obtain ⟨hprep, hunlock⟩ | ⟨s', hdec, hprep⟩ := prepareErase_decodes addr v fd.state
  · rw [hprep, hunlock]
    simp only [or_true, if_true, true_and]
    by_cases ha0 : addr = 0x5555 ∧ fd.state = 2 ∧ v = 0xa0
    · rw [if_pos ha0]
      exact .enabled ha0.2.1 ha0.1 ha0.2.2
    rw [if_neg ha0]
    by_cases h20 : addr = 0x5555 ∧ fd.state = 6 ∧ v = 0x20
    · rw [if_pos h20]
      exact .disabled h20.2.1
    rw [if_neg h20]
    by_cases h10 : addr = 0x5555 ∧ fd.state = 6 ∧ v = 0x10
    · rw [if_pos h10]
      exact .chipErased h10.2.1 h10.1 h10.2.2
    rw [if_neg h10]
    by_cases h30 : fd.state = 6 ∧ v = 0x30
    · rw [if_pos h30]
      exact .sectorErased h30.1 h30.2
    rw [if_neg h30]
    split_ifs with hp
    · exact .byte hp
    · exact .forgotten
  · have hv := decodes_byte hdec
    rw [hprep]
    simp only [hv, and_false, if_false, Bool.true_eq_false, false_and, or_false]
    split_ifs
    · exact .forgotten
    · exact .decoded hdec

theorem command_chip (fd : FlashromData) (addr : Nat) (v : Byte) :
    SameChip fd (fd.command addr v).1 := by
  by_cases htake : fd.state = 7 ∨ fd.state = 8
  · rw [command_taken htake]
    exact writeflash_chip fd _ v
  · have hcases := @command_cases fd addr v htake
    generalize (fd.command addr v).1 = fd' at hcases ⊢
    cases hcases with
    | forgotten | decoded | enabled | disabled => exact ⟨rfl, rfl, rfl, rfl, rfl⟩
    | chipErased =>
      have hchip := (erased_eraseBytes fd 0 fd.allocsize).chip
      exact ⟨hchip.1, hchip.2, hchip.3, hchip.4, hchip.5⟩
    | sectorErased =>
      have hchip : SameChip fd (fd.eraseSector addr) := by
        rw [eraseSector]
        split_ifs
        · exact (erased_eraseBytes fd _ _).chip
        · exact .refl fd
      exact ⟨hchip.1, hchip.2, hchip.3, hchip.4, hchip.5⟩
    | byte =>
      have hchip := writeflash_chip { fd with state := 0 } (addr * fd.otherByteMult) v
      exact ⟨hchip.1, hchip.2, hchip.3, hchip.4, hchip.5⟩

end FlashromData

end LibretroUae.Flash
