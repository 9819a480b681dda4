import LibretroUae.Disk.ImageTracks
import LibretroUae.Lib.Machine
import Mathlib.Tactic.Common

/-!
# LibretroUae.Disk.Drives

**Four drives on one cable.** The drives share the motor, step and direction lines of the port and
have a select line each. A drive takes over the motor line when it is selected, and tells its
identification bit by bit, one at every selection, while its motor is off. With the motor on, the
same line of the other port says that it is up to speed.

Drives are plain ones, without a bridge, Catweasel or A-Max, and the machine is not a Velvet.
-/

namespace LibretroUae.Floppy

open LibretroUae.Lib ImageTracks

-- the numerals of the drives
scoped instance neZero_four : NeZero 4 := ⟨by decide⟩

structure Prefs where
  dfxtype : Fin 4 → DriveType
  csDf0idhw : Bool
  floppyReadOnly : Bool
  m68kSpeed : Int
  cpuModel : Nat

structure Disk where
  hd : Bool
  wrprot : Bool

/-- `spun` counts the lines that the drive had a disk in since the motor was turned on or a disk was
taken out; nothing reads it. -/
structure FloppyDrive where
  diskfile : Option Disk
  cyl : Nat
  hardNumCyls : Nat
  dskchange : Bool
  dskchangeTime : Int
  dskejectTime : Nat
  motoroff : Bool
  dskready : Bool
  dskreadyUpTime : Nat
  dskreadyDownTime : Nat
  driveId : BitVec 32
  driveIdScnt : Nat
  idbit : Bool
  steplimit : Nat
  steplimitcycle : Nat
  motordelay : Bool
  indexhackmode : Nat
  indexhack : Bool
  selectedDelay : Int
  spun : Nat

structure Drives where
  floppy : Fin 4 → FloppyDrive
  selected : BitVec 4
  disabled : BitVec 4
  side : Bool
  direction : Bool
  prevData : BitVec 8
  prevStep : Bool

def readyUpTime : Nat := 18 * 312
def readyDownTime : Nat := 24 * 312
def minSteplimitCycle : Nat := 512 * 140

def driveId35dd : BitVec 32 := 0xffffffff
def driveId35hd : BitVec 32 := 0xaaaaaaaa
def driveId525sd : BitVec 32 := 0x55555555

/-- `drive_settype_id`. -/
def settypeId (t : DriveType) (diskfile : Option Disk) : BitVec 32 :=
  match t with
  | .hd35 => if diskfile.any (·.hd) then driveId35hd else driveId35dd
  | .sd525 => driveId525sd
  | .none | .pc525Only40 | .pc5254080 | .pc35Only80 => 0
  | .dd35 | .dd35Escom | .dd525 | .fb => driveId35dd

/-- The bit of a selection. -/
def idBit (driveId : BitVec 32) (scnt : Nat) : Bool := driveId.getLsbD (31 - scnt)

namespace FloppyDrive

variable (d : FloppyDrive)

/-- `drive_empty`. -/
def empty : Bool := 0 < d.dskejectTime || (d.diskfile.isNone && 0 ≤ d.dskchangeTime)

/-- `set_steplimit`. -/
def setSteplimit (p : Prefs) (now : Nat) : FloppyDrive :=
  if p.m68kSpeed ≠ 0 then d else { d with steplimit := 4, steplimitcycle := now }

/-- `drive_step`. -/
def driveStep (p : Prefs) (now : Nat) (direction : Bool) : FloppyDrive :=
  let d := if d.empty then d else { d with dskchange := false }
  if 0 < d.steplimit ∧ now - d.steplimitcycle < minSteplimitCycle then d
  else
    let d := d.setSteplimit p now
    if direction then { d with cyl := d.cyl - 1 }
    else if d.cyl < d.hardNumCyls + 3 then { d with cyl := d.cyl + 1 }
    else d

/-- `drive_motor`; `rnd` is what `uaerand` returns. -/
def driveMotor (p : Prefs) (rnd : Nat) (off : Bool) : FloppyDrive :=
  let d :=
    if d.motoroff && !off then { d with dskreadyUpTime := readyUpTime + rnd % 512, spun := 0 }
    else d
  let d :=
    if !d.motoroff && off then
      { d with
        driveIdScnt := 0
        dskreadyDownTime := readyDownTime + rnd % 512
        motordelay := d.motordelay || (p.cpuModel ≤ 68010 && p.m68kSpeed == 0) }
    else d
  if off then { d with motoroff := true, dskready := false, dskreadyUpTime := 0 }
  else { d with motoroff := false, dskreadyDownTime := 0 }

/-- `drive_insert`, with what is left of it outside the image: the drive keeps its identification
when there is no such file. -/
def driveInsert (t : DriveType) (rnd : Nat) (diskfile : Option Disk) : FloppyDrive :=
  let d := { d with diskfile, hardNumCyls := if t = .sd525 then 40 else 80 }
  let d :=
    if !d.motoroff then
      { d with dskreadyUpTime := readyUpTime + rnd % 512, dskreadyDownTime := 0 }
    else d
  if diskfile.isNone then d else { d with driveId := settypeId t diskfile }

/-- `drive_eject`. -/
def driveEject (t : DriveType) : FloppyDrive :=
  { d with
    diskfile := none
    dskchange := true
    dskchangeTime := 0
    dskready := false
    dskreadyUpTime := 0
    dskreadyDownTime := 0
    driveId := settypeId t none
    spun := 0 }

/-- `reset_drive` of drive `dr`, with the disk that is inserted again. -/
def resetDrive (t : DriveType) (dr : Fin 4) (rnd : Nat) (diskfile : Option Disk) : FloppyDrive :=
  let d := { d with
    diskfile := none
    motoroff := true
    idbit := false
    driveIdScnt := 0
    indexhackmode := if dr = 0 ∧ t = DriveType.dd35 then 1 else 0
    dskchangeTime := 0
    dskejectTime := 0
    dskchange := false
    dskreadyDownTime := 0
    dskreadyUpTime := 0
    driveId := settypeId t none }
  let d := d.driveInsert t rnd diskfile
  if diskfile.isNone then d.driveEject t else d

/-- The motor on its way up, in a line of `DISK_hsync`. -/
def spinUp : FloppyDrive :=
  if d.empty then d
  else if 0 < d.dskreadyUpTime then
    { d with
      dskreadyUpTime := d.dskreadyUpTime - 1
      dskready := d.dskready || (d.dskreadyUpTime - 1 == 0 && !d.motoroff)
      spun := d.spun + 1 }
  else { d with spun := d.spun + 1 }

def countDown : FloppyDrive :=
  { d with steplimit := d.steplimit - 1, dskreadyDownTime := d.dskreadyDownTime - 1 }

def countEject : FloppyDrive := { d with dskejectTime := d.dskejectTime - 1 }

/-- The delay until a new disk is inserted, which is `diskfile`. -/
def delayedInsert (t : DriveType) (rnd : Nat) (diskfile : Option Disk) : FloppyDrive :=
  if 0 < d.dskchangeTime then
    let d := { d with dskchangeTime := d.dskchangeTime - 1 }
    if d.dskchangeTime = 0 then d.driveInsert t rnd diskfile else d
  else d

/-- A line of `DISK_hsync`. -/
def hsync (t : DriveType) (rnd : Nat) (diskfile : Option Disk) : FloppyDrive :=
  d.countDown.spinUp.countEject.delayedInsert t rnd diskfile

/-- The next bit of the identification. -/
def nextId : FloppyDrive :=
  let d := { d with driveIdScnt := (d.driveIdScnt + 1) % 32 }
  { d with idbit := idBit d.driveId d.driveIdScnt }

/-- The drive notices that it has been selected. -/
def latch (p : Prefs) (dr : Fin 4) (rnd : Nat) (prevData data : BitVec 8) : FloppyDrive :=
  let d := d.nextId
  let d := d.driveMotor p rnd (prevData.getLsbD 7 && data.getLsbD 7)
  if !p.csDf0idhw && dr = 0 then { d with idbit := false } else d

/-- `selected_delay` in `DISK_vsync`. -/
def vsync : FloppyDrive :=
  if 0 < d.selectedDelay then { d with selectedDelay := d.selectedDelay - 1 } else d

/-- `selected_delay` after a write. -/
def delaySelected (unselected : Bool) : FloppyDrive :=
  if unselected then { d with selectedDelay := -1 }
  else if d.selectedDelay < 0 then { d with selectedDelay := 2 }
  else d

end FloppyDrive

/-- A drive listens when its select line is low and it is not disabled. -/
def listens (selected disabled : BitVec 4) (dr : Fin 4) : Bool :=
  !(selected ||| disabled).getLsbD dr

/-- Where the select lines fall. -/
def falls (prevSelected selected disabled : BitVec 4) (dr : Fin 4) : Bool :=
  listens selected disabled dr && prevSelected.getLsbD dr

namespace Drives

variable (s : Drives)

/-- `DISK_select` for one drive, in the order of its loops. -/
def selectDrive (p : Prefs) (now rnd : Nat) (data : BitVec 8) (dr : Fin 4) : FloppyDrive :=
  let d := s.floppy dr
  let selected := data.extractLsb' 3 4
  let d :=
    if s.prevData.getLsbD 7 ≠ data.getLsbD 7 ∧ 1 < d.indexhackmode ∧
        listens selected s.disabled dr then
      { d with indexhack := true }
    else d
  let d :=
    if s.prevStep ≠ data.getLsbD 0 ∧ data.getLsbD 0 ∧ listens s.selected s.disabled dr then
      let d := d.driveStep p now (data.getLsbD 1)
      if 1 < d.indexhackmode ∧ data.getLsbD 7 then { d with indexhack := true } else d
    else d
  let d :=
    if falls s.selected selected s.disabled dr then d.latch p dr rnd s.prevData data else d
  d.delaySelected (selected.getLsbD dr)

/-- `DISK_select`. -/
def diskSelect (p : Prefs) (now : Nat) (rnd : Fin 4 → Nat) (data : BitVec 8) : Drives where
  floppy := fun dr => s.selectDrive p now (rnd dr) data dr
  selected := data.extractLsb' 3 4
  disabled := s.disabled
  side := !data.getLsbD 2
  direction := data.getLsbD 1
  prevData := data
  prevStep := data.getLsbD 0

/-- Whether a drive says that it is ready. With its motor off it says its identification; an
internal drive without one repeats whether it is ready. -/
def readyLine (p : Prefs) (dr : Fin 4) (d : FloppyDrive) : Bool :=
  let escom := p.dfxtype dr = .dd35Escom
  if !d.motoroff then d.dskready && !d.indexhack && !escom
  else
    (if p.csDf0idhw || 0 < dr then d.idbit && !escom else d.dskready) ||
      (!p.csDf0idhw && dr = 0 && d.motordelay)

/-- What a drive does to the status: the bits that it pulls down. -/
def pulls (p : Prefs) (dr : Fin 4) (d : FloppyDrive) : BitVec 8 :=
  let wrprot := p.floppyReadOnly || d.diskfile.all (·.wrprot)
  let change := d.dskchange && p.dfxtype dr ≠ .sd525
  (if readyLine p dr d then 0x20 else 0) ||| (if d.cyl = 0 then 0x10 else 0) |||
    (if wrprot then 8 else 0) ||| (if change then 4 else 0)

/-- `DISK_status_ciaa`. -/
def diskStatusCiaa (p : Prefs) : BitVec 8 :=
  (List.finRange 4).foldl (fun st dr =>
    if listens s.selected s.disabled dr then st &&& ~~~(pulls p dr (s.floppy dr)) else st) 0x3c

/-- `setdskchangetime`: no two disks go in at the same time. -/
def setdskchangetime (dr : Fin 4) (dsktime : Int) : Drives :=
  if 0 < (s.floppy dr).dskchangeTime then s
  else
    let dsktime := (List.finRange 4).foldl (fun t i =>
      let other := (s.floppy i).dskchangeTime
      if i ≠ dr ∧ 0 < other ∧ t ≤ other + 1 then other + 1 else t) dsktime
    { s with floppy := fun i =>
        if i = dr then { s.floppy i with dskchangeTime := dsktime } else s.floppy i }

/-- What one drive does. -/
def onDrive (dr : Fin 4) (f : FloppyDrive → FloppyDrive) : Drives :=
  { s with floppy := fun i => if i = dr then f (s.floppy i) else s.floppy i }

end Drives

/-! ### Runs -/

/-- `index` is the end of a revolution and `motordelay` that of the delay after the motor. -/
inductive Input
  | select (now : Nat) (rnd : Fin 4 → Nat) (data : BitVec 8)
  | hsync (rnd : Fin 4 → Nat) (diskfile : Fin 4 → Option Disk)
  | insert (dr : Fin 4) (rnd : Nat) (diskfile : Option Disk)
  | eject (dr : Fin 4)
  | setdskchangetime (dr : Fin 4) (dsktime : Int)
  | vsync
  | index (dr : Fin 4)
  | motordelay (dr : Fin 4)
  | reset (dr : Fin 4) (rnd : Nat) (diskfile : Option Disk)

/-- `ispcbridgedrive`: the drives that only a PC uses. -/
def ispcbridgedrive (dfxtype : DriveType) : Bool :=
  dfxtype = .pc525Only40 || dfxtype = .pc35Only80 || dfxtype = .pc5254080

def step (p : Prefs) (s : Drives) : Input → Drives
  | .select now rnd data => s.diskSelect p now rnd data
  | .hsync rnd diskfile =>
    { s with floppy := fun dr => (s.floppy dr).hsync (p.dfxtype dr) (rnd dr) (diskfile dr) }
  | .insert dr rnd diskfile => s.onDrive dr (·.driveInsert (p.dfxtype dr) rnd diskfile)
  | .eject dr => s.onDrive dr (·.driveEject (p.dfxtype dr))
  | .setdskchangetime dr dsktime => s.setdskchangetime dr dsktime
  | .vsync => { s with floppy := fun dr => (s.floppy dr).vsync }
  | .index dr => s.onDrive dr fun d => { d with indexhack := false }
  | .motordelay dr => s.onDrive dr fun d => { d with motordelay := false }
  | .reset dr rnd diskfile =>
    { s.onDrive dr (·.resetDrive (p.dfxtype dr) dr rnd diskfile) with
      disabled :=
        if p.dfxtype dr = .none || ispcbridgedrive (p.dfxtype dr) then s.disabled ||| 1#4 <<< dr.val
        else s.disabled &&& ~~~(1#4 <<< dr.val) }

/-! ### What stepping leaves alone -/

/-- Two drives that differ in their heads and counters only. -/
structure Alike (d d' : FloppyDrive) : Prop where
  motoroff : d'.motoroff = d.motoroff
  dskready : d'.dskready = d.dskready
  dskreadyUpTime : d'.dskreadyUpTime = d.dskreadyUpTime
  spun : d'.spun = d.spun
  driveId : d'.driveId = d.driveId
  driveIdScnt : d'.driveIdScnt = d.driveIdScnt
  idbit : d'.idbit = d.idbit

theorem Alike.refl (d : FloppyDrive) : Alike d d := ⟨rfl, rfl, rfl, rfl, rfl, rfl, rfl⟩

theorem Alike.trans {d d' d'' : FloppyDrive} (h : Alike d d') (h' : Alike d' d'') :
    Alike d d'' where
  motoroff := h'.motoroff.trans h.motoroff
  dskready := h'.dskready.trans h.dskready
  dskreadyUpTime := h'.dskreadyUpTime.trans h.dskreadyUpTime
  spun := h'.spun.trans h.spun
  driveId := h'.driveId.trans h.driveId
  driveIdScnt := h'.driveIdScnt.trans h.driveIdScnt
  idbit := h'.idbit.trans h.idbit

section

variable {p : Prefs} {d : FloppyDrive}

theorem alike_driveStep (now : Nat) (direction : Bool) : Alike d (d.driveStep p now direction) := by
  simp only [FloppyDrive.driveStep, FloppyDrive.setSteplimit]
  split_ifs <;> exact ⟨rfl, rfl, rfl, rfl, rfl, rfl, rfl⟩

theorem alike_indexhack (c : Prop) [Decidable c] :
    Alike d (if c then { d with indexhack := true } else d) := by
  split
  · exact ⟨rfl, rfl, rfl, rfl, rfl, rfl, rfl⟩
  · exact .refl d

theorem alike_delaySelected (unselected : Bool) : Alike d (d.delaySelected unselected) := by
  rw [FloppyDrive.delaySelected]
  split_ifs
  · exact ⟨rfl, rfl, rfl, rfl, rfl, rfl, rfl⟩
  · exact ⟨rfl, rfl, rfl, rfl, rfl, rfl, rfl⟩
  · exact .refl d

theorem alike_vsync : Alike d d.vsync := by
  rw [FloppyDrive.vsync]
  split
  · exact ⟨rfl, rfl, rfl, rfl, rfl, rfl, rfl⟩
  · exact .refl d

theorem alike_setdskchangetime (s : Drives) (dr i : Fin 4) (dsktime : Int) :
    Alike (s.floppy i) ((s.setdskchangetime dr dsktime).floppy i) := by
  rw [Drives.setdskchangetime]
  split
  · exact .refl _
  · simp only
    split
    · exact ⟨rfl, rfl, rfl, rfl, rfl, rfl, rfl⟩
    · exact .refl _

/-- A write to the port, up to heads and counters: the drive notices that it is selected. -/
theorem selectDrive_alike (s : Drives) (now rnd : Nat) (data : BitVec 8) (dr : Fin 4) :
    ∃ d, Alike (s.floppy dr) d ∧
      Alike (if falls s.selected (data.extractLsb' 3 4) s.disabled dr then
        d.latch p dr rnd s.prevData data else d) (s.selectDrive p now rnd data dr) := by
  have hstep : ∀ {d : FloppyDrive} {c c' : Prop} [Decidable c] [Decidable c'],
      Alike d (if c then
        let d := d.driveStep p now (data.getLsbD 1)
        if c' then { d with indexhack := true } else d
      else d) := by
    intro d c c' _ _
    split
    · exact (alike_driveStep now _).trans (alike_indexhack c')
    · exact .refl d
  exact ⟨_, (alike_indexhack _).trans hstep, alike_delaySelected _⟩

end

/-! ### Up to speed -/

/-- What the ready line rests on: a drive with its motor off is not ready, and one that is has had a
disk in for long enough. -/
structure Spin (d : FloppyDrive) : Prop where
  off : d.motoroff = true → d.dskready = false ∧ d.dskreadyUpTime = 0
  ready : d.dskready = true → readyUpTime ≤ d.spun
  rising : 0 < d.dskreadyUpTime → readyUpTime ≤ d.spun + d.dskreadyUpTime

section

variable {p : Prefs} {d : FloppyDrive}

theorem Spin.of_eq {d' : FloppyDrive} (h : Spin d) (hoff : d'.motoroff = d.motoroff)
    (hready : d'.dskready = d.dskready) (htime : d'.dskreadyUpTime = d.dskreadyUpTime)
    (hspun : d'.spun = d.spun) : Spin d' where
  off := by rw [hoff, hready, htime]; exact h.off
  ready := by rw [hready, hspun]; exact h.ready
  rising := by rw [htime, hspun]; exact h.rising

theorem Spin.of_alike {d' : FloppyDrive} (h : Spin d) (ha : Alike d d') : Spin d' :=
  h.of_eq ha.motoroff ha.dskready ha.dskreadyUpTime ha.spun

theorem Spin.driveMotor (h : Spin d) (rnd : Nat) (off : Bool) : Spin (d.driveMotor p rnd off) := by
  cases off
  · cases hoff : d.motoroff
    · apply h.of_eq <;> simp [FloppyDrive.driveMotor, hoff]
    · obtain ⟨hready, -⟩ := h.off hoff
      exact {
        off := by simp [FloppyDrive.driveMotor]
        ready := by simp [FloppyDrive.driveMotor, hoff, hready]
        rising := by simp [FloppyDrive.driveMotor, hoff] }
  · exact {
      off := by simp [FloppyDrive.driveMotor]
      ready := by simp [FloppyDrive.driveMotor]
      rising := by simp [FloppyDrive.driveMotor] }

theorem Spin.driveInsert (h : Spin d) (t : DriveType) (rnd : Nat) (diskfile : Option Disk) :
    Spin (d.driveInsert t rnd diskfile) := by
  cases hoff : d.motoroff
  · have hle : readyUpTime ≤ d.spun + (readyUpTime + rnd % 512) := by omega
    exact {
      off := by cases diskfile <;> simp [FloppyDrive.driveInsert, hoff]
      ready := by cases diskfile <;> simpa [FloppyDrive.driveInsert, hoff] using h.ready
      rising := by cases diskfile <;> simp [FloppyDrive.driveInsert, hoff, hle] }
  · apply h.of_eq <;> cases diskfile <;> simp [FloppyDrive.driveInsert, hoff]

theorem spin_driveEject (t : DriveType) : Spin (d.driveEject t) := by
  constructor <;> simp [FloppyDrive.driveEject]

theorem spin_resetDrive (t : DriveType) (dr : Fin 4) (rnd : Nat) {diskfile : Option Disk}
    (h : diskfile = none ∨ d.dskready = false) : Spin (d.resetDrive t dr rnd diskfile) := by
  cases diskfile with
  | none => exact spin_driveEject t
  | some disk =>
    have hready : d.dskready = false := by simpa using h
    constructor <;> simp [FloppyDrive.resetDrive, FloppyDrive.driveInsert, hready]

theorem Spin.latch (h : Spin d) (dr : Fin 4) (rnd : Nat) (prevData data : BitVec 8) :
    Spin (d.latch p dr rnd prevData data) := by
  have hid : Spin d.nextId := h.of_eq rfl rfl rfl rfl
  rw [FloppyDrive.latch]
  split
  · exact (hid.driveMotor rnd _).of_eq rfl rfl rfl rfl
  · exact hid.driveMotor rnd _

theorem Spin.spinUp (h : Spin d) : Spin d.spinUp := by
  rw [FloppyDrive.spinUp]
  have hrising := h.rising
  split_ifs with hempty htime
  · exact h
  · exact {
      off := fun hoff => by
        have hzero := (h.off hoff).2
        omega
      ready := fun hready => by
        rcases Bool.or_eq_true_iff.mp hready with hbefore | hnow
        · exact Nat.le_succ_of_le (h.ready hbefore)
        · have hlast : d.dskreadyUpTime - 1 = 0 :=
            eq_of_beq (Bool.and_eq_true_iff.mp hnow).1
          simp only
          omega
      rising := fun hleft => by
        simp only at hleft ⊢
        omega }
  · exact {
      off := h.off
      ready := fun hready => Nat.le_succ_of_le (h.ready hready)
      rising := fun hleft => absurd hleft htime }

theorem Spin.delayedInsert (h : Spin d) (t : DriveType) (rnd : Nat) (diskfile : Option Disk) :
    Spin (d.delayedInsert t rnd diskfile) := by
  have hcount : Spin { d with dskchangeTime := d.dskchangeTime - 1 } := h.of_eq rfl rfl rfl rfl
  simp only [FloppyDrive.delayedInsert]
  split_ifs with htime hnow
  · exact hcount.driveInsert t rnd diskfile
  · exact hcount
  · exact h

theorem Spin.hsync (h : Spin d) (t : DriveType) (rnd : Nat) (diskfile : Option Disk) :
    Spin (d.hsync t rnd diskfile) := by
  have hdown : Spin d.countDown := h.of_eq rfl rfl rfl rfl
  have heject : Spin d.countDown.spinUp.countEject := hdown.spinUp.of_eq rfl rfl rfl rfl
  exact heject.delayedInsert t rnd diskfile

end

/-- Every drive keeps it. -/
def Spins (s : Drives) : Prop := ∀ dr, Spin (s.floppy dr)

section

variable {p : Prefs} {s : Drives}

theorem floppy_onDrive (s : Drives) (dr i : Fin 4) (f : FloppyDrive → FloppyDrive) :
    (s.onDrive dr f).floppy i = if i = dr then f (s.floppy i) else s.floppy i :=
  rfl

theorem Spins.onDrive (h : Spins s) (dr : Fin 4) {f : FloppyDrive → FloppyDrive}
    (hf : Spin (f (s.floppy dr))) : Spins (s.onDrive dr f) := by
  intro i
  by_cases hi : i = dr
  · rw [floppy_onDrive, if_pos hi, hi]
    exact hf
  · rw [floppy_onDrive, if_neg hi]
    exact h i

theorem Spins.diskSelect (h : Spins s) (now : Nat) (rnd : Fin 4 → Nat) (data : BitVec 8) :
    Spins (s.diskSelect p now rnd data) := by
  intro dr
  obtain ⟨d, hbefore, hafter⟩ := selectDrive_alike (p := p) s now (rnd dr) data dr
  have hd : Spin d := (h dr).of_alike hbefore
  refine Spin.of_alike ?_ hafter
  split
  · exact hd.latch dr (rnd dr) s.prevData data
  · exact hd

/-- A drive that is ready is not reset with a disk in it. -/
def legal (s : Drives) : Input → Prop
  | .reset dr _ diskfile => diskfile = none ∨ (s.floppy dr).dskready = false
  | _ => True

/-- The machine that makes no other promise. -/
def machine (p : Prefs) : Machine Drives Input Empty := ⟨legal, fun s i => .ok (step p s i)⟩

theorem spins_invariant : (machine p).Invariant Spins := by
  intro s i h hlegal
  refine ⟨_, rfl, ?_⟩
  cases i with
  | select now rnd data => exact h.diskSelect now rnd data
  | hsync rnd diskfile => exact fun dr => (h dr).hsync _ _ _
  | insert dr rnd diskfile =>
    exact h.onDrive dr (f := (·.driveInsert _ rnd diskfile)) ((h dr).driveInsert _ rnd diskfile)
  | eject dr => exact h.onDrive dr (f := (·.driveEject _)) (spin_driveEject _)
  | setdskchangetime dr dsktime =>
    exact fun i => (h i).of_alike (alike_setdskchangetime s dr i dsktime)
  | vsync => exact fun dr => (h dr).of_alike alike_vsync
  | index dr =>
    exact h.onDrive dr (f := fun d => { d with indexhack := false })
      ((h dr).of_eq rfl rfl rfl rfl)
  | motordelay dr =>
    exact h.onDrive dr (f := fun d => { d with motordelay := false })
      ((h dr).of_eq rfl rfl rfl rfl)
  | reset dr rnd diskfile =>
    exact h.onDrive dr (f := (·.resetDrive _ dr rnd diskfile)) (spin_resetDrive _ dr rnd hlegal)

end

/-! ### The status -/

section

variable {p : Prefs} {s : Drives}

/-- A bit of the status is low when a drive that listens pulls it down. -/
theorem getLsbD_diskStatusCiaa (s : Drives) (p : Prefs) {i : Nat} (hi : i < 8) :
    (s.diskStatusCiaa p).getLsbD i = ((0x3c#8).getLsbD i &&
      (List.finRange 4).all fun dr => !(listens s.selected s.disabled dr &&
        (Drives.pulls p dr (s.floppy dr)).getLsbD i)) := by
  have hfold : ∀ (l : List (Fin 4)) (st : BitVec 8),
      (l.foldl (fun st dr => if listens s.selected s.disabled dr then
        st &&& ~~~(Drives.pulls p dr (s.floppy dr)) else st) st).getLsbD i =
      (st.getLsbD i && l.all fun dr => !(listens s.selected s.disabled dr &&
        (Drives.pulls p dr (s.floppy dr)).getLsbD i)) := by
    intro l
    induction l with
    | nil => simp
    | cons dr l ih =>
      intro st
      rw [List.foldl_cons, ih, List.all_cons]
      cases listens s.selected s.disabled dr
      · simp
      · simp [hi, Bool.and_assoc]
  exact hfold _ _

/-- The ready line of a drive. -/
def Ready (p : Prefs) (dr : Fin 4) (d : FloppyDrive) : Prop :=
  if d.motoroff then
    ((p.csDf0idhw = true ∨ 0 < dr) ∧ d.idbit = true) ∨
      (p.csDf0idhw = false ∧ dr = 0 ∧ d.motordelay = true)
  else readyUpTime ≤ d.spun

theorem getLsbD_pulls (p : Prefs) (dr : Fin 4) (d : FloppyDrive) :
    (Drives.pulls p dr d).getLsbD 5 = Drives.readyLine p dr d := by
  have hite : ∀ (P : Prop) [Decidable P] (c : BitVec 8),
      (if P then c else 0#8).getLsbD 5 = (decide P && c.getLsbD 5) := by
    intro P _ c
    split
    · simp [*]
    · simp [*]
  have hready : (0x20#8).getLsbD 5 = true := by decide
  have htrack : (0x10#8).getLsbD 5 = false := by decide
  have hwrprot : (8#8).getLsbD 5 = false := by decide
  have hchange : (4#8).getLsbD 5 = false := by decide
  simp only [Drives.pulls, BitVec.getLsbD_or, hite, BitVec.ofNat_eq_ofNat, hready, htrack, hwrprot,
    hchange, Bool.and_false, Bool.or_false, Bool.and_true, Bool.decide_eq_true]

theorem ready_of_readyLine {dr : Fin 4} {d : FloppyDrive} (h : Spin d)
    (hline : Drives.readyLine p dr d = true) : Ready p dr d := by
  cases hoff : d.motoroff
  · simp only [Drives.readyLine, hoff, Bool.not_false, if_true, Bool.and_eq_true] at hline
    rw [Ready, hoff]
    exact h.ready hline.1.1
  · have hready := (h.off hoff).1
    rw [Ready, if_pos hoff]
    simp only [Drives.readyLine, hoff, hready, Bool.not_true, Bool.false_eq_true, if_false,
      Bool.or_eq_true, Bool.and_eq_true, decide_eq_true_eq, Bool.not_eq_true'] at hline
    split_ifs at hline with hid
    · rcases hline with hbit | hdelay
      · exact .inl ⟨hid, (Bool.and_eq_true_iff.mp hbit).1⟩
      · exact .inr ⟨hdelay.1.1, hdelay.1.2, hdelay.2⟩
    · rcases hline with hbit | hdelay
      · cases hbit
      · exact .inr ⟨hdelay.1.1, hdelay.1.2, hdelay.2⟩

/-- In every run in which no drive that is ready is reset, the ready line of the status is low only
when a drive that listens has come up to speed, or says a bit of its identification. -/
theorem diskStatusCiaa_ready {s₀ : Drives} (hstart : ∀ dr, (s₀.floppy dr).motoroff = true ∧
    (s₀.floppy dr).dskready = false ∧ (s₀.floppy dr).dskreadyUpTime = 0)
    (hrun : (machine p).Reachable s₀ s) (hlow : (s.diskStatusCiaa p).getLsbD 5 = false) :
    ∃ dr, listens s.selected s.disabled dr = true ∧ Ready p dr (s.floppy dr) := by
  have hspins : Spins s := spins_invariant.reachable hrun fun dr => by
    obtain ⟨hoff, hready, htime⟩ := hstart dr
    exact {
      off := fun _ => ⟨hready, htime⟩
      ready := fun h => by rw [hready] at h; cases h
      rising := fun h => by rw [htime] at h; cases h }
  rw [getLsbD_diskStatusCiaa s p (by decide)] at hlow
  have hset : (0x3c#8).getLsbD 5 = true := by decide
  rw [hset, Bool.true_and, List.all_eq_false] at hlow
  obtain ⟨dr, -, hpull⟩ := hlow
  rw [Bool.not_eq_true, Bool.not_eq_false', getLsbD_pulls, Bool.and_eq_true] at hpull
  exact ⟨dr, hpull.1, ready_of_readyLine (hspins dr) hpull.2⟩

end

/-- An empty drive at rest, and four of them with nothing selected. -/
def restingDrive : FloppyDrive :=
  ⟨none, 0, 80, false, 0, 0, true, false, 0, 0, driveId35hd, 0, false, 0, 0, false, 0, false, -1,
    0⟩

def restingDrives : Drives := ⟨fun _ => restingDrive, 15, 0, false, false, 0xff, true⟩

def fourDrives : Prefs := ⟨fun _ => .hd35, true, false, 0, 68000⟩

/-- The second bit that an idle drive tells pulls the line. -/
theorem diskStatusCiaa_ready_second :
    let s := [0xf7, 0xff, 0xf7].foldl
      (fun s data => step fourDrives s (.select 0 (fun _ => 0) data)) restingDrives
    ∃ dr, listens s.selected s.disabled dr = true ∧ Ready fourDrives dr (s.floppy dr) := by
  intro s
  have hrun : (machine fourDrives).Reachable restingDrives s :=
    ⟨[0xf7, 0xff, 0xf7].map (.select 0 fun _ => 0),
      .cons trivial rfl (.cons trivial rfl (.cons trivial rfl (.nil _)))⟩
  exact diskStatusCiaa_ready (fun _ => ⟨rfl, rfl, rfl⟩) hrun (by decide)

/-! ### The identification -/

/-- What is promised while drive `dr` tells its identification: it is selected with the motor line
high only, and its disk is left alone. -/
def asks (dr : Fin 4) (s : Drives) : Input → Prop
  | .select _ _ data =>
    falls s.selected (data.extractLsb' 3 4) s.disabled dr = true →
      s.prevData.getLsbD 7 = true ∧ data.getLsbD 7 = true
  | .hsync _ _ => (s.floppy dr).dskchangeTime ≠ 1
  | .insert i _ _ | .eject i | .reset i _ _ => i ≠ dr
  | _ => True

/-- Whether a write selects the drive. -/
def selects (dr : Fin 4) (s : Drives) : Input → Bool
  | .select _ _ data => falls s.selected (data.extractLsb' 3 4) s.disabled dr
  | _ => false

/-- The drives with how often `dr` has been selected. -/
def askingMachine (p : Prefs) (dr : Fin 4) : Machine (Drives × Nat) Input Empty where
  legal s i := asks dr s.1 i
  step s i := .ok (step p s.1 i, s.2 + if selects dr s.1 i then 1 else 0)

/-- The drive after `n` selections. -/
structure Told (p : Prefs) (dr : Fin 4) (driveId : BitVec 32) (d : FloppyDrive) (n : Nat) :
    Prop where
  off : d.motoroff = true
  id : d.driveId = driveId
  scnt : d.driveIdScnt = n % 32
  bit : 0 < n → (p.csDf0idhw = true ∨ 0 < dr) → d.idbit = idBit driveId (n % 32)

section

variable {p : Prefs} {dr : Fin 4} {driveId : BitVec 32} {d : FloppyDrive} {n : Nat}

theorem Told.of_eq {d' : FloppyDrive} (h : Told p dr driveId d n)
    (hoff : d'.motoroff = d.motoroff) (hid : d'.driveId = d.driveId)
    (hscnt : d'.driveIdScnt = d.driveIdScnt) (hbit : d'.idbit = d.idbit) : Told p dr driveId d' n where
  off := by rw [hoff]; exact h.off
  id := by rw [hid]; exact h.id
  scnt := by rw [hscnt]; exact h.scnt
  bit := by rw [hbit]; exact h.bit

theorem Told.of_alike {d' : FloppyDrive} (h : Told p dr driveId d n) (ha : Alike d d') :
    Told p dr driveId d' n :=
  h.of_eq ha.motoroff ha.driveId ha.driveIdScnt ha.idbit

theorem Told.latch (h : Told p dr driveId d n) (rnd : Nat) {prevData data : BitVec 8}
    (hprev : prevData.getLsbD 7 = true) (hdata : data.getLsbD 7 = true) :
    Told p dr driveId (d.latch p dr rnd prevData data) (n + 1) := by
  have hscnt : (d.driveIdScnt + 1) % 32 = (n + 1) % 32 := by
    rw [h.scnt]
    omega
  have hoff := h.off
  have hmotor : d.nextId.driveMotor p rnd true = { d.nextId with
      motoroff := true, dskready := false, dskreadyUpTime := 0 } := by
    simp [FloppyDrive.driveMotor, FloppyDrive.nextId, hoff]
  simp only [FloppyDrive.latch, hprev, hdata, Bool.and_self, hmotor]
  split_ifs with hinternal
  · exact {
      off := rfl
      id := h.id
      scnt := hscnt
      bit := fun _ hid => by
        simp only [Bool.and_eq_true, Bool.not_eq_true', decide_eq_true_eq] at hinternal
        rcases hid with hid | hid
        · rw [hinternal.1] at hid
          cases hid
        · rw [hinternal.2] at hid
          exact absurd hid (by decide) }
  · exact {
      off := rfl
      id := h.id
      scnt := hscnt
      bit := fun _ _ => by
        simp only [FloppyDrive.nextId, hscnt, h.id] }

theorem Told.hsync (h : Told p dr driveId d n) (htime : d.dskchangeTime ≠ 1) (t : DriveType)
    (rnd : Nat) (diskfile : Option Disk) : Told p dr driveId (d.hsync t rnd diskfile) n := by
  have hspin : ∀ d : FloppyDrive, Told p dr driveId d n → Told p dr driveId d.spinUp n := by
    intro d hd
    apply hd.of_eq <;>
    · rw [FloppyDrive.spinUp]
      split_ifs <;> rfl
  have hkept : d.countDown.spinUp.countEject.dskchangeTime = d.dskchangeTime := by
    simp only [FloppyDrive.countEject, FloppyDrive.spinUp]
    split_ifs <;> rfl
  have hline : Told p dr driveId d.countDown.spinUp.countEject n :=
    (hspin d.countDown (h.of_eq rfl rfl rfl rfl)).of_eq rfl rfl rfl rfl
  simp only [FloppyDrive.hsync, FloppyDrive.delayedInsert, hkept]
  split_ifs with hpos hnow
  · omega
  · exact hline.of_eq rfl rfl rfl rfl
  · exact hline

/-- A step of the machine. -/
theorem told_invariant (driveId : BitVec 32) :
    (askingMachine p dr).Invariant fun s => Told p dr driveId (s.1.floppy dr) s.2 := by
  intro s i h hlegal
  refine ⟨_, rfl, ?_⟩
  have hother : ∀ {j : Fin 4} (f : FloppyDrive → FloppyDrive), j ≠ dr →
      Told p dr driveId ((s.1.onDrive j f).floppy dr) s.2 := by
    intro j f hj
    rw [floppy_onDrive, if_neg hj.symm]
    exact h
  cases i with
  | select now rnd data =>
    obtain ⟨d, hbefore, hafter⟩ := selectDrive_alike (p := p) s.1 now (rnd dr) data dr
    have hd : Told p dr driveId d s.2 := h.of_alike hbefore
    refine Told.of_alike ?_ hafter
    by_cases hfalls : falls s.1.selected (data.extractLsb' 3 4) s.1.disabled dr = true
    · obtain ⟨hprev, hdata⟩ := hlegal hfalls
      have hselects : selects dr s.1 (.select now rnd data) = true := hfalls
      rw [if_pos hfalls, if_pos hselects]
      exact hd.latch (rnd dr) hprev hdata
    · have hselects : ¬ selects dr s.1 (.select now rnd data) = true := hfalls
      rw [if_neg hfalls, if_neg hselects]
      exact hd
  | hsync rnd diskfile => exact h.hsync hlegal _ _ _
  | insert j rnd diskfile => exact hother (·.driveInsert _ rnd diskfile) hlegal
  | eject j => exact hother (·.driveEject _) hlegal
  | setdskchangetime j dsktime => exact h.of_alike (alike_setdskchangetime s.1 j dr dsktime)
  | vsync => exact h.of_alike alike_vsync
  | index j =>
    by_cases hj : j = dr
    · subst hj
      simp only [step, floppy_onDrive, if_true]
      exact h.of_eq rfl rfl rfl rfl
    · exact hother (fun d => { d with indexhack := false }) hj
  | motordelay j =>
    by_cases hj : j = dr
    · subst hj
      simp only [step, floppy_onDrive, if_true]
      exact h.of_eq rfl rfl rfl rfl
    · exact hother (fun d => { d with motordelay := false }) hj
  | reset j rnd diskfile => exact hother (·.resetDrive _ j rnd diskfile) hlegal

/-- A selection that turns the motor off starts the identification over. -/
theorem told_start {s : Drives} (hon : (s.floppy dr).motoroff = false) {data : BitVec 8}
    (hfalls : falls s.selected (data.extractLsb' 3 4) s.disabled dr = true)
    (hprev : s.prevData.getLsbD 7 = true) (hdata : data.getLsbD 7 = true) (now : Nat)
    (rnd : Fin 4 → Nat) :
    Told p dr (s.floppy dr).driveId ((s.diskSelect p now rnd data).floppy dr) 0 := by
  obtain ⟨d, hbefore, hafter⟩ := selectDrive_alike (p := p) s now (rnd dr) data dr
  have hoff : d.motoroff = false := hbefore.motoroff.trans hon
  refine Told.of_alike ?_ hafter
  rw [if_pos hfalls]
  simp only [FloppyDrive.latch, hprev, hdata, Bool.and_self]
  constructor
  · split_ifs <;> rfl
  · rw [← hbefore.driveId]
    split_ifs <;> simp [FloppyDrive.driveMotor, FloppyDrive.nextId, hoff]
  · split_ifs <;> simp [FloppyDrive.driveMotor, FloppyDrive.nextId, hoff]
  · exact fun h => absurd h (lt_irrefl _)

/-- A program that turns the motor of a drive off reads its identification at the selections that
follow, whatever else happens on the cable: from bit 30 down to bit 0, then bit 31, and again. -/
theorem diskStatusCiaa_driveId {s s' : Drives} {data : BitVec 8} {now : Nat} {rnd : Fin 4 → Nat}
    (hid : p.csDf0idhw = true ∨ 0 < dr) (hescom : p.dfxtype dr ≠ .dd35Escom)
    (hon : (s.floppy dr).motoroff = false)
    (hfalls : falls s.selected (data.extractLsb' 3 4) s.disabled dr = true)
    (hprev : s.prevData.getLsbD 7 = true) (hdata : data.getLsbD 7 = true)
    (hrun : (askingMachine p dr).Reachable (step p s (.select now rnd data), 0) (s', n))
    (hpos : 0 < n) (honly : ∀ i, listens s'.selected s'.disabled i = decide (i = dr)) :
    (s'.diskStatusCiaa p).getLsbD 5 = !(s.floppy dr).driveId.getLsbD (31 - n % 32) := by
  have htold : Told p dr (s.floppy dr).driveId (s'.floppy dr) n :=
    (told_invariant _).reachable hrun (told_start hon hfalls hprev hdata now rnd)
  have hdelay : (!p.csDf0idhw && decide (dr = 0)) = false := by
    rcases hid with hid | hid
    · rw [hid]
      rfl
    · have hne : dr ≠ 0 := by
        rintro rfl
        exact absurd hid (by decide)
      rw [decide_eq_false hne, Bool.and_false]
  have hline : Drives.readyLine p dr (s'.floppy dr) =
      (s.floppy dr).driveId.getLsbD (31 - n % 32) := by
    have hword : (p.csDf0idhw || decide (0 < dr)) = true := by simpa using hid
    simp only [Drives.readyLine, htold.off, Bool.not_true, Bool.false_eq_true, if_false, hword,
      if_true, htold.bit hpos hid, hescom, decide_false, Bool.not_false, Bool.and_true, hdelay,
      Bool.false_and, Bool.or_false, idBit]
  have hset : (0x3c#8).getLsbD 5 = true := by decide
  rw [getLsbD_diskStatusCiaa s' p (by decide), hset, Bool.true_and, ← hline]
  cases hbit : Drives.readyLine p dr (s'.floppy dr)
  · refine List.all_eq_true.mpr fun i _ => ?_
    rw [honly, getLsbD_pulls]
    by_cases hi : i = dr
    · rw [hi, hbit, Bool.and_false]
      rfl
    · rw [decide_eq_false hi, Bool.false_and]
      rfl
  · refine List.all_eq_false.mpr ⟨dr, List.mem_finRange dr, ?_⟩
    rw [honly, getLsbD_pulls, hbit, decide_eq_true rfl]
    decide

end

/-- The first bit that a running drive tells when its motor has been turned off. -/
theorem diskStatusCiaa_driveId_first :
    let running : Drives :=
      { restingDrives with floppy := fun _ => { restingDrive with motoroff := false } }
    let s := [0xf7, 0xff, 0xf7].foldl
      (fun s data => step fourDrives s (.select 0 (fun _ => 0) data)) running
    (s.diskStatusCiaa fourDrives).getLsbD 5 = !driveId35hd.getLsbD 30 := by
  intro running s
  have hstep : ∀ (t : Drives) (n : Nat) (data : BitVec 8) (b : Bool),
      selects 0 t (.select 0 (fun _ => 0) data) = b →
      (askingMachine fourDrives 0).step (t, n) (.select 0 (fun _ => 0) data) =
        .ok (step fourDrives t (.select 0 (fun _ => 0) data), n + if b then 1 else 0) := by
    intro t n data b hb
    rw [← hb]
    rfl
  have hrun : (askingMachine fourDrives 0).Reachable
      (step fourDrives running (.select 0 (fun _ => 0) 0xf7), 0) (s, 1) :=
    ⟨[0xff, 0xf7].map (.select 0 fun _ => 0),
      .cons (fun h => absurd h (by decide)) (hstep _ 0 0xff false (by decide))
        (.cons (fun _ => by decide) (hstep _ 0 0xf7 true (by decide)) (.nil _))⟩
  exact diskStatusCiaa_driveId (.inl rfl) (by decide) rfl (by decide) (by decide) (by decide) hrun
    (by decide) (by decide)

end LibretroUae.Floppy
