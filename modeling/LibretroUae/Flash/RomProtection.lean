import LibretroUae.Flash.Rom

/-!
# LibretroUae.Flash.RomProtection

**Write protection.** The state of the decoder says which accesses came last: each state that
unlocks something is reached only by its own sequence, and any other access leads away from it.
An access is a call whose address the chip takes, so a call outside its range goes unnoticed.
-/

namespace LibretroUae.Flash

open Lib Lib.Image FlashromData

/-- A call as the chip sees it. -/
inductive Access
  | write (addr : Nat) (v : Byte)
  | read (addr : Nat)
  deriving DecidableEq, Repr

/-- The accesses that lead to a state of the decoder. -/
def unlocks : Nat → List Access
  | 1 => [.write 0x5555 0xaa]
  | 2 => [.write 0x5555 0xaa, .write 0x2aaa 0x55]
  | 4 => [.write 0x5555 0xaa, .write 0x2aaa 0x55, .write 0x5555 0x80]
  | 5 => [.write 0x5555 0xaa, .write 0x2aaa 0x55, .write 0x5555 0x80, .write 0x5555 0xaa]
  | 6 => [.write 0x5555 0xaa, .write 0x2aaa 0x55, .write 0x5555 0x80, .write 0x5555 0xaa,
      .write 0x2aaa 0x55]
  | 7 => [.write 0x5555 0xaa, .write 0x2aaa 0x55, .write 0x5555 0xa0]
  | _ => []

/-- The unlock sequence of a programming write. -/
def programming : List Access := unlocks 7

/-- The unlock sequence of an erase. -/
def erasing : List Access := unlocks 6

/-- The access a call makes. -/
def access (fd : FlashromData) : FlashCall → Option Access
  | .write addr v => if fd.Selects addr then some (.write (fd.chipAddr addr) v) else none
  | .read addr => if fd.Selects addr then some (.read (fd.chipAddr addr)) else none

/-- The accesses of calls. -/
def accesses (fd : FlashromData) (cs : List FlashCall) : List Access := cs.filterMap (access fd)

/-- A byte of the memory is one of the chip. -/
def OfChip (fd : FlashromData) (j : Nat) : Prop :=
  j < fd.allocsize ∧ ∃ k, j = k * fd.otherByteMult

/-- A byte of the memory is in the sector of an address. -/
def OfSector (fd : FlashromData) (addr j : Nat) : Prop :=
  ∃ i < fd.sectorsize, j = (fd.sectorOf addr + i) * fd.otherByteMult

/-- What a write may do to the memory, after the accesses `recent`. An erase is seen by the chip
being busy with it. -/
inductive Licensed (recent : List Access) (addr : Nat) (v : Byte) (fd fd' : FlashromData) : Prop
  | nothing : fd'.rom = fd.rom → fd'.state ≠ 200 → Licensed recent addr v fd fd'
  | program : programming <:+ recent →
      fd'.rom = Function.update fd.rom (addr * fd.otherByteMult) v → fd'.state ≠ 200 →
      Licensed recent addr v fd fd'
  | eraseChip : erasing <:+ recent → addr = 0x5555 → v = 0x10 →
      (∀ j, OfChip fd j → fd'.rom j = 0xff) →
      (∀ j < fd.allocsize, ¬ OfChip fd j → fd'.rom j = fd.rom j) →
      Licensed recent addr v fd fd'
  | eraseSector : erasing <:+ recent → v = 0x30 →
      (∀ j, OfSector fd addr j → fd'.rom j = 0xff) →
      (∀ j, ¬ OfSector fd addr j → fd'.rom j = fd.rom j) →
      Licensed recent addr v fd fd'

/-- A call changes the memory only as it is licensed. -/
def Guarded (recent : List Access) (fd fd' : FlashromData) : Option Access → Prop
  | none => fd' = fd
  | some (.read _) => fd'.rom = fd.rom
  | some (.write addr v) => Licensed recent addr v fd fd'

variable {fd fd' : FlashromData} {addr : Nat} {v : Byte} {recent : List Access}

/-! ### The decoder -/

/-- What a decoded write adds to the accesses that led to the state. -/
theorem unlocks_decodes {s s' : Nat} (h : Decodes addr v s s') (hs : unlocks s <:+ recent) :
    unlocks s' <:+ recent ++ [.write addr v] := by
  cases h with
  | unlock _ ha hv =>
    subst ha hv
    exact List.suffix_append _ _
  | autoselect ha hv => exact List.nil_suffix
  | unlocked ha hv | prepareErase ha hv | unlockErase ha hv | unlockedErase ha hv =>
    subst ha hv
    obtain ⟨t, rfl⟩ := hs
    exact ⟨t, by simp [unlocks]⟩

theorem decodes_lt {s s' : Nat} (h : Decodes addr v s s') : s' < 7 := by
  cases h <;> decide

/-! ### Writes -/

/-- What holds of a chip without `FLASHROM_PARALLEL_EEPROM` after the accesses `recent`. -/
structure Locked (recent : List Access) (fd : FlashromData) : Prop where
  plain : fd.flags.parallelEeprom = false
  unlocked : unlocks fd.state <:+ recent
  noPage : fd.state ≠ 8
  enabled : fd.state = 7 → fd.writeprot ≤ 0

/-- The bytes an erase of the chip sets. -/
theorem eraseChip_rom (h : Erased fd 0 fd.allocsize fd') :
    (∀ j, OfChip fd j → fd'.rom j = 0xff) ∧
      ∀ j < fd.allocsize, ¬ OfChip fd j → fd'.rom j = fd.rom j := by
  constructor
  · rintro j ⟨hj, k, rfl⟩
    rw [h.rom, if_pos ⟨k, lt_of_le_of_lt (le_mul_otherByteMult fd k) hj, by rw [Nat.zero_add]⟩]
  · intro j hj hnot
    rw [h.rom, if_neg]
    rintro ⟨i, -, rfl⟩
    exact hnot ⟨hj, i, by rw [Nat.zero_add]⟩

theorem eraseSector_rom (h : Erased fd (fd.sectorOf addr) fd.sectorsize fd') :
    (∀ j, OfSector fd addr j → fd'.rom j = 0xff) ∧
      ∀ j, ¬ OfSector fd addr j → fd'.rom j = fd.rom j :=
  ⟨fun j hj => (h.rom j).trans (if_pos hj), fun j hj => (h.rom j).trans (if_neg hj)⟩

/-- A state that unlocks `s` only. -/
theorem Locked.of_state (h : Locked recent fd) {after : List Access} (hflags : fd'.flags = fd.flags)
    (hs : unlocks fd'.state <:+ after) (h7 : fd'.state ≠ 7) (h8 : fd'.state ≠ 8) :
    Locked after fd' :=
  ⟨hflags ▸ h.plain, hs, h8, fun h => absurd h h7⟩

/-- A write that the chip takes keeps the lock, and does what it is licensed to. -/
theorem locked_command (h : Locked recent fd) (haddr : addr * fd.otherByteMult < fd.allocsize)
    (v : Byte) :
    Locked (recent ++ [.write addr v]) (fd.command addr v).1 ∧
      SameChip fd (fd.command addr v).1 ∧ Licensed recent addr v fd (fd.command addr v).1 := by
  have hunlocked := h.unlocked
  by_cases htake : fd.state = 7 ∨ fd.state = 8
  · have h7 : fd.state = 7 := htake.resolve_right h.noPage
    rw [command_taken htake]
    obtain ⟨modified, first, last, heq⟩ :=
      writeflash_plain h.plain (addr * fd.otherByteMult) v
    rw [h7] at hunlocked
    rw [heq, if_pos (h.enabled h7)]
    exact ⟨h.of_state rfl List.nil_suffix (by decide : 100 ≠ 7) (by decide : 100 ≠ 8),
      ⟨rfl, rfl, rfl, rfl, rfl⟩, .program hunlocked rfl (by decide : 100 ≠ 200)⟩
  · have hcases := @command_cases fd addr v htake
    generalize (fd.command addr v).1 = fd' at hcases ⊢
    cases hcases with
    | forgotten =>
      exact ⟨h.of_state rfl List.nil_suffix (Nat.zero_ne_add_one 6) (Nat.zero_ne_add_one 7),
        ⟨rfl, rfl, rfl, rfl, rfl⟩, .nothing rfl (Nat.zero_ne_add_one 199)⟩
    | @decoded s' hdec =>
      have hlt := decodes_lt hdec
      exact ⟨h.of_state rfl (unlocks_decodes hdec hunlocked) (Nat.ne_of_lt hlt)
        (Nat.ne_of_lt (Nat.lt_succ_of_lt hlt)), ⟨rfl, rfl, rfl, rfl, rfl⟩,
        .nothing rfl (Nat.ne_of_lt (lt_trans hlt (by decide)))⟩
    | enabled h2 ha hv =>
      subst ha hv
      rw [h2] at hunlocked
      obtain ⟨t, rfl⟩ := hunlocked
      have hsuffix : unlocks 7 <:+ t ++ unlocks 2 ++ [.write 0x5555 0xa0] :=
        ⟨t, by simp [unlocks]⟩
      exact ⟨⟨h.plain, hsuffix, (by decide : 7 ≠ 8), fun _ => (by decide : (-1 : Int) ≤ 0)⟩,
        ⟨rfl, rfl, rfl, rfl, rfl⟩, .nothing rfl (by decide : 7 ≠ 200)⟩
    | disabled h6 =>
      exact ⟨h.of_state rfl List.nil_suffix (Nat.zero_ne_add_one 6) (Nat.zero_ne_add_one 7),
        ⟨rfl, rfl, rfl, rfl, rfl⟩, .nothing rfl (Nat.zero_ne_add_one 199)⟩
    | chipErased h6 ha hv =>
      rw [h6] at hunlocked
      have herased := erased_eraseBytes fd 0 fd.allocsize
      obtain ⟨hin, hout⟩ := eraseChip_rom herased
      exact ⟨h.of_state herased.chip.flags List.nil_suffix (by decide : 200 ≠ 7)
        (by decide : 200 ≠ 8), ⟨herased.chip.1, herased.chip.2, herased.chip.3, herased.chip.4,
        herased.chip.5⟩, .eraseChip hunlocked ha hv hin hout⟩
    | sectorErased h6 hv =>
      rw [h6] at hunlocked
      have hsector : fd.sectorOf addr < fd.allocsize :=
        lt_of_le_of_lt ((Nat.sub_le _ _).trans (le_mul_otherByteMult fd addr)) haddr
      have herased := erased_eraseSector hsector
      obtain ⟨hin, hout⟩ := eraseSector_rom herased
      exact ⟨h.of_state herased.chip.flags List.nil_suffix (by decide : 200 ≠ 7)
        (by decide : 200 ≠ 8), ⟨herased.chip.1, herased.chip.2, herased.chip.3, herased.chip.4,
        herased.chip.5⟩, .eraseSector hunlocked hv hin hout⟩
    | byte hp => exact absurd (hp.symm.trans h.plain) (by decide)

/-! ### Reads and runs -/

/-- A read in a state that unlocks something leads back, and any other keeps a state that unlocks
nothing. -/
theorem locked_flashRead (h : Locked recent fd) (addr : BitVec 32) (a : Nat)
    (hselects : fd.Selects addr) :
    Locked (recent ++ [.read a]) (fd.flashRead addr).1 ∧ SameChip fd (fd.flashRead addr).1 ∧
      (fd.flashRead addr).1.rom = fd.rom := by
  have hcommit : fd.commitPage = fd := by
    rw [commitPage, if_neg]
    rintro ⟨hp, -⟩
    exact absurd (hp.symm.trans h.plain) (by decide)
  rw [flashRead, if_pos hselects, hcommit, answer]
  have hbusy : ∀ {s : Nat}, s > 8 → unlocks s <:+ recent ++ [.read a] := by
    intro s hs
    have hnil : unlocks s = [] := by
      rw [unlocks] <;> rintro rfl <;> contradiction
    exact hnil ▸ List.nil_suffix
  have h8 := h.noPage
  split_ifs with h3 h200 h210 h7 h110
  · have hnil : unlocks fd.state <:+ recent ++ [.read a] := h3 ▸ List.nil_suffix
    exact ⟨h.of_state rfl hnil (fun h7 => absurd (h3.symm.trans h7) (by decide)) h8, .refl fd, rfl⟩
  all_goals refine ⟨h.of_state rfl ?_ ?_ ?_, ⟨rfl, rfl, rfl, rfl, rfl⟩, rfl⟩
  all_goals simp only
  all_goals first
    | exact List.nil_suffix
    | exact hbusy (by omega)
    | omega

theorem locked_call (h : Locked recent fd) (c : FlashCall) :
    Locked (recent ++ (access fd c).toList) (fd.call c) ∧ SameChip fd (fd.call c) ∧
      Guarded recent fd (fd.call c) (access fd c) := by
  cases c with
  | write addr v =>
    rw [call, flashWrite, access]
    split_ifs with hselects
    · exact locked_command h (chipAddr_lt hselects) v
    · rw [Option.toList_none, List.append_nil]
      exact ⟨h, .refl fd, rfl⟩
  | read addr =>
    rw [access, call]
    split_ifs with hselects
    · exact locked_flashRead h addr _ hselects
    · rw [flashRead, if_neg hselects, Option.toList_none, List.append_nil]
      exact ⟨h, .refl fd, rfl⟩

theorem access_congr (h : SameChip fd fd') : access fd' = access fd := by
  funext c
  cases c <;> simp only [access, h.selects, h.chipAddr]

/-- The lock holds after any calls. -/
theorem locked_calls (h : Locked [] fd) (cs : List FlashCall) :
    Locked (accesses fd cs) (fd.calls cs) ∧ SameChip fd (fd.calls cs) := by
  induction cs using List.reverseRecOn with
  | nil => exact ⟨h, .refl fd⟩
  | append_singleton cs c ih =>
    obtain ⟨hlocked, hchip⟩ := ih
    obtain ⟨hnext, hchip', -⟩ := locked_call hlocked c
    rw [access_congr hchip] at hnext
    rw [calls, List.foldl_append, List.foldl_cons, List.foldl_nil, ← calls, accesses,
      List.filterMap_append]
    refine ⟨?_, hchip.trans hchip'⟩
    cases haccess : access fd c <;> simpa [accesses, haccess] using hnext

theorem locked_new (rom : Image) (flashsize allocsize : Nat) (mfgcode devcode : Byte)
    {flags : FlashromFlags} (h : flags.parallelEeprom = false) :
    Locked [] (flashNew rom flashsize allocsize mfgcode devcode flags) :=
  ⟨h, List.nil_suffix, Nat.zero_ne_add_one 7, fun h => absurd h (Nat.zero_ne_add_one 6)⟩

/-- **Write protection.** After any calls, a call changes the memory only as the accesses before it
license it to. -/
theorem guarded_calls (rom : Image) (flashsize allocsize : Nat) (mfgcode devcode : Byte)
    {flags : FlashromFlags} (h : flags.parallelEeprom = false) (cs : List FlashCall)
    (c : FlashCall) :
    let fd := flashNew rom flashsize allocsize mfgcode devcode flags
    Guarded (accesses fd cs) (fd.calls cs) ((fd.calls cs).call c) (access fd c) := by
  intro fd
  obtain ⟨hlocked, hchip⟩ := locked_calls (locked_new rom flashsize allocsize mfgcode devcode h) cs
  obtain ⟨-, -, hguarded⟩ := locked_call hlocked c
  rwa [access_congr hchip] at hguarded

/-- No flags. -/
def noFlags : FlashromFlags := ⟨false, false, false, false, false⟩

/-- A chip of 128 KB, and a programming write of 0. -/
def smallRom : FlashromData := flashNew (fun _ => 0xff) 131072 131072 0x01 0x20 noFlags

theorem guarded_calls_small : Guarded (accesses smallRom [.write 0x5555 0xaa, .write 0x2aaa 0x55,
    .write 0x5555 0xa0]) (smallRom.calls [.write 0x5555 0xaa, .write 0x2aaa 0x55,
    .write 0x5555 0xa0]) ((smallRom.calls [.write 0x5555 0xaa, .write 0x2aaa 0x55,
    .write 0x5555 0xa0]).call (.write 7 0)) (access smallRom (.write 7 0)) :=
  guarded_calls (fun _ => 0xff) 131072 131072 0x01 0x20 rfl _ _

/-- The write calls, also those outside the range of the chip. -/
def writes (fd : FlashromData) (cs : List FlashCall) : List Access :=
  cs.filterMap fun
    | .write addr v => some (.write (fd.chipAddr addr) v)
    | .read _ => none

/-- A write outside the range may come in between: the memory changes, and the last three calls
were not the unlock sequence. -/
theorem write_outside_between : ¬ ∀ (rom : Image) (flashsize allocsize : Nat)
    (mfgcode devcode : Byte) (flags : FlashromFlags), flags.parallelEeprom = false →
    ∀ (cs : List FlashCall) (c : FlashCall),
    let fd := flashNew rom flashsize allocsize mfgcode devcode flags
    ((fd.calls cs).call c).rom ≠ (fd.calls cs).rom →
      programming <:+ writes fd cs ∨ erasing <:+ writes fd cs := by
  intro h
  have hrun := h (fun _ => 0xff) 131072 131072 0x01 0x20 noFlags rfl [.write 0x5555 0xaa,
    .write 0x2aaa 0x55, .write 0x20000 0, .write 0x5555 0xa0] (.write 7 0) (fun heq => absurd
      (congrFun heq 7) (by decide))
  exact absurd hrun (by decide)

end LibretroUae.Flash
