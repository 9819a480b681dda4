import LibretroUae.Flash.I2c
import Mathlib.Data.Nat.Bitwise
import Mathlib.Tactic.Linarith

/-!
# LibretroUae.Flash.I2cFraming

**Transfers of the I2C EEPROM.** What a START is for: the next byte is a device address, a
word address and data bytes follow one for writing, and bytes from the current address follow
one for reading. A START does not touch the state of the protocol, so this is what happens
exactly if that state still waits for a device address.
-/

namespace LibretroUae.Flash

open Lib BitbangI2c

/-! ### What a START is for -/

/-- The address of the `k`-th byte that is written in the page of `a`. -/
def pageAddr (a k : Nat) : Nat := a / 16 * 16 + (a + k) % 16

/-- Bytes written in the page of `a`, from the `k`-th on. -/
def pageWrite (a : Nat) : Nat → List Byte → Image → Image
  | _, [], m => m
  | k, b :: bs, m => pageWrite a (k + 1) bs (Function.update m (pageAddr a k) b)

/-- The word address with the block of the device address. -/
def wordAddress (size : Nat) (device word : Byte) : Nat :=
  device.toNat / 2 % (size / 256) * 256 + word.toNat

/-- Bytes with what is on the data line at their acknowledge. -/
def sentBits (bytes : List (Byte × Bool)) : List Bool :=
  bytes.flatMap fun b => byteBits b.1 ++ [b.2]

/-- The data line falls while both lines are high. -/
def startCondition : Change := ⟨.sda, some false⟩

/-- A START begins a transfer. -/
structure Framed (i : BitbangI2c) : Prop where
  /-- The address of another device: nothing happens. -/
  other : ∀ (device : Byte) (d : Bool) (bits : List Bool) (cs : List Change),
    device &&& 0xf0 ≠ 0xa0 → ClockedBits (sentBits [(device, d)] ++ bits) cs →
    (changes i (startCondition :: cs)).memory = i.memory ∧
      (changes i (startCondition :: cs)).state = .stopped
  /-- A write address, a word address and data. -/
  write : ∀ (device word : Byte) (d d' : Bool) (bytes : List (Byte × Bool)) (cs : List Change),
    device &&& 0xf0 = 0xa0 → device.toNat % 2 = 0 →
    ClockedBits (sentBits ((device, d) :: (word, d') :: bytes)) cs →
    (changes i (startCondition :: cs)).memory =
      pageWrite (wordAddress i.size device word) 0 (bytes.map Prod.fst) i.memory
  /-- A read address, and bytes that the master acknowledges but the last. -/
  read : ∀ (device : Byte) (d : Bool) (whole : List (List Bool)) (part : List Bool) (b : Bool)
    (cs : List Change), device &&& 0xf0 = 0xa0 → device.toNat % 2 = 1 →
    (∀ bits ∈ whole, bits.length = 8) → part.length < 8 →
    ClockedBits (sentBits [(device, d)] ++
      (whole.flatMap (fun bits => bits ++ [false]) ++ (part ++ [b]))) cs →
    (changes i (startCondition :: cs)).memory = i.memory ∧
    (eepromI2cSet (changes i (startCondition :: cs)) ⟨.sda, none⟩).1 =
      ((i.memory ((i.eepromAddr + whole.length) % i.size)).getMsbD part.length && b)

/-! ### Reachable interfaces -/

/-- The interfaces that calls make of a new one. -/
inductive Reachable (memory : Image) (size : Nat) (zf : Option Image) : BitbangI2c → Prop
  | new : Reachable memory size zf (eepromNew memory size zf)
  | set {i : BitbangI2c} (c : Change) :
      Reachable memory size zf i → Reachable memory size zf (eepromI2cSet i c).2
  | reset {i : BitbangI2c} : Reachable memory size zf i → Reachable memory size zf (eepromReset i)

/-- An EEPROM of `256 * 2 ^ k` bytes. -/
structure Eeprom (k : Nat) (i : BitbangI2c) : Prop where
  size : i.size = 2 ^ (8 + k)
  addressbitmask : i.addressbitmask = 2 ^ k - 1
  deviceAddress : i.deviceAddress = 0xa0
  deviceAddressMask : i.deviceAddressMask = 0xf0
  eepromAddr : i.eepromAddr < 2 ^ (8 + k)

variable {k : Nat} {i : BitbangI2c}

/-- The current address stays in the memory when its low bits change. -/
theorem nextInPage_lt (h : i.eepromAddr < 2 ^ (8 + k)) : nextInPage i.eepromAddr < 2 ^ (8 + k) := by
  have hpow : (2 : Nat) ^ (8 + k) = 16 * (2 ^ (4 + k)) := by
    rw [show 8 + k = 4 + (4 + k) by omega, pow_add 2 4]
    norm_num
  rw [hpow] at h ⊢
  simp only [nextInPage, nvramPageSize]
  omega

theorem block_lt (x : Nat) : (x &&& (2 ^ k - 1)) * 2 ^ 8 + 2 ^ 8 ≤ 2 ^ (8 + k) := by
  rw [Nat.and_two_pow_sub_one_eq_mod, pow_add]
  have := Nat.mod_lt x (Nat.two_pow_pos k)
  nlinarith

/-- A word address replaces the low byte and keeps the block. -/
theorem word_address (x : Nat) (w : Byte) :
    ((x &&& (2 ^ k - 1)) * 2 ^ 8 &&& (2 ^ k - 1) * 2 ^ 8) ||| w.toNat =
      (x &&& (2 ^ k - 1)) * 2 ^ 8 + w.toNat := by
  have hand : (x &&& (2 ^ k - 1)) * 2 ^ 8 &&& (2 ^ k - 1) * 2 ^ 8 =
      2 ^ 8 * (x &&& (2 ^ k - 1)) := by
    apply Nat.eq_of_testBit_eq
    intro j
    rw [Nat.mul_comm (2 ^ 8)]
    simp only [Nat.testBit_and, Nat.testBit_mul_two_pow, Nat.testBit_two_pow_sub_one]
    grind
  rw [hand, ← Nat.two_pow_add_eq_or_of_lt w.isLt, Nat.mul_comm]

theorem eeprom_flush (h : Eeprom k i) : Eeprom k i.flush := by
  simp only [flush]
  split
  · exact h
  · split_ifs <;> exact ⟨h.1, h.2, h.3, h.4, h.5⟩

theorem eeprom_received (h : Eeprom k i) : Eeprom k i.received := by
  simp only [received]
  split
  · split_ifs
    · exact ⟨h.1, h.2, h.3, h.4, h.5⟩
    · refine ⟨h.1, h.2, h.3, h.4, ?_⟩
      have hblock := block_lt (k := k) (i.buffer.toNat / 2)
      simp only [h.addressbitmask]
      omega
  · have hword : i.buffer.toNat < 2 ^ (8 + k) :=
      lt_of_lt_of_le i.buffer.isLt (Nat.pow_le_pow_right (by norm_num) (Nat.le_add_right _ _))
    exact ⟨h.1, h.2, h.3, h.4, Nat.or_lt_two_pow (lt_of_le_of_lt Nat.and_le_left h.5) hword⟩
  · split_ifs
    · exact ⟨h.1, h.2, h.3, h.4, nextInPage_lt h.5⟩
    · exact h

theorem eeprom_acknowledge (h : Eeprom k i) : Eeprom k i.acknowledge.2 := by
  have hr := eeprom_received h
  simp only [acknowledge, ret]
  split_ifs
  · exact ⟨h.1, h.2, h.3, h.4, h.5⟩
  · exact ⟨hr.1, hr.2, hr.3, hr.4, hr.5⟩
  · exact ⟨hr.1, hr.2, hr.3, hr.4, hr.5⟩

theorem eeprom_clockRise (h : Eeprom k i) : Eeprom k i.clockRise.2 := by
  unfold clockRise
  split
  · exact ⟨h.1, h.2, h.3, h.4, h.5⟩
  · exact ⟨h.1, h.2, h.3, h.4, h.5⟩
  · exact ⟨h.1, h.2, h.3, h.4, h.5⟩
  · exact eeprom_acknowledge h
  · simp only [ret]
    split_ifs
    · refine ⟨h.1, h.2, h.3, h.4, ?_⟩
      simp only [fetch, h.size, Nat.and_two_pow_sub_one_eq_mod]
      exact Nat.mod_lt _ (Nat.two_pow_pos _)
    · exact ⟨h.1, h.2, h.3, h.4, h.5⟩
  · exact ⟨h.1, h.2, h.3, h.4, h.5⟩

theorem eeprom_set (h : Eeprom k i) (c : Change) : Eeprom k (eepromI2cSet i c).2 := by
  have hf : ∀ d, Eeprom k ({ i with lastData := d } : BitbangI2c).flush := fun d =>
    eeprom_flush ⟨h.1, h.2, h.3, h.4, h.5⟩
  simp only [eepromI2cSet, nop, ret, enterStop]
  split <;> split_ifs
  · exact ⟨h.1, h.2, h.3, h.4, h.5⟩
  · exact ⟨h.1, h.2, h.3, h.4, h.5⟩
  · exact ⟨h.1, h.2, h.3, h.4, h.5⟩
  · exact ⟨(hf _).1, (hf _).2, (hf _).3, (hf _).4, (hf _).5⟩
  · exact ⟨h.1, h.2, h.3, h.4, h.5⟩
  · exact ⟨h.1, h.2, h.3, h.4, h.5⟩
  · exact eeprom_clockRise ⟨h.1, h.2, h.3, h.4, h.5⟩

theorem eeprom_reachable {memory : Image} {zf : Option Image}
    (h : Reachable memory (256 * 2 ^ k) zf i) : Eeprom k i := by
  induction h with
  | new =>
    refine ⟨(pow_add 2 8 k).symm, ?_, rfl, rfl, Nat.two_pow_pos _⟩
    simp [eepromNew, eepromReset]
  | set c _ ih => exact eeprom_set ih c
  | reset _ ih => exact ⟨ih.1, ih.2, ih.3, ih.4, Nat.two_pow_pos _⟩

/-! ### Bytes of a transfer -/

/-- A rise of the clock leaves the kind of EEPROM alone. -/
theorem eeprom_rise (h : Eeprom k i) (b : Bool) : Eeprom k (rise i b) :=
  eeprom_clockRise ⟨h.1, h.2, h.3, h.4, h.5⟩

theorem eeprom_foldl {bits : List Bool} : ∀ {i : BitbangI2c}, Eeprom k i →
    Eeprom k (bits.foldl rise i) := by
  induction bits with
  | nil => exact fun h => h
  | cons b bits ih => exact fun h => ih (eeprom_rise h b)

/-- The data bytes of a write. -/
theorem foldl_data {a : Nat} {bytes : List (Byte × Bool)} : ∀ {n : Nat} {i : BitbangI2c},
    i.state = .sendingBit 7 → i.estate = .data → i.currentAddr % 2 = 0 →
    i.eepromAddr = pageAddr a n →
    ((sentBits bytes).foldl rise i).memory = pageWrite a n (bytes.map Prod.fst) i.memory := by
  induction bytes with
  | nil => exact fun _ _ _ _ => rfl
  | cons byte bytes ih =>
    intro n i hstate hestate hcur haddr
    have hodd : ¬ i.currentAddr % 2 = 1 := by omega
    have hone : (sentByte i byte.1 byte.2).acknowledge.2 =
        { sentByte i byte.1 byte.2 with
          state := .sendingBit 7
          deviceOut := false
          writeOffset := some (i.writeOffset.getD i.eepromAddr)
          memory := Function.update i.memory (pageAddr a n) byte.1
          eepromAddr := nextInPage (pageAddr a n) } := by
      simp [acknowledge, refuses, received, sentByte, hestate, hcur, ret, haddr]
    have hnext : nextInPage (pageAddr a n) = pageAddr a (n + 1) := by
      simp only [nextInPage, pageAddr, nvramPageSize]
      omega
    rw [sentBits, List.flatMap_cons, List.foldl_append, foldl_byteBits hstate, hone, hnext,
      ← sentBits]
    exact ih rfl hestate hcur rfl

theorem rise_lastData (i : BitbangI2c) (b : Bool) : (rise i b).lastData = b := by
  simp only [rise, clockRise, acknowledge, received, ret]
  repeat' split
  all_goals rfl

/-- The interface `j` has shifted out `m` bits of the byte that `i` was about to read. -/
structure Shifting (i : BitbangI2c) (m : Nat) (j : BitbangI2c) : Prop where
  state : j.state = if m = 8 then .sendingAck else .receivingBit (Fin.ofNat 8 (7 - m))
  buffer : j.buffer = i.memory i.eepromAddr <<< m
  eepromAddr : j.eepromAddr = (i.eepromAddr + 1) &&& (i.size - 1)
  memory : j.memory = i.memory
  size : j.size = i.size
  deviceOut : j.deviceOut = (i.memory i.eepromAddr).getMsbD (m - 1)

theorem shifting_first (hstate : i.state = .receivingBit 7) (b : Bool) :
    Shifting i 1 (rise i b) := by
  refine ⟨?_, ?_, ?_, ?_, ?_, ?_⟩ <;>
    simp [rise, clockRise, hstate, fetch, ret, nextState, BitVec.msb]

theorem shifting_rise {j : BitbangI2c} {m : Nat} (h : Shifting i m j) (hpos : 1 ≤ m) (hm : m < 8)
    (b : Bool) : Shifting i (m + 1) (rise j b) := by
  have hstate := h.state
  have hne : ¬ Fin.ofNat 8 (7 - m) = 7 := by interval_cases m <;> decide
  rw [if_neg (by omega)] at hstate
  refine ⟨?_, ?_, ?_, ?_, ?_, ?_⟩ <;> simp only [rise, clockRise, hstate, ret, hne, if_false]
  · interval_cases m <;> rfl
  · rw [h.buffer, BitVec.shiftLeft_add]
  · exact h.eepromAddr
  · exact h.memory
  · exact h.size
  · rw [h.buffer, BitVec.msb, BitVec.getMsbD_shiftLeft]
    simp

/-- The rises that shift a byte out. -/
theorem shifting_foldl {bits : List Bool} (b : Bool) (hstate : i.state = .receivingBit 7)
    (hlen : bits.length < 8) :
    Shifting i (bits.length + 1) ((bits ++ [b]).foldl rise i) := by
  induction bits using List.reverseRecOn generalizing b with
  | nil => exact shifting_first hstate b
  | append_singleton bits c ih =>
    rw [List.length_append, List.length_singleton] at hlen ⊢
    rw [List.foldl_append]
    exact shifting_rise (ih c (by omega)) (by omega) (by omega) b

/-- Bytes that the master acknowledges. -/
theorem foldl_whole {whole : List (List Bool)} : ∀ {i : BitbangI2c}, Eeprom k i →
    i.state = .receivingBit 7 → (∀ bits ∈ whole, bits.length = 8) →
    ∃ j, (whole.flatMap fun bits => bits ++ [false]).foldl rise i = j ∧ Eeprom k j ∧
      j.state = .receivingBit 7 ∧ j.memory = i.memory ∧
      j.eepromAddr = (i.eepromAddr + whole.length) % i.size := by
  induction whole with
  | nil =>
    intro i h hstate _
    refine ⟨i, rfl, h, hstate, rfl, ?_⟩
    rw [List.length_nil, Nat.add_zero, h.size, Nat.mod_eq_of_lt h.eepromAddr]
  | cons bits whole ih =>
    intro i h hstate hwhole
    have hlen := hwhole bits (by simp)
    obtain ⟨init, last, rfl⟩ : ∃ init last, bits = init ++ [last] :=
      ⟨bits.dropLast, _, (List.dropLast_append_getLast (by rintro rfl; cases hlen)).symm⟩
    rw [List.length_append, List.length_singleton] at hlen
    have hbyte := @shifting_foldl _ init last hstate (by omega)
    have hkind : Eeprom k ((init ++ [last]).foldl rise i) := eeprom_foldl h
    rw [hlen] at hbyte
    rw [List.flatMap_cons, List.foldl_append, List.foldl_append]
    generalize (init ++ [last]).foldl rise i = x at hbyte hkind
    have hack : rise x false = { x with
        lastData := false, lastClock := true, state := .receivingBit 7, deviceOut := true } := by
      simp [rise, clockRise, hbyte.state, ret]
    obtain ⟨j, hj, hkind', hstate', hmem, haddr⟩ := ih (i := rise x false)
      (eeprom_rise hkind false) (by rw [hack]) fun bits hbits => hwhole bits (by simp [hbits])
    refine ⟨j, hj, hkind', hstate', ?_, ?_⟩
    · rw [hmem, hack]
      exact hbyte.memory
    · rw [haddr, hack]
      simp only [hbyte.eepromAddr, hbyte.size, h.size, Nat.and_two_pow_sub_one_eq_mod,
        Nat.mod_add_mod, List.length_cons]
      congr 1
      omega

/-! ### Transfers -/

/-- The interface after a START. -/
def started (i : BitbangI2c) : BitbangI2c :=
  { i with lastData := false, state := .sendingBit 7, currentAddr := -1, deviceOut := true }

theorem changes_start (hd : i.lastData = true) (hc : i.lastClock = true) {bits : List Bool}
    {cs : List Change} (hcs : ClockedBits bits cs) :
    changes i (startCondition :: cs) = bits.foldl rise (started i) := by
  have hstart : (eepromI2cSet i startCondition).2 = started i := by
    simp [eepromI2cSet, startCondition, hd, hc, ret, started]
  rw [changes, List.foldl_cons, hstart, ← changes, changes_clockedBits hcs]

theorem foldl_stopped {bits : List Bool} : ∀ {i : BitbangI2c}, i.state = .stopped →
    (bits.foldl rise i).memory = i.memory ∧ (bits.foldl rise i).state = .stopped := by
  induction bits with
  | nil => exact fun h => ⟨rfl, h⟩
  | cons b bits ih =>
    intro i h
    have hrise : (rise i b).memory = i.memory ∧ (rise i b).state = .stopped := by
      simp [rise, clockRise, h, ret]
    exact ⟨(ih hrise.2).1.trans hrise.1, (ih hrise.2).2⟩

/-- The interface reads, or has nothing more to read. -/
def Reads (i : BitbangI2c) : Prop := match i.state with
  | .receivingBit _ | .sendingAck | .sentNack => True
  | _ => False

theorem foldl_reads {bits : List Bool} : ∀ {i : BitbangI2c}, Reads i →
    (bits.foldl rise i).memory = i.memory := by
  induction bits with
  | nil => exact fun _ => rfl
  | cons b bits ih =>
    intro i h
    have hrise : Reads (rise i b) ∧ (rise i b).memory = i.memory := by
      unfold Reads at h
      split at h
      · rename_i n hstate
        simp only [rise, clockRise, hstate, ret, nextState, Reads]
        refine ⟨?_, ?_⟩
        · split <;> simp_all
        · split_ifs <;> rfl
      · rename_i hstate
        simp only [rise, clockRise, hstate, ret, Reads]
        cases b <;> simp
      · rename_i hstate
        simp [rise, clockRise, hstate, ret, Reads]
      · exact h.elim
    exact (ih hrise.1).trans hrise.2

theorem acknowledge_refused (h : i.refuses) : i.acknowledge.2 =
    { i with currentAddr := i.buffer.toNat, state := .stopped, deviceOut := false } := by
  rw [acknowledge, if_pos h]
  rfl

theorem acknowledge_received (h : ¬ i.refuses) {s : BitbangState}
    (hs : s = if i.received.currentAddr % 2 = 1 then .receivingBit 7 else .sendingBit 7) :
    i.acknowledge.2 = { i.received with state := s, deviceOut := false } := by
  simp only [acknowledge, if_neg h, hs]
  split_ifs <;> rfl

theorem received_write (he : i.estate = .deviceaddr) (heven : i.buffer.toNat % 2 = 0) :
    i.received = { i with
      currentAddr := i.buffer.toNat, estate := .wordaddr
      eepromAddr := (i.buffer.toNat / 2 &&& i.addressbitmask) * 2 ^ 8 } := by
  simp [received, he, heven]

theorem received_read (he : i.estate = .deviceaddr) (hodd : i.buffer.toNat % 2 = 1) :
    i.received = { i with currentAddr := i.buffer.toNat, estate := .data } := by
  simp [received, he, hodd]

theorem received_word (he : i.estate = .wordaddr) :
    i.received = { i with
      estate := .data
      eepromAddr := (i.eepromAddr &&& i.addressbitmask * 2 ^ 8) ||| i.buffer.toNat } := by
  simp [received, he]

/-- The device address of a write, after a START. -/
theorem foldl_device_write (h : Eeprom k i) (he : i.estate = .deviceaddr) {device : Byte}
    (d : Bool) (hmatch : device &&& 0xf0 = 0xa0) (heven : device.toNat % 2 = 0) :
    (byteBits device ++ [d]).foldl rise (started i) = { sentByte (started i) device d with
      currentAddr := device.toNat, estate := .wordaddr
      eepromAddr := (device.toNat / 2 &&& (2 ^ k - 1)) * 2 ^ 8
      state := .sendingBit 7, deviceOut := false } := by
  have hdevice : (sentByte (started i) device d).received = { sentByte (started i) device d with
      currentAddr := device.toNat, estate := .wordaddr
      eepromAddr := (device.toNat / 2 &&& i.addressbitmask) * 2 ^ 8 } := received_write he heven
  rw [foldl_byteBits rfl, acknowledge_received (s := .sendingBit 7), hdevice, h.addressbitmask]
  · intro hrefuses
    refine hrefuses.2 ?_
    change device &&& i.deviceAddressMask = i.deviceAddress
    rw [h.deviceAddressMask, h.deviceAddress, hmatch]
  · rw [hdevice, if_neg]
    simp only
    omega

/-- The device address of a read, after a START. -/
theorem foldl_device_read (h : Eeprom k i) (he : i.estate = .deviceaddr) {device : Byte}
    (d : Bool) (hmatch : device &&& 0xf0 = 0xa0) (hodd : device.toNat % 2 = 1) :
    (byteBits device ++ [d]).foldl rise (started i) = { sentByte (started i) device d with
      currentAddr := device.toNat, estate := .data, state := .receivingBit 7
      deviceOut := false } := by
  have hdevice : (sentByte (started i) device d).received = { sentByte (started i) device d with
      currentAddr := device.toNat, estate := .data } := received_read he hodd
  rw [foldl_byteBits rfl, acknowledge_received (s := .receivingBit 7), hdevice]
  · intro hrefuses
    refine hrefuses.2 ?_
    change device &&& i.deviceAddressMask = i.deviceAddress
    rw [h.deviceAddressMask, h.deviceAddress, hmatch]
  · rw [hdevice, if_pos]
    simp only
    omega

/-- The word address. -/
theorem foldl_word (h : Eeprom k i) (hstate : i.state = .sendingBit 7) (he : i.estate = .wordaddr)
    (hcur : i.currentAddr % 2 = 0) {x : Nat} (haddr : i.eepromAddr = (x &&& (2 ^ k - 1)) * 2 ^ 8)
    (word : Byte) (d : Bool) :
    (byteBits word ++ [d]).foldl rise i = { sentByte i word d with
      estate := .data, eepromAddr := x % 2 ^ k * 2 ^ 8 + word.toNat
      state := .sendingBit 7, deviceOut := false } := by
  have hword : (sentByte i word d).received = { sentByte i word d with
      estate := .data
      eepromAddr := (i.eepromAddr &&& i.addressbitmask * 2 ^ 8) ||| word.toNat } := received_word he
  rw [foldl_byteBits hstate, acknowledge_received (s := .sendingBit 7), hword, haddr,
    h.addressbitmask, word_address, Nat.and_two_pow_sub_one_eq_mod]
  · intro hrefuses
    exact absurd (he.symm.trans hrefuses.1) (by decide)
  · rw [hword, if_neg]
    simp only [sentByte]
    omega

/-- Where the protocol waits for a device address, a START begins a transfer. -/
theorem framed_of_deviceaddr (h : Eeprom k i) (hd : i.lastData = true) (hc : i.lastClock = true)
    (he : i.estate = .deviceaddr) : Framed i := by
  refine ⟨?_, ?_, ?_⟩
  · intro device d bits cs hother hcs
    have hrefuses : (sentByte (started i) device d).refuses := by
      refine ⟨he, ?_⟩
      change device &&& i.deviceAddressMask ≠ i.deviceAddress
      rwa [h.deviceAddressMask, h.deviceAddress]
    rw [changes_start hd hc hcs, List.foldl_append, sentBits, List.flatMap_singleton,
      foldl_byteBits rfl, acknowledge_refused hrefuses]
    exact foldl_stopped rfl
  · intro device word d d' bytes cs hmatch heven hcs
    have hsize : i.size / 256 = 2 ^ k := by
      rw [h.size, pow_add]
      exact Nat.mul_div_cancel_left _ (by norm_num)
    have hfirst := foldl_device_write h he d hmatch heven
    rw [changes_start hd hc hcs, sentBits, List.flatMap_cons, List.foldl_append]
    generalize (byteBits device ++ [d]).foldl rise (started i) = y at hfirst ⊢
    have heven' : y.currentAddr % 2 = 0 := by
      rw [hfirst]
      simp only
      omega
    have hkind : Eeprom k y := by
      rw [hfirst]
      refine ⟨h.1, h.2, h.3, h.4, ?_⟩
      have := block_lt (k := k) (device.toNat / 2)
      simp only
      omega
    rw [List.flatMap_cons, List.foldl_append, foldl_word (x := device.toNat / 2) hkind
      (by rw [hfirst]) (by rw [hfirst]) heven' (by rw [hfirst]), ← sentBits]
    have hmem : y.memory = i.memory := by
      rw [hfirst]
      rfl
    rw [← hmem]
    refine foldl_data (a := wordAddress i.size device word) (n := 0) rfl rfl heven' ?_
    simp only [pageAddr, wordAddress, hsize]
    omega
  · intro device d whole part b cs hmatch hodd hwhole hpart hcs
    rw [changes_start hd hc hcs, List.foldl_append, sentBits, List.flatMap_singleton,
      foldl_device_read h he d hmatch hodd, List.foldl_append]
    obtain ⟨j, hj, hkind, hstate, hmem, haddr⟩ := foldl_whole (k := k) (i := {
      sentByte (started i) device d with
        currentAddr := device.toNat, estate := .data, state := .receivingBit 7, deviceOut := false })
      ⟨h.1, h.2, h.3, h.4, h.5⟩ rfl hwhole
    rw [hj]
    have hpart' := shifting_foldl b hstate hpart
    have hlast : ((part ++ [b]).foldl rise j).lastData = b := by
      rw [List.foldl_append]
      exact rise_lastData _ b
    refine ⟨hpart'.memory.trans hmem, ?_⟩
    have hask : ∀ x : BitbangI2c, (eepromI2cSet x ⟨.sda, none⟩).1 = (x.deviceOut && x.lastData) :=
      fun x => by simp [eepromI2cSet, nop, ret]
    rw [hask, hlast, hpart'.deviceOut, hmem, haddr]
    rfl

/-- Elsewhere the bytes after a START are not written, whatever they are. -/
theorem memory_of_not_deviceaddr (he : i.estate ≠ .deviceaddr) (hd : i.lastData = true)
    (hc : i.lastClock = true) {byte : Byte} {d : Bool} {bits : List Bool} {cs : List Change}
    (hcs : ClockedBits (byteBits byte ++ [d] ++ bits) cs) :
    (changes i (startCondition :: cs)).memory = i.memory := by
  have hnot : ¬ (sentByte (started i) byte d).refuses := fun h => he h.1
  have hcur : (sentByte (started i) byte d).received.currentAddr = -1 ∧
      (sentByte (started i) byte d).received.memory = i.memory := by
    simp only [received, sentByte, started]
    split
    · exact absurd ‹_› he
    · exact ⟨rfl, rfl⟩
    · simp
  rw [changes_start hd hc hcs, List.foldl_append, foldl_byteBits rfl,
    acknowledge_received (s := .receivingBit 7) hnot (by rw [hcur.1]; rfl)]
  exact (foldl_reads (by simp only [Reads])).trans hcur.2

theorem deviceaddr_of_framed (hd : i.lastData = true) (hc : i.lastClock = true) (h : Framed i) :
    i.estate = .deviceaddr := by
  by_contra he
  have hne : ∀ b : Byte, b ≠ b + 1 := by decide
  let a := pageAddr (wordAddress i.size 0xa0 0) 0
  have hcs := clockedBits_bitCalls (sentBits [((0xa0 : Byte), false), (0, false),
    (i.memory a + 1, false)])
  have hwrite := h.write 0xa0 0 false false [(i.memory a + 1, false)] _ (by decide) (by decide) hcs
  have hbits : sentBits [((0xa0 : Byte), false), (0, false), (i.memory a + 1, false)] =
      byteBits 0xa0 ++ [false] ++ sentBits [((0 : Byte), false), (i.memory a + 1, false)] := rfl
  rw [hbits] at hcs hwrite
  rw [memory_of_not_deviceaddr he hd hc hcs] at hwrite
  refine hne (i.memory a) ((congrFun hwrite a).trans ?_)
  exact Function.update_self ..

/-- **I2C framing.** A START that comes while both lines are high begins a transfer exactly if
the protocol waits for a device address. -/
theorem framed_iff {memory : Image} {zf : Option Image}
    (hr : Reachable memory (256 * 2 ^ k) zf i) (hd : i.lastData = true) (hc : i.lastClock = true) :
    Framed i ↔ i.estate = .deviceaddr :=
  ⟨deviceaddr_of_framed hd hc, framed_of_deviceaddr (eeprom_reachable hr) hd hc⟩

theorem reachable_changes {memory : Image} {size : Nat} {zf : Option Image} {cs : List Change} :
    ∀ {i : BitbangI2c}, Reachable memory size zf i → Reachable memory size zf (changes i cs) := by
  induction cs with
  | nil => exact fun h => h
  | cons c cs ih => exact fun h => ih (h.set c)

/-- The EEPROM after a byte was written and the transfer stopped. -/
def writtenOnce : BitbangI2c :=
  changes (eepromNew (fun _ => 0) 256 none)
    (startCondition :: bitCalls (sentBits [(0xa0, true), (0x10, true), (0x55, true)] ++ [false]) ++
      [⟨.sda, some true⟩])

theorem framed_iff_written : writtenOnce.memory 0x10 = 0x55 ∧
    (Framed writtenOnce ↔ writtenOnce.estate = .deviceaddr) := by
  have hd : writtenOnce.lastData = true := by decide +kernel
  have hc : writtenOnce.lastClock = true := by decide +kernel
  exact ⟨by decide +kernel,
    @framed_iff 0 _ (fun _ => 0) none (reachable_changes .new) hd hc⟩

/-- The EEPROM after the address of a write, when the lines are raised for a repeated START. -/
def addressedForWrite : BitbangI2c :=
  changes (eepromNew (fun _ => 0) 256 none)
    (startCondition :: bitCalls (sentBits [(0xa0, false), (0, false)] ++ [true]))

/-- The START that is repeated there begins no transfer. -/
theorem repeated_start_not_framed : ¬ ∀ i, Reachable (fun _ => 0) 256 none i →
    i.lastData = true → i.lastClock = true → Framed i := by
  intro h
  have hd : addressedForWrite.lastData = true := by decide +kernel
  have hc : addressedForWrite.lastClock = true := by decide +kernel
  have he : addressedForWrite.estate = .data := by decide +kernel
  have hframed := h addressedForWrite (reachable_changes .new) hd hc
  exact absurd (he.symm.trans (deviceaddr_of_framed hd hc hframed)) (by decide)

end LibretroUae.Flash
