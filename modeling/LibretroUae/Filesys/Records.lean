import LibretroUae.Lib.Machine
import Mathlib.Data.List.Nodup

/-!
# LibretroUae.Filesys.Records

**Record locks of a filesystem unit.** Every open handle (`Key`) keeps the records it has
locked in a list of its own; a request that collides with a record of another handle may
wait in the list of its unit, which is scanned again whenever a record is freed and aged by
every `record_timeout`.

A waiting request points to its packet, `lr->packet`, which is a variable of the call that
queued it and is gone by the time it is read. What a later read of its first argument shows
is an input of the packet that reads it (`arg1`).
-/

namespace LibretroUae.Filesys

open Lib

/-! ### The data -/

/-- The AmigaDOS errors that the handlers of this module answer. -/
inductive DosError
  | objectWrongType
  | recordNotLocked
  | lockCollision
  | lockTimeout
  deriving DecidableEq, Repr

inductive Fault
  | nullKey
  deriving DecidableEq, Repr

/-- `REC_EXCLUSIVE`, `REC_EXCLUSIVE_IMMED`, `REC_SHARED` and `REC_SHARED_IMMED`. -/
def recExclusive : UInt32 := 0
def recExclusiveImmed : UInt32 := 1
def recShared : UInt32 := 2
def recSharedImmed : UInt32 := 3

/-- `struct lockrecord`. -/
structure LockRecord where
  pos : UInt64
  len : UInt64
  mode : UInt32
  timeout : UInt32
  msg : UInt32
  deriving DecidableEq, Repr

/-- `struct key`: its address, its number, the number of its inode and its records. -/
structure Key where
  addr : Nat
  uniq : UInt32
  ainoUniq : UInt32
  record : List LockRecord
  deriving DecidableEq, Repr

/-- `struct _unit`. -/
structure FsUnit where
  keys : List Key
  waitingrecords : List LockRecord
  deriving DecidableEq, Repr

/-- What happens to the message of a packet: it is answered at once, or kept. -/
inductive Reply
  | success
  | failure (error : DosError)
  | queued
  deriving DecidableEq, Repr

namespace FsUnit

/-- `lookup_key`. -/
def lookupKey (unit : FsUnit) (uniq : UInt32) : Option Key :=
  unit.keys.find? fun k => uniq == k.uniq

/-- Stores the record list of the key at an address. -/
def setRecord (unit : FsUnit) (addr : Nat) (record : List LockRecord) : FsUnit :=
  { unit with keys := unit.keys.map fun k => if k.addr = addr then { k with record } else k }

end FsUnit

/-! ### The handlers -/

/-- `new_record`; `ticks timeout` is `timeout * vblank_hz / 50`. -/
def newRecord (ticks : UInt32 → UInt32) (pos len : UInt64) (mode timeout msg : UInt32) :
    LockRecord :=
  { pos, len, mode, timeout := ticks timeout, msg }

def isExclusive (mode : UInt32) : Bool := mode == recExclusive || mode == recExclusiveImmed

/-- The test of two ranges in `record_hit`. -/
def rangeHit (pos len : UInt64) (lr : LockRecord) : Bool :=
  let a1 := pos
  let a2 := pos + len
  let b1 := lr.pos
  let b2 := lr.pos + lr.len
  if len ≠ 0 ∧ lr.len ≠ 0 then
    (a1 ≥ b1 && a1 < b2) || (a2 > b1 && a2 < b2) || (b1 ≥ a1 && b1 < a2) || (b2 > a1 && b2 < a2)
  else false

/-- `record_hit`. -/
def recordHit (unit : FsUnit) (k : Key) (pos len : UInt64) (mode : UInt32) : Bool :=
  unit.keys.any fun k2 => k2.ainoUniq == k.ainoUniq && !(k2.addr == k.addr) &&
    k2.record.any fun lr => (isExclusive mode || isExclusive lr.mode) && rangeHit pos len lr

/-- One scan of the waiting list by `record_timeout`: every request it passes is one tick
older, and the first one out of time ends it. -/
def timeoutScan : List LockRecord → List LockRecord × Option LockRecord
  | [] => ([], none)
  | lr :: rest =>
    if lr.timeout - 1 = 0 then (rest, some lr)
    else
      let scan := timeoutScan rest
      ({ lr with timeout := lr.timeout - 1 } :: scan.1, scan.2)

/-- `record_timeout`, with the messages it marks as timed out. Every scan but the last
removes a request, so one more scan than there are requests is enough. -/
def recordTimeoutLoop : Nat → List LockRecord → List LockRecord × List UInt32
  | 0, waiting => (waiting, [])
  | n + 1, waiting =>
    match timeoutScan waiting with
    | (waiting, none) => (waiting, [])
    | (waiting, some lr) =>
      let rest := recordTimeoutLoop n waiting
      (rest.1, lr.msg :: rest.2)

def recordTimeout (unit : FsUnit) : FsUnit × List UInt32 :=
  let loop := recordTimeoutLoop (unit.waitingrecords.length + 1) unit.waitingrecords
  ({ unit with waitingrecords := loop.1 }, loop.2)

/-- Does `record_check_waiting` release this request? -/
def released (unit : FsUnit) (arg1 : LockRecord → UInt32) (lr : LockRecord) : Bool :=
  match unit.lookupKey (arg1 lr) with
  | none => true
  | some k => !recordHit unit k lr.pos lr.len lr.mode

/-- `record_check_waiting`, with the messages it marks as complete. The name of the key's
inode is logged, so a request whose key is gone makes it read through a null pointer. -/
def recordCheckWaitingLoop (unit : FsUnit) (arg1 : LockRecord → UInt32) :
    Nat → List LockRecord → Except Fault (List LockRecord × List UInt32)
  | 0, waiting => .ok (waiting, [])
  | n + 1, waiting =>
    match waiting.find? (released unit arg1) with
    | none => .ok (waiting, [])
    | some lr =>
      if unit.lookupKey (arg1 lr) = none then .error .nullKey
      else do
        let rest ← recordCheckWaitingLoop unit arg1 n (waiting.eraseP (released unit arg1))
        return (rest.1, lr.msg :: rest.2)

def recordCheckWaiting (unit : FsUnit) (arg1 : LockRecord → UInt32) :
    Except Fault (FsUnit × List UInt32) := do
  let loop ← recordCheckWaitingLoop unit arg1 (unit.waitingrecords.length + 1) unit.waitingrecords
  return ({ unit with waitingrecords := loop.1 }, loop.2)

/-- `action_lock_record64`. -/
def actionLockRecord64 (ticks : UInt32 → UInt32) (unit : FsUnit) (arg1 : UInt32)
    (pos len : UInt64) (mode timeout msg : UInt32) : FsUnit × Reply :=
  match unit.lookupKey arg1 with
  | none => (unit, .failure .objectWrongType)
  | some k =>
    if mode > recSharedImmed then (unit, .failure .objectWrongType)
    else
      let timeout := if mode = recExclusiveImmed ∨ mode = recSharedImmed then 0 else timeout
      if recordHit unit k pos len mode then
        if timeout ≠ 0 ∧ msg ≠ 0 then
          ({ unit with
              waitingrecords := newRecord ticks pos len mode timeout msg :: unit.waitingrecords },
            .queued)
        else (unit, .failure .lockCollision)
      else
        (unit.setRecord k.addr (newRecord ticks pos len mode timeout 0 :: k.record), .success)

/-- `action_lock_record`: the same on 32-bit positions. -/
def actionLockRecord (ticks : UInt32 → UInt32) (unit : FsUnit) (arg1 pos len : UInt32)
    (mode timeout msg : UInt32) : FsUnit × Reply :=
  actionLockRecord64 ticks unit arg1 pos.toUInt64 len.toUInt64 mode timeout msg

/-- The test of the loop in `action_free_record`. -/
def isRecord (pos len : UInt64) (lr : LockRecord) : Bool := lr.pos == pos && lr.len == len

/-- What the loop of `action_free_record` leaves of the key's list, if it frees a record.
`prev` is never set, so the list begins behind the record that is freed. -/
def freeLoop (pos len : UInt64) : List LockRecord → Option (List LockRecord)
  | [] => none
  | lr :: rest => if isRecord pos len lr then some rest else freeLoop pos len rest

/-- `action_free_record64`, with the messages that are complete after it. -/
def actionFreeRecord64 (unit : FsUnit) (arg1 : UInt32) (pos len : UInt64)
    (waiting : LockRecord → UInt32) : Except Fault (FsUnit × List UInt32 × Reply) :=
  match unit.lookupKey arg1 with
  | none => .ok (unit, [], .failure .objectWrongType)
  | some k =>
    match freeLoop pos len k.record with
    | none => .ok (unit, [], .failure .recordNotLocked)
    | some record => do
      let checked ← recordCheckWaiting (unit.setRecord k.addr record) waiting
      return (checked.1, checked.2, .success)

/-- `action_free_record`: the same on 32-bit positions. -/
def actionFreeRecord (unit : FsUnit) (arg1 pos len : UInt32) (waiting : LockRecord → UInt32) :
    Except Fault (FsUnit × List UInt32 × Reply) :=
  actionFreeRecord64 unit arg1 pos.toUInt64 len.toUInt64 waiting

/-- `free_key`. -/
def freeKey (unit : FsUnit) (k : Key) : FsUnit :=
  { unit with keys := unit.keys.filter fun k1 => k1.addr ≠ k.addr }

/-- What `action_end` does to the keys. -/
def actionEnd (unit : FsUnit) (arg1 : UInt32) : FsUnit :=
  match unit.lookupKey arg1 with
  | none => unit
  | some k => freeKey unit k

/-! ### The lists -/

@[simp] theorem setRecord_waitingrecords (unit : FsUnit) (addr : Nat) (record : List LockRecord) :
    (unit.setRecord addr record).waitingrecords = unit.waitingrecords := rfl

theorem mem_setRecord {unit : FsUnit} {addr : Nat} {record : List LockRecord} {k' : Key} :
    k' ∈ (unit.setRecord addr record).keys ↔
      ∃ k ∈ unit.keys, (if k.addr = addr then { k with record } else k) = k' :=
  List.mem_map

theorem map_addr_setRecord (unit : FsUnit) (addr : Nat) (record : List LockRecord) :
    (unit.setRecord addr record).keys.map Key.addr = unit.keys.map Key.addr := by
  rw [FsUnit.setRecord, List.map_map]
  refine List.map_congr_left fun k _ => ?_
  dsimp only [Function.comp]
  split <;> rfl

theorem lookupKey_mem {unit : FsUnit} {uniq : UInt32} {k : Key}
    (h : unit.lookupKey uniq = some k) : k ∈ unit.keys :=
  List.mem_of_find?_eq_some h

/-- Keys are told apart by their addresses. -/
theorem key_eq_of_addr {unit : FsUnit} (h : (unit.keys.map Key.addr).Nodup) {k k' : Key}
    (hk : k ∈ unit.keys) (hk' : k' ∈ unit.keys) (haddr : k.addr = k'.addr) : k = k' :=
  List.inj_on_of_nodup_map h hk hk' haddr

/-- Storing the list a key has already changes nothing. -/
theorem setRecord_self {unit : FsUnit} (h : (unit.keys.map Key.addr).Nodup) {k : Key}
    (hk : k ∈ unit.keys) : (unit.setRecord k.addr k.record).keys = unit.keys := by
  have hsame : ∀ k' ∈ unit.keys,
      (if k'.addr = k.addr then { k' with record := k.record } else k') = id k' := by
    intro k' hk'
    split_ifs with haddr
    · rw [key_eq_of_addr h hk' hk haddr]
      rfl
    · rfl
  rw [FsUnit.setRecord, List.map_congr_left hsame, List.map_id]

/-! ### Ranges -/

/-- Two ranges of bytes share one. -/
def Overlap (pos len pos' len' : UInt64) : Prop :=
  ∃ b, pos.toNat ≤ b ∧ b < pos.toNat + len.toNat ∧ pos'.toNat ≤ b ∧ b < pos'.toNat + len'.toNat

/-- The end of the range is a 64-bit number. -/
def Whole (pos len : UInt64) : Prop := pos.toNat + len.toNat < 2 ^ 64

theorem Whole.toNat_add {pos len : UInt64} (h : Whole pos len) :
    (pos + len).toNat = pos.toNat + len.toNat := by
  rw [UInt64.toNat_add, Nat.mod_eq_of_lt h]

/-- The test of `record_hit` finds the ranges that share a byte. -/
theorem rangeHit_iff {pos len : UInt64} {lr : LockRecord} (h : Whole pos len)
    (h' : Whole lr.pos lr.len) :
    rangeHit pos len lr = true ↔ Overlap pos len lr.pos lr.len := by
  have hzero : ∀ n : UInt64, n = 0 ↔ n.toNat = 0 := fun n => by
    rw [← UInt64.toNat_inj, UInt64.toNat_zero]
  simp only [rangeHit, ne_eq, hzero, ge_iff_le, Bool.or_eq_true, Bool.and_eq_true,
    decide_eq_true_eq, UInt64.le_iff_toNat_le, UInt64.lt_iff_toNat_lt, h.toNat_add, h'.toNat_add,
    Bool.if_false_right]
  constructor
  · rintro ⟨⟨hlen, hlen'⟩, hhit⟩
    exact ⟨max pos.toNat lr.pos.toNat, by omega⟩
  · rintro ⟨b, hlow, hhigh, hlow', hhigh'⟩
    omega

theorem Overlap.symm {pos len pos' len' : UInt64} (h : Overlap pos len pos' len') :
    Overlap pos' len' pos len := by
  obtain ⟨b, hlow, hhigh, hlow', hhigh'⟩ := h
  exact ⟨b, hlow', hhigh', hlow, hhigh⟩

/-- A record of another key of the same inode, one of the two exclusive and the ranges
sharing a byte, is what `record_hit` reports. -/
theorem not_overlap_of_recordHit {unit : FsUnit} {k k2 : Key} {pos len : UInt64} {mode : UInt32}
    {lr : LockRecord} (h : recordHit unit k pos len mode = false) (hk2 : k2 ∈ unit.keys)
    (haddr : k2.addr ≠ k.addr) (hino : k2.ainoUniq = k.ainoUniq) (hlr : lr ∈ k2.record)
    (hexcl : isExclusive mode = true ∨ isExclusive lr.mode = true) (hwhole : Whole pos len)
    (hwhole' : Whole lr.pos lr.len) : ¬ Overlap pos len lr.pos lr.len := by
  intro hover
  have hhit : recordHit unit k pos len mode = true := by
    rw [recordHit, List.any_eq_true]
    refine ⟨k2, hk2, ?_⟩
    rw [Bool.and_eq_true, Bool.and_eq_true, List.any_eq_true]
    refine ⟨⟨beq_iff_eq.mpr hino, by rw [beq_eq_false_iff_ne.mpr haddr]; rfl⟩, lr, hlr, ?_⟩
    rw [Bool.and_eq_true, Bool.or_eq_true]
    exact ⟨hexcl, (rangeHit_iff hwhole hwhole').mpr hover⟩
  rw [h] at hhit
  cases hhit

/-! ### The loops end -/

/-- A scan that finds a request out of time shortens the list. -/
theorem timeoutScan_length {waiting : List LockRecord} {lr : LockRecord}
    (h : (timeoutScan waiting).2 = some lr) :
    (timeoutScan waiting).1.length < waiting.length := by
  induction waiting with
  | nil => cases h
  | cons lr' rest ih =>
    rw [timeoutScan] at h ⊢
    split_ifs at h ⊢ with hzero
    · exact Nat.lt_succ_self _
    · exact Nat.succ_lt_succ (ih h)

/-- More scans than there are requests change nothing. -/
theorem recordTimeoutLoop_fuel {n m : Nat} {waiting : List LockRecord} (hn : waiting.length < n)
    (hm : waiting.length < m) :
    recordTimeoutLoop n waiting = recordTimeoutLoop m waiting := by
  induction n generalizing m waiting with
  | zero => exact absurd hn (Nat.not_lt_zero _)
  | succ n ih =>
    cases m with
    | zero => exact absurd hm (Nat.not_lt_zero _)
    | succ m =>
      rw [recordTimeoutLoop, recordTimeoutLoop]
      rcases hscan : timeoutScan waiting with ⟨rest, _ | lr⟩
      · rfl
      · have hshort := timeoutScan_length (congrArg Prod.snd hscan)
        rw [hscan] at hshort
        dsimp only at hshort ⊢
        rw [ih (m := m) (by omega) (by omega)]

theorem recordCheckWaitingLoop_fuel (unit : FsUnit) (arg1 : LockRecord → UInt32) {n m : Nat}
    {waiting : List LockRecord} (hn : waiting.length < n) (hm : waiting.length < m) :
    recordCheckWaitingLoop unit arg1 n waiting = recordCheckWaitingLoop unit arg1 m waiting := by
  induction n generalizing m waiting with
  | zero => exact absurd hn (Nat.not_lt_zero _)
  | succ n ih =>
    cases m with
    | zero => exact absurd hm (Nat.not_lt_zero _)
    | succ m =>
      rw [recordCheckWaitingLoop, recordCheckWaitingLoop]
      cases hfind : waiting.find? (released unit arg1) with
      | none => rfl
      | some lr =>
        have hshort : (waiting.eraseP (released unit arg1)).length < waiting.length := by
          have hlength := List.length_eraseP_of_mem (List.mem_of_find?_eq_some hfind)
            (List.find?_some hfind)
          have hpos := List.length_pos_of_mem (List.mem_of_find?_eq_some hfind)
          omega
        dsimp only
        rw [ih (m := m) (by omega) (by omega)]

/-- With no request to release, `record_check_waiting` leaves the unit as it is. -/
theorem recordCheckWaiting_none {unit : FsUnit} {arg1 : LockRecord → UInt32}
    (h : ∀ lr ∈ unit.waitingrecords, released unit arg1 lr = false) :
    recordCheckWaiting unit arg1 = .ok (unit, []) := by
  have hfind : unit.waitingrecords.find? (released unit arg1) = none := by
    rw [List.find?_eq_none]
    intro lr hlr
    rw [h lr hlr]
    exact Bool.false_ne_true
  rw [recordCheckWaiting, recordCheckWaitingLoop, hfind]
  rfl

end LibretroUae.Filesys
