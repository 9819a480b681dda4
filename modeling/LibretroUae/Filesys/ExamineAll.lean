import LibretroUae.Lib.Image
import LibretroUae.Lib.Machine

/-!
# LibretroUae.Filesys.ExamineAll

**Listing a directory into buffers.** `ACTION_EXAMINE_ALL` packs as many entries as fit into the
buffer of the client. What is left of the listing is in a slot of the unit, found again through
an identifier in the control block of the client, which is new for every entry. This is for
Kickstart 2.0 and later.
-/

namespace LibretroUae.Filesys

open Lib

/-! ### Records -/

/-- What `exalldo` writes about an entry. -/
structure ExAllEntry where
  aname : List Byte
  entrytype : Nat
  size : Nat
  flags : Nat
  days : Nat
  mins : Nat
  ticks : Nat
  comment : List Byte
  deriving DecidableEq, Repr

/-- A packet: the control block, the buffer, the type, and what the host lists when the
directory is opened. -/
structure ExAllCall where
  control : Nat
  exalldata : Nat
  exalldatasize : Nat
  type : Nat
  opened : Option (List (List Byte))
  deriving DecidableEq, Repr

def maxFileSize32 : Nat := 0xffffffff

/-- Rounds up to longwords. -/
def align4 (n : Nat) : Nat := (n + 3) / 4 * 4

/-- `size2`: the fixed part of a record. -/
def headerSize (type : Nat) : Nat :=
  4 + (if 1 ≤ type then 4 else 0) + (if 2 ≤ type then 4 else 0) + (if 3 ≤ type then 4 else 0) +
    (if 4 ≤ type then 4 else 0) + (if 5 ≤ type then 12 else 0) + (if 6 ≤ type then 4 else 0) +
    (if 7 ≤ type then 4 else 0) + (if 8 ≤ type then 8 else 0)

/-- `size`: the strings of a record. -/
def stringsSize (type : Nat) (e : ExAllEntry) : Nat :=
  let size := if 1 ≤ type then align4 (e.aname.length + 1) else 0
  if 6 ≤ type then align4 (size + (e.comment.length + 1)) else size

def recordSize (type : Nat) (e : ExAllEntry) : Nat := stringsSize type e + headerSize type

/-- The longwords of a record at an address, each with the least type that has it and its
index. The user and group numbers are one. -/
def exallFields (type exp : Nat) (e : ExAllEntry) : List (Nat × Nat × Nat) :=
  [(0, 0, exp + recordSize type e), (1, 1, exp + headerSize type), (2, 2, e.entrytype),
    (3, 3, min e.size maxFileSize32), (4, 4, e.flags), (5, 5, e.days), (5, 6, e.mins),
    (5, 7, e.ticks), (6, 8, exp + headerSize type + e.aname.length + 1), (7, 9, 0),
    (8, 10, e.size / 2 ^ 32), (8, 11, e.size)]

/-- The longwords that a type has. -/
def exallRows (type exp : Nat) (e : ExAllEntry) : List (Nat × Nat) :=
  (exallFields type exp e).filterMap fun f => if f.1 ≤ type then some f.2 else none

/-- Follows `ed_Next`. -/
def followNext (m : Image) (exp : Nat) : Nat → Nat
  | 0 => exp
  | n + 1 => followNext m (m.getLong exp) n

/-- The name and the comment of a record. The length before the comment is overwritten by it. -/
def putStrings (m : Image) (type exp : Nat) (e : ExAllEntry) : Image :=
  let m := m.blit (exp + headerSize type) (e.aname ++ [0])
  if 6 ≤ type then
    let comment := exp + headerSize type + e.aname.length + 1
    (m.blit comment [.ofNat 8 e.comment.length]).blit comment (e.comment ++ [0])
  else m

/-- `exalldo`. -/
def exalldo (m : Image) (c : ExAllCall) (e : ExAllEntry) : Option Image :=
  let exp := followNext m c.exalldata (m.getLong c.control)
  if (c.exalldata + c.exalldatasize + 2 ^ 32 - exp) % 2 ^ 32 < recordSize c.type e then none
  else
    let m := putStrings (m.putLongs exp (exallRows c.type exp e)) c.type exp e
    some (m.putLong c.control (m.getLong c.control + 1))

/-- Clears the last `ed_Next`. -/
def clearLast (m : Image) (c : ExAllCall) : Image :=
  let exp := followNext m c.exalldata (m.getLong c.control - 1)
  if exp = 0 then m else m.putLong exp 0

/-! ### Slots -/

/-- `ExAllKey`; a directory handle is the names it has not delivered yet. -/
structure ExAllKey where
  id : UInt32
  dirhandle : Option (List (List Byte))
  fn : Option (List Byte)
  control : Nat
  deriving DecidableEq, Repr

structure ExAllUnit where
  exalls : List ExAllKey
  exallid : UInt32
  deriving DecidableEq, Repr

inductive ExAllError
  | noMoreEntries
  | badNumber
  | objectWrongType
  | noFreeStore
  deriving DecidableEq, Repr

inductive ExAllReply
  | done
  | failed (error : ExAllError)
  deriving DecidableEq, Repr

/-- A null handle is used. -/
inductive ExAllFault
  | noDirhandle
  deriving DecidableEq, Repr

def exallEnd : UInt32 := 0xde1111ad

namespace ExAllUnit

/-- A number for a new slot. -/
def nextExallid (u : ExAllUnit) : UInt32 :=
  if u.exallid + 1 = exallEnd then u.exallid + 2 else u.exallid + 1

/-- `getexall`, which takes the identifier as an `int`: a negative one asks for a new slot. -/
def getexall (u : ExAllUnit) (control : Nat) (id : UInt32) : Option (ExAllUnit × Nat) :=
  if 2 ^ 31 ≤ id.toNat then
    (u.exalls.findIdx? fun k => k.id == 0).map fun i =>
      ({ exalls := u.exalls.modify i fun k => { k with id := u.nextExallid, control }
         exallid := u.nextExallid }, i)
  else if id ≠ 0 then (u.exalls.findIdx? fun k => k.id == id).map fun i => (u, i)
  else none

/-- Stores a slot. -/
def put (u : ExAllUnit) (i : Nat) (k : ExAllKey) : ExAllUnit :=
  { u with exalls := u.exalls.set i k }

/-- Frees a slot. -/
def release (u : ExAllUnit) (i : Nat) : ExAllUnit :=
  { u with exalls := u.exalls.modify i fun k => { k with id := 0, dirhandle := none, fn := none } }

end ExAllUnit

/-! ### The packets -/

section

variable (lookup : List Byte → Option ExAllEntry)

/-- The loop of `action_examine_all_do` over the entry that was saved and those still to be
read: whether there may be more, the slot, the last number and the memory after it. -/
def examineAllLoop (c : ExAllCall) :
    List (List Byte) → ExAllKey → UInt32 → Image → Bool × ExAllKey × UInt32 × Image
  | [], k, exallid, m => (false, { k with dirhandle := some [], fn := none }, exallid, m)
  | name :: rest, k, exallid, m =>
    match lookup name with
    | none => (false, { k with dirhandle := some rest, fn := none }, exallid, m)
    | some e =>
      let m := m.putLong (c.control + 4) exallid.toNat
      (exalldo m c e).elim
        (true, { k with id := exallid, dirhandle := some rest, fn := some name }, exallid + 1, m)
        fun m => examineAllLoop c rest { k with id := exallid } (exallid + 1) m

/-- The end of `action_examine_all` when it fails. -/
def examineAllFail (u : ExAllUnit) (m : Image) (c : ExAllCall) (error : ExAllError)
    (slot : Option Nat) : ExAllUnit × Image × ExAllReply :=
  let m := clearLast m c
  let u := match slot with
    | none => u
    | some i => u.release i
  let m := if error = .noMoreEntries then m.putLong (c.control + 4) exallEnd.toNat else m
  (u, m, .failed error)

/-- `action_examine_all` from `action_examine_all_do` on. -/
def examineAllRun (u : ExAllUnit) (m : Image) (c : ExAllCall) (i : Nat) :
    Except ExAllFault (ExAllUnit × Image × ExAllReply) :=
  match u.exalls[i]? with
  | none => .error .noDirhandle
  | some k =>
    match k.dirhandle with
    | none => .error .noDirhandle
    | some names =>
      let (more, k, exallid, m) := examineAllLoop lookup c (k.fn.toList ++ names) k u.exallid m
      let u := { u.put i k with exallid }
      if !more then .ok (examineAllFail u m c .noMoreEntries (some i))
      else if m.getLong c.control = 0 then .ok (examineAllFail u m c .noFreeStore (some i))
      else .ok (u, clearLast m c, .done)

/-- `action_examine_all`. -/
def actionExamineAll (u : ExAllUnit) (m : Image) (c : ExAllCall) :
    Except ExAllFault (ExAllUnit × Image × ExAllReply) :=
  let m := m.putLong c.control 0
  if c.type = 0 ∨ 8 < c.type then .ok (examineAllFail u m c .badNumber none)
  else
    let id := UInt32.ofNat (m.getLong (c.control + 4))
    if id = exallEnd then .ok (examineAllFail u m c .noMoreEntries none)
    else if id ≠ 0 then
      match u.getexall c.control id with
      | none => .ok (examineAllFail u m c .objectWrongType none)
      | some (u, i) => examineAllRun lookup u m c i
    else
      match u.getexall c.control 0xffffffff with
      | none => .ok (examineAllFail u m c .noMoreEntries none)
      | some (u, i) =>
        match c.opened with
        | none => .ok (examineAllFail u m c .noMoreEntries (some i))
        | some names =>
          let u := { u with exalls := u.exalls.modify i fun k => { k with dirhandle := some names } }
          let id := ((u.exalls[i]?).map ExAllKey.id).getD 0
          examineAllRun lookup u (m.putLong (c.control + 4) id.toNat) c i

/-- `action_examine_all_end`. -/
def actionExamineAllEnd (u : ExAllUnit) (m : Image) (control : Nat) : ExAllUnit × ExAllReply :=
  (u.getexall control (UInt32.ofNat (m.getLong (control + 4)))).elim (u, .failed .objectWrongType)
    fun slot => (slot.1.release slot.2, .done)

end

/-! ### Clients -/

/-- A string up to its zero byte. -/
def cstring (m : Image) (limit p : Nat) : List Byte := (m.slice p (limit - p)).takeWhile (· ≠ 0)

/-- What a client reads from its buffer: the names of some records, following the links. -/
def readNames (m : Image) (limit : Nat) : Nat → Nat → List (List Byte)
  | 0, _ => []
  | n + 1, exp => cstring m limit (m.getLong (exp + 4)) :: readNames m limit n (m.getLong exp)

/-- A listing: its control block, the names the host lists, and those that were delivered. -/
structure Listing where
  control : Nat
  names : List (List Byte)
  delivered : List (List Byte)
  deriving DecidableEq, Repr

/-- The unit, the memory, the listings, and the calls that returned with the memory after each. -/
structure ExAllState where
  unit : ExAllUnit
  mem : Image
  active : List Listing
  ended : List Listing
  calls : List (ExAllCall × Image)

/-- Packets, and what clients write on their own. -/
inductive ExAllEvent
  | examine (c : ExAllCall)
  | examineEnd (control : Nat)
  | write (off : Nat) (bs : List Byte)

namespace ExAllState

/-- The listing that a call goes on with or starts. -/
def called (s : ExAllState) (c : ExAllCall) : Option Listing :=
  (s.active.find? fun l => l.control = c.control).or
    (if s.mem.getLong (c.control + 4) = exallEnd.toNat then none
    else c.opened.map fun names => ⟨c.control, names, []⟩)

def others (s : ExAllState) (control : Nat) : List Listing :=
  s.active.filter fun l => l.control ≠ control

def step (lookup : List Byte → Option ExAllEntry) (s : ExAllState) :
    ExAllEvent → Except ExAllFault ExAllState
  | .examine c =>
    match actionExamineAll lookup s.unit s.mem c with
    | .error fault => .error fault
    | .ok (unit, mem, reply) =>
      let calls := (c, mem) :: s.calls
      match s.called c with
      | none => .ok { s with unit, mem, calls }
      | some l =>
        let names := readNames mem (c.exalldata + c.exalldatasize) (mem.getLong c.control) c.exalldata
        let l := { l with delivered := l.delivered ++ names }
        let active := s.others c.control
        match reply with
        | .done => .ok { s with unit, mem, calls, active := l :: active }
        | .failed _ => .ok { s with unit, mem, calls, active, ended := l :: s.ended }
  | .examineEnd control =>
    .ok { s with unit := (actionExamineAllEnd s.unit s.mem control).1, active := s.others control }
  | .write off bs => .ok { s with mem := s.mem.blit off bs }

end ExAllState

/-- A packet with a buffer in memory, away from its control block. -/
structure ExAllCall.Sound (c : ExAllCall) : Prop where
  type_pos : 1 ≤ c.type
  type_le : c.type ≤ 8
  exalldata : 0 < c.exalldata
  size : 4 ≤ c.exalldatasize
  limit : c.exalldata + c.exalldatasize < 2 ^ 32
  apart : c.control + 8 ≤ c.exalldata ∨ c.exalldata + c.exalldatasize ≤ c.control

/-- The end of the buffer. -/
def ExAllCall.limit (c : ExAllCall) : Nat := c.exalldata + c.exalldatasize

/-- Memory away from the buffer and the control block of a call. -/
def ExAllCall.Away (c : ExAllCall) (off len : Nat) : Prop :=
  (off + len ≤ c.control ∨ c.control + 8 ≤ off) ∧
    (off + len ≤ c.exalldata ∨ c.limit ≤ off)

/-- Names of files, without zero bytes, the next of which fits into the buffer. -/
structure Listing.Valid (lookup : List Byte → Option ExAllEntry) (l : Listing) (c : ExAllCall) :
    Prop where
  names : ∀ n ∈ l.names, ∃ e, lookup n = some e ∧ 0 ∉ e.aname
  fits : ∀ n e, (l.names.drop l.delivered.length).head? = some n → lookup n = some e →
    recordSize c.type e ≤ c.exalldatasize

/-- Buffers hold at least one entry, and control blocks are left alone while a listing goes on. -/
def ExAllEvent.Legal (lookup : List Byte → Option ExAllEntry) (s : ExAllState) : ExAllEvent → Prop
  | .examine c => c.Sound ∧ (∀ l ∈ s.active, l.control ≠ c.control → c.Away l.control 8) ∧
    ((∀ l ∈ s.active, l.control ≠ c.control) →
      s.mem.getLong (c.control + 4) = exallEnd.toNat ∨
        s.mem.getLong (c.control + 4) = 0 ∧ c.opened.isSome) ∧
    ∀ l, s.called c = some l → l.Valid lookup c
  | .examineEnd control => ∃ l ∈ s.active, l.control = control
  | .write off bs => ∀ l ∈ s.active, off + bs.length ≤ l.control ∨ l.control + 8 ≤ off

def exAllMachine (lookup : List Byte → Option ExAllEntry) :
    Machine ExAllState ExAllEvent ExAllFault where
  legal := fun s e => e.Legal lookup s
  step := ExAllState.step lookup

end LibretroUae.Filesys
