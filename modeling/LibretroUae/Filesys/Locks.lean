import LibretroUae.Lib.Machine
import Mathlib.Data.List.Nodup

/-!
# LibretroUae.Filesys.Locks

**Locks and file handles of a unit.** Every inode (`Aino`) counts in `shlock` how often it is
locked or opened for sharing, or is marked by `elock` as locked or opened exclusively. The
handlers move these marks together with the chain of locks at `volume + 28`, the free list
that the message loop hands over with every packet, and the list of open handles.

What the host and the path lookups answer is part of a packet. A lookup that fails at the last
component leaves the directory it was to be in.
-/

namespace LibretroUae.Filesys

open Lib

/-! ### The data -/

inductive FsError
  | objectInUse
  | objectNotAround
  | objectWrongType
  | objectExists
  | isSoftLink
  | invalidLock
  | diskIsFull
  | diskWriteProtected
  | writeProtected
  | readProtected
  | deleteProtected
  | host (errno : Int)
  deriving DecidableEq, Repr

/-- What a handler runs into that C leaves undefined. -/
inductive LockFault
  | freedAino
  | noParent
  | noFreeLock
  deriving DecidableEq, Repr

/-- `a_inode`: its address, its number, and what the handlers look at. -/
structure Aino where
  addr : Nat
  uniq : UInt32
  parent : Option Nat
  dir : Bool
  softlink : Bool
  vfso : Bool
  amigaosMode : UInt32
  shlock : Int
  elock : Bool
  deriving DecidableEq, Repr

/-- A lock in Amiga memory: its address and the number at offset 4. -/
structure Lock where
  addr : Nat
  uniq : UInt32
  deriving DecidableEq, Repr

/-- `struct key`, as far as locks go. -/
structure FileKey where
  uniq : UInt32
  aino : Nat
  fd : Bool
  createmode : Nat
  deriving DecidableEq, Repr

/-- `struct _unit`: its inodes, its open handles, the chain at `volume + 28`, the free list at
`locklist` and the last handle number. -/
structure LockUnit where
  ainos : List Aino
  keys : List FileKey
  locks : List Lock
  locklist : List Nat
  keyUniq : UInt32
  writeprotected : Bool
  deriving DecidableEq, Repr

/-- What `find_aino` returns. -/
structure Found where
  aino : Option Nat
  err : Option FsError
  deriving DecidableEq, Repr

inductive LockReply
  | done
  | lock (addr : Nat)
  | failed (error : FsError)
  deriving DecidableEq, Repr

def sharedLock : Int := -2
def exclusiveLock : Int := -1

def fibfRead : UInt32 := 8
def fibfWrite : UInt32 := 4
def fibfDelete : UInt32 := 1

/-! ### Lists -/

namespace LockUnit

/-- Reads an inode through its address. -/
def deref (u : LockUnit) (addr : Nat) : Except LockFault Aino :=
  match u.ainos.find? fun a => a.addr == addr with
  | none => .error .freedAino
  | some a => .ok a

/-- `lookup_aino`. -/
def lookupAino (u : LockUnit) (uniq : UInt32) : Option Aino :=
  u.ainos.find? fun a => a.uniq == uniq

/-- `lookup_key`. -/
def lookupFileKey (u : LockUnit) (uniq : UInt32) : Option FileKey :=
  u.keys.find? fun k => uniq == k.uniq

/-- Stores the lock marks of an inode. -/
def mark (u : LockUnit) (addr : Nat) (shlock : Int) (elock : Bool) : LockUnit :=
  { u with ainos := u.ainos.map fun a => if a.addr = addr then { a with shlock, elock } else a }

/-- The number that a lock holds. -/
def lockUniq (u : LockUnit) (lock : Nat) : Option UInt32 :=
  (u.locks.find? fun l => l.addr == lock).map Lock.uniq

/-- `make_lock`: takes the first free lock into the chain. -/
def makeLock (u : LockUnit) (uniq : UInt32) : Except LockFault (LockUnit × LockReply) :=
  match u.locklist with
  | [] => .error .noFreeLock
  | l :: rest =>
    .ok ({ u with locks := ⟨l + 4, uniq⟩ :: u.locks, locklist := rest }, .lock (l + 4))

/-- `free_lock`. -/
def freeLock (u : LockUnit) (lock : Nat) : LockUnit :=
  if u.locks.any fun l => l.addr == lock then
    { u with locks := u.locks.eraseP fun l => l.addr == lock
             locklist := (lock - 4) :: u.locklist }
  else u

/-- `new_key`, with the fields its caller fills in. -/
def newKey (u : LockUnit) (aino : Nat) (fd : Bool) (createmode : Nat) : LockUnit :=
  { u with keys := ⟨u.keyUniq + 1, aino, fd, createmode⟩ :: u.keys, keyUniq := u.keyUniq + 1 }

/-- `free_key`. -/
def freeFileKey (u : LockUnit) (k : FileKey) : LockUnit :=
  { u with keys := u.keys.erase k }

/-- `dispose_aino` on the inode at an address. -/
def dispose (u : LockUnit) (addr : Nat) : LockUnit :=
  { u with ainos := u.ainos.filter fun a => a.addr ≠ addr }

/-- `delete_aino`: the inode is taken out of the children of its parent. -/
def deleteAino (u : LockUnit) (a : Aino) : Except LockFault LockUnit :=
  match a.parent with
  | none => .error .noParent
  | some _ => .ok (u.dispose a.addr)

end LockUnit

/-- `create_child_aino`: a new inode at an address. -/
def childAino (parent addr : Nat) (uniq : UInt32) (dir : Bool) : Aino :=
  { addr, uniq, parent := some parent, dir, softlink := false, vfso := false, amigaosMode := 0
    shlock := 0, elock := false }

/-! ### The handlers -/

/-- `action_lock`; `link` is what `test_softlink` returns. -/
def actionLock (u : LockUnit) (found : Found) (link : FsError) (mode : Int) :
    Except LockFault (LockUnit × LockReply) := do
  let mode := if mode ≠ sharedLock ∧ mode ≠ exclusiveLock then sharedLock else mode
  match found.err with
  | some e => return (u, .failed e)
  | none =>
    let a ← u.deref (found.aino.getD 0)
    if a.softlink then return (u, .failed link)
    else if a.elock ∨ mode ≠ sharedLock ∧ a.shlock > 0 then return (u, .failed .objectInUse)
    else if mode = sharedLock then (u.mark a.addr (a.shlock + 1) a.elock).makeLock a.uniq
    else (u.mark a.addr a.shlock true).makeLock a.uniq

/-- `action_free_lock`. -/
def actionFreeLock (u : LockUnit) (lock : Nat) : LockUnit × LockReply :=
  match (u.lockUniq lock).bind u.lookupAino with
  | none => (u, .failed .objectNotAround)
  | some a =>
    let u := if a.elock then u.mark a.addr a.shlock false else u.mark a.addr (a.shlock - 1) false
    (u.freeLock lock, .done)

/-- `action_dup_lock_2`. -/
def actionDupLock2 (u : LockUnit) (uniq : UInt32) : Except LockFault (LockUnit × LockReply) :=
  match u.lookupAino uniq with
  | none => .ok (u, .failed .objectNotAround)
  | some a =>
    if a.elock then .ok (u, .failed .objectInUse)
    else (u.mark a.addr (a.shlock + 1) a.elock).makeLock a.uniq

/-- `action_dup_lock`. -/
def actionDupLock (u : LockUnit) (lock : Nat) : Except LockFault (LockUnit × LockReply) :=
  match u.lockUniq lock with
  | none => .ok (u, .failed .objectNotAround)
  | some uniq => actionDupLock2 u uniq

/-- `action_lock_from_fh`. -/
def actionLockFromFh (u : LockUnit) (fh : UInt32) : Except LockFault (LockUnit × LockReply) :=
  match u.lookupFileKey fh with
  | none => .ok (u, .failed .objectNotAround)
  | some k => do
    let a ← u.deref k.aino
    actionDupLock2 u a.uniq

/-- `action_parent_common`. -/
def actionParentCommon (u : LockUnit) (uniq : UInt32) :
    Except LockFault (LockUnit × LockReply) :=
  match u.lookupAino uniq with
  | none => .ok (u, .failed .invalidLock)
  | some olda =>
    match olda.parent with
    | none => .ok (u, .done)
    | some parent => do
      let a ← u.deref parent
      if a.elock then return (u, .failed .objectInUse)
      else (u.mark a.addr (a.shlock + 1) a.elock).makeLock a.uniq

/-- `action_parent`. -/
def actionParent (u : LockUnit) (lock : Nat) : Except LockFault (LockUnit × LockReply) :=
  match u.lockUniq lock with
  | none => .ok (u, .failed .invalidLock)
  | some uniq => actionParentCommon u uniq

/-- `action_parent_fh`. -/
def actionParentFh (u : LockUnit) (fh : UInt32) : Except LockFault (LockUnit × LockReply) :=
  match u.lookupFileKey fh with
  | none => .ok (u, .failed .objectNotAround)
  | some k => do
    let a ← u.deref k.aino
    actionParentCommon u a.uniq

/-- What the host does with a new name: the inode that is made for it, and whether it can be
opened or made. -/
structure Created where
  made : Option (Nat × UInt32)
  opened : Bool
  errno : Int
  deriving DecidableEq, Repr

/-- `action_create_dir`. -/
def actionCreateDir (u : LockUnit) (found : Found) (host : Created) :
    Except LockFault (LockUnit × LockReply) :=
  if u.writeprotected then .ok (u, .failed .diskWriteProtected)
  else
    match found.aino, found.err with
    | some _, none => .ok (u, .failed .objectExists)
    | some base, some .objectNotAround =>
      match host.made with
      | none => .ok (u, .failed .diskIsFull)
      | some (addr, uniq) =>
        let u := { u with ainos := childAino base addr uniq true :: u.ainos }
        if host.opened then (u.mark addr 1 false).makeLock uniq
        else .ok (u, .failed (.host host.errno))
    | none, e => .ok (u, .failed (e.getD (.host 0)))
    | some _, some e => .ok (u, .failed e)

/-- The access checks of `do_find` on an object that exists: the mode it is opened in. -/
def findMode (u : LockUnit) (a : Aino) (mode : UInt32) (create : Nat) (fallback : Bool) :
    Except FsError UInt32 :=
  if a.dir then .error .objectWrongType
  else if a.elock ∨ create = 2 ∧ a.shlock > 0 then .error .objectInUse
  else if create ≠ 0 ∧ a.vfso then .error .deleteProtected
  else if create = 2 ∧ a.amigaosMode &&& fibfDelete ≠ 0 then .error .deleteProtected
  else if create = 2 then .ok mode
  else
    let mode := if (mode &&& a.amigaosMode &&& fibfWrite ≠ 0 ∨ u.writeprotected) ∧ fallback then
      mode &&& ~~~fibfWrite else mode
    if mode &&& fibfWrite ≠ 0 ∧ u.writeprotected then .error .diskWriteProtected
    else if mode &&& a.amigaosMode &&& fibfWrite ≠ 0 ∨ mode = 0 then .error .writeProtected
    else if mode &&& a.amigaosMode &&& fibfRead ≠ 0 then .error .readProtected
    else .ok mode

/-- The end of `do_find`: a handle on `a`, which is deleted again if it was made for nothing. -/
def openAino (u : LockUnit) (a : Aino) (made : Bool) (create : Nat) (host : Created) :
    Except LockFault (LockUnit × LockReply) :=
  if !a.vfso && !host.opened then do
    let u ← if made then u.deleteAino a else .ok u
    return (u, .failed (.host host.errno))
  else
    let u := u.newKey a.addr (!a.vfso) create
    if create = 2 then .ok (u.mark a.addr a.shlock true, .done)
    else .ok (u.mark a.addr (a.shlock + 1) a.elock, .done)

/-- `do_find`. -/
def doFind (u : LockUnit) (found : Found) (link : FsError) (mode : UInt32) (create : Nat)
    (fallback : Bool) (host : Created) : Except LockFault (LockUnit × LockReply) :=
  match found.aino with
  | none => .ok (u, .failed (found.err.getD (.host 0)))
  | some addr =>
    if found.err ≠ none ∧ found.err ≠ some .objectNotAround then
      .ok (u, .failed (found.err.getD (.host 0)))
    else do
      let a ← u.deref addr
      if a.softlink then return (u, .failed link)
      else
        match found.err with
        | none =>
          match findMode u a mode create fallback with
          | .error e => return (u, .failed e)
          | .ok _ => openAino u a false create host
        | some e =>
          if create = 0 then return (u, .failed e)
          else
            match host.made with
            | none => return (u, .failed .diskIsFull)
            | some (child, uniq) =>
              openAino { u with ainos := childAino addr child uniq false :: u.ainos }
                (childAino addr child uniq false) true create host

/-- `action_find_input`. -/
def actionFindInput (u : LockUnit) (found : Found) (link : FsError) (host : Created) :
    Except LockFault (LockUnit × LockReply) :=
  doFind u found link (fibfRead ||| fibfWrite) 0 true host

/-- `action_find_output`. -/
def actionFindOutput (u : LockUnit) (found : Found) (link : FsError) (host : Created) :
    Except LockFault (LockUnit × LockReply) :=
  if u.writeprotected then .ok (u, .failed .diskWriteProtected)
  else doFind u found link (fibfRead ||| fibfWrite) 2 false host

/-- `action_find_write`. -/
def actionFindWrite (u : LockUnit) (found : Found) (link : FsError) (host : Created) :
    Except LockFault (LockUnit × LockReply) :=
  if u.writeprotected then .ok (u, .failed .diskWriteProtected)
  else doFind u found link (fibfRead ||| fibfWrite) 1 false host

/-- `action_fh_from_lock`. -/
def actionFhFromLock (u : LockUnit) (lock : Nat) (link : FsError) (opened : Bool) (errno : Int) :
    LockUnit × LockReply :=
  match (u.lockUniq lock).bind u.lookupAino with
  | none => (u, .failed .objectNotAround)
  | some a =>
    if a.softlink then (u, .failed link)
    else if opened then ((u.newKey a.addr true 0).freeLock lock, .done)
    else (u, .failed (.host errno))

/-- `action_end`. -/
def actionEndKey (u : LockUnit) (fh : UInt32) : Except LockFault (LockUnit × LockReply) :=
  match u.lookupFileKey fh with
  | none => .ok (u, .done)
  | some k => do
    let a ← u.deref k.aino
    let u := if a.elock then u.mark a.addr a.shlock false else u.mark a.addr (a.shlock - 1) false
    return (u.freeFileKey k, .done)

/-- The end of `action_change_mode`, for the inode of a lock or of a handle. -/
def changeMode (u : LockUnit) (uniq : UInt32) (mode : Int) : LockUnit × LockReply :=
  match u.lookupAino uniq with
  | none => (u, .failed .invalidLock)
  | some a =>
    if mode = -1 then
      if a.shlock > 1 then (u, .failed .objectInUse) else (u.mark a.addr 0 true, .done)
    else (u.mark a.addr (a.shlock + 1) false, .done)

/-- `action_change_mode` of a lock. -/
def actionChangeModeLock (u : LockUnit) (lock : Nat) (mode : Int) : LockUnit × LockReply :=
  match u.lockUniq lock with
  | none => (u, .failed .invalidLock)
  | some uniq => changeMode u uniq mode

/-- `action_change_mode` of a handle. -/
def actionChangeModeFh (u : LockUnit) (fh : UInt32) (mode : Int) :
    Except LockFault (LockUnit × LockReply) :=
  match u.lookupFileKey fh with
  | none => .ok (u, .failed .objectNotAround)
  | some k => do
    let a ← u.deref k.aino
    return changeMode u a.uniq mode

/-- `action_delete_object`; `removed` is whether the host removes the object. -/
def actionDeleteObject (u : LockUnit) (found : Found) (removed : Bool) (errno : Int) :
    Except LockFault (LockUnit × LockReply) :=
  if u.writeprotected then .ok (u, .failed .diskWriteProtected)
  else
    match found.err with
    | some e => .ok (u, .failed e)
    | none => do
      let a ← u.deref (found.aino.getD 0)
      if a.amigaosMode &&& fibfDelete ≠ 0 then return (u, .failed .deleteProtected)
      else if a.shlock > 0 ∨ a.elock then return (u, .failed .objectInUse)
      else if !a.vfso && !removed then return (u, .failed (.host errno))
      -- with children it is only flagged as deleted
      else if u.ainos.any fun b => b.parent = some a.addr then return (u, .done)
      else
        let u ← u.deleteAino a
        return (u, .done)

/-! ### Renaming -/

/-- What a rename meets: whether the new name is the old one letter for letter, the inode made
for it, whether the host renames at once or when the handles are closed, which of these it
opens again, and which inodes are flushed from the cache by the second lookup and by the
notifications. -/
structure Renaming where
  exact : Bool
  made : Option (Nat × UInt32)
  renamed : Bool
  retried : Bool
  reopened : FileKey → Bool
  errno : Int
  lookupFlush : List Nat
  notifyFlush : List Nat

/-- `relock_re`: the handles with a file are opened again, on the inode `a2`, or freed. -/
def relockRe (u : LockUnit) (a1 a2 : Nat) (reopened : FileKey → Bool) : LockUnit :=
  { u with
    keys := u.keys.filterMap fun k =>
      if k.aino = a1 ∧ k.fd then
        if reopened k then some { k with aino := a2 } else none
      else some k }

/-- The copying of `action_rename_object` from the old inode to the new one. -/
def LockUnit.transfer (u : LockUnit) (a1 a2 : Aino) : LockUnit :=
  { u with
    ainos := u.ainos.map fun a =>
      if a.addr = a2.addr then
        { a with uniq := a1.uniq, elock := a1.elock, shlock := a1.shlock, vfso := a1.vfso
                 amigaosMode := a1.amigaosMode }
      else if a.parent = some a1.addr then { a with parent := some a2.addr }
      else a }

/-- The end of `action_rename_object`: the new inode takes over from the old one. -/
def renameAino (u : LockUnit) (a1 a2 : Nat) (flush : List Nat) :
    Except LockFault (LockUnit × LockReply) := do
  let u := flush.foldl LockUnit.dispose u
  let a1 ← u.deref a1
  let a2 ← u.deref a2
  let u ← (u.transfer a1 a2).deleteAino a1
  return (u, .done)

/-- `action_rename_object`. -/
def actionRename (u : LockUnit) (found1 found2 : Found) (r : Renaming) :
    Except LockFault (LockUnit × LockReply) :=
  if u.writeprotected then .ok (u, .failed .diskWriteProtected)
  else
    match found1.err with
    | some e => .ok (u, .failed e)
    | none =>
      let addr1 := found1.aino.getD 0
      if u.keys.any fun k => k.aino = addr1 ∧ k.fd ∧ k.createmode = 2 then
        .ok (u, .failed .objectInUse)
      else do
        let u := r.lookupFlush.foldl LockUnit.dispose u
        let a1 ← u.deref addr1
        if found2.aino = some addr1 ∧ r.exact then return (u, .done)
        else if found2.aino ≠ some addr1 ∧
            (found2.aino = none ∨ found2.err ≠ some .objectNotAround) then
          return (u, .failed (found2.err.getD .objectExists))
        else
          match if found2.aino = some addr1 then a1.parent else found2.aino with
          | none => .error .noParent
          | some base =>
            match r.made with
            | none => return (u, .failed .diskIsFull)
            | some (addr2, uniq) =>
              let u := { u with ainos := childAino base addr2 uniq a1.dir :: u.ainos }
              if a1.vfso ∨ r.renamed then renameAino u addr1 addr2 r.notifyFlush
              else if r.retried then
                renameAino (relockRe u addr1 addr2 r.reopened) addr1 addr2 r.notifyFlush
              else
                return ((relockRe u addr1 addr1 r.reopened).dispose addr2,
                  .failed (.host r.errno))

end LibretroUae.Filesys
