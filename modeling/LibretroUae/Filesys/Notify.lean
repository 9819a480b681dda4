import LibretroUae.Lib.Buckets
import LibretroUae.Lib.Machine
import Mathlib.Data.List.Nodup

/-!
# LibretroUae.Filesys.Notify

**Notification requests of a unit.** A client registers the full name of an object. The unit
files the request under a hash of the last component of that name, and a handler that has
changed an object looks through the buckets of the name of the object and of the name of its
directory; of the requests there it takes those with the same last component whose full name
leads to the object. A save state keeps the full names, and files them anew when it is loaded.

Names are C strings: lists of nonzero `char`s, which are signed.
-/

namespace LibretroUae.Filesys

open Lib

abbrev Name := List UInt8

def colon : UInt8 := 58
def slash : UInt8 := 47

/-! ### Paths -/

/-- The nodes of a unit as far as paths lead through them. -/
structure Nodes (α : Type) where
  root : α
  aname : α → Name
  parent : α → Option α
  softlink : α → Bool
  /-- The node that `lookup_child_aino` finds or makes. -/
  lookupChild : α → Name → Option α
  /-- Nodes form a tree. -/
  parent_ne : ∀ a, parent a ≠ some a

/-- The pieces of a path between its slashes. -/
def components : Name → List Name
  | [] => [[]]
  | c :: rest =>
    if c = slash then [] :: components rest
    else match components rest with
      | [] => [[c]]
      | d :: ds => (c :: d) :: ds

/-- The loop of `get_aino`: an empty piece in front of a slash goes up, an empty one at the end
of the path is none. -/
def walk {α : Type} (T : Nodes α) (curr : α) (prev : Option α) : List Name → Option α
  | [] => some curr
  | c :: rest =>
    if c = [] then
      match rest with
      | [] => some curr
      | d :: ds => walk T ((T.parent curr).getD curr) prev (d :: ds)
    else if prev.any T.softlink then none
    else
      match T.lookupChild curr c with
      | none => none
      | some next => walk T next (some next) rest

/-- What follows the volume or device name. -/
def rootRelative (rel : Name) : Name :=
  match rel.dropWhile fun c => c ≠ slash && c ≠ colon with
  | [] => rel
  | c :: rest => if c = colon then rest else rel

/-- `find_aino` without a lock: the node it ends at, if it reports no error. -/
def findAino {α : Type} (T : Nodes α) (name : Name) : Option α :=
  walk T T.root none (components (rootRelative name))

/-! ### The table -/

structure Notify where
  notifyrequest : UInt32
  fullname : Name
  partname : Name
  deriving DecidableEq, Repr

/-- `unit->notifyhash`. -/
abbrev NotifyTable := Nat → List Notify

def notifyHashSize : Nat := 127

/-- A `char` as an operand of `+`. -/
def widen (c : UInt8) : UInt32 := if c < 128 then c.toUInt32 else c.toUInt32 - 256

/-- `notifyhash`. -/
def notifyhash (s : Name) : Nat :=
  (s.foldl (fun hash c => (hash <<< 5) + widen c) 0 : UInt32).toNat % notifyHashSize

/-- `new_notify`, with the fields its caller fills in. -/
def newNotify (unit : NotifyTable) (nr : UInt32) (fullname name : Name) : NotifyTable :=
  fileAt unit (notifyhash name) (⟨nr, fullname, name⟩ :: unit (notifyhash name))

/-- `free_notify`. -/
def freeNotify (unit : NotifyTable) (hash : Nat) (n : Notify) : NotifyTable :=
  fileAt unit hash ((unit hash).erase n)

inductive NotifyFault
  | beforeName
  | pastName
  deriving DecidableEq, Repr

/-- The loop over `p` in `action_add_notify`. -/
def partStart (name : Name) : Nat → Nat
  | 0 => 0
  | p + 1 =>
    if name.getD (p + 1) 0 ≠ colon ∧ name.getD (p + 1) 0 ≠ slash then partStart name p else p + 1

/-- The last component of the name of a request. An empty name, or a colon alone, is read in
front of its first character. -/
def partname (name : Name) : Except NotifyFault Name :=
  let last : Int := (name.length : Int) - 1
  let p : Int := if last ≥ 0 ∧ name.getD last.toNat 0 = colon then last - 1 else last
  if p < 0 then .error .beforeName
  else
    let start := partStart name p.toNat
    let c := name.getD start 0
    .ok (name.drop (if c = colon ∨ c = slash then start + 1 else start))

def nrfSendMessage : UInt32 := 1
def nrfSendSignal : UInt32 := 2
def nrfNotifyInitial : UInt32 := 16

/-- `action_add_notify`, with the request that is notified at once. -/
def actionAddNotify {α : Type} (T : Nodes α) (unit : NotifyTable) (nr : UInt32) (name : Name)
    (flags : UInt32) : Except NotifyFault (NotifyTable × Option UInt32) :=
  if flags &&& (nrfSendMessage ||| nrfSendSignal) = 0 then .ok (unit, none)
  else do
    let part ← partname name
    let initial := flags &&& nrfNotifyInitial ≠ 0 ∧ (findAino T name).isSome
    return (newNotify unit nr name part, if initial then some nr else none)

/-- The request that `action_remove_notify` comes to first. -/
def findNotify (unit : NotifyTable) (nr : UInt32) : Option (Nat × Notify) :=
  (List.range notifyHashSize).findSome? fun hash =>
    ((unit hash).find? fun n => n.notifyrequest = nr).map fun n => (hash, n)

/-- `action_remove_notify`. -/
def actionRemoveNotify (unit : NotifyTable) (nr : UInt32) : NotifyTable :=
  match findNotify unit nr with
  | none => unit
  | some (hash, n) => freeNotify unit hash n

/-- The loop over one bucket in `notify_check`. -/
def notifyBucket {α : Type} [DecidableEq α] (T : Nodes α) (unit : NotifyTable) (a : α) :
    List Notify :=
  (unit (notifyhash (T.aname a))).filter fun n =>
    n.partname = T.aname a ∧ findAino T n.fullname = some a

/-- `notify_check`: the requests it sends. -/
def notifyCheck {α : Type} [DecidableEq α] (T : Nodes α) (unit : NotifyTable) (a : α) :
    List Notify :=
  notifyBucket T unit a ++
    match T.parent a with
    | none => []
    | some p => notifyBucket T unit p

/-! ### Save states -/

/-- The name that `save_notify` writes. -/
def savedName (volname fullname : Name) : Except NotifyFault Name :=
  if volname.length ≤ fullname.length ∧ fullname.take volname.length = volname then
    if fullname.length = volname.length then .error .pastName
    else .ok (fullname.drop (volname.length + 1))
  else .ok fullname

/-- What follows the last slash, or the whole name. -/
def afterLastSlash (name : Name) : Name :=
  if slash ∈ name then (name.reverse.takeWhile (· ≠ slash)).reverse else name

/-- `restore_notify`. -/
def restoreNotify (volname : Name) (unit : NotifyTable) (nr : UInt32) (s : Name) : NotifyTable :=
  let fullname := volname ++ colon :: s
  fileAt unit (notifyhash fullname)
    (⟨nr, fullname, afterLastSlash fullname⟩ :: unit (notifyhash fullname))

/-- The requests in the order `save_filesys_virtual` writes them. -/
def savedRequests (unit : NotifyTable) : List Notify :=
  (List.range notifyHashSize).flatMap unit

/-- The requests of a unit that is saved, read back into a new one. -/
def reloadNotify (volname : Name) (unit : NotifyTable) : Except NotifyFault NotifyTable :=
  (savedRequests unit).foldlM
    (fun unit n => (savedName volname n.fullname).map (restoreNotify volname unit n.notifyrequest))
    fun _ => []

end LibretroUae.Filesys
