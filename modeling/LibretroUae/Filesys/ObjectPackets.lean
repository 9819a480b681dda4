import LibretroUae.Filesys.FileHandles
import LibretroUae.Filesys.Locks
import LibretroUae.Lib.Arena

/-!
# LibretroUae.Filesys.ObjectPackets

**Packets that make, change and remove objects.** A unit caches inodes: a lookup takes a cached
child, or makes one for the host's object. Packets make a child first and ask the host then.

What the host answers is part of a packet. Notifications, which only look names up, are left out.
-/

namespace LibretroUae.Filesys

open Lib

/-! ### The data -/

abbrev ObjectName := List Char

/-- `a_inode`: the pointers of the tree, and what packets look at. -/
structure Inode where
  parent : Option Nat
  aname : ObjectName
  dir : Bool
  softlink : Bool
  vfso : Bool
  amigaosMode : UInt32
  comment : Option ObjectName
  shlock : Int
  elock : Bool
  deleted : Bool
  deriving DecidableEq, Repr

/-- A unit: its inodes by their addresses, and its open handles. -/
structure ObjectUnit where
  inodes : Arena Inode
  keys : List FileKey
  keyUniq : UInt32
  writeprotected : Bool
  cando : Bool

/-- What a name stands for on the host. -/
structure HostObject where
  dir : Bool
  softlink : Bool
  amigaosMode : UInt32
  comment : Option ObjectName
  deriving DecidableEq, Repr

/-- The host's objects by the directory they are in and their name, where the soft links lead, and
which cached files are freed when an inode is made. -/
structure ObjectHost where
  objects : Nat → ObjectName → Option HostObject
  resolves : Nat → Bool
  flush : Nat → List Nat

inductive ObjectReply
  | done
  | opened (fh : UInt32)
  | lock (aino : Nat)
  | failed (error : FsError)
  deriving DecidableEq, Repr

inductive ObjectFault
  | freedAino
  | noParent
  deriving DecidableEq, Repr

/-- A component of a path. -/
inductive PathStep
  | up
  | name (n : ObjectName) (last : Bool)
  deriving DecidableEq, Repr

/-- What the host does with a new name: whether it can be represented, and the call itself. -/
structure Making where
  nname : Bool
  done : Bool
  errno : Int
  deriving DecidableEq, Repr

/-- What a rename meets: the host's first and second try, and which handles can be opened again. -/
structure RenameHost where
  nname : Bool
  renamed : Bool
  retried : Bool
  reopened : FileKey → Bool
  errno : Int

/-- The packets, each with the inode of its lock. -/
inductive ObjectPacket
  | createDir (base : Nat) (name : ObjectName) (host : Making)
  | find (kind : FindKind) (base : Nat) (name : ObjectName) (host : Making)
  | rename (base1 : Nat) (name1 : ObjectName) (base2 : Nat) (name2 : ObjectName) (host : RenameHost)
  | delete (base : Nat) (name : ObjectName) (removed : Bool) (errno : Int)
  | setProtect (base : Nat) (name : ObjectName) (mask : UInt32) (attrs : Bool)
  | setComment (base : Nat) (name comment : ObjectName)

/-! ### Paths -/

/-- The components of a path; the fuel is its length. -/
def pathSteps : Nat → ObjectName → List PathStep
  | 0, _ => []
  | _ + 1, [] => []
  | fuel + 1, '/' :: rest => .up :: pathSteps fuel rest
  | fuel + 1, p =>
    let component := p.takeWhile (· ≠ '/')
    match p.dropWhile (· ≠ '/') with
    | [] => [.name component true]
    | _ :: rest => .name component false :: pathSteps fuel rest

/-- A path without the name of a volume before it. -/
def relative (rel : ObjectName) : ObjectName :=
  let volume := rel.takeWhile fun c => c ≠ '/' && c ≠ ':'
  match rel.drop volume.length with
  | ':' :: rest => rest
  | _ => rel

/-- `bstr_cut`: what is behind the last slash or colon. -/
def bstrCut (name : ObjectName) : ObjectName :=
  (name.reverse.takeWhile fun c => c ≠ '/' && c ≠ ':').reverse

namespace ObjectUnit

/-! ### The cache -/

def deref (u : ObjectUnit) (addr : Nat) : Except ObjectFault Inode :=
  match u.inodes.lookup addr with
  | none => .error .freedAino
  | some x => .ok x

/-- `flush_cache`: files that nobody has are freed. -/
def flushNodes (u : ObjectUnit) : List Nat → ObjectUnit
  | [] => u
  | a :: rest =>
    let recyclable := match u.inodes.lookup a with
      | none => false
      | some x => !x.dir && x.shlock ≤ 0 && !x.elock
    flushNodes (if recyclable then { u with inodes := u.inodes.erase a } else u) rest

/-- Puts a new child into the tree; the cache may be flushed for it. -/
def initChild (host : ObjectHost) (u : ObjectUnit) (x : Inode) : ObjectUnit × Nat :=
  let u := if x.dir then u else u.flushNodes (host.flush u.inodes.next)
  let (inodes, a) := u.inodes.add x
  ({ u with inodes }, a)

/-- The inode of a new object. -/
def newNode (base : Nat) (rel : ObjectName) (dir : Bool) : Inode :=
  ⟨some base, rel, dir, false, false, 0, none, 0, false, false⟩

/-- `create_child_aino`. -/
def createChild (host : ObjectHost) (u : ObjectUnit) (base : Nat) (rel : ObjectName) (dir : Bool) :
    ObjectUnit × Nat :=
  u.initChild host (newNode base rel dir)

/-- `lookup_child_aino`. -/
def lookupChild (host : ObjectHost) (u : ObjectUnit) (base : Nat) (rel : ObjectName) :
    Except ObjectFault (ObjectUnit × Except FsError Nat) := do
  let b ← u.deref base
  if !b.dir then return (u, .error .objectWrongType)
  else
    match u.inodes.find? fun x => x.parent = some base && x.aname = rel with
    | some a => return (u, .ok a)
    | none =>
      match host.objects base rel with
      | none => return (u, .error .objectNotAround)
      | some o =>
        let (u, a) := u.initChild host
          ⟨some base, rel, o.dir, o.softlink, false, o.amigaosMode, o.comment, 0, false, false⟩
        return (u, .ok a)

def isSoftlink (u : ObjectUnit) : Option Nat → Except ObjectFault Bool
  | none => .ok false
  | some a => do
    let x ← u.deref a
    return x.softlink

/-- `get_aino`; a lookup that fails at the last component leaves the directory it was to be in. -/
def getAino (host : ObjectHost) (u : ObjectUnit) (curr : Nat) (prev : Option Nat) :
    List PathStep → Except ObjectFault (ObjectUnit × Found)
  | [] => .ok (u, ⟨some curr, none⟩)
  | .up :: rest => do
    let x ← u.deref curr
    getAino host u (x.parent.getD curr) prev rest
  | .name n last :: rest => do
    let link ← u.isSoftlink prev
    if link then
      return (u, ⟨none, some (if host.resolves curr then .isSoftLink else .objectNotAround)⟩)
    else
      let (u, r) ← u.lookupChild host curr n
      match r with
      | .error e => return (u, ⟨if e = .objectNotAround ∧ last then some curr else none, some e⟩)
      | .ok next => getAino host u next (some next) rest

/-- `find_aino`. -/
def findAino (host : ObjectHost) (u : ObjectUnit) (base : Nat) (name : ObjectName) :
    Except ObjectFault (ObjectUnit × Found) :=
  u.getAino host base none (pathSteps (relative name).length (relative name))

/-- `delete_aino`. -/
def deleteNode (u : ObjectUnit) (a : Nat) : ObjectUnit := { u with inodes := u.inodes.erase a }

def putNode (u : ObjectUnit) (a : Nat) (x : Inode) : ObjectUnit :=
  { u with inodes := u.inodes.put a x }

/-- The answer to a soft link. -/
def softlinkReply (host : ObjectHost) (a : Nat) : ObjectReply :=
  .failed (if host.resolves a then .isSoftLink else .objectNotAround)

/-! ### Making objects -/

/-- `action_create_dir`. -/
def createDir (host : ObjectHost) (u : ObjectUnit) (base : Nat) (name : ObjectName)
    (making : Making) : Except ObjectFault (ObjectUnit × ObjectReply) :=
  if u.writeprotected then .ok (u, .failed .diskWriteProtected)
  else do
    let (u, found) ← u.findAino host base name
    match found.aino, found.err with
    | some _, none => return (u, .failed .objectExists)
    | some base, some .objectNotAround =>
      if !making.nname then return (u, .failed .diskIsFull)
      else
        let (u, a) := u.createChild host base (bstrCut name) true
        -- The inode stays where it is.
        if !making.done then return (u, .failed (.host making.errno))
        else
          let x ← u.deref a
          return (u.putNode a { x with shlock := 1 }, .lock a)
    | _, e => return (u, .failed (e.getD (.host 0)))

/-- The access checks of `do_find` on an object that exists. -/
def findMode (u : ObjectUnit) (kind : FindKind) (x : Inode) : Option FsError :=
  if x.dir then some .objectWrongType
  else if x.elock || kind = .output && 0 < x.shlock then some .objectInUse
  else if kind ≠ .input && x.vfso then some .deleteProtected
  else if kind = .output && x.amigaosMode &&& fibfDelete ≠ 0 then some .deleteProtected
  else if kind = .output then none
  else
    let protect := x.amigaosMode &&& fibfWrite ≠ 0
    let write := !((protect || u.writeprotected) && kind = .input)
    if write && u.writeprotected then some .diskWriteProtected
    else if write && protect then some .writeProtected
    else if x.amigaosMode &&& fibfRead ≠ 0 then some .readProtected
    else none

/-- The end of `do_find`: a handle on an inode, which is deleted again if it was made for
nothing. -/
def openNode (u : ObjectUnit) (kind : FindKind) (a : Nat) (made opened : Bool) (errno : Int) :
    Except ObjectFault (ObjectUnit × ObjectReply) := do
  let x ← u.deref a
  if !x.vfso && !opened then
    return (if made then u.deleteNode a else u, .failed (.host errno))
  else
    let create := match kind with
      | .input => 0
      | .output => 2
      | .write => 1
    let uniq := u.keyUniq + 1
    let u := { u with keys := ⟨uniq, a, !x.vfso, create⟩ :: u.keys, keyUniq := uniq }
    return (u.putNode a (if kind = .output then { x with elock := true, comment := none }
      else { x with shlock := x.shlock + 1 }), .opened uniq)

/-- `action_find_input`, `action_find_output` and `action_find_write`. -/
def find (host : ObjectHost) (u : ObjectUnit) (kind : FindKind) (base : Nat) (name : ObjectName)
    (making : Making) : Except ObjectFault (ObjectUnit × ObjectReply) :=
  if kind ≠ .input && u.writeprotected then .ok (u, .failed .diskWriteProtected)
  else do
    let (u, found) ← u.findAino host base name
    match found.aino with
    | none => return (u, .failed (found.err.getD (.host 0)))
    | some a =>
      if found.err ≠ none ∧ found.err ≠ some .objectNotAround then
        return (u, .failed (found.err.getD (.host 0)))
      else do
        let x ← u.deref a
        if x.softlink then return (u, softlinkReply host a)
        else
          match found.err with
          | none =>
            match u.findMode kind x with
            | some e => return (u, .failed e)
            | none => u.openNode kind a false making.done making.errno
          | some e =>
            if kind = .input then return (u, .failed e)
            else if !making.nname then return (u, .failed .diskIsFull)
            else
              let (u, child) := u.createChild host a (bstrCut name) false
              u.openNode kind child true making.done making.errno

/-! ### Removing and renaming -/

/-- `action_delete_object`. -/
def deleteObject (host : ObjectHost) (u : ObjectUnit) (base : Nat) (name : ObjectName)
    (removed : Bool) (errno : Int) : Except ObjectFault (ObjectUnit × ObjectReply) :=
  if u.writeprotected then .ok (u, .failed .diskWriteProtected)
  else do
    let (u, found) ← u.findAino host base name
    match found.err with
    | some e => return (u, .failed e)
    | none =>
      let a := found.aino.getD 0
      let x ← u.deref a
      if x.amigaosMode &&& fibfDelete ≠ 0 then return (u, .failed .deleteProtected)
      else if 0 < x.shlock || x.elock then return (u, .failed .objectInUse)
      else if !x.vfso && !removed then return (u, .failed (.host errno))
      else if (u.inodes.find? fun y => y.parent = some a).isSome then
        return (u.putNode a { x with deleted := true }, .done)
      else return (u.deleteNode a, .done)

/-- `relock_do` and `relock_re`: handles with a file are opened again, or freed. -/
def relock (u : ObjectUnit) (a1 a2 : Nat) (reopened : FileKey → Bool) : ObjectUnit :=
  { u with
    keys := u.keys.filterMap fun k =>
      if k.aino = a1 ∧ k.fd then
        if reopened k then some { k with aino := a2 } else none
      else some k }

/-- The end of `action_rename_object`: the new inode takes over from the old one. -/
def renameNode (u : ObjectUnit) (a1 a2 : Nat) : Except ObjectFault (ObjectUnit × ObjectReply) := do
  let x1 ← u.deref a1
  let x2 ← u.deref a2
  let x2 := { x2 with comment := x1.comment, amigaosMode := x1.amigaosMode, elock := x1.elock
                      shlock := x1.shlock, vfso := x1.vfso }
  let children := u.inodes.cells.entries.filter fun e => e.2.parent = some a1
  let u := u.putNode a2 x2
  let u := children.foldl (fun u e => u.putNode e.1 { e.2 with parent := some a2 }) u
  return (u.deleteNode a1, .done)

/-- `action_rename_object`. -/
def rename (host : ObjectHost) (u : ObjectUnit) (base1 : Nat) (name1 : ObjectName) (base2 : Nat)
    (name2 : ObjectName) (r : RenameHost) : Except ObjectFault (ObjectUnit × ObjectReply) :=
  if u.writeprotected then .ok (u, .failed .diskWriteProtected)
  else do
    let (u, found1) ← u.findAino host base1 name1
    match found1.err with
    | some e => return (u, .failed e)
    | none =>
      let a1 := found1.aino.getD 0
      if u.keys.any fun k => k.aino = a1 ∧ k.fd ∧ k.createmode = 2 then
        return (u, .failed .objectInUse)
      else
        let (u, found2) ← u.findAino host base2 name2
        let x1 ← u.deref a1
        if found2.aino = some a1 ∧ x1.aname = bstrCut name2 then return (u, .done)
        else if found2.aino ≠ some a1 ∧
            (found2.aino = none ∨ found2.err ≠ some .objectNotAround) then
          return (u, .failed (found2.err.getD .objectExists))
        else
          match if found2.aino = some a1 then x1.parent else found2.aino with
          | none => .error .noParent
          | some base =>
            if !r.nname then return (u, .failed .diskIsFull)
            else
              let (u, a2) := u.createChild host base (bstrCut name2) x1.dir
              if x1.vfso || r.renamed then u.renameNode a1 a2
              else if r.retried then (u.relock a1 a2 r.reopened).renameNode a1 a2
              else
                return ((u.relock a1 a1 r.reopened).deleteNode a2, .failed (.host r.errno))

/-! ### Attributes -/

/-- `fsdb_mode_representable_p`. -/
def modeRepresentable (x : Inode) (mode : UInt32) : Bool :=
  let mask := mode ^^^ 15
  if x.vfso then true
  else if mask &&& 64 ≠ 0 then false
  else if mask &&& 15 = 15 then true
  else if mask &&& 2 = 0 then false
  else if mask &&& 8 = 0 then false
  else mask &&& 15 = 10

/-- `fsdb_mode_supported`. -/
def modeSupported (x : Inode) (mode : UInt32) : UInt32 :=
  let read := mode &&& ~~~(64 ||| 8 ||| 2)
  let write := read &&& ~~~4
  let delete := write &&& ~~~1
  if modeRepresentable x mode then mode
  else if modeRepresentable x read then read
  else if modeRepresentable x write then write
  else if modeRepresentable x delete then delete
  else 0

/-- The mode that a unit stores. -/
def storedMode (u : ObjectUnit) (x : Inode) (mask : UInt32) : UInt32 :=
  if u.cando then mask else modeSupported x mask

/-- `action_set_protect`. -/
def setProtect (host : ObjectHost) (u : ObjectUnit) (base : Nat) (name : ObjectName) (mask : UInt32)
    (attrs : Bool) : Except ObjectFault (ObjectUnit × ObjectReply) :=
  if u.writeprotected then .ok (u, .failed .diskWriteProtected)
  else do
    let (u, found) ← u.findAino host base name
    match found.err with
    | some e => return (u, .failed e)
    | none =>
      let a := found.aino.getD 0
      let x ← u.deref a
      if x.softlink then return (u, softlinkReply host a)
      else
        -- The mode is stored before the host is asked.
        let u := u.putNode a { x with amigaosMode := u.storedMode x mask }
        return (u, if attrs then .done else .failed .objectNotAround)

/-- `action_set_comment`. -/
def setComment (host : ObjectHost) (u : ObjectUnit) (base : Nat) (name comment : ObjectName) :
    Except ObjectFault (ObjectUnit × ObjectReply) :=
  if u.writeprotected then .ok (u, .failed .diskWriteProtected)
  else if u.cando && 80 < comment.length then .ok (u, .failed (.host 220))
  else do
    let commented := if u.cando && comment ≠ [] then some comment else none
    let (u, found) ← u.findAino host base name
    match found.err with
    | some e => return (u, .failed e)
    | none =>
      let a := found.aino.getD 0
      let x ← u.deref a
      if x.softlink then return (u, softlinkReply host a)
      else return (u.putNode a { x with comment := commented }, .done)

/-- Handles a packet. -/
def handle (host : ObjectHost) (u : ObjectUnit) :
    ObjectPacket → Except ObjectFault (ObjectUnit × ObjectReply)
  | .createDir base name making => u.createDir host base name making
  | .find kind base name making => u.find host kind base name making
  | .rename base1 name1 base2 name2 r => u.rename host base1 name1 base2 name2 r
  | .delete base name removed errno => u.deleteObject host base name removed errno
  | .setProtect base name mask attrs => u.setProtect host base name mask attrs
  | .setComment base name comment => u.setComment host base name comment

end ObjectUnit

end LibretroUae.Filesys
