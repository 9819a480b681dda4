import Mathlib.Tactic.Common

/-!
# LibretroUae.Archive.Tree

**The tree of an archive.** The files of an archive are nodes below the root of a volume. A node
is found by its path, ignoring case, in one walk over the tree: a directory that begins the path
is entered and never left again. Names that a directory has already are changed before they are
added, but only names that are the same to the letter.

Nodes are kept in the order they were made, which is the order of siblings, too, and refer to
their parents by their place in it. A fresh volume is not below another one, and none of its nodes
is the root of one.
-/

namespace LibretroUae.Archive

/-- A string of 8-bit characters. -/
abbrev Name := List UInt8

/-- `FSDB_DIR_SEPARATOR`. -/
def separator : UInt8 := 0x2f

def dot : UInt8 := 0x2e

/-- `tolower`. -/
def lower (c : UInt8) : UInt8 := if 0x41 ≤ c ∧ c ≤ 0x5a then c + 32 else c

/-- What `_tcsicmp` compares. -/
def fold (n : Name) : Name := n.map lower

/-- Does the path of a directory begin a path. -/
def begins (zpath path : Name) : Prop :=
  zpath.length ≤ path.length ∧
    (path[zpath.length]? = none ∨ path[zpath.length]? = some separator) ∧
    fold (path.take zpath.length) = fold zpath

instance (zpath path : Name) : Decidable (begins zpath path) := inferInstanceAs (Decidable (_ ∧ _))

/-! ### Volumes -/

inductive ZnodeType
  | file
  | dir
  deriving DecidableEq, Repr

structure Znode where
  type : ZnodeType
  name : Name
  fullname : Name
  parent : Option Nat
  deriving DecidableEq, Repr

/-- The nodes of a volume, the root first. -/
structure Zvolume where
  nodes : List Znode
  deriving DecidableEq, Repr

/-- Where the name of the root begins in the name of a volume. -/
def rootStart (name : Name) : Nat :=
  if name.head? ≠ some separator ∧ name.head? ≠ some 0x5c ∧ name.take 2 ≠ [dot, 0x5c] ∧
      name.take 3 ≠ [dot, dot, 0x5c] ∧ 0x3a ∉ name then
    match (List.range name.length).reverse.find? fun i => 0 < i && name[i]? == some separator with
    | some i => i + 1
    | none => 0
  else 0

/-- `zvolume_alloc`. -/
def zvolumeAlloc (name : Name) : Zvolume := ⟨[⟨.dir, name.drop (rootStart name), name, none⟩]⟩

namespace Zvolume

variable (zv : Zvolume)

def name (i : Nat) : Name := (zv.nodes[i]?.map Znode.name).getD []
def fullname (i : Nat) : Name := (zv.nodes[i]?.map Znode.fullname).getD []
def parent (i : Nat) : Option Nat := zv.nodes[i]?.bind Znode.parent
def isDir (i : Nat) : Prop := zv.nodes[i]?.map Znode.type = some .dir

instance (i : Nat) : Decidable (zv.isDir i) := inferInstanceAs (Decidable (_ = _))

/-- The first child of a node. -/
def child (i : Nat) : Option Nat :=
  (List.range zv.nodes.length).find? fun j => zv.parent j == some i

/-- The next child of its parent. -/
def sibling (i : Nat) : Option Nat :=
  (List.range zv.nodes.length).find? fun j => i < j && zv.parent j == zv.parent i

/-- The names of the children of a node. -/
def childNames (i : Nat) : List Name :=
  ((List.range zv.nodes.length).filter fun j => zv.parent j == some i).map zv.name

/-- `recurparent`. A child of the root that has its name is taken for it. -/
def recurparent (i : Nat) : Name :=
  match zv.parent i with
  | none => zv.name i
  | some p =>
    if p = 0 ∧ zv.name i = zv.name 0 then zv.name i
    else if p < i then
      let newpath := recurparent p
      (if newpath = [] then [] else newpath ++ [separator]) ++ zv.name i
    else zv.name i
termination_by i

/-! ### Looking up -/

/-- The loop of `get_znode`, which goes on to later nodes only. -/
def walk (path : Name) : Nat → Option Nat → Option Nat
  | _, none => none
  | 0, some _ => none
  | fuel + 1, some i =>
    let zpath := zv.recurparent i
    if zv.isDir i then
      if begins zpath path then
        if path.length = zpath.length then some i else walk path fuel (zv.child i)
      else walk path fuel (zv.sibling i)
    else if fold zpath = fold path then some i
    else walk path fuel (zv.sibling i)

def getZnode (path : Name) : Option Nat := zv.walk path zv.nodes.length (some 0)

/-! ### Adding -/

/-- The place of the last dot. -/
def lastDot (n : Name) : Option Nat :=
  (List.range n.length).reverse.find? fun i => n[i]? == some dot

/-- The name that is tried next. A character that wraps around to NUL ends the name. -/
def nextName (tmpname : Name) : Name :=
  match lastDot tmpname with
  | some ext =>
    if ext > 2 ∧ tmpname[ext - 2]? = some dot then
      (tmpname.modify (ext - 1) (· + 1)).takeWhile (· ≠ 0)
    else tmpname.take ext ++ [dot, 0x31] ++ tmpname.drop ext
  | none => tmpname ++ [dot, 0x31]

/-- The loop of `znode_alloc`: from the first sibling again after every change. -/
def freeName (siblings : List Name) : Nat → Name → Option Name
  | 0, _ => none
  | fuel + 1, tmpname =>
    if tmpname ∈ siblings then freeName siblings fuel (nextName tmpname) else some tmpname

/-- `znode_alloc_child`. -/
def znodeAllocChild (fuel : Nat) (parent : Nat) (type : ZnodeType) (name : Name) :
    Option (Zvolume × Nat) :=
  (freeName (zv.childNames parent) fuel name).map fun tmpname =>
    (⟨zv.nodes ++ [⟨type, tmpname, zv.recurparent parent ++ separator :: tmpname, some parent⟩]⟩,
      zv.nodes.length)

/-- `znode_adddir`. -/
def znodeAdddir (fuel : Nat) (parent : Nat) (name : Name) : Option (Zvolume × Nat) :=
  match zv.getZnode (zv.recurparent parent ++ separator :: name) with
  | some zn => some (zv, zn)
  | none => zv.znodeAllocChild fuel parent .dir name

/-- The directories of a path, from a node on. -/
def addDirs (fuel : Nat) : Zvolume → Nat → List Name → Option (Zvolume × Nat)
  | zv, i, [] => some (zv, i)
  | zv, i, c :: cs => do
    let (zv, j) ← zv.znodeAdddir fuel i c
    addDirs fuel zv j cs

end Zvolume

def isSeparator (c : UInt8) : Bool := c == 0x2f || c == 0x5c

/-- The components of a path that end with a separator, and the last one. -/
def splitPath : Name → List Name × Name
  | [] => ([], [])
  | c :: cs =>
    match isSeparator c, splitPath cs with
    | true, (dirs, last) => ([] :: dirs, last)
    | false, ([], last) => ([], c :: last)
    | false, (d :: dirs, last) => ((c :: d) :: dirs, last)

/-- A path without the separator that it may end with. -/
def stripSeparator (path : Name) : Name :=
  if path.getLast?.any isSeparator then path.dropLast else path

namespace Zvolume

variable (zv : Zvolume)

/-- `zvolume_adddir_abs`. -/
def zvolumeAdddirAbs (fuel : Nat) (path : Name) : Option Zvolume :=
  if path = [] then some zv
  else do
    let (zv, i) ← addDirs fuel zv 0 (splitPath (stripSeparator path)).1
    let (zv, _) ← zv.znodeAdddir fuel i (splitPath (stripSeparator path)).2
    return zv

/-- `zvolume_addfile_abs`. -/
def zvolumeAddfileAbs (fuel : Nat) (path : Name) : Option Zvolume := do
  let (zv, i) ← addDirs fuel zv 0 (splitPath path).1
  if (splitPath path).2 = [] then return zv
  else
    let (zv, _) ← zv.znodeAllocChild fuel i .file (splitPath path).2
    return zv

end Zvolume

/-- What is called on a volume. -/
inductive Call
  | adddir (path : Name)
  | addfile (path : Name)

def Zvolume.call (fuel : Nat) (zv : Zvolume) : Call → Option Zvolume
  | .adddir path => zv.zvolumeAdddirAbs fuel path
  | .addfile path => zv.zvolumeAddfileAbs fuel path

def Zvolume.run (fuel : Nat) : Zvolume → List Call → Option Zvolume
  | zv, [] => some zv
  | zv, c :: cs => do
    let zv ← zv.call fuel c
    zv.run fuel cs

end LibretroUae.Archive
