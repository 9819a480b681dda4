import LibretroUae.Lib.Machine
import Mathlib.Data.List.Basic

/-!
# LibretroUae.DiskControl.Storage

**The disk control list.** File names and labels are strings on the heap. Slots at and behind the
count keep what was in them. Archives and playlists that replace an entry are unpacked before;
here an entry is replaced by a single image.
-/

namespace LibretroUae.DiskControl

open Lib

abbrev CString := List Char

def dcMaxSize : Nat := 20
def retroPathMax : Nat := 512

inductive DcImageType
  | none
  | floppy
  | cd
  | hd
  | whdload
  | archive
  | unknown
  deriving DecidableEq, Repr

/-- A slot of the arrays `files`, `labels` and `types`. A pointer is null or an index into the
heap. -/
structure DcSlot where
  file : Option Nat
  label : Option Nat
  type : DcImageType
  deriving DecidableEq, Repr

def emptySlot : DcSlot := ⟨none, none, .none⟩

/-- `dc_storage`, with the strings that were allocated. A string that was freed is `none`. -/
structure DcStorage where
  heap : List (Option CString)
  command : Option Nat
  slots : List DcSlot
  count : Nat
  deriving DecidableEq, Repr

/-- What must not happen to a pointer. -/
inductive DcFault
  | nullString
  | freedString
  | noSlot
  deriving DecidableEq, Repr

/-- The host's files, and the helpers for paths. -/
structure Host where
  pathIsValid : CString → Bool
  pathIsDirectory : CString → Bool
  pathIsAbsolute : CString → Bool
  pathBasename : CString → CString
  pathRemoveExtension : CString → CString
  pathJoin : CString → CString → CString
  /-- Unpacks an archive: the path of the last file in it. -/
  uncompress : CString → CString → CString
  /-- Whether a save disk exists, or could be created, and its path. -/
  saveDisk : CString → CString → Nat → Option CString

/-! ### Strings -/

def strstartswith (str start : CString) : Bool :=
  start.length ≤ str.length && (str.take start.length).map Char.toLower == start.map Char.toLower

def strendswith (str ends : CString) : Bool :=
  ends.length ≤ str.length &&
    (str.drop (str.length - ends.length)).map Char.toLower == ends.map Char.toLower

def isspace (c : Char) : Bool := c.toNat = 32 || (9 ≤ c.toNat && c.toNat ≤ 13)

def trimwhitespace (str : CString) : CString :=
  ((str.dropWhile isspace).reverse.dropWhile isspace).reverse

/-- `dc_get_image_type`. -/
def dcGetImageType (host : Host) (filename : CString) : DcImageType :=
  let ends := fun suffixes : List CString => suffixes.any (strendswith filename)
  if filename = [] then .none
  else if ends [['a', 'd', 'f'], ['a', 'd', 'z'], ['f', 'd', 'i'], ['d', 'm', 's'],
    ['r', 'a', 'w'], ['i', 'p', 'f']] then .floppy
  else if ends [['c', 'u', 'e'], ['c', 'c', 'd'], ['n', 'r', 'g'], ['m', 'd', 's'],
    ['i', 's', 'o'], ['c', 'h', 'd']] then .cd
  else if ends [['h', 'd', 'f'], ['h', 'd', 'z']] || host.pathIsDirectory filename then .hd
  else if ends [['l', 'h', 'a'], ['s', 'l', 'a', 'v', 'e'], ['i', 'n', 'f', 'o']] then .whdload
  else if ends [['z', 'i', 'p'], ['7', 'z']] then .archive
  else .unknown

/-- A playlist: its directory, its name and its lines. -/
structure Playlist where
  basedir : Option CString
  name : CString
  lines : List CString

/-! ### The heap -/

namespace DcStorage

/-- The string at a pointer. -/
def read (s : DcStorage) : Option Nat → Except DcFault CString
  | none => .error .nullString
  | some p =>
    match s.heap[p]? with
    | some (some str) => .ok str
    | _ => .error .freedString

def strdup (s : DcStorage) (str : CString) : DcStorage × Option Nat :=
  ({ s with heap := s.heap ++ [some str] }, some s.heap.length)

/-- `free`; nothing happens to a null pointer. -/
def free (s : DcStorage) : Option Nat → Except DcFault DcStorage
  | none => .ok s
  | some p =>
    match s.heap[p]? with
    | some (some _) => .ok { s with heap := s.heap.set p none }
    | _ => .error .freedString

/-! ### The list -/

/-- `dc_create`. -/
def create : DcStorage := ⟨[], none, List.replicate dcMaxSize emptySlot, 0⟩

/-- Frees what a slot has and clears it. -/
def clearSlot (s : DcStorage) (i : Nat) : Except DcFault DcStorage :=
  match s.slots[i]? with
  | none => .error .noSlot
  | some slot => do
    let s ← s.free slot.file
    let s ← s.free slot.label
    .ok { s with slots := s.slots.set i emptySlot }

/-- The slots below a number, from the first on. -/
def clearSlots (s : DcStorage) : Nat → Except DcFault DcStorage
  | 0 => .ok s
  | n + 1 => do
    let s ← s.clearSlots n
    s.clearSlot n

/-- `dc_reset`. -/
def reset (s : DcStorage) : Except DcFault DcStorage := do
  let s ← s.free s.command
  let s := { s with command := none }
  let s ← s.clearSlots s.count
  .ok { s with count := 0 }

/-- `dc_add_file_int`. -/
def addFileInt (host : Host) (s : DcStorage) (filename : CString) (label : Option CString) :
    Except DcFault DcStorage :=
  if filename = [] then .ok s
  else if s.count < dcMaxSize then
    let (s, file) := s.strdup filename
    let (s, labelPtr) := match label with
      | none | some [] => (s, none)
      | some str => s.strdup str
    if s.count < s.slots.length then
      .ok { s with slots := s.slots.set s.count ⟨file, labelPtr, dcGetImageType host filename⟩
                   count := s.count + 1 }
    else .error .noSlot
  else .ok s

/-- Compares the file names of slots with another one. -/
def findFile (s : DcStorage) (filename : CString) : List DcSlot → Except DcFault Bool
  | [] => .ok false
  | slot :: rest => do
    let str ← s.read slot.file
    if str = filename then .ok true else s.findFile filename rest

/-- `dc_add_file`. -/
def addFile (host : Host) (s : DcStorage) (filename : CString) (label : Option CString) :
    Except DcFault DcStorage :=
  if filename = [] then .ok s
  else do
    let found ← s.findFile filename (s.slots.take s.count)
    if found then .ok s else s.addFileInt host filename label

/-- Shifts the slots behind an entry; the last one is left as it was. -/
def shiftSlots (s : DcStorage) (index : Nat) : DcStorage :=
  if index ≠ s.count - 1 then
    { s with slots := s.slots.take index ++ (s.slots.take s.count).drop (index + 1) ++
               s.slots.drop (s.count - 1) }
  else s

/-- `dc_remove_file`. -/
def removeFile (s : DcStorage) (index : Int) : Except DcFault DcStorage :=
  if index < 0 ∨ s.count ≤ index then .ok s
  else do
    let s ← s.clearSlot index.toNat
    let s := s.shiftSlots index.toNat
    .ok { s with count := s.count - 1 }

/-- Names of configurations and hard drives, which empty the list and restart. -/
def restarts (filename : CString) : Bool :=
  [['u', 'a', 'e'], ['h', 'd', 'f'], ['h', 'd', 'z'], ['l', 'h', 'a']].any (strendswith filename)

/-- The label of an image. -/
def imageLabel (host : Host) (filename : CString) : CString :=
  (host.pathRemoveExtension (host.pathBasename filename)).take (retroPathMax - 1)

/-- `dc_replace_file` for single images. -/
def replaceFile (host : Host) (s : DcStorage) (index : Int) (filename : Option CString) :
    Except DcFault DcStorage :=
  if index < 0 ∨ s.count ≤ index then .ok s
  else do
    let s ← s.clearSlot index.toNat
    match filename with
    | none => s.removeFile index
    | some filename =>
      let fullPath := filename.take (retroPathMax - 1)
      if restarts fullPath then s.reset
      else
        -- The slots before the last one are compared.
        let found ← s.findFile fullPath (s.slots.take (s.count - 1))
        if found then s.removeFile index
        else
          let (s, file) := s.strdup fullPath
          let (s, label) := s.strdup (imageLabel host fullPath)
          let slot := ⟨file, label, dcGetImageType host fullPath⟩
          .ok { s with slots := s.slots.set index.toNat slot }

/-! ### Playlists -/

/-- `dc_add_m3u_disk`: the path and the label that are added. -/
def m3uDisk (host : Host) (basedir : Option CString) (diskFile : CString) (label : Option CString)
    (labelSet : Bool) : Option (CString × Option CString) :=
  match basedir with
  | none => none
  | some basedir =>
    if diskFile = [] then none
    else
      -- A file inside an archive is behind a hash.
      let inside := fun archive : CString => diskFile.tails.any archive.isPrefixOf
      let browsed := inside ['.', 'z', 'i', 'p', '#'] || inside ['.', '7', 'z', '#']
      let browsedFile :=
        if browsed then ((diskFile.splitOn '#').filter (· ≠ [])).getLast?.getD [] else []
      let diskFile := if browsed then diskFile.takeWhile (· ≠ '#') else diskFile
      let path :=
        if host.pathIsValid diskFile then diskFile
        else if basedir ≠ [] && !host.pathIsAbsolute diskFile then host.pathJoin basedir diskFile
        else []
      let label :=
        if labelSet then label.getD []
        else host.pathRemoveExtension
          (if browsedFile ≠ [] then browsedFile else host.pathBasename path)
      let path :=
        if strendswith path ['.', 'z', 'i', 'p'] || strendswith path ['.', '7', 'z'] then
          host.uncompress path browsedFile
        else path
      if host.pathIsValid path then some (path, some label) else none

def specialCommand : CString := ['#', 'C', 'O', 'M', 'M', 'A', 'N', 'D', ':']
def saveDiskTag : CString := ['#', 'S', 'A', 'V', 'E', 'D', 'I', 'S', 'K', ':']
def saveDiskLabel : CString := ['S', 'a', 'v', 'e', ' ', 'D', 'i', 's', 'k', ' ']

/-- `FILE_NAME|FILE_LABEL`. -/
def m3uEntry (line : CString) : CString × Option CString × Bool :=
  if '|' ∈ line then
    let name := (line.takeWhile (· ≠ '|')).take (retroPathMax - 1)
    let label := (((line.dropWhile (· ≠ '|')).drop 1).take (retroPathMax - 1))
    (trimwhitespace name, if label = [] then none else some (trimwhitespace label), true)
  else (trimwhitespace (line.take (retroPathMax - 1)), none, false)

/-- A line of a playlist, and the number of the next save disk. -/
def parseLine (host : Host) (m3u : Playlist) (s : DcStorage) (saveDisk : Nat) (line : CString) :
    Except DcFault (DcStorage × Nat) :=
  let string := trimwhitespace line
  if strstartswith string specialCommand then
    let (s, command) := s.strdup (string.drop specialCommand.length)
    .ok ({ s with command }, saveDisk)
  else if strstartswith string saveDiskTag then
    match host.saveDisk m3u.name (string.drop saveDiskTag.length) saveDisk with
    | none => .ok (s, saveDisk)
    | some path => do
      let s ← s.addFile host path (some (saveDiskLabel ++ Nat.toDigits 10 saveDisk))
      .ok (s, saveDisk + 1)
  else if strstartswith string ['#'] then .ok (s, saveDisk)
  else
    let entry := m3uEntry string
    match m3uDisk host m3u.basedir entry.1 entry.2.1 entry.2.2 with
    | none => .ok (s, saveDisk)
    | some (path, label) => do
      let s ← s.addFile host path label
      .ok (s, saveDisk)

def parseLines (host : Host) (m3u : Playlist) : DcStorage → Nat → List CString →
    Except DcFault DcStorage
  | s, _, [] => .ok s
  | s, saveDisk, line :: rest => do
    let (s, saveDisk) ← s.parseLine host m3u saveDisk line
    parseLines host m3u s saveDisk rest

/-- `dc_parse_m3u`; the file may not open. -/
def parseM3u (host : Host) (s : DcStorage) (m3u : Option Playlist) : Except DcFault DcStorage :=
  match m3u with
  | none => .ok s
  | some m3u => do
    let s ← s.reset
    s.parseLines host m3u 0 m3u.lines

end DcStorage

/-! ### Runs -/

inductive DcEvent
  | addFile (filename : Option CString) (label : Option CString)
  | removeFile (index : Int)
  | replaceFile (index : Int) (filename : Option CString)
  | parseM3u (m3u : Option Playlist)
  | reset

def DcStorage.step (host : Host) (s : DcStorage) : DcEvent → Except DcFault DcStorage
  | .addFile none _ => .ok s
  | .addFile (some filename) label => s.addFile host filename label
  | .removeFile index => s.removeFile index
  | .replaceFile index filename => s.replaceFile host index filename
  | .parseM3u m3u => s.parseM3u host m3u
  | .reset => s.reset

/-- Names that are not single images. -/
def isMulti (filename : CString) : Bool :=
  [['.', 'z', 'i', 'p'], ['.', '7', 'z'], ['.', 'r', 'p', '9'], ['m', '3', 'u']].any
    (strendswith (filename.take (retroPathMax - 1)))

def DcEvent.Legal : DcEvent → Prop
  | .replaceFile _ (some filename) => isMulti filename = false
  | _ => True

def dcMachine (host : Host) : Machine DcStorage DcEvent DcFault where
  legal := fun _ e => e.Legal
  step := DcStorage.step host

end LibretroUae.DiskControl
