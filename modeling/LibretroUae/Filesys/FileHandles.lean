import LibretroUae.Filesys.FileSize
import LibretroUae.Filesys.Locks

/-!
# LibretroUae.Filesys.FileHandles

**Reading, writing and seeking.** A handle has a position of its own beside that of the host's
descriptor. Data goes to a buffer in one piece of memory at once, to one that crosses memory banks
through a copy, and to memory that only traps reach in chunks.

What the host does with a packet is part of it. A call that is not listed transfers all it can.
-/

namespace LibretroUae.Filesys

/-! ### The data -/

inductive IoError
  | objectInUse
  | objectNotAround
  | deleteProtected
  | diskWriteProtected
  | writeProtected
  | readProtected
  | invalidLock
  | seekError
  | noFreeStore
  | host
  deriving DecidableEq, Repr

/-- A file of the host: its content, and the marks of its `a_inode`. -/
structure IoFile where
  amigaosMode : UInt32
  shlock : Int
  elock : Bool
  content : HostFile
  deriving DecidableEq, Repr

/-- `Key`, with what the host keeps for its descriptor. -/
structure IoKey where
  uniq : UInt32
  aino : Nat
  filePos : Int
  fdPos : Nat
  fdWrite : Bool
  deriving DecidableEq, Repr

structure IoUnit where
  files : List IoFile
  keys : List IoKey
  keyUniq : UInt32
  writeprotected : Bool
  deriving DecidableEq, Repr

/-- What the memory and the host do with a transfer. A call fails, or moves some bytes at most. -/
structure HostTransfer where
  validAddress : Nat → Bool
  indirect : Bool
  allocated : Bool
  seek : Bool
  calls : List (Option Nat)

/-- What the host does with a seek: the seek itself, the seek back to where it was, and the question
for the position. -/
structure HostSeek where
  seek : Bool
  back : Bool
  tell : Bool
  deriving DecidableEq, Repr

/-- The packet of `ACTION_SEEK64`, with the numbers in memory. -/
structure Seek64 where
  arg1 : UInt32
  arg2 : UInt32
  arg3 : UInt32
  arg4 : UInt32
  arg7 : UInt32
  quad : UInt32 → Int

inductive FindKind
  | input
  | output
  | write
  deriving DecidableEq, Repr

/-- The packets, and another program or handle that shortens a file. A file is found by its name,
or is not there. -/
inductive IoEvent
  | find (kind : FindKind) (target : Option Nat) (opened : Bool)
  | fileEnd (fh : UInt32)
  | read (fh size : UInt32) (host : HostTransfer)
  | write (fh : UInt32) (data : List UInt8) (host : HostTransfer)
  | seek (fh : UInt32) (pos mode : Int) (host : HostSeek)
  | seek64 (packet : Seek64) (host : HostSeek)
  | changeFilePosition64 (fh : UInt32) (pos mode : Int) (host : HostSeek)
  | getFilePosition64 (fh : UInt32)
  | shorten (file n : Nat)

inductive IoReply
  | done
  | opened (fh : UInt32)
  | read (bytes : List UInt8)
  | written (n : Nat)
  | position (pos : Int)
  /-- A number is stored in memory. -/
  | stored (addr : UInt32) (pos : Int)
  | failed (error : Option IoError)
  deriving DecidableEq, Repr

/-! ### The host -/

/-- Bytes are written at a position, with zeros before them where the file was shorter. -/
def HostFile.overwrite (f : HostFile) (pos : Nat) (data : List UInt8) : HostFile :=
  if data = [] then f
  else (f ++ List.replicate (pos - f.length) 0).take pos ++ data ++ f.drop (pos + data.length)

/-- The most that the host moves in one call. -/
def maxTransfer : Nat := 0x7ffff000

/-- One call of the host. -/
def hostMove (asked available : Nat) (call : Option Nat) : Option Nat :=
  call.map fun n => min n (min asked (min available maxTransfer))

def trapDataExtraSize : Nat := 4096 - 144

/-- The flags of `open`, and those of the access to a file. -/
structure OpenFlags where
  rdwr : Bool
  creat : Bool
  trunc : Bool
  deriving DecidableEq, Repr

structure VfsAccess where
  write : Bool
  updateExisting : Bool
  deriving DecidableEq, Repr

/-- `my_open`. -/
def myOpen (flags : OpenFlags) : VfsAccess :=
  if flags.rdwr then ⟨true, !flags.trunc && !flags.creat⟩ else ⟨false, false⟩

/-- `filestream_open`: files that are written are emptied, unless they are updated. -/
def VfsAccess.content (access : VfsAccess) (f : HostFile) : HostFile :=
  if access.write && !access.updateExisting then [] else f

/-! ### Handles -/

namespace IoUnit

/-- `lookup_key`. -/
def lookupKey (u : IoUnit) (uniq : UInt32) : Option IoKey := u.keys.find? fun k => uniq == k.uniq

def replaceKey (k : IoKey) : List IoKey → List IoKey
  | [] => []
  | k1 :: rest => if k1.uniq = k.uniq then k :: rest else k1 :: replaceKey k rest

/-- Stores a handle. -/
def putKey (u : IoUnit) (k : IoKey) : IoUnit := { u with keys := replaceKey k u.keys }

def content (u : IoUnit) (aino : Nat) : HostFile := (u.files[aino]?.map IoFile.content).getD []

def putContent (u : IoUnit) (aino : Nat) (f : HostFile) : IoUnit :=
  { u with files := u.files.modify aino fun file => { file with content := f } }

/-! ### Opening and closing -/

/-- The access checks of `do_find` on a file that exists: whether it is opened for writing too. -/
def findAccess (u : IoUnit) (kind : FindKind) (file : IoFile) : Except IoError Bool :=
  if file.elock || kind = .output && 0 < file.shlock then .error .objectInUse
  else if kind = .output && file.amigaosMode &&& fibfDelete ≠ 0 then .error .deleteProtected
  else if kind = .output then .ok true
  else
    let protect := file.amigaosMode &&& fibfWrite ≠ 0
    let write := !((protect || u.writeprotected) && kind = .input)
    if write && u.writeprotected then .error .diskWriteProtected
    else if write && protect then .error .writeProtected
    else if file.amigaosMode &&& fibfRead ≠ 0 then .error .readProtected
    else .ok write

/-- The end of `do_find`: the file is opened, and a handle is made for it. -/
def openFile (u : IoUnit) (kind : FindKind) (aino : Nat) (write opened : Bool) : IoUnit × IoReply :=
  let access := myOpen ⟨write, kind ≠ .input, kind = .output⟩
  if !opened then (u, .failed (some .host))
  else
    let u := u.putContent aino (access.content (u.content aino))
    let uniq := u.keyUniq + 1
    let u := { u with keys := ⟨uniq, aino, 0, 0, access.write⟩ :: u.keys, keyUniq := uniq }
    let files := u.files.modify aino fun file =>
      if kind = .output then { file with elock := true }
      else { file with shlock := file.shlock + 1 }
    ({ u with files }, .opened uniq)

/-- `action_find_input`, `action_find_output` and `action_find_write`. -/
def find (u : IoUnit) (kind : FindKind) (target : Option Nat) (opened : Bool) : IoUnit × IoReply :=
  if kind ≠ .input && u.writeprotected then (u, .failed (some .diskWriteProtected))
  else
    match target with
    | some aino =>
      match u.files[aino]? with
      | none => (u, .failed (some .objectNotAround))
      | some file =>
        match u.findAccess kind file with
        | .error e => (u, .failed (some e))
        | .ok write => u.openFile kind aino write opened
    | none =>
      if kind = .input then (u, .failed (some .objectNotAround))
      else if !opened then (u, .failed (some .host))
      else
        let made : IoUnit := { u with files := u.files ++ [⟨0, 0, false, []⟩] }
        made.openFile kind u.files.length true opened

/-- `action_end`. -/
def actionEnd (u : IoUnit) (fh : UInt32) : IoUnit × IoReply :=
  match u.lookupKey fh with
  | none => (u, .done)
  | some k =>
    let files := u.files.modify k.aino fun file =>
      if file.elock then { file with elock := false } else { file with shlock := file.shlock - 1 }
    ({ u with files, keys := u.keys.eraseP fun k => fh == k.uniq }, .done)

/-! ### Reading -/

/-- Reads in chunks: the bytes, and whether no call failed. The loop ends at a short one. -/
def readChunks (f : HostFile) (pos size : Nat) (calls : List (Option Nat)) : List UInt8 × Bool :=
  if _hsize : size = 0 then ([], true)
  else
    let toread := min size trapDataExtraSize
    match hostMove toread (f.length - pos) (calls.headD (some maxTransfer)) with
    | none => ([], false)
    | some n =>
      let bytes := (f.drop pos).take n
      if n < toread then (bytes, true)
      else
        let rest := readChunks f (pos + n) (size - toread) calls.tail
        (bytes ++ rest.1, rest.2)
termination_by size
decreasing_by
  have : 0 < trapDataExtraSize := by decide
  omega

/-- A number as `uae_u32`. -/
def wrap32 (n : Int) : Nat := (n % 4294967296).toNat

/-- The size of a read, cut at the end of the file. -/
def readSize (f : HostFile) (k : IoKey) (size : Nat) : Nat :=
  if (f.length - k.filePos : Int) < size then wrap32 (f.length - k.filePos) else size

/-- `action_read`. -/
def actionRead (u : IoUnit) (fh size : UInt32) (host : HostTransfer) : IoUnit × IoReply :=
  match u.lookupKey fh with
  | none => (u, .failed none)
  | some k =>
    if size = 0 then (u, .read [])
    else
      let f := u.content k.aino
      let size := readSize f k size.toNat
      if size = 0 then (u, .read [])
      else
        match (if host.seek then lseek f.length k.fdPos k.filePos .set else none) with
        | none => (u, .failed (some .host))
        | some fd =>
          if !host.validAddress size then
            if !host.allocated then (u.putKey { k with fdPos := fd }, .failed (some .noFreeStore))
            else
              match hostMove size (f.length - fd) (host.calls.headD (some maxTransfer)) with
              | none => (u.putKey { k with fdPos := fd }, .failed (some .host))
              | some n =>
                (u.putKey { k with fdPos := fd + n, filePos := k.filePos + n },
                  .read ((f.drop fd).take n))
          else if host.indirect then
            let r := readChunks f fd size host.calls
            if r.2 then
              (u.putKey { k with fdPos := fd + r.1.length, filePos := k.filePos + r.1.length },
                .read r.1)
            else
              -- The -1 is unsigned.
              (u.putKey { k with fdPos := fd + r.1.length, filePos := k.filePos + wrap32 (-1) },
                .failed none)
          else
            match hostMove size (f.length - fd) (host.calls.headD (some maxTransfer)) with
            | none =>
              (u.putKey { k with fdPos := fd, filePos := k.filePos + wrap32 (-1) }, .failed none)
            | some n =>
              (u.putKey { k with fdPos := fd + n, filePos := k.filePos + n },
                .read ((f.drop fd).take n))

/-! ### Writing -/

/-- Writes in chunks: the file, the number of bytes, and whether no call failed. -/
def writeChunks (write : Bool) (f : HostFile) (pos : Nat) (data : List UInt8)
    (calls : List (Option Nat)) : HostFile × Nat × Bool :=
  if _hdata : data = [] then (f, 0, true)
  else
    let towrite := min data.length trapDataExtraSize
    match hostMove towrite towrite
        (if write then calls.headD (some maxTransfer) else none) with
    | none => (f, 0, false)
    | some n =>
      let f := f.overwrite pos (data.take n)
      if n < towrite then (f, n, true)
      else
        let rest := writeChunks write f (pos + n) (data.drop towrite) calls.tail
        (rest.1, n + rest.2.1, rest.2.2)
termination_by data.length
decreasing_by
  have : 0 < trapDataExtraSize := by decide
  have := List.length_pos_iff.mpr _hdata
  rw [List.length_drop]
  omega

/-- `action_write`. -/
def actionWrite (u : IoUnit) (fh : UInt32) (data : List UInt8) (host : HostTransfer) :
    IoUnit × IoReply :=
  match u.lookupKey fh with
  | none => (u, .failed none)
  | some k =>
    if u.writeprotected then (u, .failed (some .diskWriteProtected))
    else if data = [] then (u, .written 0)
    else
      let f := u.content k.aino
      match (if host.seek then lseek f.length k.fdPos k.filePos .set else none) with
      | none => (u, .failed (some .host))
      | some fd =>
        if host.validAddress data.length && host.indirect then
          -- The size is counted as an int.
          let r := writeChunks k.fdWrite f fd (if data.length < 2147483648 then data else [])
            host.calls
          if r.2.2 then
            ((u.putContent k.aino r.1).putKey
              { k with fdPos := fd + r.2.1, filePos := k.filePos + r.2.1 }, .written r.2.1)
          else
            ((u.putContent k.aino r.1).putKey { k with fdPos := fd + r.2.1 }, .failed (some .host))
        else if !host.validAddress data.length && !host.allocated then
          (u.putKey { k with fdPos := fd }, .failed (some .noFreeStore))
        else
          match hostMove data.length data.length
              (if k.fdWrite then host.calls.headD (some maxTransfer) else none) with
          | none => (u.putKey { k with fdPos := fd }, .failed (some .host))
          | some n =>
            ((u.putContent k.aino (f.overwrite fd (data.take n))).putKey
              { k with fdPos := fd + n, filePos := k.filePos + n }, .written n)

/-! ### Seeking -/

def maxFileSize32 : Int := 0xffffffff

/-- Where a seek from the position of the handle ends. -/
def seekTarget (k : IoKey) (size : Nat) (pos : Int) : Whence → Int
  | .set => pos
  | .cur => k.filePos + pos
  | .fromEnd => size + pos

/-- The end of a seek that went well: the host is asked where it is. -/
def tellPosition (u : IoUnit) (k : IoKey) (fd : Nat) (host : HostSeek) : IoUnit :=
  u.putKey { k with fdPos := fd, filePos := if host.tell then fd else -1 }

/-- `action_seek`. -/
def actionSeek (u : IoUnit) (fh : UInt32) (pos mode : Int) (host : HostSeek) : IoUnit × IoReply :=
  match u.lookupKey fh with
  | none => (u, .failed (some .invalidLock))
  | some k =>
    let size := (u.content k.aino).length
    let temppos := seekTarget k size pos (whenceOf mode)
    if size < temppos ∨ temppos < 0 then (u, .failed (some .seekError))
    else
      let res := if host.seek then lseek size k.fdPos pos (whenceOf mode) else none
      if res = none ∨ maxFileSize32 < k.filePos then
        let back := if host.back then lseek size k.fdPos k.filePos .set else none
        (u.putKey { k with fdPos := back.getD (res.getD k.fdPos) }, .failed (some .seekError))
      else (u.tellPosition k (res.getD 0) host, .position k.filePos)

/-- A seek without a check of its start, as the 64-bit packets make it. -/
def seekKey (u : IoUnit) (k : IoKey) (pos mode : Int) (host : HostSeek) (reply : IoReply) :
    IoUnit × IoReply :=
  let size := (u.content k.aino).length
  if size < seekTarget k size pos (whenceOf mode) then (u, .failed (some .seekError))
  else
    match (if host.seek then lseek size k.fdPos pos (whenceOf mode) else none) with
    | none => (u, .failed (some .seekError))
    | some fd => (u.tellPosition k fd host, reply)

/-- `action_change_file_position64`. -/
def actionChangeFilePosition64 (u : IoUnit) (fh : UInt32) (pos mode : Int) (host : HostSeek) :
    IoUnit × IoReply :=
  match u.lookupKey fh with
  | none => (u, .failed (some .invalidLock))
  | some k => u.seekKey k pos mode host .done

/-- `action_seek64`. The offset is at the seventh argument, as if the packet had 64-bit arguments,
and the old position goes where the mode points to. -/
def actionSeek64 (u : IoUnit) (packet : Seek64) (host : HostSeek) : IoUnit × IoReply :=
  match u.lookupKey packet.arg1 with
  | none => (u, .failed (some .invalidLock))
  | some k =>
    u.seekKey k (packet.quad packet.arg7) packet.arg3.toInt32.toInt host
      (.stored packet.arg3 k.filePos)

/-- `action_get_file_position64`. -/
def actionGetFilePosition64 (u : IoUnit) (fh : UInt32) : IoUnit × IoReply :=
  match u.lookupKey fh with
  | none => (u, .failed (some .invalidLock))
  | some k => (u, .position k.filePos)

/-! ### Runs -/

def step (u : IoUnit) : IoEvent → IoUnit × IoReply
  | .find kind target opened => u.find kind target opened
  | .fileEnd fh => u.actionEnd fh
  | .read fh size host => u.actionRead fh size host
  | .write fh data host => u.actionWrite fh data host
  | .seek fh pos mode host => u.actionSeek fh pos mode host
  | .seek64 packet host => u.actionSeek64 packet host
  | .changeFilePosition64 fh pos mode host => u.actionChangeFilePosition64 fh pos mode host
  | .getFilePosition64 fh => u.actionGetFilePosition64 fh
  | .shorten file n => (u.putContent file ((u.content file).take n), .done)

/-- The packets of a run, one after the other: the last state and the replies. -/
def runEvents (u : IoUnit) : List IoEvent → IoUnit × List IoReply
  | [] => (u, [])
  | e :: es =>
    let r := u.step e
    let rest := r.1.runEvents es
    (rest.1, r.2 :: rest.2)

end IoUnit

end LibretroUae.Filesys
