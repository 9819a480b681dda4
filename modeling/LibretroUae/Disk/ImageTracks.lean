import Mathlib.Data.List.Basic
import Mathlib.Logic.Function.Basic
import Mathlib.Tactic.Common
import Mathlib.Tactic.Ring

/-!
# LibretroUae.Disk.ImageTracks

**The track tables of a floppy image** (`drive_insert`, `read_header_ext2`). Which tracks an image
has follows from its header or from its size. Every format has a loop of its own that fills
`trackdata`, and a write file has its header read into `writetrackdata` behind it.

A table is a function with the log of the entries that were filled, so that an entry behind the
table can be seen. The loaders of CAPS, SCP, FDI and Catweasel images fill no entry; what they say
of an image is a parameter. A floppy bridge returns before any entry is filled and is left out.
Offsets are C `int`s that are far from their limit as long as the entries are those of the table,
so they are numbers here.
-/

namespace LibretroUae.ImageTracks

abbrev Byte := BitVec 8

def maxTracks : Nat := 2 * 83

inductive ImageTracktype where
  | amigados | raw | raw1 | pcdos | diskspare | none
  /-- `(image_tracktype)buffer[3]` of another value. -/
  | other (n : Nat)
  deriving DecidableEq

def ImageTracktype.ofByte (b : Byte) : ImageTracktype :=
  match b.toNat with
  | 0 => amigados
  | 1 => raw
  | 2 => raw1
  | 3 => pcdos
  | 4 => diskspare
  | 5 => none
  | n => other n

structure TrackId where
  len : BitVec 16
  offs : Int
  extraoffs : Int
  bitlen : Nat
  track : Nat
  sync : BitVec 16
  type : ImageTracktype
  revolutions : Nat

/-- `trackid[MAX_TRACKS]` with the log of the entries filled. -/
structure Tracks where
  entry : Nat → TrackId
  filled : List Nat

namespace Tracks

def set (t : Tracks) (i : Nat) (f : TrackId → TrackId) : Tracks where
  entry := Function.update t.entry i (f (t.entry i))
  filled := t.filled ++ [i]

/-- The table of the image before: its entries stay until they are filled. -/
def unfilled (t : Tracks) : Tracks := ⟨t.entry, []⟩

/-- A loop that fills the first `n` entries. -/
def fill (t : Tracks) (n : Nat) (f : Nat → TrackId → TrackId) : Tracks :=
  (List.range n).foldl (fun t i => t.set i (f i)) t

end Tracks

/-! ### Files and drives -/

/-- What `drive_insert` reads of a file. Past the end of the file a read leaves the buffer as it
was, so the bytes of `head` and `record` are whatever is in the buffer after the read. -/
structure FloppyFile where
  /-- The first eight bytes. -/
  buffer : Nat → Byte
  /-- The buffer after the four bytes behind them. -/
  head : Nat → Byte
  /-- The buffer after the entry of a track in the header. -/
  record : Nat → Nat → Byte
  length : Nat

/-- `zfile_ftell32` at the end of the file. -/
def FloppyFile.size (f : FloppyFile) : Nat := min f.length (2 ^ 31 - 1)

def FloppyFile.startsWith (f : FloppyFile) (magic : List Byte) : Bool :=
  magic.zipIdx.all fun (b, i) => f.buffer i == b

/-- `"UAE-1ADF"` -/
def magicExt2 : List Byte := [0x55, 0x41, 0x45, 0x2d, 0x31, 0x41, 0x44, 0x46]

/-- `"UAE--ADF"` -/
def magicExt1 : List Byte := [0x55, 0x41, 0x45, 0x2d, 0x2d, 0x41, 0x44, 0x46]

def exeheader : List Byte := [0x00, 0x00, 0x03, 0xf3, 0x00, 0x00, 0x00, 0x00]

inductive DriveType where
  | none | dd35 | hd35 | sd525 | dd35Escom | pc525Only40 | pc35Only80 | pc5254080 | dd525 | fb
  deriving DecidableEq

inductive DriveFiletype where
  | normal | ext1 | ext2 | fdi | ipf | scp | catweasel | pcdos | kick | skick | normalHeader
  deriving DecidableEq

/-- What the CAPS, SCP and FDI loaders say of an image. -/
inductive Loader where
  | absent
  | refused
  | loaded (filetype : DriveFiletype) (numTracks numSecs : Nat)

structure Drive where
  filetype : Option DriveFiletype
  numTracks : Nat
  writeNumTracks : Nat
  numSecs : Nat
  numHeads : Nat
  ddhd : Nat
  useturbo : Bool
  trackdata : Tracks
  writetrackdata : Tracks

/-- An image in a drive. -/
structure Image where
  file : FloppyFile
  dfxtype : DriveType
  /-- The name has one of the recognized extensions, or the drive is for PC disks only. -/
  canauto : Bool
  catweasel : Bool
  loader : Loader
  writefile : Option FloppyFile

/-! ### `read_header_ext2` -/

namespace FloppyFile

def numTracks (f : FloppyFile) : Nat := (f.head 2).toNat * 256 + (f.head 3).toNat

/-- The length of a track as the header gives it, in 24 bits. -/
def declaredLen (f : FloppyFile) (i : Nat) : Nat :=
  (f.record i 5).toNat * 65536 + (f.record i 6).toNat * 256 + (f.record i 7).toNat

def declaredBitlen (f : FloppyFile) (i : Nat) : Nat :=
  (f.record i 9).toNat * 65536 + (f.record i 10).toNat * 256 + (f.record i 11).toNat

end FloppyFile

/-- The state of the loop over the tracks. -/
structure Ext2Loop where
  tracks : Tracks
  offs : Int
  ddhd : Nat

def ext2Step (f : FloppyFile) (s : Ext2Loop) (i : Nat) : Ext2Loop :=
  -- `len` has 16 bits
  let len := BitVec.ofNat 16 (f.declaredLen i)
  { tracks := s.tracks.set i fun tid =>
      { tid with
        type := .ofByte (f.record i 3)
        revolutions := (f.record i 2).toNat + 1
        len
        bitlen := f.declaredBitlen i
        offs := s.offs
        track := i }
    offs := s.offs + len.toNat
    ddhd := if len.toNat > 20000 then 2 else s.ddhd }

/-- The header in front of the tracks. -/
def ext2Header (n : Nat) : Nat := 8 + 2 + 2 + n * (2 + 2 + 4 + 4)

/-- `read_header_ext2`: the table, the number of tracks and `ddhd`. -/
def readHeaderExt2 (f : FloppyFile) (t : Tracks) (ddhd : Nat) : Option (Tracks × Nat × Nat) :=
  if f.startsWith magicExt2 then
    let s := (List.range f.numTracks).foldl (ext2Step f) ⟨t, ext2Header f.numTracks, ddhd⟩
    some (s.tracks, f.numTracks, s.ddhd)
  else none

/-! ### `drive_insert` -/

/-- The sizes of PC disks. -/
def pcSizes : List Nat :=
  [8 * 40 * 2 * 512, 8 * 40 * 1 * 512, 9 * 40 * 2 * 512, 9 * 40 * 1 * 512, 15 * 80 * 2 * 512] ++
  [80, 81, 82].flatMap (fun c => [9, 18, 10, 20, 21].map fun s => s * c * 2 * 512) ++
  [80, 81, 82].flatMap (fun c => [9, 18, 10, 20].map fun s => s * c * 1 * 512)

def DriveType.can40 (d : DriveType) : Bool :=
  d = .dd525 || d = .sd525 || d = .pc525Only40 || d = .pc5254080

def DriveType.can80 (d : DriveType) : Bool :=
  d = .dd35 || d = .dd35Escom || d = .hd35 || d = .pc35Only80 || d = .pc5254080

def DriveType.drv525 (d : DriveType) : Bool := d = .dd525 || d = .pc525Only40 || d = .pc5254080

def DriveType.hardNumCyls (d : DriveType) : Nat := if d = .sd525 then 40 else 80

structure PcGeometry where
  numSecs : Nat
  ddhd : Nat
  sd : Bool

/-- A round of the loop over `heads`. -/
def pcGeometry (d : DriveType) (size heads : Nat) : Option PcGeometry :=
  let isSize (secs : Nat) (cyls : List Nat) := cyls.any fun c => size == secs * c * heads * 512
  let cyls80 :=
    if d.hardNumCyls ≥ 80 && d.can80 then
      if isSize 9 [80, 81, 82] then some ⟨9, 1, false⟩
      else if !d.drv525 && isSize 18 [80, 81, 82] then some ⟨18, 2, false⟩
      else if !d.drv525 && isSize 10 [80, 81, 82] then some ⟨10, 1, false⟩
      else if !d.drv525 && isSize 20 [80, 81, 82] then some ⟨20, 2, false⟩
      else if !d.drv525 && isSize 21 [80, 81, 82] then some ⟨21, 2, false⟩
      else if isSize 15 [80] then some ⟨15, 1, false⟩
      else none
    else none
  cyls80.or <|
    if d.hardNumCyls = 40 || d.can40 then
      if isSize 9 [40] then some ⟨9, 1, true⟩
      else if isSize 8 [40] then some ⟨8, 1, true⟩
      else none
    else none

/-- The loop over `heads`: where no geometry is that of the drive it ends at 0 with 9 sectors. -/
def pcFormat (d : DriveType) (size : Nat) : Nat × PcGeometry :=
  match pcGeometry d size 2 with
  | some g => (2, g)
  | none =>
    match pcGeometry d size 1 with
    | some g => (1, g)
    | none => (0, ⟨9, 1, false⟩)

/-- A round of the loop that fills the table of a PC disk. One side only leaves every other entry
without an offset. -/
def pcStep (heads numSecs : Nat) (sd : Bool) (t : Tracks) (i : Nat) : Tracks :=
  let track (tid : TrackId) : TrackId :=
    { tid with
      type := .pcdos
      len := BitVec.ofNat 16 (512 * numSecs)
      bitlen := 0
      offs := ((if sd then i / 2 else i) * 512 * numSecs : Nat) }
  if heads = 1 then
    (t.set (2 * i) track).set (2 * i + 1) fun tid =>
      { tid with type := .none, len := BitVec.ofNat 16 (512 * numSecs), revolutions := 1 }
  else t.set i fun tid => { track tid with revolutions := 1 }

def insertPcdos (img : Image) (drv : Drive) : Drive :=
  let size := img.file.size
  let (heads, g) := pcFormat img.dfxtype size
  -- a single density disk in a 5.25 inch drive has each track twice
  let sd := g.sd && img.dfxtype = .dd525
  let numTracks := size / (g.numSecs * 512) * if sd then 2 else 1
  { drv with
    filetype := some .pcdos
    numSecs := g.numSecs
    ddhd := g.ddhd
    numHeads := heads
    numTracks := if heads = 1 then numTracks * 2 else numTracks
    trackdata := (List.range numTracks).foldl (pcStep heads g.numSecs sd) drv.trackdata }

/-- An entry of a track of `numSecs` sectors. -/
def sectorTrack (type : ImageTracktype) (numSecs : Nat) (offs : Int) (tid : TrackId) : TrackId :=
  { tid with type, len := BitVec.ofNat 16 (512 * numSecs), bitlen := 0, offs, revolutions := 1 }

structure PlainGeometry where
  numTracks : Nat
  numSecs : Nat
  ddhd : Nat
  ds : Bool
  header : Bool

/-- A round of the loop over the sizes larger than a standard disk. -/
def plainGeometry (size i : Nat) : Option PlainGeometry :=
  if size = i * 22 * 512 * 2 then some ⟨size / (512 * 22), 22, 2, false, false⟩
  else if size = i * 11 * 512 * 2 then some ⟨size / (512 * 11), 11, 1, false, false⟩
  else if size = i * 12 * 512 * 2 then some ⟨size / (512 * 12), 12, 1, true, false⟩
  else if size = i * 24 * 512 * 2 then some ⟨size / (512 * 24), 24, 2, true, false⟩
  else if size = i * 11 * (512 + 16) * 2 then some ⟨size / ((512 + 16) * 11), 11, 1, false, true⟩
  else if size = i * 22 * (512 + 16) * 2 then some ⟨size / ((512 + 16) * 22), 22, 1, false, true⟩
  else none

def plainFormat (size : Nat) : PlainGeometry :=
  if size > 160 * 11 * 512 + 511 then
    ([80, 81, 82, 83].findSome? (plainGeometry size)).getD
      ⟨size / (512 * 22), 22, 2, false, false⟩
  else ⟨size / (512 * 11), 11, 1, false, false⟩

def insertPlain (img : Image) (drv : Drive) : Drive :=
  let g := plainFormat img.file.size
  { drv with
    filetype := some (if g.header then .normalHeader else .normal)
    numTracks := g.numTracks
    numSecs := g.numSecs
    ddhd := g.ddhd
    trackdata := drv.trackdata.fill g.numTracks fun i tid =>
      { sectorTrack (if g.ds then .diskspare else .amigados) g.numSecs (i * 512 * g.numSecs) tid with
        extraoffs :=
          if g.header then g.numTracks * 512 * g.numSecs + i * 16 * g.numSecs else -1 } }

/-- The sectors of the disk that an executable is put on, as a multiple of 11. -/
def exeDensity (dfxtype : DriveType) (size : Nat) : Nat :=
  let freeblocks := 1760 - 7
  let blocksOfs := (size + 488 - 1) / 488
  let extensionblocksOfs := (blocksOfs + 72 - 1) / 72
  let blocksFfs := (size + 512 - 1) / 512
  let extensionblocksFfs := (blocksFfs + 72 - 1) / 72
  let hd :=
    if size > 488 * (freeblocks - extensionblocksOfs) &&
      size > 512 * (freeblocks - extensionblocksFfs) then 2 else 1
  if dfxtype = .dd35 then 1 else hd

def insertExe (img : Image) (drv : Drive) : Drive :=
  let hd := exeDensity img.dfxtype img.file.size
  if img.file.size ≤ 512 * (1760 * hd - 7) then
    { drv with
      filetype := some .normal
      numTracks := 160
      numSecs := 11 * hd
      ddhd := hd
      useturbo := true
      trackdata := drv.trackdata.fill 160 fun i =>
        sectorTrack .amigados (11 * hd) (i * 512 * (11 * hd)) }
  else drv

def insertKick (img : Image) (drv : Drive) : Drive :=
  let kick := img.file.size = 262144
  { drv with
    filetype := some (if kick then .kick else .skick)
    numTracks := 1760 / 11
    numSecs := 11
    trackdata := drv.trackdata.fill (1760 / 11) fun i tid =>
      { sectorTrack .amigados 11 (i * 512 * 11 - if kick then 512 else 262144 + 1024) tid with
        track := i } }

/-- The 16 bit length in the header of the old format. -/
def FloppyFile.ext1Len (f : FloppyFile) (i : Nat) : Nat :=
  (f.record i 2).toNat * 256 + (f.record i 3).toNat

def ext1Header : Nat := 160 * 4 + 8

def ext1Step (f : FloppyFile) (s : Tracks × Int) (i : Nat) : Tracks × Int :=
  let sync := BitVec.ofNat 16 ((f.record i 0).toNat * 256 + (f.record i 1).toNat)
  let len := BitVec.ofNat 16 (f.ext1Len i)
  (s.1.set i fun tid =>
    { tid with
      sync
      len
      offs := s.2
      revolutions := 1
      type := if sync = 0 then .amigados else .raw1
      bitlen := if sync = 0 then 0 else len.toNat * 8 },
   s.2 + len.toNat)

def insertExt1 (img : Image) (drv : Drive) : Drive :=
  { drv with
    filetype := some .ext1
    numTracks := 160
    numSecs := 11
    trackdata :=
      ((List.range 160).foldl (ext1Step img.file) (drv.trackdata, (ext1Header : Int))).1 }

def insertExt2 (img : Image) (drv : Drive) : Drive :=
  match readHeaderExt2 img.file drv.trackdata drv.ddhd with
  | some (t, n, ddhd) =>
    { drv with
      filetype := some .ext2
      numTracks := n
      ddhd
      numSecs := if ddhd > 1 then 22 else 11
      trackdata := t }
  | none => drv

/-- The formats in the order in which `drive_insert` asks for them. -/
inductive ImageKind where
  | catweasel | refused | loaded (filetype : DriveFiletype) (numTracks numSecs : Nat)
  | ext2 | ext1 | exe | pcdos | kick | plain
  deriving DecidableEq

def Image.kind (img : Image) : ImageKind :=
  let size := img.file.size
  if img.catweasel then .catweasel
  else
    match img.loader with
    | .refused => .refused
    | .loaded filetype numTracks numSecs => .loaded filetype numTracks numSecs
    | .absent =>
      if img.file.startsWith magicExt2 then .ext2
      else if img.file.startsWith magicExt1 then .ext1
      else if img.file.startsWith exeheader && !img.canauto && size ≤ 512 * (1760 * 2 - 7) then
        .exe
      else if img.canauto && pcSizes.contains size then .pcdos
      else if (size = 262144 || size = 524288) && img.file.buffer 0 = 0x11 &&
          (img.file.buffer 1 = 0x11 || img.file.buffer 1 = 0x14) then .kick
      else .plain

/-- `openwritefile` -/
def openwritefile (w : Option FloppyFile) (drv : Drive) : Drive :=
  match w.bind fun f => readHeaderExt2 f drv.writetrackdata 0 with
  | some (t, n, _) =>
    { drv with
      writetrackdata := t
      writeNumTracks := n
      numTracks := max n drv.numTracks }
  | none => drv

/-- `drive_insert` from the look at the first bytes on. -/
def driveInsert (img : Image) (drv : Drive) : Drive :=
  let drv :=
    { drv with
      filetype := none
      ddhd := 1
      numHeads := 2
      numSecs := 0
      useturbo := false
      trackdata := drv.trackdata.unfilled
      writetrackdata := drv.writetrackdata.unfilled }
  match img.kind with
  | .refused => drv
  | .catweasel =>
    openwritefile img.writefile { drv with filetype := some .catweasel, numTracks := 80, ddhd := 1 }
  | .loaded filetype numTracks numSecs =>
    openwritefile img.writefile { drv with filetype := some filetype, numTracks, numSecs }
  | .ext2 => openwritefile img.writefile (insertExt2 img drv)
  | .ext1 => openwritefile img.writefile (insertExt1 img drv)
  | .exe => openwritefile img.writefile (insertExe img drv)
  | .pcdos => openwritefile img.writefile (insertPcdos img drv)
  | .kick => openwritefile img.writefile (insertKick img drv)
  | .plain => openwritefile img.writefile (insertPlain img drv)

end LibretroUae.ImageTracks
