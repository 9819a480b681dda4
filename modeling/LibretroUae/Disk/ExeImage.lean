import LibretroUae.Lib.Image

/-!
# LibretroUae.Disk.ExeImage

**An executable as a floppy.** `createimagefromexe` writes a disk with the executable, a
directory and a startup script. Blocks come from a bitmap in the order in which `getblock` finds
them; a file is a header block, data blocks and an extension block for each further 72 of them.

The image is the list of the blocks that are written, in order, with what each of them is for. A
date is the twelve bytes that `disk_date` makes of the time.
-/

namespace LibretroUae.Disk

open Lib Lib.Image

/-! ### Blocks and their checksum -/

/-- A block of 512 bytes in memory. -/
abbrev Block := Image

def zeroBlock : Block := fun _ => 0

/-- `pl`. -/
def pl (sector : Block) (offset : Nat) (v : Int) : Block :=
  sector.putLong offset (v % 2 ^ 32).toNat

/-- The sum of `disk_checksum`, stored at `c`. -/
def diskChecksum (p : Block) (c : Nat) : Block := pl p c (-(p.longSum 0 128 : Int))

/-- `sector[offset] = strlen (name); strcpy (sector + offset + 1, name)`. -/
def putName (sector : Block) (offset : Nat) (name : List Byte) : Block :=
  (sector.blit offset [.ofNat 8 name.length]).blit (offset + 1) (name ++ [0])

/-- What a block is written for. -/
inductive BlockKind
  | fileHeader (parent : Int)
  | dirHeader (parent : Int)
  | extension (header : Int)
  | other
  deriving DecidableEq

/-- `writeimageblock`. -/
structure Write where
  kind : BlockKind
  block : Int
  sector : Block

/-! ### The bitmap -/

def floppyTotalblocks : Nat := 1760
def extensionBlocks : Nat := 72

/-- `bitmap` and `prevblock`. -/
structure Alloc where
  bitmap : Nat → Byte
  prevblock : Nat

/-- `while (bitmap[i] != 0xff)`, for at most `n` rounds. -/
def scan (bitmap : Nat → Byte) : Nat → Nat → Option Nat
  | 0, _ => none
  | n + 1, i =>
    if bitmap i = 0xff then none
    else if bitmap i = 0 then some i
    else scan bitmap n (i + 1)

/-- `sizeof bitmap`, which has the end mark inside. -/
def bitmapSize : Nat := floppyTotalblocks * 2 + 8

def getblock (a : Alloc) : Int × Alloc :=
  match (scan a.bitmap bitmapSize a.prevblock).or (scan a.bitmap bitmapSize 0) with
  | some i => (i, ⟨Function.update a.bitmap i 1, i⟩)
  | none => (-1, a)

/-! ### Headers and files -/

def createdirheaderblock (parent : Int) (filename date : List Byte) (a : Alloc) :
    Int × Block × Alloc :=
  let (block, a) := getblock a
  let sector := pl (pl zeroBlock 0 2) 4 block
  let sector := putName (sector.blit 420 date) 432 filename
  (block, pl (pl sector 500 parent) 508 2, a)

/-- The payload of a data block. -/
def payloadSize (ffs : Bool) : Nat := if ffs then 512 else 488

/-- `(size + blocksize - 1) / blocksize`. -/
def dataBlocks (ffs : Bool) (size : Nat) : Nat := (size + payloadSize ffs - 1) / payloadSize ffs

/-- What the loop of `createfileheaderblock` works on. -/
structure FileLoop where
  z : List Write
  sector : Block
  sector3 : Block
  a : Alloc
  datablock : Int
  datasec : Nat
  extensionblock : Int
  extensioncounter : Nat
  extensionblocks : Nat
  /-- What is left of the source. -/
  src : List Byte

/-- The next extension block. -/
def nextExtension (block : Int) (s : FileLoop) : FileLoop :=
  let extensionblock2 := s.extensionblock
  let (extensionblock, a) := getblock s.a
  let s := { s with extensioncounter := 0, extensionblock, a }
  let s :=
    if s.extensionblocks > 0 then
      let sector3 := pl s.sector3 8 extensionBlocks
      let sector3 := pl (pl sector3 504 extensionblock) 4 extensionblock2
      { s with z := s.z ++ [Write.mk (.extension block) extensionblock2 (diskChecksum sector3 20)] }
    else { s with sector := pl s.sector 504 extensionblock }
  let sector3 := pl (pl (pl zeroBlock 0 16) 500 block) 508 (-3)
  { s with sector3, extensionblocks := s.extensionblocks + 1 }

/-- A data block without its pointer to the next one and its checksum. -/
def dataBlock (ffs : Bool) (block : Int) (datasec : Nat) (payload : List Byte) : Block :=
  if ffs then zeroBlock.blit 0 payload
  else (pl (pl (pl (pl zeroBlock 0 8) 4 block) 8 datasec) 12 payload.length).blit 24 payload

/-- A data block of the file. -/
def nextData (ffs : Bool) (block : Int) (s : FileLoop) : FileLoop :=
  let datablock2 := s.datablock
  let sector2 := dataBlock ffs block s.datasec (s.src.take (payloadSize ffs))
  let src := s.src.drop (payloadSize ffs)
  let (datablock, a) := if src.length > 0 then getblock s.a else (0, s.a)
  let sector2 := if ffs then sector2 else diskChecksum (pl sector2 16 datablock) 20
  let s := { s with
    z := s.z ++ [Write.mk .other datablock2 sector2], src, datablock, a, datasec := s.datasec + 1 }
  let s :=
    if s.extensionblocks = 0 then
      { s with sector := pl s.sector (308 - s.extensioncounter * 4) datablock2 }
    else { s with sector3 := pl s.sector3 (308 - s.extensioncounter * 4) datablock2 }
  { s with extensioncounter := s.extensioncounter + 1 }

/-- A round of the loop. -/
def fileRound (ffs : Bool) (block : Int) (s : FileLoop) : FileLoop :=
  nextData ffs block (if s.extensioncounter = extensionBlocks then nextExtension block s else s)

/-- `while (size > 0)`, for at most `n` rounds. -/
def fileLoop (ffs : Bool) (block : Int) : Nat → FileLoop → FileLoop
  | 0, s => s
  | n + 1, s => if s.src.length > 0 then fileLoop ffs block n (fileRound ffs block s) else s

/-- The header of a file before its blocks are listed. -/
def fileHeader (block datablock parent : Int) (blocks size : Nat) (filename date : List Byte) :
    Block :=
  let sector := pl (pl (pl zeroBlock 0 2) 4 block) 8 (min blocks extensionBlocks)
  let sector := pl (pl sector 16 datablock) 324 size
  let sector := putName (sector.blit 420 date) 432 filename
  pl (pl sector 500 parent) 508 (-3)

/-- The last extension block and the header. -/
def closeFile (block parent : Int) (s : FileLoop) : List Write :=
  let z :=
    if s.extensionblocks > 0 then
      s.z ++ [Write.mk (.extension block) s.extensionblock
        (diskChecksum (pl s.sector3 8 s.extensioncounter) 20)]
    else s.z
  z ++ [⟨.fileHeader parent, block, diskChecksum s.sector 20⟩]

def createfileheaderblock (z : List Write) (parent : Int) (filename date src : List Byte)
    (a : Alloc) (ffs : Bool) : Int × List Write × Alloc :=
  let (block, a) := getblock a
  let (datablock, a) := getblock a
  let blocks := dataBlocks ffs src.length
  let s := fileLoop ffs block blocks {
    z, sector := fileHeader block datablock parent blocks src.length filename date
    sector3 := zeroBlock, a, datablock, datasec := 1, extensionblock := 0, extensioncounter := 0
    extensionblocks := 0, src }
  (block, closeFile block parent s, s.a)

/-! ### The image -/

/-- `dirhash` of a name without upper-case letters: `upper` is the name in upper case. -/
def dirhash (upper : List Byte) : Nat :=
  upper.foldl (fun hash c => (hash * 13 + c.toNat) % 2 ^ 11) upper.length % 72

/-- The bitmap word of 32 blocks: those before the end that are free. -/
def bitmapMask (bitmap : Nat → Byte) (i : Nat) : Nat → Nat
  | 0 => 0
  | j + 1 => bitmapMask bitmap i j + if bitmap (2 + i * 32 + j) = 0 then 2 ^ j else 0

/-- `createbitmapblock`, with the end mark at `last`, which is never behind a whole word. -/
def createbitmapblock (bitmap : Nat → Byte) (last : Nat) : Block :=
  let words := (last - 2) / 32
  let sector := (List.range (words + 1)).foldl (fun sector i =>
    sector.putLong (4 + i * 4) (bitmapMask bitmap i (min 32 (last - 2 - i * 32)))) zeroBlock
  diskChecksum sector 0

/-- `createrootblock`, with the two entries of the root directory. -/
def rootBlock (bmblock : Nat) (diskName date : List Byte) (entries : List (Nat × Int)) : Block :=
  let sector := (zeroBlock.blit 3 [2]).blit 15 [0x48]
  let sector := (sector.blit 312 [0xff, 0xff, 0xff, 0xff]).blit 318
    [.ofNat 8 (bmblock / 2 ^ 8), .ofNat 8 bmblock]
  let sector := (putName sector 432 diskName).blit 511 [1]
  let sector := ((sector.blit 420 date).blit 472 date).blit 484 date
  diskChecksum (entries.foldl (fun sector e => pl sector (24 + e.1 * 4) e.2) sector) 20

/-- The names on the disk, and what the caller and the clock put into blocks. -/
structure Labels where
  diskName : List Byte
  bootblock : Block
  date : Nat → List Byte

/-- A string as its characters. -/
def chars (s : String) : List Byte := s.toList.map fun c => .ofNat 8 c.toNat

/-- The bitmap with the boot blocks, the root and the bitmap block used. -/
def firstBitmap (hd i : Nat) : Byte :=
  if i = 1760 * hd then 0xff
  else if i < 2 ∨ i = 880 * hd ∨ i = 880 * hd + 1 then 1 else 0

/-- What `createimagefromexe` writes. -/
def exeImage (src : List Byte) (hd : Nat) (ffs : Bool) (l : Labels) : List Write :=
  let (dblock1, sector2, a) := createdirheaderblock (880 * hd) (chars "s") (l.date 0)
    ⟨firstBitmap hd, 880 * hd⟩
  let (fblock1, z, a) := createfileheaderblock [] dblock1 (chars "startup-sequence") (l.date 1)
    (chars "runme.exe") a ffs
  let sector2 := diskChecksum (pl sector2 (24 + dirhash (chars "STARTUP-SEQUENCE") * 4) fblock1) 20
  let z := z ++ [⟨.dirHeader (880 * hd), dblock1, sector2⟩]
  let (fblock1, z, a) := createfileheaderblock z (880 * hd) (chars "runme.exe") (l.date 2) src a ffs
  let root := rootBlock (880 * hd + 1) l.diskName (l.date 3)
    [(dirhash (chars "RUNME.EXE"), fblock1), (dirhash (chars "S"), dblock1)]
  z ++ [⟨.other, 880 * hd, root⟩,
    ⟨.other, 880 * hd + 1, createbitmapblock a.bitmap (1760 * hd)⟩, ⟨.other, 0, l.bootblock⟩]

def createimagefromexe (src : List Byte) (hd : Nat) (ffs : Bool) (l : Labels) :
    Nat × List Write :=
  let blocks := dataBlocks ffs src.length
  let extensionblocks := (blocks + extensionBlocks - 1) / extensionBlocks
  let totalblocks := 2 + 1 + 1 + 2 + 1 + blocks + extensionblocks
  if totalblocks > floppyTotalblocks * hd then (0, []) else (1, exeImage src hd ffs l)

/-! ### Inserting an executable -/

/-- The drive types `DRV_...`. -/
inductive DrvType
  | none
  | drv35DD
  | drv35HD
  | drv525SD
  | drv35DDEscom
  | pc525Only40
  | pc35Only80
  | pc525To80
  | drv525DD
  | fb
  deriving DecidableEq

/-- Blocks that are free on a disk, without the extension blocks of the file. -/
def freeBlocks (ffs : Bool) (size : Nat) : Nat :=
  1760 - 7 - (dataBlocks ffs size + extensionBlocks - 1) / extensionBlocks

/-- DD+FFS if the file is larger than DD+OFS. -/
def exeFfs (size : Nat) : Bool := size > payloadSize false * freeBlocks false size

/-- HD+FFS if the file is larger than DD+FFS, and the drive is not a DD drive. -/
def exeHd (size : Nat) (dfxtype : DrvType) : Nat :=
  if exeFfs size ∧ size > payloadSize true * freeBlocks true size ∧ dfxtype ≠ .drv35DD then 2 else 1

/-- The branch of `drive_insert` for executables: `hd` and `ffs` of the image it creates. -/
def driveInsertExe (size : Nat) (dfxtype : DrvType) : Option (Nat × Bool) :=
  if size ≤ 512 * (1760 * 2 - 7) then
    if size ≤ 512 * (1760 * exeHd size dfxtype - 7) then some (exeHd size dfxtype, exeFfs size)
    else .none
  else .none

/-- The largest executable that fits: 1728 data blocks with 24 extension blocks, or 3464 with 49. -/
def exeLimit (dfxtype : DrvType) : Nat :=
  if dfxtype = .drv35DD then 512 * 1728 else 512 * 3464

theorem createimagefromexe_ret (src : List Byte) (hd : Nat) (ffs : Bool) (l : Labels) :
    (createimagefromexe src hd ffs l).1 = 1 ↔
      7 + dataBlocks ffs src.length + (dataBlocks ffs src.length + 71) / 72 ≤ 1760 * hd := by
  rw [createimagefromexe]
  split
  case isTrue h =>
    simp only [floppyTotalblocks, extensionBlocks] at h
    exact iff_of_false Nat.zero_ne_one (by omega)
  case isFalse h =>
    simp only [floppyTotalblocks, extensionBlocks] at h
    exact iff_of_true rfl (by omega)

/-- **Capacity checks.** What `drive_insert` takes fits exactly up to the limit of the drive. -/
theorem createimagefromexe_fits_iff {src : List Byte} {dfxtype : DrvType} {hd : Nat} {ffs : Bool}
    (l : Labels) (h : driveInsertExe src.length dfxtype = some (hd, ffs)) :
    (createimagefromexe src hd ffs l).1 = 1 ↔ src.length ≤ exeLimit dfxtype := by
  rw [createimagefromexe_ret]
  generalize src.length = size at h ⊢
  simp only [driveInsertExe] at h
  split_ifs at h with houter hinner
  simp only [Option.some.injEq, Prod.mk.injEq] at h
  obtain ⟨rfl, rfl⟩ := h
  by_cases hffs : size > payloadSize false * freeBlocks false size
  · have hexe : exeFfs size = true := decide_eq_true hffs
    rw [exeHd, hexe] at hinner ⊢
    simp only [freeBlocks, dataBlocks, payloadSize, extensionBlocks, exeLimit, if_true, true_and,
      Bool.false_eq_true, if_false] at hinner hffs ⊢
    by_cases hdd : dfxtype = .drv35DD <;> simp only [hdd, ne_eq, not_true_eq_false, and_false,
      not_false_eq_true, and_true, if_true, if_false] at hinner ⊢
    · omega
    · split_ifs at hinner ⊢ <;> omega
  · have hexe : exeFfs size = false := decide_eq_false hffs
    rw [exeHd, hexe] at hinner ⊢
    simp only [freeBlocks, dataBlocks, payloadSize, extensionBlocks, exeLimit, false_and,
      Bool.false_eq_true, if_false] at hinner hffs ⊢
    split_ifs <;> omega

/-- An executable of nothing but zeros. -/
def zeros (n : Nat) : List Byte := List.replicate n 0

def noLabels : Labels := ⟨[], zeroBlock, fun _ => List.replicate 12 0⟩

theorem createimagefromexe_fits_small :
    (createimagefromexe (zeros 8) 1 false noLabels).1 = 1 ↔ (zeros 8).length ≤ exeLimit .drv35HD :=
  @createimagefromexe_fits_iff (zeros 8) .drv35HD 1 false noLabels (by decide)

/-- In a DD drive 1753 data blocks pass the check of `drive_insert`, and do not fit. -/
theorem full_disk_unformatted : ¬ ∀ (src : List Byte) (dfxtype : DrvType) (hd : Nat) (ffs : Bool)
    (l : Labels), driveInsertExe src.length dfxtype = some (hd, ffs) →
    (createimagefromexe src hd ffs l).1 = 1 := by
  intro h
  have hlen : (zeros (512 * 1753)).length = 512 * 1753 := List.length_replicate
  have hfits := h (zeros (512 * 1753)) .drv35DD 1 true noLabels (by rw [hlen]; decide)
  rw [createimagefromexe_ret, hlen] at hfits
  exact absurd hfits (by decide)

end LibretroUae.Disk
