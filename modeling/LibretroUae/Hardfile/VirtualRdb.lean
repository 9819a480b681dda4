import LibretroUae.Lib.Image
import Mathlib.Tactic.Common

/-!
# LibretroUae.Hardfile.VirtualRdb

**The synthesised RDB.** A hardfile without a partition table of its own gets one in
front: an area of at least 256 KiB, rounded up to whole cylinders, with the hard disk
block (RDSK), one partition (PART) and, with a filesystem file, a filesystem header
(FSHD) and the chain of LSEG blocks that hold the file. Every block is a table of
longwords that is summed up at the end.

The hardware block size is 256 or 512 bytes; the file system's own block size may be
larger, and the geometry is given in blocks of that size.
-/

namespace LibretroUae.Hardfile

open Lib Lib.Image

/-! ### C integers -/

/-- The value of a C `int` computed from `x`. -/
def int32 (x : Int) : Int := (x + 2 ^ 31) % 2 ^ 32 - 2 ^ 31

/-- The value of a `uae_u32` computed from `x`. -/
def u32 (x : Int) : Nat := (x % 2 ^ 32).toNat

/-! ### The configuration -/

/-- What the configuration of a hardfile says about its layout. -/
structure Config where
  surfaces : Int
  sectors : Int
  /-- Block size of the file system. -/
  blocksize : Int
  highcyl : Int
  interleave : Int
  reserved : Int
  buffers : Int
  bufmemtype : Int
  maxtransfer : Int
  mask : Int
  bootpri : Int
  dostype : Int
  stacksize : Int
  priority : Int
  devname : List Byte
  vendorId : List Byte
  productId : List Byte

namespace Config

/-- "hardware block size is always 256 or 512" -/
def hardblocksize (ci : Config) : Nat := if ci.blocksize ≥ 512 then 512 else 256

def cyl (ci : Config) : Int := int32 (ci.surfaces * ci.sectors)

/-- Cylinders that the RDB takes. -/
def cyls (ci : Config) : Int :=
  (int32 (262144 + ci.cyl * ci.blocksize - 1)).tdiv (int32 (ci.cyl * ci.blocksize))

/-- Bytes that the RDB takes. -/
def size (ci : Config) : Int := int32 (ci.cyl * ci.cyls * ci.blocksize)

end Config

/-! ### Blocks -/

/-- `ua_copy` of a C string: cut or filled up with zeros to `maxlen` bytes. -/
def uaCopy (m : Image) (off maxlen : Nat) (s : List Byte) : Image :=
  m.blit off ((s ++ List.replicate maxlen 0).take maxlen)

/-- Sums the longwords of a block and stores the complement in its third one. -/
def rdbCrc (m : Image) (p : Nat) : Image :=
  let blocksize := m.getLong (p + 1 * 4)
  m.putLong (p + 2 * 4) (u32 (-(m.longSum p blocksize : Int)))

/-- The longwords of the RDSK block. -/
def rdskRows (ci : Config) (filesys : Bool) (filesysblocks : Int) : List (Nat × Nat) :=
  [(0, 0x5244534b), (1, 256 / 4), (2, 0), (3, 7), (4, ci.hardblocksize), (5, 0), (6, u32 (-1)),
   (7, 1), (8, if filesys then 2 else u32 (-1)), (9, u32 (-1)), (10, u32 (-1)), (11, u32 (-1)),
   (12, u32 (-1)), (13, u32 (-1)), (14, u32 (-1)), (15, u32 (-1)),
   (16, u32 (ci.highcyl + ci.cyls - 1)), (17, u32 ci.sectors),
   (18, u32 ((ci.surfaces * ci.blocksize).tdiv ci.hardblocksize)), (19, u32 ci.interleave),
   (20, 0), (21, u32 (-1)), (22, u32 (-1)), (23, u32 (-1)), (24, 0), (25, 0), (26, 0),
   (27, u32 (-1)), (28, u32 (-1)), (29, u32 (-1)), (30, u32 (-1)), (31, u32 (-1)), (32, 0),
   (33, u32 ((int32 (ci.cyl * ci.cyls * ci.blocksize)).tdiv ci.hardblocksize - 1)),
   (34, u32 ci.cyls), (35, u32 (ci.highcyl + ci.cyls - 1)),
   (36, u32 ((int32 (ci.cyl * ci.blocksize)).tdiv ci.hardblocksize)), (37, 0),
   (38, u32 (1 + 1 + (if filesysblocks ≠ 0 then 2 + filesysblocks else 0) - 1)), (39, u32 (-1))]

/-- The longwords of the PART block before the device name. -/
def partRows (ci : Config) : List (Nat × Nat) :=
  [(0, 0x50415254), (1, 256 / 4), (2, 0), (3, 7), (4, u32 (-1)),
   (5, if ci.bootpri < -128 then 2 else if ci.bootpri = -128 then 0 else 1),
   (6, u32 (-1)), (7, u32 (-1)), (8, 0)]

/-- The environment vector of the partition. -/
def denvRows (ci : Config) : List (Nat × Nat) :=
  [(0, 16), (1, u32 (ci.blocksize.tdiv 4)), (2, 0), (3, u32 ci.surfaces), (4, 1),
   (5, u32 ci.sectors), (6, u32 ci.reserved), (7, 0), (8, u32 ci.interleave), (9, u32 ci.cyls),
   (10, u32 (ci.highcyl + ci.cyls - 1)), (11, u32 ci.buffers), (12, u32 ci.bufmemtype),
   (13, u32 ci.maxtransfer), (14, u32 ci.mask), (15, u32 ci.bootpri), (16, u32 ci.dostype)]

/-- The longwords of the FSHD block. -/
def fshdRows (ci : Config) (fsver : Nat) : List (Nat × Nat) :=
  [(0, 0x46534844), (1, 256 / 4), (2, 0), (3, 7), (4, u32 (-1)), (5, 0), (8, u32 ci.dostype),
   (9, fsver), (10, 0x100 ||| 0x80 ||| 0x20 ||| 0x10), (15, u32 ci.stacksize),
   (16, u32 ci.priority), (18, 3), (19, u32 (-1))]

/-- "UAE", the product revision. -/
def productRev : List Byte := [0x55, 0x41, 0x45]

def rdskBlock (m : Image) (ci : Config) (filesys : Bool) (filesysblocks : Int) : Image :=
  let m := m.putLongs 0 (rdskRows ci filesys filesysblocks)
  let m := uaCopy m (40 * 4) 8 ci.vendorId
  let m := uaCopy m (42 * 4) 16 ci.productId
  let m := uaCopy m (46 * 4) 4 productRev
  rdbCrc m 0

def partBlock (m : Image) (p : Nat) (ci : Config) : Image :=
  let m := m.putLongs p (partRows ci)
  let m := m.blit (p + 9 * 4) [.ofNat 8 ci.devname.length]
  let m := uaCopy m (p + 9 * 4 + 1) 30 ci.devname
  let m := m.putLongs (p + 128) (denvRows ci)
  rdbCrc m p

def fshdBlock (m : Image) (p : Nat) (ci : Config) (fsver : Nat) : Image :=
  rdbCrc (m.putLongs p (fshdRows ci fsver)) p

/-- A LSEG block with `longs` longwords that holds `data` and points to block `next`. -/
def lsegBlock (m : Image) (p longs next : Nat) (data : List Byte) : Image :=
  let m := m.putLongs p [(0, 0x4c534547), (1, longs), (2, 0), (3, 7)]
  let m := m.blit (p + 5 * 4) data
  let m := m.putLong (p + 4 * 4) next
  rdbCrc m p

theorem Config.hardblocksize_cases (ci : Config) :
    ci.hardblocksize = 256 ∧ ci.blocksize < 512 ∨ ci.hardblocksize = 512 ∧ 512 ≤ ci.blocksize := by
  rw [Config.hardblocksize]
  split <;> omega

/-- The LSEG blocks from block `idx` on for what is left of the filesystem file. The loop
breaks off at the end of the area. -/
def lsegBlocks (ci : Config) (size : Int) (m : Image) (idx : Nat) (rest : List Byte) : Image :=
  let lseg := ci.hardblocksize * idx
  let lsegdatasize := ci.hardblocksize - 5 * 4
  if lseg + ci.hardblocksize > size then m
  else if rest.length ≤ lsegdatasize then
    lsegBlock m lseg (5 + rest.length / 4) (u32 (-1)) rest
  else
    let m := lsegBlock m lseg (ci.hardblocksize / 4) (idx + 1) (rest.take lsegdatasize)
    lsegBlocks ci size m (idx + 1) (rest.drop lsegdatasize)
termination_by rest.length
decreasing_by
  have hbs := ci.hardblocksize_cases
  rw [List.length_drop]
  omega

/-- `create_virtual_rdb`: the RDB area and its size. `getFilesysVersion` finds the version
string of the filesystem file, `none` if the file has none. An area of no size cannot be
written to. -/
def createVirtualRdb (getFilesysVersion : List Byte → Option Nat) (ci : Config)
    (filesys : Option (List Byte)) : Option (Image × Int) :=
  -- a file that does not consist of longwords is not used
  let filesys := filesys.filter fun fs => fs.length % 4 = 0
  let hardblocksize := ci.hardblocksize
  let filesyslen : Int := (filesys.getD []).length
  let filesysblocks :=
    (int32 (filesyslen + hardblocksize - 5 * 4 - 1)).tdiv (hardblocksize - 5 * 4)
  if ci.size ≤ 0 then none
  else
    let rdb : Image := fun _ => 0
    let rdb := rdskBlock rdb ci filesys.isSome filesysblocks
    let rdb := partBlock rdb (hardblocksize * 1) ci
    match filesys with
    | none => some (rdb, ci.size)
    | some fs =>
      let fsver := (getFilesysVersion fs).getD (99 <<< 16 ||| 99)
      let rdb := fshdBlock rdb (hardblocksize * 2) ci fsver
      some (lsegBlocks ci ci.size rdb 3 fs, ci.size)

end LibretroUae.Hardfile
