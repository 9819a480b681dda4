import LibretroUae.Hardfile.RoundTrip

/-!
# LibretroUae.Hardfile.Scsi

**Reading and writing through the SCSI emulation.** The six forms of READ and WRITE fetch
a block number and a block count from the command, scale them with the block size in 64
bits, check them against the size of the disk and transfer. The fields of the 10 and 12
byte forms come through a signed 32-bit number.

Units are those without SASI features, so that a failed command leaves plain sense data.
-/

namespace LibretroUae.Hardfile

open Lib Lib.Image

/-! ### Units and replies -/

structure ScsiUnit where
  hfd : HardFile
  unitStopped : Bool
  /-- The preference that protects all hardfiles. -/
  harddriveReadOnly : Bool
  /-- A forced end of the disk, in blocks; 0 is none. -/
  maxLba : Nat
  /-- First and last block of each bad range. -/
  badblocks : List (Nat × Nat)

structure Sense where
  /-- `s[0]`. -/
  code : Nat
  /-- `s[2]`. -/
  key : Nat
  /-- `s[12]` and `s[13]`. -/
  asc : Nat
  ascq : Nat
  /-- The block that is reported in `s[3]` to `s[6]` when `s[0]` says so. -/
  info : Nat
  deriving DecidableEq, Repr

structure Reply where
  status : Nat
  dataLen : Int
  sense : Option Sense
  /-- `scsi_data` after the command. -/
  scsiData : Image
  unit : ScsiUnit

def isWriteprotected (u : ScsiUnit) : Bool :=
  u.hfd.target.readonly || u.hfd.target.dangerous || u.harddriveReadOnly

def nodisk (u : ScsiUnit) : Bool := u.hfd.target.driveEmpty

/-- CHECK CONDITION: `data_len` keeps its initial value. -/
def checkCondition (u : ScsiUnit) (scsiData : Image) (sense : Sense) : Reply :=
  ⟨2, -1, some sense, scsiData, u⟩

/-- The sense data for a block that cannot be transferred. -/
def checkfail (currentLba : Nat) (chkerr : Int) : Sense where
  code := if currentLba ≠ 2 ^ 64 - 1 then 0x70 ||| 0x80 else 0x70
  key := if chkerr < 0 then 5 else 3
  asc := if chkerr < 0 then 0x21 else if chkerr = 1 then 0x11 else if chkerr = 2 then 0x0c else 0
  ascq := 0
  info := currentLba % 2 ^ 32

/-! ### Transfers -/

def checkbounds (u : ScsiUnit) (offset len mode : Nat) : Int :=
  let max := u.hfd.fullSize
  let blocksize := u.hfd.blocksize
  if offset ≥ max ∨ (offset + len) % 2 ^ 64 > max ∨ (offset > 0xffffffff ∧ offset ≥ 2 ^ 63) then -1
  else if u.maxLba ≠ 0 ∧ offset ≥ u.maxLba * blocksize % 2 ^ 64 then -1
  else if (mode = 1 ∨ mode = 2) ∧ u.badblocks.any (fun bb =>
      decide ((offset / blocksize + len / blocksize) % 2 ^ 64 ≥ bb.1) &&
        decide (offset / blocksize < bb.2)) then 1
  else 0

/-- `cmd_readx`: the number of bytes read, the buffer and the hardfile after it. -/
def cmdReadx (h : HardFile) (dataptr : Image) (offset len : Nat) : Nat × Image × HardFile :=
  if len = 0 ∨ len > 0x7fffffff then (0, dataptr, h)
  else
    let (v, buf, h) := hdfRead h (dataptr.slice 0 len) offset
    (v, dataptr.blit 0 buf, h)

/-- `cmd_writex`: the number of bytes written, the buffer and the hardfile after it. -/
def cmdWritex (h : HardFile) (dataptr : Image) (offset len : Nat) :
    Option (Nat × Image × HardFile) :=
  if len = 0 ∨ len > 0x7fffffff then some (0, dataptr, h)
  else (hdfWrite h (dataptr.slice 0 len) offset).map fun r => (r.1, dataptr.blit 0 r.2.1, r.2.2)

/-- A READ of `count` blocks from block `lba`, both as 64-bit numbers. -/
def scsiRead (u : ScsiUnit) (lba count : Nat) (scsiData : Image) : Reply :=
  if nodisk u then checkCondition u scsiData ⟨0x70, 2, 0x3a, 0, 0⟩
  else
    let offset := lba * u.hfd.blocksize % 2 ^ 64
    let len := count * u.hfd.blocksize % 2 ^ 64
    let chkerr := checkbounds u offset len 1
    if chkerr ≠ 0 then checkCondition u scsiData (checkfail lba chkerr)
    else
      let (scsiLen, scsiData, hfd) := cmdReadx u.hfd scsiData offset len
      ⟨0, scsiLen, none, scsiData, { u with hfd }⟩

/-- A WRITE of `count` blocks from block `lba`, both as 64-bit numbers. -/
def scsiWrite (u : ScsiUnit) (lba count : Nat) (scsiData : Image) : Option Reply :=
  if nodisk u then some (checkCondition u scsiData ⟨0x70, 2, 0x3a, 0, 0⟩)
  else if isWriteprotected u then some (checkCondition u scsiData ⟨0x70, 7, 0x27, 0, 0⟩)
  else
    let offset := lba * u.hfd.blocksize % 2 ^ 64
    let len := count * u.hfd.blocksize % 2 ^ 64
    let chkerr := checkbounds u offset len 2
    if chkerr ≠ 0 then some (checkCondition u scsiData (checkfail lba chkerr))
    else
      (cmdWritex u.hfd scsiData offset len).map fun r => ⟨0, r.1, none, r.2.1, { u with hfd := r.2.2 }⟩

/-! ### Commands -/

/-- `rl`: a big-endian longword as an `int`. -/
def rl (p : Image) (off : Nat) : Int :=
  if p.getLong off < 2 ^ 31 then p.getLong off else (p.getLong off : Int) - 2 ^ 32

/-- An `int` as a `uae_u64`. -/
def u64 (x : Int) : Nat := (x % 2 ^ 64).toNat

/-- `get_scsi_6_offset` of a unit that is not addressed by cylinders. -/
def getScsi6Offset (cmdbuf : Image) : Nat :=
  (cmdbuf 1).toNat % 32 * 2 ^ 16 + (cmdbuf 2).toNat * 2 ^ 8 + (cmdbuf 3).toNat

/-- The block count of a 6-byte form. -/
def scsi6Len (cmdbuf : Image) : Nat := if (cmdbuf 4).toNat = 0 then 256 else (cmdbuf 4).toNat

def scsi10Len (cmdbuf : Image) : Nat := u64 (rl cmdbuf (7 - 2) % 2 ^ 16)

/-- The READ and WRITE commands of `scsi_hd_emulate`. -/
def scsiHdEmulate (u : ScsiUnit) (cmdbuf scsiData : Image) : Option Reply :=
  let lun := (cmdbuf 1).toNat / 2 ^ 5
  if lun ≠ 0 then some (checkCondition u scsiData ⟨0x70, 5, 0x25, 0, 0⟩)
  else if u.unitStopped then some (checkCondition u scsiData ⟨0x70, 2, 4, 2, 0⟩)
  else
    match (cmdbuf 0).toNat with
    | 0x08 => some (scsiRead u (getScsi6Offset cmdbuf) (scsi6Len cmdbuf) scsiData)
    | 0x0a => scsiWrite u (getScsi6Offset cmdbuf) (scsi6Len cmdbuf) scsiData
    | 0x28 => some (scsiRead u (u64 (rl cmdbuf 2)) (scsi10Len cmdbuf) scsiData)
    | 0x2a => scsiWrite u (u64 (rl cmdbuf 2)) (scsi10Len cmdbuf) scsiData
    | 0xa8 => some (scsiRead u (u64 (rl cmdbuf 2)) (u64 (rl cmdbuf 6)) scsiData)
    | 0xaa => scsiWrite u (u64 (rl cmdbuf 2)) (u64 (rl cmdbuf 6)) scsiData
    | _ => none

/-! ### What the commands are to do -/

/-- A READ or WRITE command, its fields as unsigned numbers. -/
structure RwCommand where
  write : Bool
  lba : Nat
  count : Nat
  deriving DecidableEq, Repr

/-- The READ or WRITE command in a buffer; a count of 0 means 256 in the 6-byte forms. -/
def rwCommand (cmdbuf : Image) : Option RwCommand :=
  match (cmdbuf 0).toNat with
  | 0x08 => some ⟨false, getScsi6Offset cmdbuf, scsi6Len cmdbuf⟩
  | 0x0a => some ⟨true, getScsi6Offset cmdbuf, scsi6Len cmdbuf⟩
  | 0x28 => some ⟨false, cmdbuf.getLong 2, (cmdbuf 7).toNat * 2 ^ 8 + (cmdbuf 8).toNat⟩
  | 0x2a => some ⟨true, cmdbuf.getLong 2, (cmdbuf 7).toNat * 2 ^ 8 + (cmdbuf 8).toNat⟩
  | 0xa8 => some ⟨false, cmdbuf.getLong 2, cmdbuf.getLong 6⟩
  | 0xaa => some ⟨true, cmdbuf.getLong 2, cmdbuf.getLong 6⟩
  | _ => none

section Specification

variable (u : ScsiUnit) (c : RwCommand) (scsiData : Image) (r : Reply)

/-- The first byte of the transfer, and the number of bytes. -/
def RwCommand.offset : Nat := c.lba * u.hfd.blocksize
def RwCommand.len : Nat := c.count * u.hfd.blocksize

/-- The blocks lie inside the disk, and may be written if the command writes. -/
def RwCommand.Allowed : Prop :=
  c.offset u + c.len u ≤ u.hfd.fullSize ∧ (c.write = true → isWriteprotected u = false)

/-- The bytes of the blocks went to the buffer, and nothing else changed. -/
structure HasRead : Prop where
  buffer : r.scsiData =
    scsiData.blit 0 (loaded u.hfd ((content u.hfd).slice (start u.hfd (c.offset u)) (c.len u)))
  disk : content r.unit.hfd = content u.hfd

/-- The bytes of the buffer went to the blocks, as far as these are not in the virtual RDB,
and nothing else changed. -/
structure HasWritten : Prop where
  buffer : r.scsiData = scsiData
  disk : content r.unit.hfd = (content u.hfd).blit
    (start u.hfd (c.offset u) + rdbPart u.hfd (start u.hfd (c.offset u)) (c.len u))
    ((stored u.hfd (scsiData.slice 0 (c.len u))).drop
      (rdbPart u.hfd (start u.hfd (c.offset u)) (c.len u)))

/-- The command moves exactly the bytes of its blocks. -/
structure Transfers : Prop where
  status : r.status = 0
  dataLen : r.dataLen = c.len u
  read : c.write = false → HasRead u c scsiData r
  write : c.write = true → HasWritten u c scsiData r

/-- CHECK CONDITION: no bytes are moved and nothing is changed. -/
structure Refuses : Prop where
  status : r.status = 2
  dataLen : r.dataLen = -1
  buffer : r.scsiData = scsiData
  unit : r.unit = u

/-- Allowed transfers are made in full, others are refused. -/
def Meets : Prop :=
  (c.Allowed u → Transfers u c scsiData r) ∧ (¬ c.Allowed u → Refuses u scsiData r)

end Specification

end LibretroUae.Hardfile
