import LibretroUae.Lib.Image
import LibretroUae.Lib.Words

/-!
# LibretroUae.Storage.RdbArchive

**The partitions of a hard disk image as files.** The directory of a disk with a rigid disk block
has a file for every partition, with the size computed from the geometry in its block. Opening
the file computes size and offset once more, from the same block, and makes a window on the image.
Both do most of their arithmetic in `int`, which wraps here, and the directory takes the sectors
of a block into account.
-/

namespace LibretroUae.Storage

open Lib Lib.Image

/-! ### Blocks -/

/-- A longword of a block, as an `int`. -/
def rl (buf : Image) (i : Nat) : BitVec 32 := word32 (buf i) (buf (i + 1)) (buf (i + 2)) (buf (i + 3))

/-- A hard disk image; where a seek outside of it ends is left open. -/
structure RdbDisk where
  image : Image
  length : Nat
  outside : Int → Nat

/-- `zfile_fseek` to an offset and `zfile_fread` of a block into `buf`. -/
def RdbDisk.readBlock (z : RdbDisk) (offset : Int) (buf : Image) : Image :=
  let pos := if 0 ≤ offset ∧ offset ≤ z.length then offset.toNat else z.outside offset
  buf.blit 0 (z.image.slice pos (min 512 (z.length - pos)))

/-- What both functions read of the block of a partition. -/
structure Part where
  sizeBlock : BitVec 32
  surf : BitVec 32
  spb : BitVec 32
  spt : BitVec 32
  lowcyl : BitVec 32
  highcyl : BitVec 32

/-- The environment of a partition is at 128, and its first longword is not used. -/
def partOf (buf : Image) : Part :=
  let p := 128 - 16
  ⟨rl buf (p + 20), rl buf (p + 28), rl buf (p + 32), rl buf (p + 36), rl buf (p + 52),
    rl buf (p + 56)⟩

/-- "PART". -/
def isPart (buf : Image) : Bool := buf 0 == 0x50 && buf 1 == 0x41 && buf 2 == 0x52 && buf 3 == 0x54

/-- "DOS". -/
def isDos (buf : Image) : Bool := buf 192 == 0x44 && buf 193 == 0x4f && buf 194 == 0x53

/-! ### The directory -/

/-- What a node of the volume is looked up by later. -/
structure RdbNode where
  offset : BitVec 32
  size : Int
  offset2 : BitVec 32

inductive RdbFault
  | divide
  | unfinished
  deriving DecidableEq, Repr

def Part.cylinders (p : Part) : BitVec 32 := p.highcyl - p.lowcyl + 1

/-- The block size of `archive_directory_rdb`. -/
def Part.blocksize (p : Part) : BitVec 32 := p.sizeBlock * 4 * p.spb

/-- The node of a partition. For a DOS type the root block is computed, too. -/
def partNode (partblock : BitVec 32) (buf : Image) : Except RdbFault RdbNode :=
  let p := partOf buf
  let blocksize := p.blocksize
  let size := p.cylinders * p.surf * p.spt * blocksize
  if isDos buf && blocksize == 0 then .error .divide
  else .ok ⟨partblock, size.toInt, blocksize⟩

/-- The loop over the list of partitions. -/
def partNodes (z : RdbDisk) : Nat → BitVec 32 → Image → Except RdbFault (List RdbNode)
  | 0, _, _ => .error .unfinished
  | fuel + 1, partblock, buf =>
    if partblock.toInt ≤ 0 then .ok []
    else
      let buf := z.readBlock (partblock * 512).toInt buf
      if isPart buf then do
        let zn ← partNode partblock buf
        let rest ← partNodes z fuel (rl buf 16) buf
        return zn :: rest
      else .ok []

/-- `archive_directory_rdb`, without the dump of the first block. -/
def archiveDirectoryRdb (fuel : Nat) (z : RdbDisk) : Except RdbFault (List RdbNode) :=
  let buf := z.readBlock 0 fun _ => 0
  partNodes z fuel (rl buf 28) buf

/-! ### The files -/

/-- What `zfile_fopen_parent` is given. -/
structure RdbWindow where
  offset : Int
  size : Int
  deriving DecidableEq

/-- `archive_access_rdb`. The offset of a node is unsigned; without one it is the dump. -/
def archiveAccessRdb (z : RdbDisk) (zn : RdbNode) : RdbWindow :=
  if zn.offset ≠ 0 then
    let buf := z.readBlock ((zn.offset * 512).toNat : Nat) fun _ => 0
    let p := partOf buf
    let blocksize := p.sizeBlock * 4
    let block := p.lowcyl * p.surf * p.spt
    let size := (p.cylinders * p.surf * p.spt).toInt * blocksize.toInt
    ⟨(block * blocksize).toInt, size⟩
  else
    let blocksize := rl (z.readBlock 0 fun _ => 0) 16
    ⟨(0 * blocksize).toInt, zn.size⟩

/-! ### The partitions -/

/-- The bytes in front of a partition. -/
def Part.start (p : Part) : Nat :=
  p.lowcyl.toNat * p.surf.toNat * p.spt.toNat * (p.sizeBlock.toNat * 4)

/-- The bytes up to the end of a partition. -/
def Part.finish (p : Part) : Nat :=
  (p.highcyl.toNat + 1) * p.surf.toNat * p.spt.toNat * (p.sizeBlock.toNat * 4)

/-- The block of the image with a number. -/
def RdbDisk.block (z : RdbDisk) (b : BitVec 32) : Image := fun i => z.image (b.toNat * 512 + i)

def RdbDisk.part (z : RdbDisk) (b : BitVec 32) : Part := partOf (z.block b)

/-- A partition is not empty, and its block is in front of it, or in the first 2 GiB at least. -/
structure RdbDisk.PartOk (z : RdbDisk) (b : BitVec 32) : Prop where
  magic : isPart (z.block b) = true
  inside : b.toNat * 512 + 512 ≤ z.length
  reserved : b.toNat * 512 < (z.part b).start ∨ b.toNat * 512 < 2 ^ 31
  cylinders : (z.part b).lowcyl.toNat ≤ (z.part b).highcyl.toNat
  surf : 0 < (z.part b).surf.toNat
  spt : 0 < (z.part b).spt.toNat
  spb : 0 < (z.part b).spb.toNat
  sizeBlock : 0 < (z.part b).sizeBlock.toNat

/-- The blocks of the list of partitions, from a pointer to the first one. -/
inductive RdbDisk.PartList (z : RdbDisk) : BitVec 32 → List (BitVec 32) → Prop
  | nil {b : BitVec 32} : b.toInt ≤ 0 → PartList z b []
  | cons {b : BitVec 32} {bs : List (BitVec 32)} : 0 < b.toInt → z.PartOk b →
      PartList z (rl (z.block b) 16) bs → PartList z b (b :: bs)

/-- A disk with a rigid disk block and a list of partitions. -/
structure RdbDisk.WellFormed (z : RdbDisk) (bs : List (BitVec 32)) : Prop where
  inside : 512 ≤ z.length
  parts : z.PartList (rl (z.block 0) 28) bs

/-- A node is as long as its window, which is the partition. -/
structure RdbDisk.Describes (z : RdbDisk) (b : BitVec 32) (zn : RdbNode) : Prop where
  size : zn.size = (archiveAccessRdb z zn).size
  start : (archiveAccessRdb z zn).offset = (z.part b).start
  finish : (archiveAccessRdb z zn).offset + (archiveAccessRdb z zn).size = (z.part b).finish

/-- Size and offset are below 2 GiB, and the sectors of a block make no difference. -/
structure Part.Fits (p : Part) : Prop where
  start : p.start < 2 ^ 31
  size : p.finish - p.start < 2 ^ 31
  spb : (p.finish - p.start) * (p.spb.toNat - 1) % 2 ^ 32 = 0

/-! ### Reading blocks -/

variable {z : RdbDisk} {b : BitVec 32} {bs : List (BitVec 32)} {buf buf' : Image}

theorem readBlock_inside (hin : b.toNat * 512 + 512 ≤ z.length) {i : Nat} (hi : i < 512) :
    z.readBlock (b.toNat * 512 : Nat) buf i = z.block b i := by
  have hpos : (0 : Int) ≤ (b.toNat * 512 : Nat) ∧ ((b.toNat * 512 : Nat) : Int) ≤ z.length := by
    omega
  have hmin : min 512 (z.length - b.toNat * 512) = 512 := by omega
  simp only [RdbDisk.readBlock, if_pos hpos, Int.toNat_natCast, hmin]
  simp only [blit, slice, List.length_map, List.length_range]
  rw [if_pos (by omega), List.getD_eq_getElem?_getD, Nat.sub_zero, List.getElem?_map,
    List.getElem?_range hi]
  rfl

theorem rl_congr (h : ∀ i < 512, buf i = buf' i) {i : Nat} (hi : i + 4 ≤ 512) :
    rl buf i = rl buf' i := by
  rw [rl, rl, h i (by omega), h (i + 1) (by omega), h (i + 2) (by omega), h (i + 3) (by omega)]

theorem partOf_congr (h : ∀ i < 512, buf i = buf' i) : partOf buf = partOf buf' := by
  have hrl : ∀ i, i + 4 ≤ 512 → rl buf i = rl buf' i := fun i hi => rl_congr h hi
  simp only [partOf, hrl _ (show 128 - 16 + 20 + 4 ≤ 512 by decide),
    hrl _ (show 128 - 16 + 28 + 4 ≤ 512 by decide), hrl _ (show 128 - 16 + 32 + 4 ≤ 512 by decide),
    hrl _ (show 128 - 16 + 36 + 4 ≤ 512 by decide), hrl _ (show 128 - 16 + 52 + 4 ≤ 512 by decide),
    hrl _ (show 128 - 16 + 56 + 4 ≤ 512 by decide)]

theorem isPart_congr (h : ∀ i < 512, buf i = buf' i) : isPart buf = isPart buf' := by
  rw [isPart, isPart, h 0 (by decide), h 1 (by decide), h 2 (by decide), h 3 (by decide)]

/-- Where `partblock * 512` is an `int`, both functions read the block. -/
theorem blockOffset (hb : b.toNat * 512 < 2 ^ 31) :
    (b * 512).toInt = (b.toNat * 512 : Nat) ∧ (b * 512).toNat = b.toNat * 512 := by
  have hnat : (b * 512).toNat = b.toNat * 512 := by
    rw [BitVec.toNat_mul]
    exact Nat.mod_eq_of_lt (by change b.toNat * 512 < _; omega)
  refine ⟨?_, hnat⟩
  rw [BitVec.toInt_eq_toNat_cond, hnat, if_pos (by omega)]

/-! ### The arithmetic -/

namespace Part

variable (p : Part)

/-- The number of blocks of a partition. -/
def blocks : Nat :=
  (p.highcyl.toNat + 1 - p.lowcyl.toNat) * p.surf.toNat * p.spt.toNat

theorem finish_sub_start : p.finish - p.start = p.blocks * (p.sizeBlock.toNat * 4) := by
  simp only [finish, start, blocks, Nat.mul_assoc, ← Nat.sub_mul]

theorem blocks_eq (hcyl : p.lowcyl.toNat ≤ p.highcyl.toNat) :
    p.cylinders * p.surf * p.spt = BitVec.ofNat 32 p.blocks := by
  have hcylinders : p.cylinders = BitVec.ofNat 32 (p.highcyl.toNat + 1 - p.lowcyl.toNat) := by
    apply BitVec.eq_of_toNat_eq
    have hhigh := p.highcyl.isLt
    rw [cylinders, BitVec.toNat_add, BitVec.toNat_sub, BitVec.toNat_ofNat]
    change ((2 ^ 32 - p.lowcyl.toNat + p.highcyl.toNat) % 2 ^ 32 + 1) % 2 ^ 32 = _
    omega
  rw [hcylinders, blocks, BitVec.ofNat_mul, BitVec.ofNat_mul, BitVec.ofNat_toNat, BitVec.ofNat_toNat]
  simp

/-- The directory's size is the partition, with the sectors of a block once more. -/
theorem dirSize_eq (hcyl : p.lowcyl.toNat ≤ p.highcyl.toNat) :
    p.cylinders * p.surf * p.spt * p.blocksize =
      BitVec.ofNat 32 ((p.finish - p.start) * p.spb.toNat) := by
  rw [blocks_eq p hcyl, finish_sub_start, blocksize, BitVec.ofNat_mul, BitVec.ofNat_mul,
    BitVec.ofNat_mul, BitVec.ofNat_toNat, BitVec.ofNat_toNat]
  simp [BitVec.mul_assoc]

theorem accessOffset_eq :
    p.lowcyl * p.surf * p.spt * (p.sizeBlock * 4) = BitVec.ofNat 32 p.start := by
  simp [start, BitVec.ofNat_mul]

theorem blocks_pos (hcyl : p.lowcyl.toNat ≤ p.highcyl.toNat) (hsurf : 0 < p.surf.toNat)
    (hspt : 0 < p.spt.toNat) : 0 < p.blocks :=
  Nat.mul_pos (Nat.mul_pos (by omega) hsurf) hspt

/-- The window is as large as the partition where that is an `int`. -/
theorem accessSize_eq (hcyl : p.lowcyl.toNat ≤ p.highcyl.toNat) (hpos : 0 < p.blocks)
    (hsizeBlock : 0 < p.sizeBlock.toNat) (hsize : p.finish - p.start < 2 ^ 31) :
    (p.cylinders * p.surf * p.spt).toInt * (p.sizeBlock * 4).toInt = (p.finish - p.start : Nat) := by
  rw [finish_sub_start] at hsize ⊢
  have hblocks : p.blocks < 2 ^ 31 :=
    Nat.lt_of_le_of_lt (Nat.le_mul_of_pos_right p.blocks (by omega)) hsize
  have hbytes : p.sizeBlock.toNat * 4 < 2 ^ 31 :=
    Nat.lt_of_le_of_lt (Nat.le_mul_of_pos_left _ hpos) hsize
  have hmul : p.sizeBlock * 4 = BitVec.ofNat 32 (p.sizeBlock.toNat * 4) := by
    simp [BitVec.ofNat_mul]
  rw [blocks_eq p hcyl, hmul, toInt_ofNat_small hblocks, toInt_ofNat_small hbytes]
  exact (Int.natCast_mul _ _).symm

theorem finish_eq (hcyl : p.lowcyl.toNat ≤ p.highcyl.toNat) :
    p.finish = p.start + (p.finish - p.start) := by
  have hle : p.start ≤ p.finish := by
    have hlow : p.lowcyl.toNat ≤ p.highcyl.toNat + 1 := by omega
    exact Nat.mul_le_mul_right _ (Nat.mul_le_mul_right _ (Nat.mul_le_mul_right _ hlow))
  omega

theorem mul_spb (t : Nat) (hspb : 0 < p.spb.toNat) :
    t * p.spb.toNat = t + t * (p.spb.toNat - 1) := by
  obtain ⟨k, hk⟩ : ∃ k, p.spb.toNat = k + 1 := ⟨p.spb.toNat - 1, by omega⟩
  rw [hk, Nat.mul_succ, Nat.add_sub_cancel, Nat.add_comm]

/-- The node and the window describe the partition exactly when it fits. -/
theorem fits_iff (hcyl : p.lowcyl.toNat ≤ p.highcyl.toNat) (hpos : 0 < p.blocks)
    (hsizeBlock : 0 < p.sizeBlock.toNat) (hspb : 0 < p.spb.toNat) :
    ((p.cylinders * p.surf * p.spt * p.blocksize).toInt
          = (p.cylinders * p.surf * p.spt).toInt * (p.sizeBlock * 4).toInt ∧
        (p.lowcyl * p.surf * p.spt * (p.sizeBlock * 4)).toInt = p.start ∧
        (p.lowcyl * p.surf * p.spt * (p.sizeBlock * 4)).toInt +
          (p.cylinders * p.surf * p.spt).toInt * (p.sizeBlock * 4).toInt = p.finish) ↔ p.Fits := by
  have hfinish := finish_eq p hcyl
  obtain ⟨t, ht⟩ : ∃ t, p.finish - p.start = t := ⟨_, rfl⟩
  have hspbs := mul_spb p t hspb
  constructor
  · rintro ⟨hsize, hstart, hend⟩
    rw [hstart] at hend
    rw [dirSize_eq p hcyl] at hsize
    have hsize' : (BitVec.ofNat 32 (t * p.spb.toNat)).toInt = t := by
      rw [← ht, hsize]
      omega
    rw [accessOffset_eq] at hstart
    have hlt := BitVec.toInt_lt (x := BitVec.ofNat 32 p.start)
    have hlt' := BitVec.toInt_lt (x := BitVec.ofNat 32 (t * p.spb.toNat))
    rw [toInt_ofNat] at hsize'
    rw [hspbs] at hsize'
    refine ⟨by omega, by omega, ?_⟩
    rw [ht]
    split at hsize' <;> omega
  · rintro ⟨hstart, hsize, hspb'⟩
    rw [accessSize_eq p hcyl hpos hsizeBlock hsize, accessOffset_eq, toInt_ofNat_small hstart,
      dirSize_eq p hcyl, ht, toInt_ofNat, hspbs]
    rw [ht] at hsize hspb'
    have hmod : (t + t * (p.spb.toNat - 1)) % 2 ^ 32 = t := by
      rw [Nat.add_mod, hspb', Nat.add_zero, Nat.mod_mod, Nat.mod_eq_of_lt (by omega)]
    rw [hmod, if_pos hsize]
    exact ⟨rfl, rfl, by omega⟩

/-- A partition that fits has a block size. -/
theorem blocksize_ne_zero (hpos : 0 < p.blocks) (hsizeBlock : 0 < p.sizeBlock.toNat)
    (hspb : 0 < p.spb.toNat) (hfits : p.Fits) : p.blocksize ≠ 0 := by
  intro hzero
  obtain ⟨-, hsize, hspb'⟩ := hfits
  have hblock : p.sizeBlock.toNat * 4 * p.spb.toNat % 2 ^ 32 = 0 := by
    have h := congrArg BitVec.toNat hzero
    rw [blocksize, BitVec.toNat_mul, BitVec.toNat_mul, Nat.mod_mul_mod] at h
    exact h
  have htimes : (p.finish - p.start) * p.spb.toNat % 2 ^ 32 = 0 := by
    rw [finish_sub_start, Nat.mul_assoc, Nat.mul_mod, hblock, Nat.mul_zero, Nat.zero_mod]
  have hbytes : 0 < p.finish - p.start := by
    rw [finish_sub_start]
    exact Nat.mul_pos hpos (by omega)
  rw [mul_spb p _ hspb] at htimes
  omega

end Part

/-! ### Nodes and windows -/

theorem access_offset_lt (zn : RdbNode) : (archiveAccessRdb z zn).offset < 2 ^ 31 := by
  rw [archiveAccessRdb]
  split <;> exact BitVec.toInt_lt

/-- The window of the node of a block. -/
theorem archiveAccessRdb_block (hpos : 0 < b.toInt) (hb : b.toNat * 512 < 2 ^ 31)
    (hin : b.toNat * 512 + 512 ≤ z.length) {zn : RdbNode} (hzn : zn.offset = b) :
    archiveAccessRdb z zn =
      let p := z.part b
      ⟨(p.lowcyl * p.surf * p.spt * (p.sizeBlock * 4)).toInt,
        (p.cylinders * p.surf * p.spt).toInt * (p.sizeBlock * 4).toInt⟩ := by
  have hne : zn.offset ≠ 0 := by
    rintro h0
    rw [← hzn, h0] at hpos
    exact absurd hpos (by decide)
  have hpart : partOf (z.readBlock ((zn.offset * 512).toNat : Nat) fun _ => 0) = z.part b := by
    rw [hzn, (blockOffset hb).2]
    exact partOf_congr fun i hi => readBlock_inside hin hi
  rw [archiveAccessRdb, if_pos hne]
  simp only [hpart]

/-- A node made from the block of a partition describes it exactly when the partition fits. -/
theorem describes_iff (hok : z.PartOk b) (hpos : 0 < b.toInt) (hb : b.toNat * 512 < 2 ^ 31)
    (hbuf : partOf buf = z.part b) {zn : RdbNode} (hzn : partNode b buf = .ok zn) :
    z.Describes b zn ↔ (z.part b).Fits := by
  have hnode : zn.offset = b ∧
      zn.size = ((z.part b).cylinders * (z.part b).surf * (z.part b).spt *
        (z.part b).blocksize).toInt := by
    rw [partNode, hbuf] at hzn
    split at hzn
    · cases hzn
    · obtain rfl := Except.ok.inj hzn
      exact ⟨rfl, rfl⟩
  rw [← Part.fits_iff (z.part b) hok.cylinders (Part.blocks_pos _ hok.cylinders hok.surf hok.spt)
    hok.sizeBlock hok.spb, ← hnode.2]
  have haccess := archiveAccessRdb_block hpos hb hok.inside hnode.1
  constructor
  · rintro ⟨hsize, hstart, hfinish⟩
    rw [haccess] at hsize hstart hfinish
    exact ⟨hsize, hstart, hfinish⟩
  · rintro ⟨hsize, hstart, hfinish⟩
    refine ⟨?_, ?_, ?_⟩ <;> rw [haccess]
    · exact hsize
    · exact hstart
    · exact hfinish

/-- Where a partition begins below 2 GiB, its block is there, too. -/
theorem RdbDisk.PartOk.low (hok : z.PartOk b) (hstart : (z.part b).start < 2 ^ 31) :
    b.toNat * 512 < 2 ^ 31 := by
  rcases hok.reserved with h | h <;> omega

/-- One round of the directory, with the right block. -/
theorem partNodes_block (hok : z.PartOk b) (hpos : 0 < b.toInt) (hb : b.toNat * 512 < 2 ^ 31)
    (fuel : Nat) (buf : Image) : ∃ buf', partOf buf' = z.part b ∧ rl buf' 16 = rl (z.block b) 16 ∧
      partNodes z (fuel + 1) b buf = (do
        let zn ← partNode b buf'
        let rest ← partNodes z fuel (rl (z.block b) 16) buf'
        return zn :: rest) := by
  have hsame : ∀ i < 512, z.readBlock (b * 512).toInt buf i = z.block b i := by
    intro i hi
    rw [(blockOffset hb).1]
    exact readBlock_inside hok.inside hi
  have hmagic : isPart (z.readBlock (b * 512).toInt buf) = true := by
    rw [isPart_congr hsame]
    exact hok.magic
  have hnext : rl (z.readBlock (b * 512).toInt buf) 16 = rl (z.block b) 16 :=
    rl_congr hsame (by decide)
  refine ⟨z.readBlock (b * 512).toInt buf, partOf_congr hsame, hnext, ?_⟩
  rw [partNodes, if_neg (by omega)]
  simp only [hmagic, if_true, hnext]

/-- A partition that fits has a node. -/
theorem partNode_ok (hok : z.PartOk b) (hfits : (z.part b).Fits) (hbuf : partOf buf = z.part b) :
    ∃ zn, partNode b buf = .ok zn := by
  have hne := Part.blocksize_ne_zero (z.part b)
    (Part.blocks_pos _ hok.cylinders hok.surf hok.spt) hok.sizeBlock hok.spb hfits
  have hdivide : (isDos buf && (z.part b).blocksize == 0) = false := by simpa using fun _ => hne
  rw [partNode, hbuf]
  simp only [hdivide, Bool.false_eq_true, if_false]
  exact ⟨_, rfl⟩

/-- The directory describes the partitions of a list exactly when they all fit. -/
theorem partNodes_iff {first : BitVec 32} (hlist : z.PartList first bs) {fuel : Nat}
    (hfuel : bs.length < fuel) (buf : Image) :
    (∃ nodes, partNodes z fuel first buf = .ok nodes ∧ List.Forall₂ z.Describes bs nodes) ↔
      ∀ b ∈ bs, (z.part b).Fits := by
  induction hlist generalizing fuel buf with
  | nil hend =>
    obtain ⟨fuel, rfl⟩ : ∃ k, fuel = k + 1 := ⟨fuel - 1, by omega⟩
    refine ⟨fun _ b hb => absurd hb List.not_mem_nil, fun _ => ⟨[], ?_, .nil⟩⟩
    rw [partNodes, if_pos hend]
  | @cons b bs hpos hok hrest ih =>
    obtain ⟨fuel, rfl⟩ : ∃ k, fuel = k + 1 := ⟨fuel - 1, by omega⟩
    rw [List.length_cons] at hfuel
    constructor
    · rintro ⟨nodes, hnodes, hall⟩
      obtain ⟨zn, rest, hdesc, hrest', rfl⟩ := List.forall₂_cons_left_iff.mp hall
      have hstart : (z.part b).start < 2 ^ 31 := by
        have hlt := @access_offset_lt z zn
        rw [hdesc.start] at hlt
        omega
      have hb := hok.low hstart
      obtain ⟨buf', hpart, -, hround⟩ := partNodes_block hok hpos hb fuel buf
      rw [hround] at hnodes
      cases hnode : partNode b buf' with
      | error f =>
        rw [hnode] at hnodes
        cases hnodes
      | ok zn' =>
        rw [hnode] at hnodes
        cases htail : partNodes z fuel (rl (z.block b) 16) buf' with
        | error f =>
          change (partNodes z fuel (rl (z.block b) 16) buf' >>= _) = _ at hnodes
          rw [htail] at hnodes
          cases hnodes
        | ok rest' =>
          change (partNodes z fuel (rl (z.block b) 16) buf' >>= _) = _ at hnodes
          rw [htail] at hnodes
          obtain ⟨rfl, rfl⟩ := List.cons.inj (Except.ok.inj hnodes)
          have hfit := (describes_iff hok hpos hb hpart hnode).mp hdesc
          have hrestFits := (ih (show bs.length < fuel by omega) buf').mp ⟨rest', htail, hrest'⟩
          exact List.forall_mem_cons.mpr ⟨hfit, hrestFits⟩
    · intro hfits
      have hfit := hfits b List.mem_cons_self
      have hb := hok.low hfit.start
      obtain ⟨buf', hpart, -, hround⟩ := partNodes_block hok hpos hb fuel buf
      obtain ⟨zn, hnode⟩ := partNode_ok hok hfit hpart
      obtain ⟨rest, htail, hrest'⟩ :=
        (ih (show bs.length < fuel by omega) buf').mpr
          fun b' hb' => hfits b' (List.mem_cons_of_mem b hb')
      refine ⟨zn :: rest, ?_, .cons ((describes_iff hok hpos hb hpart hnode).mpr hfit) hrest'⟩
      rw [hround, hnode]
      change (partNodes z fuel (rl (z.block b) 16) buf' >>= _) = _
      rw [htail]
      rfl

/-- The list begins in the first block. -/
theorem archiveDirectoryRdb_eq (hz : z.WellFormed bs) (fuel : Nat) : archiveDirectoryRdb fuel z =
    partNodes z fuel (rl (z.block 0) 28) (z.readBlock 0 fun _ => 0) := by
  have hfirst : rl (z.readBlock 0 fun _ => 0) 28 = rl (z.block 0) 28 :=
    rl_congr (fun i hi => @readBlock_inside z 0 _ (by simpa using hz.inside) i hi) (by decide)
  rw [archiveDirectoryRdb]
  simp only [hfirst]

/-- The directory of a disk has a node for every partition that is as long as its window, and the
window is the partition, exactly when all partitions fit. -/
theorem archiveDirectoryRdb_iff (z : RdbDisk) (bs : List (BitVec 32)) (hz : z.WellFormed bs)
    (fuel : Nat) (hfuel : bs.length < fuel) :
    (∃ nodes, archiveDirectoryRdb fuel z = .ok nodes ∧ List.Forall₂ z.Describes bs nodes) ↔
      ∀ b ∈ bs, (z.part b).Fits := by
  rw [archiveDirectoryRdb_eq hz]
  exact partNodes_iff hz.parts hfuel _

/-! ### Two disks -/

/-- A disk with one partition, of one cylinder with one head and 32 sectors of 512 bytes, after
one such cylinder. -/
def onePartition (spb : Byte) : RdbDisk where
  image := fun i =>
    if i = 31 then 1 -- the partition's block
    else if i = 512 then 0x50
    else if i = 513 then 0x41
    else if i = 514 then 0x52
    else if i = 515 then 0x54
    else if 528 ≤ i ∧ i < 532 then 0xff -- no next one
    else if i = 512 + 135 then 128 -- longwords of a block
    else if i = 512 + 143 then 1 -- heads
    else if i = 512 + 147 then spb
    else if i = 512 + 151 then 32 -- sectors
    else if i = 512 + 167 then 1 -- the first cylinder
    else if i = 512 + 171 then 1 -- the last cylinder
    else 0
  length := 32768
  outside := fun _ => 0

theorem onePartition_part (spb : Byte) :
    (onePartition spb).part 1 = ⟨128, 1, word32 0 0 0 spb, 32, 1, 1⟩ := by
  simp [RdbDisk.part, partOf, rl, RdbDisk.block, onePartition]
  decide

theorem onePartition_wellFormed {spb : Byte} (hspb : 0 < (word32 0 0 0 spb).toNat) :
    (onePartition spb).WellFormed [1] := by
  have hmagic : isPart ((onePartition spb).block 1) = true := by
    simp [isPart, RdbDisk.block, onePartition]
  have hnext : rl ((onePartition spb).block 1) 16 = word32 0xff 0xff 0xff 0xff := by
    simp [rl, RdbDisk.block, onePartition]
  have hfirst : rl ((onePartition spb).block 0) 28 = 1 := by
    simp [rl, RdbDisk.block, onePartition]
    decide
  refine ⟨show 512 ≤ 32768 by decide, ?_⟩
  rw [hfirst]
  refine .cons (by decide) ⟨hmagic, show 1 * 512 + 512 ≤ 32768 by decide, ?_, ?_, ?_, ?_, ?_, ?_⟩
    (.nil (by rw [hnext]; decide))
  · exact .inr (by decide)
  all_goals rw [onePartition_part]
  · exact show 0 < 1 by decide
  · exact show 0 < 32 by decide
  · exact hspb
  · exact show 0 < 128 by decide

/-- With one sector per block the directory is right. -/
theorem archiveDirectoryRdb_onePartition :
    ∃ nodes, archiveDirectoryRdb 2 (onePartition 1) = .ok nodes ∧
      List.Forall₂ (onePartition 1).Describes [1] nodes := by
  refine (archiveDirectoryRdb_iff (onePartition 1) [1] (onePartition_wellFormed (by decide)) 2
    (by decide)).mpr fun b hb => ?_
  obtain rfl := List.mem_singleton.mp hb
  rw [onePartition_part]
  exact ⟨by decide, by decide, by decide⟩

/-- With two sectors per block the node is twice as long as the partition. -/
theorem archiveDirectoryRdb_twoSectors :
    ¬ ∀ (z : RdbDisk) (bs : List (BitVec 32)), z.WellFormed bs → ∀ fuel, bs.length < fuel →
      ∃ nodes, archiveDirectoryRdb fuel z = .ok nodes ∧ List.Forall₂ z.Describes bs nodes := by
  intro h
  have hz : (onePartition 2).WellFormed [1] := onePartition_wellFormed (by decide)
  obtain ⟨nodes, hnodes, hall⟩ := h _ _ hz 2 (by decide)
  rw [archiveDirectoryRdb_eq hz] at hnodes
  have hfits := (partNodes_iff hz.parts (by decide : [(1 : BitVec 32)].length < 2) _).mp
    ⟨nodes, hnodes, hall⟩ 1 List.mem_cons_self
  have hspb := hfits.spb
  rw [onePartition_part] at hspb
  exact absurd hspb (by decide)

end LibretroUae.Storage
