import LibretroUae.Hardfile.RdbBlocks
import Mathlib.Tactic.NormNum

/-!
# LibretroUae.Hardfile.RdbLayout

**The RDB describes its hardfile.** The area is a whole number of cylinders, so that the
partition starts right behind it, and the hardware geometry of the RDSK block counts the
same bytes in blocks of 256 or 512. All of it holds whenever the area has a size at all;
the chain of LSEG blocks needs in addition that the filesystem file fits.
-/

namespace LibretroUae.Hardfile

open Lib Lib.Image

variable {ci : Config}

/-! ### Geometry -/

/-- A geometry whose products stay below `2 ^ 31`. -/
structure Config.Ok (ci : Config) : Prop where
  surfaces : 1 ≤ ci.surfaces
  sectors : 1 ≤ ci.sectors
  blocksize : ci.blocksize = 256 ∨ ∃ k : Nat, ci.blocksize = 512 * 2 ^ k
  product : ci.surfaces * ci.sectors * ci.blocksize < 2 ^ 31
  highcyl : 0 ≤ ci.highcyl ∧ ci.highcyl < 2 ^ 31

/-- Bytes of a cylinder. -/
def Config.cylBytes (ci : Config) : Int := ci.surfaces * ci.sectors * ci.blocksize

/-- Bytes of the fewest cylinders that hold 256 KiB. -/
def Config.rdbBytes (ci : Config) : Int :=
  ci.cylBytes * ((262144 + ci.cylBytes - 1) / ci.cylBytes)

theorem int32_eq {x : Int} (h1 : -2 ^ 31 ≤ x) (h2 : x < 2 ^ 31) : int32 x = x := by
  rw [int32]
  omega

theorem u32_eq {x : Int} (h1 : 0 ≤ x) (h2 : x < 2 ^ 32) : (u32 x : Int) = x := by
  rw [u32]
  omega

namespace Config.Ok

variable (h : ci.Ok)
include h

theorem blocksize_ge : 256 ≤ ci.blocksize := by
  rcases h.blocksize with hb | ⟨k, hb⟩
  · omega
  · have : (1 : Int) ≤ 2 ^ k := Int.pow_pos (by decide)
    omega

/-- A file system block is a whole number of hardware blocks. -/
theorem exists_blocks : ∃ b : Int, 1 ≤ b ∧ ci.blocksize = ci.hardblocksize * b := by
  have hbs := ci.hardblocksize_cases
  rcases h.blocksize with hb | ⟨k, hb⟩
  · exact ⟨1, Int.le_refl _, by omega⟩
  · have hk : (1 : Int) ≤ 2 ^ k := Int.pow_pos (by decide)
    refine ⟨2 ^ k, hk, ?_⟩
    have h512 : ci.hardblocksize = 512 := by omega
    rw [hb, h512]
    rfl

theorem surfaces_sectors : 1 ≤ ci.surfaces * ci.sectors :=
  Int.mul_pos h.surfaces h.sectors

theorem surfaces_sectors_le : ci.surfaces * ci.sectors ≤ ci.cylBytes :=
  le_mul_of_one_le_right (by have := h.surfaces_sectors; omega)
    (by have := h.blocksize_ge; omega)

theorem cylBytes_lt : ci.cylBytes < 2 ^ 31 := h.product

theorem cylBytes_pos : 1 ≤ ci.cylBytes := Int.le_trans h.surfaces_sectors h.surfaces_sectors_le

theorem cyl_eq : ci.cyl = ci.surfaces * ci.sectors :=
  int32_eq (by have := h.surfaces_sectors; omega)
    (by have := h.surfaces_sectors_le; have := h.cylBytes_lt; omega)

theorem cyl_mul : ci.cyl * ci.blocksize = ci.cylBytes := by
  rw [h.cyl_eq, Config.cylBytes]

/-- Where the sum that is rounded up to cylinders overflows, the area has no size. -/
theorem size_nonpos (hbig : 2 ^ 31 < ci.cylBytes + 262144) : ci.size ≤ 0 := by
  have hlt := h.cylBytes_lt
  obtain ⟨k, hk⟩ : ∃ k, ci.cylBytes = 2 ^ 31 - k := ⟨2 ^ 31 - ci.cylBytes, by omega⟩
  have hcyls : ci.cyls = 0 ∨ ci.cyls = -1 := by
    have hwrap : int32 (262144 + ci.cylBytes - 1) = -(2 ^ 31 - (262143 - k)) := by
      rw [int32]
      omega
    rw [Config.cyls, h.cyl_mul, hwrap, int32_eq (by omega) hlt, Int.neg_tdiv,
      Int.tdiv_eq_ediv_of_nonneg (by omega)]
    have hle : (2 ^ 31 - (262143 - k)) / ci.cylBytes < 2 :=
      Int.ediv_lt_of_lt_mul (by omega) (by omega)
    have hge : 0 ≤ (2 ^ 31 - (262143 - k)) / ci.cylBytes := Int.ediv_nonneg (by omega) (by omega)
    omega
  have hcomm : ci.cyl * ci.cyls * ci.blocksize = ci.cylBytes * ci.cyls := by
    rw [← h.cyl_mul]
    ring
  rw [Config.size, hcomm]
  rcases hcyls with hc | hc
  · rw [hc, Int.mul_zero]
    decide
  · rw [hc, int32_eq (by omega) (by omega)]
    omega

section Fits

variable (hfits : ci.cylBytes + 262144 ≤ 2 ^ 31)
include hfits

theorem cyls_eq : ci.cyls = (262144 + ci.cylBytes - 1) / ci.cylBytes := by
  have hpos := h.cylBytes_pos
  have hlt := h.cylBytes_lt
  rw [Config.cyls, h.cyl_mul, int32_eq (by omega) (by omega), int32_eq (by omega) hlt,
    Int.tdiv_eq_ediv_of_nonneg (by omega)]

theorem rdbBytes_bounds : 262144 ≤ ci.rdbBytes ∧ ci.rdbBytes < 2 ^ 31 := by
  have hpos := h.cylBytes_pos
  have hdiv := Int.mul_ediv_add_emod (262144 + ci.cylBytes - 1) ci.cylBytes
  have hlow := Int.emod_nonneg (262144 + ci.cylBytes - 1) (show ci.cylBytes ≠ 0 by omega)
  have hhigh := Int.emod_lt_of_pos (262144 + ci.cylBytes - 1) (show 0 < ci.cylBytes by omega)
  rw [Config.rdbBytes]
  omega

theorem size_eq : ci.size = ci.rdbBytes := by
  have hbounds := h.rdbBytes_bounds hfits
  have hcomm : ci.cyl * ci.cyls * ci.blocksize = ci.rdbBytes := by
    rw [Config.rdbBytes, ← h.cyls_eq hfits, ← h.cyl_mul]
    ring
  rw [Config.size, hcomm]
  exact int32_eq (by omega) hbounds.2

theorem cylBytes_mul_cyls : ci.cylBytes * ci.cyls = ci.size := by
  rw [h.size_eq hfits, Config.rdbBytes, h.cyls_eq hfits]

theorem cyls_bounds : 1 ≤ ci.cyls ∧ ci.cyls ≤ ci.size := by
  have hpos := h.cylBytes_pos
  have hmul := h.cylBytes_mul_cyls hfits
  have hbounds := h.rdbBytes_bounds hfits
  rw [← h.size_eq hfits] at hbounds
  have hone : 1 ≤ ci.cyls := by
    by_contra hc
    have := Int.mul_nonpos_of_nonneg_of_nonpos (show 0 ≤ ci.cylBytes by omega)
      (show ci.cyls ≤ 0 by omega)
    omega
  refine ⟨hone, ?_⟩
  rw [← hmul]
  exact le_mul_of_one_le_left (by omega) hpos

end Fits

end Config.Ok

/-! ### What the RDB says -/

/-- Block `blk` of the area, with its id and a sum of zero. -/
structure Block (rdb : Image) (hbs : Nat) (size : Int) (blk id : Nat) : Prop where
  inside : (hbs * blk + hbs : Int) ≤ size
  id : rdb.getLong (hbs * blk + 0 * 4) = id
  declared : 4 * rdb.getLong (hbs * blk + 1 * 4) ≤ hbs
  summed : Summed rdb (hbs * blk)

/-- A longword of the environment vector of the partition. -/
def denv (rdb : Image) (ci : Config) (j : Nat) : Int :=
  rdb.getLong (ci.hardblocksize * rdb.getLong (0 + 7 * 4) + 128 + j * 4)

/-- A longword of the RDSK block. -/
def rdsk (rdb : Image) (j : Nat) : Int := rdb.getLong (0 + j * 4)

/-- The area describes the hardfile: its blocks are sound, the LSEG chain holds the
filesystem file, and partition and geometry are those of the hardfile behind it. -/
structure Describes (ci : Config) (fs : List Byte) (rdb : Image) (size : Int) : Prop where
  blockbytes : rdsk rdb 4 = ci.hardblocksize
  rdsk : Block rdb ci.hardblocksize size 0 0x5244534b
  part : Block rdb ci.hardblocksize size (rdb.getLong (0 + 7 * 4)) 0x50415254
  fshd : Block rdb ci.hardblocksize size (rdb.getLong (0 + 8 * 4)) 0x46534844
  lsegs : LsegChain rdb ci.hardblocksize size
    (rdb.getLong (ci.hardblocksize * rdb.getLong (0 + 8 * 4) + 18 * 4)) fs
  /-- The partition starts at byte `virtual_size`. -/
  start : denv rdb ci 9 * (denv rdb ci 3 * denv rdb ci 5 * (denv rdb ci 1 * 4)) = size
  stop : (denv rdb ci 10 + 1) * (denv rdb ci 3 * denv rdb ci 5 * (denv rdb ci 1 * 4)) =
    size + ci.highcyl * ci.surfaces * ci.sectors * ci.blocksize
  /-- Heads and sectors of the RDSK block make the cylinder in hardware blocks. -/
  cylblocks : Hardfile.rdsk rdb 18 * Hardfile.rdsk rdb 17 = Hardfile.rdsk rdb 36
  locyl : Hardfile.rdsk rdb 34 * (Hardfile.rdsk rdb 36 * ci.hardblocksize) = size
  hicyl : (Hardfile.rdsk rdb 35 + 1) * (Hardfile.rdsk rdb 36 * ci.hardblocksize) =
    size + ci.highcyl * ci.surfaces * ci.sectors * ci.blocksize
  cylinders : Hardfile.rdsk rdb 16 = Hardfile.rdsk rdb 35
  rdbblocks : Hardfile.rdsk rdb 32 = 0 ∧
    (Hardfile.rdsk rdb 33 + 1) * ci.hardblocksize = size

/-! ### The fixed blocks of the area -/

section Area

variable {fs : List Byte} {fsver : Nat} {filesysblocks : Int}

/-- The area with everything that is not a LSEG block. -/
def headBlocks (ci : Config) (filesysblocks : Int) (fsver : Nat) : Image :=
  fshdBlock (partBlock (rdskBlock (fun _ => 0) ci true filesysblocks) (ci.hardblocksize * 1) ci)
    (ci.hardblocksize * 2) ci fsver

/-- The whole area for a filesystem file that is used. -/
theorem createVirtualRdb_some (version : List Byte → Option Nat) (hfs : fs.length % 4 = 0) :
    createVirtualRdb version ci (some fs) = if ci.size ≤ 0 then none else
      some (lsegBlocks ci ci.size (headBlocks ci ((int32 (fs.length + ci.hardblocksize - 5 * 4 -
        1)).tdiv (ci.hardblocksize - 5 * 4)) ((version fs).getD (99 <<< 16 ||| 99))) 3 fs,
        ci.size) := by
  have hfilter : (some fs).filter (fun fs => decide (fs.length % 4 = 0)) = some fs := by
    rw [Option.filter_some, if_pos (by simpa using hfs)]
  simp only [createVirtualRdb, hfilter]
  rfl

/-- The LSEG loop leaves the blocks before it as they are. -/
theorem agree_area {off len : Nat} (h : off + len ≤ ci.hardblocksize * 3) :
    Agree (headBlocks ci filesysblocks fsver)
      (lsegBlocks ci ci.size (headBlocks ci filesysblocks fsver) 3 fs) off len :=
  agree_lsegBlocks h

/-- The area: all blocks written. -/
def area (ci : Config) (filesysblocks : Int) (fsver : Nat) (fs : List Byte) : Image :=
  lsegBlocks ci ci.size (headBlocks ci filesysblocks fsver) 3 fs

theorem agree_rdsk {off len : Nat} (h : off + len ≤ 256) :
    Agree (rdskBlock (fun _ => 0) ci true filesysblocks) (area ci filesysblocks fsver fs) off
      len := by
  have hbs := ci.hardblocksize_cases
  exact ((agree_partBlock (by omega)).trans (agree_fshdBlock (by omega))).trans
    (agree_area (by omega))

theorem agree_part {off len : Nat} (h : off + len ≤ ci.hardblocksize * 1 + 256) :
    Agree (partBlock (rdskBlock (fun _ => 0) ci true filesysblocks) (ci.hardblocksize * 1) ci)
      (area ci filesysblocks fsver fs) off len := by
  have hbs := ci.hardblocksize_cases
  exact (agree_fshdBlock (by omega)).trans (agree_area (by omega))

theorem rdsk_area {j : Nat} (hj : j < 40) (hj2 : j ≠ 2) {v : Nat}
    (hv : field (rdskRows ci true filesysblocks) j = some v) :
    (area ci filesysblocks fsver fs).getLong (0 + j * 4) = v % 2 ^ 32 := by
  rw [(agree_rdsk (by omega)).getLong, getLong_rdskBlock hj hj2, hv]
  rfl

theorem denv_area {j : Nat} (hj : j < 17) {v : Nat} (hv : field (denvRows ci) j = some v) :
    denv (area ci filesysblocks fsver fs) ci j = (v % 2 ^ 32 : Nat) := by
  have hbs := ci.hardblocksize_cases
  have hpart : (area ci filesysblocks fsver fs).getLong (0 + 7 * 4) = 1 :=
    rdsk_area (j := 7) (by decide) (by decide) rfl
  rw [denv, hpart, (agree_part (by omega)).getLong, getLong_partBlock_denv hj, hv]
  rfl

theorem rdsk_value {j : Nat} (hj : j < 40) (hj2 : j ≠ 2) {x : Int}
    (hv : field (rdskRows ci true filesysblocks) j = some (u32 x)) (h1 : 0 ≤ x) (h2 : x < 2 ^ 32) :
    rdsk (area ci filesysblocks fsver fs) j = x := by
  rw [rdsk, rdsk_area hj hj2 hv, u32_mod, u32_eq h1 h2]

theorem denv_value {j : Nat} (hj : j < 17) {x : Int} (hv : field (denvRows ci) j = some (u32 x))
    (h1 : 0 ≤ x) (h2 : x < 2 ^ 32) : denv (area ci filesysblocks fsver fs) ci j = x := by
  rw [denv_area hj hv, u32_mod, u32_eq h1 h2]

theorem block_rdsk (hroom : 3 * ci.hardblocksize ≤ ci.size) :
    Block (area ci filesysblocks fsver fs) ci.hardblocksize ci.size 0 0x5244534b := by
  have hbs := ci.hardblocksize_cases
  have hlen : (area ci filesysblocks fsver fs).getLong (0 + 1 * 4) = 64 :=
    rdsk_area (j := 1) (by decide) (by decide) rfl
  refine ⟨by omega, ?_, ?_, ?_⟩
  · rw [Nat.mul_zero]
    exact rdsk_area (j := 0) (by decide) (by decide) rfl
  · rw [Nat.mul_zero, hlen]
    omega
  · rw [Nat.mul_zero]
    refine summed_rdskBlock.of_agree (agree_rdsk (by decide) : Agree _ _ 0 256) ?_ (by decide)
    rw [getLong_rdskBlock (by decide) (by decide)]
    exact (by decide : 4 * (256 / 4 % 2 ^ 32) ≤ 256)

theorem block_part (hroom : 3 * ci.hardblocksize ≤ ci.size) :
    Block (area ci filesysblocks fsver fs) ci.hardblocksize ci.size 1 0x50415254 := by
  have hbs := ci.hardblocksize_cases
  have hlong : ∀ j < 9, j ≠ 2 → (area ci filesysblocks fsver fs).getLong
      (ci.hardblocksize * 1 + j * 4) = ((field (partRows ci) j).map (· % 2 ^ 32)).getD
        ((rdskBlock (fun _ => 0) ci true filesysblocks).getLong (ci.hardblocksize * 1 + j * 4)) :=
    fun j hj hj2 => by
      rw [(agree_part (by omega)).getLong, getLong_partBlock hj hj2]
  refine ⟨by omega, hlong 0 (by decide) (by decide), ?_, ?_⟩
  · have hlen : (area ci filesysblocks fsver fs).getLong (ci.hardblocksize * 1 + 1 * 4) = 64 :=
      hlong 1 (by decide) (by decide)
    rw [hlen]
    omega
  · refine summed_partBlock.of_agree (agree_part (Nat.le_refl _)) ?_ (by decide)
    rw [getLong_partBlock (by decide) (by decide)]
    exact (by decide : 4 * (256 / 4 % 2 ^ 32) ≤ 256)

theorem fshd_area {j : Nat} (hj : j < 64) (hj2 : j ≠ 2) {v : Nat}
    (hv : field (fshdRows ci fsver) j = some v) :
    (area ci filesysblocks fsver fs).getLong (ci.hardblocksize * 2 + j * 4) = v % 2 ^ 32 := by
  have hbs := ci.hardblocksize_cases
  have hagree : Agree _ (area ci filesysblocks fsver fs) (ci.hardblocksize * 2 + j * 4) 4 :=
    agree_area (by omega)
  rw [hagree.getLong, headBlocks, getLong_fshdBlock hj2, hv]
  rfl

theorem block_fshd (hroom : 3 * ci.hardblocksize ≤ ci.size) :
    Block (area ci filesysblocks fsver fs) ci.hardblocksize ci.size 2 0x46534844 := by
  have hbs := ci.hardblocksize_cases
  refine ⟨by omega, fshd_area (j := 0) (by decide) (by decide) rfl, ?_, ?_⟩
  · have hlen : (area ci filesysblocks fsver fs).getLong (ci.hardblocksize * 2 + 1 * 4) = 64 :=
      fshd_area (j := 1) (by decide) (by decide) rfl
    rw [hlen]
    omega
  · have hagree : Agree _ (area ci filesysblocks fsver fs) (ci.hardblocksize * 2) 256 :=
      agree_area (by omega)
    refine Summed.of_agree summed_fshdBlock hagree ?_ (by decide)
    rw [getLong_fshdBlock (by decide)]
    exact (by decide : 4 * (256 / 4 % 2 ^ 32) ≤ 256)

/-! ### The two geometries -/

section Geometry

variable (h : ci.Ok) (hfits : ci.cylBytes + 262144 ≤ 2 ^ 31)
include h hfits

/-- The last cylinder fits a longword. -/
theorem hicyl_bounds : 0 ≤ ci.highcyl + ci.cyls - 1 ∧ ci.highcyl + ci.cyls - 1 < 2 ^ 32 := by
  have hcyls := h.cyls_bounds hfits
  have hbounds := h.rdbBytes_bounds hfits
  have hsize := h.size_eq hfits
  have hhigh := h.highcyl
  omega

/-- The cylinders of the partition, in bytes. -/
theorem hicyl_bytes : (ci.highcyl + ci.cyls - 1 + 1) * ci.cylBytes =
    ci.size + ci.highcyl * ci.surfaces * ci.sectors * ci.blocksize := by
  rw [← h.cylBytes_mul_cyls hfits, Config.cylBytes]
  ring

theorem partition_area : denv (area ci filesysblocks fsver fs) ci 3 *
      denv (area ci filesysblocks fsver fs) ci 5 *
        (denv (area ci filesysblocks fsver fs) ci 1 * 4) = ci.cylBytes ∧
    denv (area ci filesysblocks fsver fs) ci 9 = ci.cyls ∧
    denv (area ci filesysblocks fsver fs) ci 10 = ci.highcyl + ci.cyls - 1 := by
  have hbs := ci.hardblocksize_cases
  have hcyls := h.cyls_bounds hfits
  have hbounds := h.rdbBytes_bounds hfits
  have hsize := h.size_eq hfits
  have hsurf := h.surfaces
  have hsect := h.sectors
  have hlt := h.cylBytes_lt
  have hss := h.surfaces_sectors_le
  have hsurf_le : ci.surfaces ≤ ci.surfaces * ci.sectors :=
    le_mul_of_one_le_right (by omega) hsect
  have hsect_le : ci.sectors ≤ ci.surfaces * ci.sectors :=
    le_mul_of_one_le_left (by omega) hsurf
  have hblock_ge := h.blocksize_ge
  have hblock_le : ci.blocksize ≤ ci.cylBytes :=
    le_mul_of_one_le_left (by omega) h.surfaces_sectors
  have hfour : ci.blocksize.tdiv 4 * 4 = ci.blocksize := by
    obtain ⟨b, hb, hblocks⟩ := h.exists_blocks
    rw [Int.tdiv_eq_ediv_of_nonneg (by omega)]
    rcases hbs with ⟨hbs, -⟩ | ⟨hbs, -⟩ <;> rw [hbs] at hblocks <;> omega
  refine ⟨?_, denv_value (by decide) rfl (by omega) (by omega),
    denv_value (by decide) rfl (hicyl_bounds h hfits).1 (hicyl_bounds h hfits).2⟩
  rw [denv_value (j := 3) (by decide) rfl (by omega) (by omega),
    denv_value (j := 5) (by decide) rfl (by omega) (by omega),
    denv_value (j := 1) (by decide) rfl (by omega) (by omega), hfour]
  rfl

theorem hardware_area : rdsk (area ci filesysblocks fsver fs) 18 *
      rdsk (area ci filesysblocks fsver fs) 17 = rdsk (area ci filesysblocks fsver fs) 36 ∧
    rdsk (area ci filesysblocks fsver fs) 36 * ci.hardblocksize = ci.cylBytes ∧
    (rdsk (area ci filesysblocks fsver fs) 33 + 1) * ci.hardblocksize = ci.size := by
  have hbs := ci.hardblocksize_cases
  have hcyls := h.cyls_bounds hfits
  have hbounds := h.rdbBytes_bounds hfits
  have hsize := h.size_eq hfits
  have hlt := h.cylBytes_lt
  have hmul := h.cylBytes_mul_cyls hfits
  have hsurf := h.surfaces
  have hsect := h.sectors
  obtain ⟨b, hb, hblocks⟩ := h.exists_blocks
  have hpos : (0 : Int) < ci.hardblocksize := by omega
  have hcyl : ci.cylBytes = ci.surfaces * b * ci.sectors * ci.hardblocksize := by
    rw [Config.cylBytes, hblocks]
    ring
  have hheads : 1 ≤ ci.surfaces * b := Int.mul_pos hsurf hb
  have hblocks' : 1 ≤ ci.surfaces * b * ci.sectors := Int.mul_pos hheads hsect
  have hheads_le : ci.surfaces * b ≤ ci.surfaces * b * ci.sectors :=
    le_mul_of_one_le_right (by omega) hsect
  have hblocks_le : ci.surfaces * b * ci.sectors ≤ ci.cylBytes := by
    rw [hcyl]
    exact le_mul_of_one_le_right (by omega) (by omega)
  have hsect_le : ci.sectors ≤ ci.surfaces * b * ci.sectors :=
    le_mul_of_one_le_left (by omega) hheads
  have h18 : rdsk (area ci filesysblocks fsver fs) 18 = ci.surfaces * b := by
    have hdiv : (ci.surfaces * ci.blocksize).tdiv ci.hardblocksize = ci.surfaces * b := by
      rw [hblocks, show ci.surfaces * (ci.hardblocksize * b) =
        ci.surfaces * b * ci.hardblocksize by ring, Int.mul_tdiv_cancel _ (by omega)]
    exact rdsk_value (by decide) (by decide) (hdiv ▸ rfl) (by omega) (by omega)
  have h17 : rdsk (area ci filesysblocks fsver fs) 17 = ci.sectors :=
    rdsk_value (by decide) (by decide) rfl (by omega) (by omega)
  have h36 : rdsk (area ci filesysblocks fsver fs) 36 = ci.surfaces * b * ci.sectors := by
    have hdiv : (int32 (ci.cyl * ci.blocksize)).tdiv ci.hardblocksize =
        ci.surfaces * b * ci.sectors := by
      rw [h.cyl_mul, int32_eq (by omega) hlt, hcyl, Int.mul_tdiv_cancel _ (by omega)]
    exact rdsk_value (by decide) (by decide) (hdiv ▸ rfl) (by omega) (by omega)
  have h33 : rdsk (area ci filesysblocks fsver fs) 33 =
      ci.surfaces * b * ci.sectors * ci.cyls - 1 := by
    have hdiv : ci.size.tdiv ci.hardblocksize = ci.surfaces * b * ci.sectors * ci.cyls := by
      rw [← hmul, hcyl, show ci.surfaces * b * ci.sectors * ci.hardblocksize * ci.cyls =
        ci.surfaces * b * ci.sectors * ci.cyls * ci.hardblocksize by ring,
        Int.mul_tdiv_cancel _ (by omega)]
    have hge : 1 ≤ ci.surfaces * b * ci.sectors * ci.cyls := Int.mul_pos hblocks' hcyls.1
    have hle : ci.surfaces * b * ci.sectors * ci.cyls ≤ ci.size := by
      rw [← hmul]
      exact mul_le_mul_of_nonneg_right hblocks_le (by omega)
    refine rdsk_value (by decide) (by decide) ?_ (by omega) (by omega)
    rw [← hdiv]
    rfl
  refine ⟨by rw [h18, h17, h36], by rw [h36, hcyl], ?_⟩
  rw [h33, ← hmul, hcyl]
  ring

end Geometry

/-- The area describes the hardfile if and only if the filesystem file fits. -/
theorem describes_area_iff (h : ci.Ok) (hfits : ci.cylBytes + 262144 ≤ 2 ^ 31)
    (hfs : fs.length % 4 = 0) :
    Describes ci fs (area ci filesysblocks fsver fs) ci.size ↔
      (ci.hardblocksize * (3 + lsegsFor ci fs.length) : Int) ≤ ci.rdbBytes := by
  have hbs := ci.hardblocksize_cases
  have hsize := h.size_eq hfits
  have hbounds := h.rdbBytes_bounds hfits
  rw [← hsize] at hbounds ⊢
  have hroom : 3 * ci.hardblocksize ≤ ci.size := by omega
  have hpart : (area ci filesysblocks fsver fs).getLong (0 + 7 * 4) = 1 :=
    rdsk_area (j := 7) (by decide) (by decide) rfl
  have hfshd : (area ci filesysblocks fsver fs).getLong (0 + 8 * 4) = 2 :=
    rdsk_area (j := 8) (by decide) (by decide) rfl
  have hfirst : (area ci filesysblocks fsver fs).getLong (ci.hardblocksize * 2 + 18 * 4) = 3 :=
    fshd_area (j := 18) (by decide) (by decide) rfl
  have hchain : LsegChain (area ci filesysblocks fsver fs) ci.hardblocksize ci.size 3 fs ↔
      (ci.hardblocksize * ((3 : Nat) + lsegsFor ci fs.length) : Int) ≤ ci.size :=
    lsegChain_iff hbounds.2 hfs
  constructor
  · intro hdesc
    have hlsegs := hdesc.lsegs
    rw [hfshd, hfirst] at hlsegs
    exact hchain.mp hlsegs
  · intro hle
    have hcyls := h.cyls_bounds hfits
    have hhicyl := hicyl_bounds h hfits
    have hmul := h.cylBytes_mul_cyls hfits
    rw [Int.mul_comm] at hmul
    obtain ⟨hcyl, hlow, hhigh⟩ : _ ∧ denv (area ci filesysblocks fsver fs) ci 9 = _ ∧ _ :=
      partition_area h hfits
    obtain ⟨hheads, hblocks, hend⟩ :
        _ ∧ rdsk (area ci filesysblocks fsver fs) 36 * _ = _ ∧ _ := hardware_area h hfits
    have h35 : rdsk (area ci filesysblocks fsver fs) 35 = ci.highcyl + ci.cyls - 1 :=
      rdsk_value (by decide) (by decide) rfl hhicyl.1 hhicyl.2
    refine ⟨congrArg Nat.cast ((rdsk_area (j := 4) (by decide) (by decide) rfl).trans
      (Nat.mod_eq_of_lt (by omega))), block_rdsk hroom, hpart ▸ block_part hroom,
      hfshd ▸ block_fshd hroom, ?_, ?_, ?_, hheads, ?_, ?_, ?_, ?_⟩
    · rw [hfshd, hfirst]
      exact hchain.mpr hle
    · rw [hcyl, hlow, hmul]
    · rw [hcyl, hhigh, hicyl_bytes h hfits]
    · rw [hblocks, rdsk_value (j := 34) (by decide) (by decide) rfl (by omega) (by omega), hmul]
    · rw [hblocks, h35, hicyl_bytes h hfits]
    · rw [h35]
      exact rdsk_value (by decide) (by decide) rfl hhicyl.1 hhicyl.2
    · exact ⟨congrArg Nat.cast (rdsk_area (j := 32) (by decide) (by decide) rfl), hend⟩

end Area

/-! ### When the RDB describes the hardfile -/

/-- The area describes its hardfile exactly if its size can be computed in an `int` and the
blocks of the filesystem file fit behind the three fixed ones. -/
theorem createVirtualRdb_describes_iff (version : List Byte → Option Nat) (h : ci.Ok)
    {fs : List Byte} (hfs : fs.length % 4 = 0) :
    (∃ rdb size, createVirtualRdb version ci (some fs) = some (rdb, size) ∧
      Describes ci fs rdb size) ↔
    ci.cylBytes + 262144 ≤ 2 ^ 31 ∧
      (ci.hardblocksize * (3 + lsegsFor ci fs.length) : Int) ≤ ci.rdbBytes := by
  rw [createVirtualRdb_some version hfs]
  by_cases hfits : ci.cylBytes + 262144 ≤ 2 ^ 31
  · have hbounds := h.rdbBytes_bounds hfits
    have hsize := h.size_eq hfits
    rw [if_neg (by omega), and_iff_right hfits, ← describes_area_iff h hfits hfs]
    constructor
    · rintro ⟨rdb, size, heq, hdesc⟩
      obtain ⟨rfl, rfl⟩ := Prod.mk.inj (Option.some.inj heq)
      exact hdesc
    · exact fun hdesc => ⟨_, _, rfl, hdesc⟩
  · rw [if_pos (h.size_nonpos (by omega))]
    refine iff_of_false ?_ fun hle => hfits hle.1
    rintro ⟨rdb, size, heq, -⟩
    cases heq

/-- One head and 32 sectors of 512 bytes. -/
def smallConfig : Config where
  surfaces := 1
  sectors := 32
  blocksize := 512
  highcyl := 100
  interleave := 0
  reserved := 2
  buffers := 50
  bufmemtype := 0
  maxtransfer := 0x7fffffff
  mask := 0x7ffffffe
  bootpri := 0
  dostype := 0x444f5300
  stacksize := 4096
  priority := 10
  devname := []
  vendorId := []
  productId := []

theorem smallConfig_ok : smallConfig.Ok :=
  ⟨by decide, by decide, Or.inr ⟨0, by decide⟩, by decide, by decide⟩

theorem createVirtualRdb_describes_small :
    ∃ rdb size, createVirtualRdb (fun _ => none) smallConfig (some [0, 0, 3, 0xf3]) =
      some (rdb, size) ∧ Describes smallConfig [0, 0, 3, 0xf3] rdb size :=
  (createVirtualRdb_describes_iff (fun _ => none) smallConfig_ok (by decide)).mpr
    ⟨by decide, by decide⟩

/-- A filesystem file of 250432 bytes needs 510 blocks, but the 256 KiB leave room for 509:
the chain ends in a pointer to a block outside. -/
theorem createVirtualRdb_not_describes :
    ¬ ∃ rdb size, createVirtualRdb (fun _ => none) smallConfig
        (some (List.replicate 250432 0)) = some (rdb, size) ∧
      Describes smallConfig (List.replicate 250432 0) rdb size := by
  have hlen : (List.replicate 250432 (0 : Byte)).length = 250432 := List.length_replicate
  have hfs : (List.replicate 250432 (0 : Byte)).length % 4 = 0 := by rw [hlen]
  rw [createVirtualRdb_some _ hfs, if_neg (by decide)]
  rintro ⟨rdb, size, heq, hdesc⟩
  obtain ⟨rfl, rfl⟩ := Prod.mk.inj (Option.some.inj heq)
  have hle := (describes_area_iff smallConfig_ok (by decide) hfs).mp hdesc
  rw [hlen] at hle
  exact absurd hle (by decide)

end LibretroUae.Hardfile
