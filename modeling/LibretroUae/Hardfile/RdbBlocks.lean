import LibretroUae.Hardfile.VirtualRdb

/-!
# LibretroUae.Hardfile.RdbBlocks

**What the blocks of the RDB hold.** Each block writer leaves a block whose longwords
are those of its table and sum up to zero, and no byte outside the block. The LSEG
loop then lays out a chain that ends inside the area, and holds the whole file,
exactly when the blocks it needs fit.
-/

namespace LibretroUae.Hardfile

open Lib Lib.Image

variable {m : Image} {p n : Nat} {ci : Config}

theorem u32_lt (x : Int) : u32 x < 2 ^ 32 := by
  rw [u32]
  omega

theorem u32_mod (x : Int) : u32 x % 2 ^ 32 = u32 x := Nat.mod_eq_of_lt (u32_lt x)

theorem add_u32_neg (s : Nat) : (s + u32 (-(s : Int))) % 2 ^ 32 = 0 := by
  rw [u32]
  omega

/-! ### Checksums -/

/-- The longwords of the block at `p`, as many as it declares, sum up to zero. -/
def Summed (m : Image) (p : Nat) : Prop := m.longSum p (m.getLong (p + 1 * 4)) % 2 ^ 32 = 0

theorem getLong_rdbCrc {j : Nat} (hj : j ≠ 2) :
    (rdbCrc m p).getLong (p + j * 4) = m.getLong (p + j * 4) :=
  getLong_putLong_of_ne hj.symm

theorem agree_rdbCrc {off len : Nat} (h : off + len ≤ p ∨ p + 12 ≤ off) :
    Agree m (rdbCrc m p) off len := agree_putLong (by omega)

theorem agree_rdbCrc_data {off len : Nat} (h : p + 12 ≤ off) :
    Agree m (rdbCrc m p) off len := agree_putLong (by omega)

theorem summed_rdbCrc (hlen : 2 < m.getLong (p + 1 * 4)) (hzero : m.getLong (p + 2 * 4) = 0) :
    Summed (rdbCrc m p) p := by
  rw [Summed, getLong_rdbCrc (by decide), rdbCrc]
  have h := longSum_putLong m p (u32 (-(m.longSum p (m.getLong (p + 1 * 4)) : Int))) hlen
  rw [hzero, u32_mod, Nat.add_zero] at h
  rw [h]
  exact add_u32_neg _

theorem Summed.of_agree {m' : Image} {b : Nat} (hsum : Summed m p) (h : Agree m m' p b)
    (hlen : 4 * m.getLong (p + 1 * 4) ≤ b) (hb : 8 ≤ b) : Summed m' p := by
  rw [Summed, (h.mono (by omega) (by omega) : Agree m m' (p + 1 * 4) 4).getLong,
    (h.mono (by omega) (by omega) : Agree m m' p (4 * m.getLong (p + 1 * 4))).longSum]
  exact hsum

/-! ### The fixed blocks -/

theorem length_uaCopy (maxlen : Nat) (s : List Byte) :
    ((s ++ List.replicate maxlen 0).take maxlen).length = maxlen := by
  simp

theorem agree_uaCopy {off maxlen off' len : Nat} {s : List Byte}
    (h : off' + len ≤ off ∨ off + maxlen ≤ off') : Agree m (uaCopy m off maxlen s) off' len :=
  agree_blit (by rwa [length_uaCopy])

section Rdsk

variable {filesys : Bool} {filesysblocks : Int}

theorem rdskRows_lt : ∀ row ∈ rdskRows ci filesys filesysblocks, row.1 < 40 := by
  simp [rdskRows]

/-- The table of the RDSK block before its strings and checksum. -/
theorem agree_rdskBlock_strings {off len : Nat} (h : off + len ≤ 160 ∨ 188 ≤ off) :
    Agree m (uaCopy (uaCopy (uaCopy m (40 * 4) 8 ci.vendorId) (42 * 4) 16 ci.productId)
      (46 * 4) 4 productRev) off len :=
  ((agree_uaCopy (by omega)).trans (agree_uaCopy (by omega))).trans (agree_uaCopy (by omega))

theorem getLong_rdskBlock {j : Nat} (hj : j < 40) (hj2 : j ≠ 2) :
    (rdskBlock m ci filesys filesysblocks).getLong (0 + j * 4) =
      ((field (rdskRows ci filesys filesysblocks) j).map (· % 2 ^ 32)).getD
        (m.getLong (0 + j * 4)) := by
  rw [rdskBlock, getLong_rdbCrc hj2, (agree_rdskBlock_strings (by omega)).getLong,
    getLong_putLongs]

theorem summed_rdskBlock : Summed (rdskBlock m ci filesys filesysblocks) 0 := by
  refine summed_rdbCrc ?_ ?_
  · rw [(agree_rdskBlock_strings (by decide)).getLong, getLong_putLongs]
    exact (by decide : 2 < 256 / 4)
  · rw [(agree_rdskBlock_strings (by decide)).getLong, getLong_putLongs]
    rfl

theorem agree_rdskBlock {off len : Nat} (h : 256 ≤ off) :
    Agree m (rdskBlock m ci filesys filesysblocks) off len :=
  ((agree_putLongs rdskRows_lt (by omega)).trans (agree_rdskBlock_strings (by omega))).trans
    (agree_rdbCrc (by omega))

end Rdsk

section Part

theorem partRows_lt : ∀ row ∈ partRows ci, row.1 < 9 := by
  simp [partRows]

theorem denvRows_lt : ∀ row ∈ denvRows ci, row.1 < 17 := by
  simp [denvRows]

/-- The device name lies between the table and the environment vector. -/
theorem agree_partBlock_name {off len : Nat} (h : off + len ≤ p + 36 ∨ p + 67 ≤ off) :
    Agree m (uaCopy (m.blit (p + 9 * 4) [.ofNat 8 ci.devname.length]) (p + 9 * 4 + 1) 30
      ci.devname) off len := by
  refine (agree_blit ?_).trans (agree_uaCopy (by omega))
  simp only [List.length_singleton]
  omega

theorem getLong_partBlock {j : Nat} (hj : j < 9) (hj2 : j ≠ 2) :
    (partBlock m p ci).getLong (p + j * 4) =
      ((field (partRows ci) j).map (· % 2 ^ 32)).getD (m.getLong (p + j * 4)) := by
  rw [partBlock, getLong_rdbCrc hj2, (agree_putLongs denvRows_lt (by omega)).getLong,
    (agree_partBlock_name (by omega)).getLong, getLong_putLongs]

theorem getLong_partBlock_denv {j : Nat} (hj : j < 17) :
    (partBlock m p ci).getLong (p + 128 + j * 4) =
      ((field (denvRows ci) j).map (· % 2 ^ 32)).getD (m.getLong (p + 128 + j * 4)) := by
  rw [partBlock, (agree_rdbCrc (by omega)).getLong, getLong_putLongs,
    (agree_partBlock_name (by omega)).getLong, (agree_putLongs partRows_lt (by omega)).getLong]

theorem summed_partBlock : Summed (partBlock m p ci) p := by
  refine summed_rdbCrc ?_ ?_
  · rw [(agree_putLongs denvRows_lt (by omega)).getLong, (agree_partBlock_name (by omega)).getLong,
      getLong_putLongs]
    exact (by decide : 2 < 256 / 4)
  · rw [(agree_putLongs denvRows_lt (by omega)).getLong, (agree_partBlock_name (by omega)).getLong,
      getLong_putLongs]
    rfl

theorem agree_partBlock {off len : Nat} (h : off + len ≤ p ∨ p + 256 ≤ off) :
    Agree m (partBlock m p ci) off len :=
  (((agree_putLongs partRows_lt (by omega)).trans (agree_partBlock_name (by omega))).trans
    (agree_putLongs denvRows_lt (by omega))).trans (agree_rdbCrc (by omega))

end Part

section Fshd

variable {fsver : Nat}

theorem fshdRows_lt : ∀ row ∈ fshdRows ci fsver, row.1 < 20 := by
  simp [fshdRows]

theorem getLong_fshdBlock {j : Nat} (hj2 : j ≠ 2) :
    (fshdBlock m p ci fsver).getLong (p + j * 4) =
      ((field (fshdRows ci fsver) j).map (· % 2 ^ 32)).getD (m.getLong (p + j * 4)) := by
  rw [fshdBlock, getLong_rdbCrc hj2, getLong_putLongs]

theorem summed_fshdBlock : Summed (fshdBlock m p ci fsver) p := by
  refine summed_rdbCrc ?_ ?_
  · rw [getLong_putLongs]
    exact (by decide : 2 < 256 / 4)
  · rw [getLong_putLongs]
    rfl

theorem agree_fshdBlock {off len : Nat} (h : off + len ≤ p ∨ p + 256 ≤ off) :
    Agree m (fshdBlock m p ci fsver) off len :=
  (agree_putLongs fshdRows_lt (by omega)).trans (agree_rdbCrc (by omega))

end Fshd

/-! ### LSEG blocks -/

section LsegBlock

variable {longs next : Nat} {data : List Byte}

theorem getLong_lsegBlock_row {j : Nat} (hj : j = 0 ∨ j = 1) :
    (lsegBlock m p longs next data).getLong (p + j * 4) =
      ((field [(0, 0x4c534547), (1, longs), (2, 0), (3, 7)] j).map (· % 2 ^ 32)).getD
        (m.getLong (p + j * 4)) := by
  rw [lsegBlock, getLong_rdbCrc (by omega), getLong_putLong_of_ne (by omega),
    (agree_blit (by omega)).getLong, getLong_putLongs]

theorem getLong_lsegBlock_next :
    (lsegBlock m p longs next data).getLong (p + 4 * 4) = next % 2 ^ 32 := by
  rw [lsegBlock, getLong_rdbCrc (by decide), getLong_putLong]

theorem slice_lsegBlock : (lsegBlock m p longs next data).slice (p + 5 * 4) data.length = data := by
  rw [lsegBlock, (agree_rdbCrc (by omega)).slice, (agree_putLong (by omega)).slice, slice_blit]

theorem summed_lsegBlock (hlongs : 5 ≤ longs) (hlt : longs < 2 ^ 32) :
    Summed (lsegBlock m p longs next data) p := by
  refine summed_rdbCrc ?_ ?_
  · rw [getLong_putLong_of_ne (by decide), (agree_blit (by omega)).getLong, getLong_putLongs]
    change 2 < longs % 2 ^ 32
    omega
  · rw [getLong_putLong_of_ne (by decide), (agree_blit (by omega)).getLong, getLong_putLongs]
    rfl

theorem agree_lsegBlock {off len : Nat} (h : off + len ≤ p) :
    Agree m (lsegBlock m p longs next data) off len := by
  have hrows : ∀ row ∈ [(0, 0x4c534547), (1, longs), (2, 0), (3, 7)], row.1 < 4 := by simp
  exact (((agree_putLongs hrows (Or.inl h)).trans (agree_blit (by omega))).trans
    (agree_putLong (by omega))).trans (agree_rdbCrc (by omega))

end LsegBlock

/-! ### The chain -/

/-- The end of a list of blocks. -/
def noBlock : Nat := 2 ^ 32 - 1

/-- Block `blk` is a LSEG block of the area that holds `data`. -/
structure Lseg (rdb : Image) (hbs : Nat) (size : Int) (blk : Nat) (data : List Byte) : Prop where
  inside : (hbs * blk + hbs : Int) ≤ size
  id : rdb.getLong (hbs * blk + 0 * 4) = 0x4c534547
  declared : 5 ≤ rdb.getLong (hbs * blk + 1 * 4) ∧ 4 * rdb.getLong (hbs * blk + 1 * 4) ≤ hbs
  summed : Summed rdb (hbs * blk)
  holds : rdb.slice (hbs * blk + 5 * 4) (4 * rdb.getLong (hbs * blk + 1 * 4) - 5 * 4) = data

/-- Following the chain from block `blk` to its end stays inside the area and yields `data`. -/
inductive LsegChain (rdb : Image) (hbs : Nat) (size : Int) : Nat → List Byte → Prop
  | last {blk : Nat} {data : List Byte} : Lseg rdb hbs size blk data →
      rdb.getLong (hbs * blk + 4 * 4) = noBlock → LsegChain rdb hbs size blk data
  | next {blk : Nat} {data rest : List Byte} : Lseg rdb hbs size blk data →
      rdb.getLong (hbs * blk + 4 * 4) ≠ noBlock →
      LsegChain rdb hbs size (rdb.getLong (hbs * blk + 4 * 4)) rest →
      LsegChain rdb hbs size blk (data ++ rest)

/-- A chain whose first block points to `nxt` goes on there. -/
theorem lsegChain_append {rdb : Image} {hbs : Nat} {size : Int} {blk nxt : Nat} {data : List Byte}
    (hblk : Lseg rdb hbs size blk data) (hnext : rdb.getLong (hbs * blk + 4 * 4) = nxt)
    (hne : nxt ≠ noBlock) (rest : List Byte) :
    LsegChain rdb hbs size blk (data ++ rest) ↔ LsegChain rdb hbs size nxt rest := by
  subst hnext
  constructor
  · intro hchain
    generalize hall : data ++ rest = all at hchain
    cases hchain with
    | last _ hend => exact absurd hend hne
    | @next _ data' rest' hblk' _ htail =>
      obtain rfl : data' = data := hblk'.holds.symm.trans hblk.holds
      obtain rfl := List.append_cancel_left hall
      exact htail
  · exact .next hblk hne

/-- LSEG blocks that a file of `len` bytes needs. -/
def lsegsFor (ci : Config) (len : Nat) : Nat :=
  max 1 ((len + (ci.hardblocksize - 5 * 4) - 1) / (ci.hardblocksize - 5 * 4))

theorem lsegsFor_of_le {len : Nat} (h : len ≤ ci.hardblocksize - 5 * 4) : lsegsFor ci len = 1 := by
  have hbs := ci.hardblocksize_cases
  rw [lsegsFor, Nat.max_eq_left]
  refine Nat.le_of_lt_succ (Nat.div_lt_of_lt_mul ?_)
  omega

theorem lsegsFor_of_lt {len : Nat} (h : ci.hardblocksize - 5 * 4 < len) :
    lsegsFor ci len = lsegsFor ci (len - (ci.hardblocksize - 5 * 4)) + 1 := by
  have hbs := ci.hardblocksize_cases
  obtain ⟨d, hd⟩ : ∃ d, d = ci.hardblocksize - 5 * 4 := ⟨_, rfl⟩
  have hpos : 0 < d := by omega
  obtain ⟨k, rfl⟩ : ∃ k, len = d + k := ⟨len - d, by omega⟩
  have hk : 0 < k := by omega
  have hdiv : (d + k + d - 1) / d = (k + d - 1) / d + 1 := by
    rw [show d + k + d - 1 = k + d - 1 + d by omega, Nat.add_div_right _ hpos]
  have hone : 1 ≤ (k + d - 1) / d := (Nat.one_le_div_iff hpos).mpr (by omega)
  rw [lsegsFor, lsegsFor, ← hd, hdiv, Nat.add_sub_cancel_left]
  omega

theorem lsegsFor_pos (len : Nat) : 1 ≤ lsegsFor ci len := Nat.le_max_left _ _

theorem agree_lsegBlocks {size : Int} {idx : Nat} {rest : List Byte} {off len : Nat}
    (h : off + len ≤ ci.hardblocksize * idx) :
    Agree m (lsegBlocks ci size m idx rest) off len := by
  fun_induction lsegBlocks ci size m idx rest with
  | case1 m idx rest lseg hfull => exact Agree.refl _ _ _
  | case2 m idx rest lseg d hroom hlast => exact agree_lsegBlock h
  | case3 m idx rest lseg d hroom hmore m' ih =>
    refine (agree_lsegBlock h).trans (ih ?_)
    rw [Nat.mul_add]
    omega

/-- What one turn of the loop writes, seen in any later image. -/
theorem lseg_of_agree {size : Int} {idx longs next : Nat} {data : List Byte} {m' : Image}
    (hroom : ¬ (ci.hardblocksize * idx + ci.hardblocksize : Int) > size)
    (hlongs : data.length = 4 * longs - 5 * 4) (hmin : 5 ≤ longs)
    (hmax : 4 * longs ≤ ci.hardblocksize)
    (h : Agree (lsegBlock m (ci.hardblocksize * idx) longs next data) m'
      (ci.hardblocksize * idx) ci.hardblocksize) :
    Lseg m' ci.hardblocksize size idx data ∧
      m'.getLong (ci.hardblocksize * idx + 4 * 4) = next % 2 ^ 32 := by
  have hbs := ci.hardblocksize_cases
  have hlong : ∀ j < 5, m'.getLong (ci.hardblocksize * idx + j * 4) =
      (lsegBlock m (ci.hardblocksize * idx) longs next data).getLong
        (ci.hardblocksize * idx + j * 4) := fun j hj =>
    (h.mono (by omega) (by omega) :
      Agree _ m' (ci.hardblocksize * idx + j * 4) 4).getLong
  have hid := (hlong 0 (by omega)).trans (getLong_lsegBlock_row (Or.inl rfl))
  have hlen := (hlong 1 (by omega)).trans (getLong_lsegBlock_row (Or.inr rfl))
  replace hlen : m'.getLong (ci.hardblocksize * idx + 1 * 4) = longs :=
    hlen.trans (Nat.mod_eq_of_lt (by omega))
  refine ⟨⟨by omega, hid, by omega, ?_, ?_⟩, (hlong 4 (by omega)).trans getLong_lsegBlock_next⟩
  · refine (summed_lsegBlock hmin (by omega)).of_agree h ?_ (by omega)
    rw [← hlong 1 (by omega), hlen]
    exact hmax
  · rw [hlen, ← hlongs, (h.mono (by omega) (by omega) :
      Agree _ m' (ci.hardblocksize * idx + 5 * 4) data.length).slice]
    exact slice_lsegBlock

/-- The chain holds the whole file exactly if its blocks fit. -/
theorem lsegChain_iff {size : Int} {idx : Nat} {rest : List Byte} (hsize : size < 2 ^ 31)
    (hrest : rest.length % 4 = 0) :
    LsegChain (lsegBlocks ci size m idx rest) ci.hardblocksize size idx rest ↔
      (ci.hardblocksize * (idx + lsegsFor ci rest.length) : Int) ≤ size := by
  have hbs := ci.hardblocksize_cases
  fun_induction lsegBlocks ci size m idx rest with
  | case1 m idx rest lseg hfull =>
    have hpos : 1 ≤ lsegsFor ci rest.length := lsegsFor_pos rest.length
    refine iff_of_false ?_ ?_
    · intro hchain
      cases hchain with
      | last hblk => exact absurd hblk.inside (by omega)
      | next hblk => exact absurd hblk.inside (by omega)
    · have := Nat.mul_le_mul_left ci.hardblocksize hpos
      push_cast [lseg] at hfull
      rw [Int.mul_add]
      omega
  | case2 m idx rest lseg d hroom hlast =>
    have hfit : ¬ (ci.hardblocksize * idx + ci.hardblocksize : Int) > size := by
      push_cast [lseg] at hroom
      exact hroom
    obtain ⟨hblk, hnext⟩ := lseg_of_agree hfit (show rest.length = 4 * (5 + rest.length / 4) - 5 * 4
      by omega) (by omega) (by omega)
      (Agree.refl (lsegBlock m (ci.hardblocksize * idx) (5 + rest.length / 4) (u32 (-1)) rest) _ _)
    refine iff_of_true (.last hblk hnext) ?_
    rw [lsegsFor_of_le hlast]
    have := hblk.inside
    rw [Int.mul_add]
    omega
  | case3 m idx rest lseg d hroom hmore m' ih =>
    have hagree : Agree m' (lsegBlocks ci size m' (idx + 1) (rest.drop d))
        (ci.hardblocksize * idx) ci.hardblocksize := agree_lsegBlocks (by rw [Nat.mul_add]; omega)
    have hfit : ¬ (ci.hardblocksize * idx + ci.hardblocksize : Int) > size := by
      push_cast [lseg] at hroom
      exact hroom
    have hlongs : (rest.take d).length = 4 * (ci.hardblocksize / 4) - 5 * 4 := by
      rw [List.length_take]
      omega
    obtain ⟨hblk, hnext⟩ := lseg_of_agree hfit hlongs (by omega) (by omega) hagree
    have hidx : (idx : Int) < 2 ^ 31 := by
      have := Nat.le_mul_of_pos_left idx (show 0 < ci.hardblocksize by omega)
      push_cast [lseg] at hroom
      omega
    rw [Nat.mod_eq_of_lt (by omega)] at hnext
    have hne : idx + 1 ≠ noBlock := by rw [noBlock]; omega
    have hdrop : (rest.drop d).length % 4 = 0 := by
      rw [List.length_drop]
      omega
    rw [lsegsFor_of_lt (by omega), ← List.length_drop]
    have hchain := lsegChain_append hblk hnext hne (rest.drop d)
    rw [List.take_append_drop] at hchain
    refine hchain.trans ((ih hdrop).trans ?_)
    rw [show ((idx + 1 : Nat) : Int) + lsegsFor ci (rest.drop d).length =
      idx + ((lsegsFor ci (rest.drop d).length + 1 : Nat) : Int) by push_cast; ring]

end LibretroUae.Hardfile
