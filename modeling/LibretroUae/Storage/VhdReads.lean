import LibretroUae.Storage.Windows
import LibretroUae.Lib.Words

/-!
# LibretroUae.Storage.VhdReads

**Reads of a VHD view.** Every aligned read in the range of the virtual disk gives the bytes of
the virtual disk, as long as the sectors that it touches lie below 2 GB. The sector bitmap that
was read last is kept, and is the one of the file at its place.

An unaligned read goes through a buffer, sector by sector, to one and the same destination, and
counts the bytes of the first sector twice; `readOk` leaves these out, but for the start of a
single sector.
-/

namespace LibretroUae.Storage

open Lib Lib.Image

/-! ### Dynamic VHD files -/

def bsOf (m : Image) : Nat := m.getLong (m.getLong 20 + 32)

def bamOf (m : Image) : Nat := m.getLong (m.getLong 20 + 20)

/-- The place of the block of byte `o`, in sectors. -/
def entryOf (m : Image) (o : Nat) : Nat := m.getLong (bamOf m + o / bsOf m * 4)

/-- Is there a block for byte `o`? -/
def Allocated (m : Image) (o : Nat) : Prop := entryOf m o ≠ 0xffffffff

/-- The end of the block of byte `o`. -/
def blockEnd (m : Image) (o : Nat) : Nat := entryOf m o * 512 + bitmapBytes (bsOf m) + bsOf m

/-- A dynamic file with blocks of a legal size that are all inside of it. -/
structure WellFormed (m : Image) (size : Nat) : Prop where
  file : DynamicFile m size
  blocksize : ∃ e, bsOf m = 512 * 2 ^ e
  blocks : ∀ o < virtsizeOf m, Allocated m o → blockEnd m o ≤ size

/-- The header of the table and the table lie below 4 GB. -/
def LowTables (m : Image) : Prop := m.getLong 16 = 0 ∧ m.getLong (m.getLong 20 + 16) = 0

/-- The bit of byte `o` in the bitmap in front of its block. -/
def Present (m : Image) (o : Nat) : Prop :=
  (m (entryOf m o * 512 + o % bsOf m / 512 / 8)).getLsbD (7 - o % bsOf m / 512 % 8) = true

/-- The bitmap of byte `o` and, where it has one, its sector are found by the reader: they are
below 2 GB, and the bitmap of a block takes a sector. -/
def SectorOk (m : Image) (o : Nat) : Prop :=
  Allocated m o → entryOf m o * 512 + o % bsOf m / 512 / 8 / 512 * 512 < 2 ^ 31 ∧
    (Present m o → 4096 ≤ bsOf m ∧
      entryOf m o * 512 + bitmapBytes (bsOf m) + o % bsOf m / 512 * 512 < 2 ^ 31)

/-- A read of whole sectors, or of bytes at the start of one, that are found. -/
def ReadOk (m : Image) (seek l1 l2 : Nat) : Prop :=
  l2 = 0 ∨ (l1 ≠ 0 ∧ seek % 512 = 0 ∧ ((l1 * l2) % 512 = 0 ∨ (l1 = 1 ∧ l2 < 512)) ∧
    ∀ o, seek ≤ o → o < seek + l1 * l2 → SectorOk m o)

variable {m : Image} {size o : Nat} {st st' : VhdRead}

/-- The virtual disk of a file with low tables. -/
theorem virtualDisk_eq (hfile : WellFormed m size) (hlow : LowTables m) (o : Nat) :
    virtualDisk m o =
      if entryOf m o = 0xffffffff then 0
      else if (m (entryOf m o * 512 + o % bsOf m / 512 / 8)).getLsbD (7 - o % bsOf m / 512 % 8) then
        m (entryOf m o * 512 + bitmapBytes (bsOf m) + o % bsOf m)
      else 0 := by
  rw [virtualDisk, if_pos hfile.file.dynamic, hlow.1, Nat.zero_mul, Nat.zero_add]
  dsimp only
  rw [hlow.2, Nat.zero_mul, Nat.zero_add]
  rfl

section Sector

variable (hfile : WellFormed m size) {s j : Nat} (hj : j < 512)
include hfile

theorem WellFormed.bs_pos : 0 < bsOf m := Nat.pos_of_ne_zero hfile.file.blocksize

/-- A block is a whole number of sectors. -/
theorem WellFormed.bs_sectors : ∃ n, bsOf m = n * 512 ∧ 0 < n ∧ bsOf m / 512 = n := by
  have hpos := hfile.bs_pos
  obtain ⟨e, he⟩ := hfile.blocksize
  refine ⟨2 ^ e, he.trans (Nat.mul_comm _ _), Nat.two_pow_pos e, ?_⟩
  rw [he, Nat.mul_div_cancel_left _ (by decide)]

theorem WellFormed.sector_mod : s * 512 % bsOf m = s % (bsOf m / 512) * 512 := by
  obtain ⟨n, hn, -, hdiv⟩ := hfile.bs_sectors
  rw [hdiv, hn, Nat.mul_mod_mul_right]

include hj

/-- The bytes of a sector are in one block. -/
theorem WellFormed.block_sector : (s * 512 + j) / bsOf m = s * 512 / bsOf m := by
  obtain ⟨n, hn, -, -⟩ := hfile.bs_sectors
  have hs : (s * 512 + j) / 512 = s * 512 / 512 := by omega
  rw [hn, Nat.mul_comm n, ← Nat.div_div_eq_div_mul, ← Nat.div_div_eq_div_mul, hs]

theorem WellFormed.entry_sector : entryOf m (s * 512 + j) = entryOf m (s * 512) := by
  rw [entryOf, entryOf, hfile.block_sector hj]

theorem WellFormed.mod_sector :
    (s * 512 + j) % bsOf m = s % (bsOf m / 512) * 512 + j := by
  have h1 := Nat.div_add_mod (s * 512 + j) (bsOf m)
  have h2 := Nat.div_add_mod (s * 512) (bsOf m)
  rw [hfile.block_sector hj] at h1
  rw [← hfile.sector_mod]
  generalize bsOf m * (s * 512 / bsOf m) = q at h1 h2
  clear hfile hj
  omega

end Sector

theorem slice_eq {m m' : Image} {off off' n : Nat} (h : ∀ j < n, m (off + j) = m' (off' + j)) :
    m.slice off n = m'.slice off' n :=
  List.map_congr_left fun j hj => h j (List.mem_range.mp hj)

theorem slice_const (off n : Nat) : slice (fun _ => 0) off n = List.replicate n 0 := by
  simp [slice]

/-- A byte of the sector `s`. -/
theorem virtualDisk_sector (hfile : WellFormed m size) (hlow : LowTables m) (s : Nat) {j : Nat}
    (hj : j < 512) :
    virtualDisk m (s * 512 + j) =
      if entryOf m (s * 512) = 0xffffffff then 0
      else if (m (entryOf m (s * 512) * 512 + s % (bsOf m / 512) / 8)).getLsbD
          (7 - s % (bsOf m / 512) % 8) then
        m (entryOf m (s * 512) * 512 + bitmapBytes (bsOf m) + s % (bsOf m / 512) * 512 + j)
      else 0 := by
  have hsector : (s % (bsOf m / 512) * 512 + j) / 512 = s % (bsOf m / 512) := by omega
  rw [virtualDisk_eq hfile hlow, hfile.entry_sector hj, hfile.mod_sector hj, hsector, Nat.add_assoc,
    Nat.add_assoc, Nat.add_assoc]

theorem slice_unallocated (hfile : WellFormed m size) (hlow : LowTables m) {s : Nat}
    (h : entryOf m (s * 512) = 0xffffffff) : (virtualDisk m).slice (s * 512) 512 = zeros := by
  rw [zeros, ← slice_const 0]
  refine slice_eq fun j hj => ?_
  rw [virtualDisk_sector hfile hlow s hj, if_pos h]

theorem slice_clear (hfile : WellFormed m size) (hlow : LowTables m) {s : Nat}
    (h : (m (entryOf m (s * 512) * 512 + s % (bsOf m / 512) / 8)).getLsbD
      (7 - s % (bsOf m / 512) % 8) = false) : (virtualDisk m).slice (s * 512) 512 = zeros := by
  rw [zeros, ← slice_const 0]
  refine slice_eq fun j hj => ?_
  rw [virtualDisk_sector hfile hlow s hj, h]
  split_ifs with h1 h2
  · rfl
  · exact absurd h2 (by decide)
  · rfl

theorem slice_present (hfile : WellFormed m size) (hlow : LowTables m) {s : Nat}
    (halloc : entryOf m (s * 512) ≠ 0xffffffff)
    (h : (m (entryOf m (s * 512) * 512 + s % (bsOf m / 512) / 8)).getLsbD
      (7 - s % (bsOf m / 512) % 8) = true) : (virtualDisk m).slice (s * 512) 512 =
    m.slice (entryOf m (s * 512) * 512 + bitmapBytes (bsOf m) + s % (bsOf m / 512) * 512) 512 := by
  refine slice_eq fun j hj => ?_
  rw [virtualDisk_sector hfile hlow s hj, if_neg halloc, if_pos h]

/-! ### Reading a sector -/

/-- The view works with what the file holds, and the bitmap that was read last is the one of the
file. -/
structure Reading (m : Image) (size : Nat) (st : VhdRead) : Prop where
  blocksize : st.vhd.vhdBlocksize = bsOf m
  bamoffset : st.vhd.vhdBamoffset = bamOf m
  headerSize : st.vhd.vhdHeaderSize = bamOf m + bamsizeOf (virtsizeOf m) (bsOf m)
  header : Agree m st.vhd.vhdHeader 0 (bamOf m + bamsizeOf (virtsizeOf m) (bsOf m))
  bitmapsize : st.vhd.vhdBitmapsize = (bsOf m / (8 * 512) + 511) / 512 * 512
  root : Root st.zp m
  size : st.zp.size = size
  cache : st.vhd.vhdSectormapblock = -1 ∨ ∃ pos : Nat, st.vhd.vhdSectormapblock = pos ∧
    ∀ j < 512, st.vhd.vhdSectormap j = m (pos + j)

theorem int32_eq {n : Nat} (h : n < 2 ^ 31) : int32 n = n :=
  toInt_ofNat_small h

/-- The bytes at `pos` are read from the file. -/
theorem Reading.ownFread (hst : Reading m size st) (b : Image) (at' : Nat) {pos n : Nat}
    (hroom : pos + n ≤ size) :
    ∃ zp, ownFread (zfileFseek st.zp pos .set).2 b at' 1 n = (b.blit at' (m.slice pos n), n, zp) ∧
      Root zp m ∧ zp.size = size := by
  obtain ⟨hseek, hsize, -⟩ := hst.root.fseek pos .set
  have hpos := hst.root.fseek_set pos
    (hst.size.symm ▸ Nat.le_trans (Nat.le_add_right pos n) hroom)
  obtain ⟨hbytes, hret⟩ := hseek.fread_inside b at' 1 n
    (by rw [hpos, hsize, hst.size, Nat.one_mul]; exact hroom)
  obtain ⟨hroot, hsize', -⟩ := hseek.fread b at' 1 n
  refine ⟨_, Prod.ext ?_ (Prod.ext (hret (Nat.succ_ne_zero 0)) rfl), hroot,
    hsize'.trans (hsize.trans hst.size)⟩
  rw [hbytes, hpos, Nat.one_mul]

/-- The sector bitmap at `pos` is there afterwards. -/
theorem readSectormap_spec (hst : Reading m size st) {pos : Nat} (hroom : pos + 512 ≤ size) :
    ∃ st', readSectormap st pos = (true, st') ∧ st'.b = st.b ∧ Reading m size st' ∧
      ∀ j < 512, st'.vhd.vhdSectormap j = m (pos + j) := by
  rw [readSectormap]
  split_ifs with hcached
  · -- the bitmap that was read last is this one
    refine ⟨st, rfl, rfl, hst, ?_⟩
    rcases hst.cache with hnone | ⟨pos', hpos', hmap⟩
    · rw [hcached] at hnone
      omega
    · have heq : pos' = pos := by
        rw [hcached] at hpos'
        omega
      exact heq ▸ hmap
  · obtain ⟨zp, hread, hroot, hsize⟩ := hst.ownFread st.vhd.vhdSectormap 0 hroom
    have hmap : ∀ j < 512, (st.vhd.vhdSectormap.blit 0 (m.slice pos 512)) j = m (pos + j) :=
      fun j hj => agree_sector m st.vhd.vhdSectormap pos 512 j (Nat.zero_le j) (by omega)
    generalize st.vhd.vhdSectormap.blit 0 (m.slice pos 512) = map at hread hmap
    rw [hread]
    dsimp only
    rw [if_neg (by decide)]
    exact ⟨_, rfl, rfl, ⟨hst.blocksize, hst.bamoffset, hst.headerSize, hst.header, hst.bitmapsize,
      hroot, hsize, .inr ⟨pos, rfl, hmap⟩⟩, hmap⟩

theorem bitmapBytes_eq {bs : Nat} (h : ∃ e, bs = 512 * 2 ^ e) (hlarge : 4096 ≤ bs) :
    (bs / (8 * 512) + 511) / 512 * 512 = bitmapBytes bs := by
  obtain ⟨e, rfl⟩ := h
  have hthree : 3 ≤ e := by
    by_contra hlt
    have hpow := Nat.pow_le_pow_right (show 0 < 2 by decide) (show e ≤ 2 by omega)
    omega
  obtain ⟨k, rfl⟩ := Nat.exists_eq_add_of_le hthree
  rw [bitmapBytes, Nat.pow_add]
  generalize 2 ^ k = n
  omega

/-- The bits of a block fit into the bitmap in front of it. -/
theorem bitmap_room {bs bits : Nat} (h : bits < bs / 512) :
    bits / 8 / 512 * 512 + 512 ≤ bitmapBytes bs := by
  rw [bitmapBytes]
  omega

section Room

variable {entry map bs bits limit : Nat} (hend : entry * 512 + map + bs ≤ limit)
include hend

theorem bitmap_inside (hmap : bits / 8 / 512 * 512 + 512 ≤ map) :
    entry * 512 + bits / 8 / 512 * 512 + 512 ≤ limit := by
  rw [Nat.add_assoc]
  exact ((Nat.add_le_add_left hmap _).trans (Nat.le_add_right _ bs)).trans hend

theorem data_inside (hwide : bits * 512 + 512 ≤ bs) :
    entry * 512 + map + bits * 512 + 512 ≤ limit := by
  rw [Nat.add_assoc]
  exact (Nat.add_le_add_left hwide _).trans hend

end Room

theorem bitmap_place (entry bits : Nat) :
    entry * 512 + bits / 8 / 512 * 512 + bits / 8 % 512 = entry * 512 + bits / 8 := by
  omega

/-- A sector of an allocated block. -/
theorem readAllocated_spec (hfile : WellFormed m size) (hlow : LowTables m)
    (hst : Reading m size st) {s : Nat} (at' : Nat) (hs : s * 512 < virtsizeOf m)
    (halloc : Allocated m (s * 512)) (hok : SectorOk m (s * 512)) :
    ∃ st', readAllocated st at' (entryOf m (s * 512)) (s % (bsOf m / 512)) = (true, st') ∧
      st'.b = st.b.blit at' ((virtualDisk m).slice (s * 512) 512) ∧ Reading m size st' := by
  obtain ⟨n, hn, hnpos, hdiv⟩ := hfile.bs_sectors
  have hsector : s * 512 % bsOf m / 512 = s % (bsOf m / 512) := by
    rw [hfile.sector_mod, Nat.mul_div_cancel _ (by decide)]
  obtain ⟨hmaplow, hfound⟩ := hok halloc
  rw [Present, hsector] at hfound
  rw [hsector] at hmaplow
  have hinside : entryOf m (s * 512) * 512 + bitmapBytes (bsOf m) + bsOf m ≤ size :=
    hfile.blocks _ hs halloc
  have hbits : s % (bsOf m / 512) < bsOf m / 512 := Nat.mod_lt _ (by rw [hdiv]; exact hnpos)
  have hmap := bitmap_room hbits
  have hwide : s % (bsOf m / 512) * 512 + 512 ≤ bsOf m := by
    have hle := Nat.mul_le_mul_right 512 (Nat.succ_le_of_lt hbits)
    rw [hdiv] at hle ⊢
    rw [hn]
    exact (Nat.succ_mul _ _).symm.le.trans hle
  obtain ⟨st₁, hread, hb, hst₁, hsame⟩ := readSectormap_spec hst (bitmap_inside hinside hmap)
  have hbit : bitSet st₁.vhd.vhdSectormap (s % (bsOf m / 512)) =
      (m (entryOf m (s * 512) * 512 + s % (bsOf m / 512) / 8)).getLsbD
        (7 - s % (bsOf m / 512) % 8) := by
    rw [bitSet, hsame _ (Nat.mod_lt _ (by decide)), bitmap_place]
  rw [readAllocated, int32_eq hmaplow, hread]
  dsimp only
  rw [if_neg (by decide), hbit]
  -- the data of a sector is read when its bit is set, the others are zeros
  split_ifs with hset
  · obtain ⟨hlarge, hlowdata⟩ := hfound hset
    obtain ⟨zp, hfread, hroot, hsize⟩ := hst₁.ownFread st₁.b at' (data_inside hinside hwide)
    rw [hst₁.bitmapsize, bitmapBytes_eq hfile.blocksize hlarge, int32_eq hlowdata, hfread]
    refine ⟨_, rfl, ?_, hst₁.blocksize, hst₁.bamoffset, hst₁.headerSize, hst₁.header,
      hst₁.bitmapsize, hroot, hsize, hst₁.cache⟩
    rw [slice_present hfile hlow halloc hset, hb]
  · refine ⟨_, rfl, ?_, hst₁.blocksize, hst₁.bamoffset, hst₁.headerSize, hst₁.header,
      hst₁.bitmapsize, hst₁.root, hst₁.size, hst₁.cache⟩
    rw [slice_clear hfile hlow (Bool.not_eq_true _ ▸ hset), hb]

/-- The entry of a block in range is in the table. -/
theorem entry_inside {virtsize bs : Nat} (hpos : 0 < bs) {o : Nat} (ho : o < virtsize) :
    o / bs * 4 + 4 ≤ bamsizeOf virtsize bs := by
  have hblocks : o / bs + 1 ≤ (virtsize + bs - 1) / bs := by
    rw [Nat.le_div_iff_mul_le hpos, Nat.add_mul, Nat.one_mul]
    have hle := Nat.div_mul_le_self o bs
    omega
  rw [bamsizeOf]
  omega

/-- A sector of the virtual disk. -/
theorem vhdSector_spec (hfile : WellFormed m size) (hlow : LowTables m) (hst : Reading m size st)
    {s : Nat} (at' : Nat) (hs : s * 512 < virtsizeOf m) (hok : SectorOk m (s * 512)) :
    ∃ st', vhdSector st at' (s * 512) = .ok (true, st') ∧
      st'.b = st.b.blit at' ((virtualDisk m).slice (s * 512) 512) ∧ Reading m size st' := by
  have hpos := hfile.bs_pos
  obtain ⟨n, hn, hnpos, hdiv⟩ := hfile.bs_sectors
  have htable : bamOf m + bamsizeOf (virtsizeOf m) (bsOf m) ≤ min size (2 ^ 32 - 1) :=
    hfile.file.table
  have hentry := entry_inside hpos hs
  have hmod : (s * 512 / bsOf m * 4 + bamOf m) % 2 ^ 32 = bamOf m + s * 512 / bsOf m * 4 := by
    rw [Nat.add_comm]
    exact Nat.mod_eq_of_lt (by omega)
  have hheader : st.vhd.vhdHeader.getLong (bamOf m + s * 512 / bsOf m * 4) = entryOf m (s * 512) :=
    (hst.header.mono (Nat.zero_le _) (by omega)).getLong
  have hinside : ¬bamOf m + bamsizeOf (virtsizeOf m) (bsOf m) <
      bamOf m + s * 512 / bsOf m * 4 + 4 := by omega
  rw [vhdSector, hst.blocksize, if_neg (Nat.ne_of_gt hpos), hst.bamoffset]
  dsimp only
  rw [hmod, hst.headerSize, if_neg hinside, hheader]
  by_cases halloc : entryOf m (s * 512) = 0xffffffff
  · rw [if_pos halloc]
    refine ⟨_, rfl, ?_, hst.blocksize, hst.bamoffset, hst.headerSize, hst.header, hst.bitmapsize,
      hst.root, hst.size, hst.cache⟩
    rw [slice_unallocated hfile hlow halloc]
  · rw [if_neg halloc, if_neg (by rw [hdiv]; exact Nat.ne_of_gt hnpos),
      Nat.mul_div_cancel _ (by decide)]
    obtain ⟨st', hread, hb, hst'⟩ := readAllocated_spec hfile hlow hst at' hs halloc hok
    exact ⟨st', congrArg Except.ok hread, hb, hst'⟩

/-- Sectors of the virtual disk, one after the other. -/
theorem vhdLoop_spec (hfile : WellFormed m size) (hlow : LowTables m) (n : Nat)
    (hst : Reading m size st) {s : Nat} (at' read : Nat)
    (hok : ∀ t, s ≤ t → t < s + n → t * 512 < virtsizeOf m ∧ SectorOk m (t * 512)) :
    ∃ st', vhdLoop n st at' (s * 512) read = .ok (read + n * 512, st') ∧
      st'.b = st.b.blit at' ((virtualDisk m).slice (s * 512) (n * 512)) ∧ Reading m size st' := by
  induction n generalizing st s at' read with
  | zero =>
    refine ⟨st, ?_, ?_, hst⟩
    · rw [vhdLoop, Nat.zero_mul, Nat.add_zero]
    · rw [Nat.zero_mul, slice_zero, blit_nil]
  | succ n ih =>
    obtain ⟨hin, hfound⟩ := hok s (Nat.le_refl s) (by omega)
    obtain ⟨st₁, hsector, hb₁, hst₁⟩ := vhdSector_spec hfile hlow hst at' hin hfound
    obtain ⟨st₂, hloop, hb₂, hst₂⟩ := ih hst₁ (s := s + 1) (at' + 512) (read + 512)
      fun t ht hlt => hok t (by omega) (by omega)
    refine ⟨st₂, ?_, ?_, hst₂⟩
    · have hnext : s * 512 + 512 = (s + 1) * 512 := by omega
      have hsum : read + 512 + n * 512 = read + (n + 1) * 512 := by omega
      rw [vhdLoop, hsector, ok_bind]
      dsimp only
      rw [if_pos rfl, hnext, hloop, hsum]
    · have hsplit : (n + 1) * 512 = 512 + n * 512 := by omega
      have hnext : s * 512 + 512 = (s + 1) * 512 := by omega
      have happend := blit_append st.b at' ((virtualDisk m).slice (s * 512) 512)
        ((virtualDisk m).slice (s * 512 + 512) (n * 512))
      rw [length_slice, hnext] at happend
      rw [hb₂, hb₁, hsplit, slice_add, hnext, happend]

/-! ### Reading -/

theorem Reading.buffer {v : ZfileVhd} {zp : Zfile} {b : Image} (h : Reading m size ⟨v, zp, b⟩)
    (b' : Image) : Reading m size ⟨v, zp, b'⟩ :=
  ⟨h.blocksize, h.bamoffset, h.headerSize, h.header, h.bitmapsize, h.root, h.size, h.cache⟩

/-- Whole sectors through `vhd_fread2`. -/
theorem vhdFread2_spec (hfile : WellFormed m size) (hlow : LowTables m) (hst : Reading m size st)
    {offset len : Nat} (hoffset : offset % 512 = 0) (hlen : len % 512 = 0)
    (hok : ∀ o, o % 512 = 0 → offset ≤ o → o < offset + len → o < virtsizeOf m ∧ SectorOk m o) :
    ∃ st', vhdFread2 st offset len = .ok (len, st') ∧
      st'.b = st.b.blit 0 ((virtualDisk m).slice offset len) ∧ Reading m size st' := by
  obtain ⟨s, rfl⟩ : ∃ s, offset = s * 512 := ⟨offset / 512, by omega⟩
  obtain ⟨n, rfl⟩ : ∃ n, len = n * 512 := ⟨len / 512, by omega⟩
  obtain ⟨st', hloop, hb, hst'⟩ := vhdLoop_spec hfile hlow n hst (s := s) 0 0
    fun t ht hlt => hok (t * 512) (Nat.mul_mod_left t 512) (by omega) (by omega)
  refine ⟨st', ?_, hb, hst'⟩
  rw [vhdFread2, if_neg (by omega), if_neg (by omega), Nat.mul_div_cancel _ (by decide), hloop,
    Nat.zero_add]

/-- The first bytes of what was stored. -/
theorem slice_stored_le (m b : Image) (pos : Nat) {k n : Nat} (h : k ≤ n) :
    (b.blit 0 (m.slice pos n)).slice 0 k = m.slice pos k := by
  refine slice_eq fun j hj => ?_
  rw [Nat.zero_add]
  exact agree_sector m b pos n j (Nat.zero_le j) (by omega)

/-- A read of the view gives bytes of the virtual disk. -/
theorem vhdFread_spec (hfile : WellFormed m size) (hlow : LowTables m) {z zp : Zfile} {v : ZfileVhd}
    (tmp b : Image) (huser : z.userdata = some v) (hz : Reading m size ⟨v, zp, b⟩) {l1 l2 : Nat}
    (hroom : z.seek + l1 * l2 ≤ virtsizeOf m) (hok : ReadOk m z.seek l1 l2) :
    ∃ v' zp', vhdFread tmp z zp v b l1 l2 =
        .ok (b.blit 0 ((virtualDisk m).slice z.seek (l1 * l2)), l2,
          { z with seek := z.seek + l1 * l2, userdata := some v' }, zp') ∧
      Reading m size ⟨v', zp', b⟩ := by
  by_cases hnone : l2 = 0
  · refine ⟨v, zp, ?_, hz⟩
    subst hnone
    rw [vhdFread, if_pos (.inr rfl), Nat.mul_zero, slice_zero, blit_nil, Nat.add_zero, ← huser]
  obtain ⟨hl1, hseek, hkind, hfound⟩ := hok.resolve_left hnone
  have hreads : ¬(l1 = 0 ∨ l2 = 0) := by omega
  by_cases hwhole : (l1 * l2) % 512 = 0
  · obtain ⟨st', hread, hb, hst'⟩ := vhdFread2_spec hfile hlow hz hseek hwhole
      fun o _ hlow hhigh => ⟨by omega, hfound o hlow hhigh⟩
    refine ⟨st'.vhd, st'.zp, ?_, hst'.buffer b⟩
    rw [vhdFread, if_neg hreads, if_neg (by omega), hread, ok_bind]
    dsimp only
    rw [hb, Nat.mul_div_cancel_left _ (Nat.pos_of_ne_zero hl1)]
    rfl
  · obtain ⟨rfl, hshort⟩ := hkind.resolve_left hwhole
    rw [Nat.one_mul] at hroom hwhole hfound ⊢
    obtain ⟨st', hread, hb, hst'⟩ := vhdFread2_spec hfile hlow (hz.buffer tmp) hseek
      (show 512 % 512 = 0 from rfl) fun o hsector hlow hhigh =>
        have hfirst : o = z.seek := by omega
        ⟨by omega, hfound o hlow (by omega)⟩
    have hturns : (l2 + 511) / 512 = 1 := by omega
    refine ⟨st'.vhd, st'.zp, ?_, hst'.buffer b⟩
    rw [vhdFread, if_neg hreads, Nat.one_mul, if_pos (.inr hwhole), vhdUnaligned,
      if_neg (not_not.mpr hseek), hturns, unalignedLoop, Nat.min_eq_left (Nat.le_of_lt hshort),
      throughBuffer, hread, ok_bind]
    dsimp only
    rw [hb, slice_stored_le _ _ _ (Nat.le_of_lt hshort)]
    change Except.ok (_, 0 + l2, _, _) = _
    rw [Nat.zero_add]

/-! ### Runs -/

/-- The zfile `i` is a view of the dynamic file `p`. -/
structure View (m : Image) (size : Nat) (fs : Files) (i p : Nat) : Prop where
  parent : (fs.zfile i).parent = some p
  apart : i ≠ p
  dataseek : (fs.zfile i).dataseek = true
  reading : ∃ v, (fs.zfile i).userdata = some v ∧ Reading m size ⟨v, fs.zfile p, fun _ => 0⟩

/-- A read stores the bytes of the virtual disk from the position on, and moves it. -/
def ReadsDisk (m : Image) (fs : Files) (i l1 l2 : Nat) : Prop :=
  ∀ tmp b : Image, ∃ fs', zfileFread fs tmp b l1 l2 i =
      .ok (b.blit 0 ((virtualDisk m).slice (fs.zfile i).seek (l1 * l2)), l2, fs') ∧
    (fs'.zfile i).seek = (fs.zfile i).seek + l1 * l2

inductive ViewOp
  | seek (offset : Int) (mode : Whence)
  | read (l1 l2 : Nat) (tmp b : Image)

def viewStep (i : Nat) (fs : Files) : ViewOp → Except Fault Files
  | .seek offset mode => .ok (fs.set i (zfileFseek (fs.zfile i) offset mode).2)
  | .read l1 l2 tmp b => do
    let (_, _, fs) ← zfileFread fs tmp b l1 l2 i
    return fs

/-- A read of the virtual disk that is in its range. -/
def InRange (m : Image) (fs : Files) (i l1 l2 : Nat) : Prop :=
  (fs.zfile i).seek + l1 * l2 ≤ virtsizeOf m

/-- Seeks, and reads in range that are fine. -/
def viewMachine (m : Image) (i : Nat) : Machine Files ViewOp Fault where
  legal := fun fs op => match op with
    | .seek _ _ => True
    | .read l1 l2 _ _ => InRange m fs i l1 l2 ∧ ReadOk m (fs.zfile i).seek l1 l2
  step := viewStep i

section Runs

variable {fs fs' : Files} {i p l1 l2 : Nat}

theorem View.fread (hfile : WellFormed m size) (hlow : LowTables m) (h : View m size fs i p)
    (hroom : InRange m fs i l1 l2) (hok : ReadOk m (fs.zfile i).seek l1 l2) (tmp b : Image) :
    ∃ fs', zfileFread fs tmp b l1 l2 i =
        .ok (b.blit 0 ((virtualDisk m).slice (fs.zfile i).seek (l1 * l2)), l2, fs') ∧
      (fs'.zfile i).seek = (fs.zfile i).seek + l1 * l2 ∧ View m size fs' i p := by
  obtain ⟨v, huser, hreading⟩ := h.reading
  obtain ⟨v', zp', hread, hreading'⟩ :=
    vhdFread_spec hfile hlow tmp b huser (hreading.buffer b) hroom hok
  have hself := (fs.set p zp').set_self i
    { fs.zfile i with seek := (fs.zfile i).seek + l1 * l2, userdata := some v' }
  have hparent := (fs.set p zp').set_ne
    { fs.zfile i with seek := (fs.zfile i).seek + l1 * l2, userdata := some v' } h.apart.symm
  rw [fs.set_self] at hparent
  refine ⟨_, ?_, congrArg Zfile.seek hself, (congrArg Zfile.parent hself).trans h.parent, h.apart,
    (congrArg Zfile.dataseek hself).trans h.dataseek, v', congrArg Zfile.userdata hself, ?_⟩
  · rw [zfileFread, h.parent]
    dsimp only
    rw [huser]
    dsimp only
    rw [hread, ok_bind]
    rfl
  · rw [hparent]
    exact hreading'.buffer _

theorem View.fseek (h : View m size fs i p) (offset : Int) (mode : Whence) :
    View m size (fs.set i (zfileFseek (fs.zfile i) offset mode).2) i p := by
  have hown : (fs.zfile i).ownSeek = true := by
    rw [Zfile.ownSeek, h.dataseek, Bool.or_true, Bool.true_or]
  obtain ⟨seek, -, hseek⟩ := zfileFseek_own hown offset mode
  have hself := fs.set_self i { fs.zfile i with seek }
  have hparent := fs.set_ne { fs.zfile i with seek } h.apart.symm
  rw [hseek]
  refine ⟨(congrArg Zfile.parent hself).trans h.parent, h.apart,
    (congrArg Zfile.dataseek hself).trans h.dataseek, ?_⟩
  rw [hparent, congrArg Zfile.userdata hself]
  exact h.reading

theorem View.step (hfile : WellFormed m size) (hlow : LowTables m) {op : ViewOp}
    (h : View m size fs i p) (hlegal : (viewMachine m i).legal fs op)
    (hstep : viewStep i fs op = .ok fs') : View m size fs' i p := by
  cases op with
  | seek offset mode =>
    cases hstep
    exact h.fseek offset mode
  | read l1 l2 tmp b =>
    obtain ⟨fs₁, hread, -, h₁⟩ := h.fread hfile hlow hlegal.1 hlegal.2 tmp b
    rw [viewStep, hread, ok_bind] at hstep
    cases hstep
    exact h₁

/-- What `vhd` makes of a dynamic file is a view of it, at its start. -/
theorem View.opened {z : Nat} {tmp : Image} (hroot : Root (fs.zfile z) m) (hz : z < fs.next)
    (hfile : DynamicFile m (fs.zfile z).size) (hopen : vhd fs tmp z = .ok (i, fs')) :
    View m (fs.zfile z).size fs' i z ∧ (fs'.zfile i).seek = 0 ∧
      (fs'.zfile i).size = virtsizeOf m := by
  obtain ⟨z', hroot', hsize, hvhd⟩ := hroot.vhd_dynamic hfile tmp
  obtain ⟨rfl, rfl⟩ := Prod.mk.inj (Except.ok.inj (hopen.symm.trans hvhd))
  have hset : ((fs.set z z').zfile z).parent = none := by
    rw [fs.set_self]
    exact hroot'.parent
  have hin : z < (fs.set z z').next := hz
  have hclimb := climb_root hin hset 0
  have hnew := (fs.set z z').add_new { zfileFopenParent (fs.set z z') z 0
    (dynamicVhd m tmp).virtsize with
      useparent := false
      dataseek := true
      userdata := some (dynamicVhd m tmp) }
  have hold := (fs.set z z').add_old { zfileFopenParent (fs.set z z') z 0
    (dynamicVhd m tmp).virtsize with
      useparent := false
      dataseek := true
      userdata := some (dynamicVhd m tmp) } (j := z) hz
  rw [fs.set_self] at hold
  refine ⟨⟨(congrArg Zfile.parent hnew).trans (congrArg (fun r : Nat × Nat => some r.1) hclimb),
    Nat.ne_of_gt hz, congrArg Zfile.dataseek hnew, _, congrArg Zfile.userdata hnew, ?_⟩,
    congrArg Zfile.seek hnew, congrArg Zfile.size hnew⟩
  refine ⟨rfl, rfl, rfl, agree_stored m tmp _, rfl, ?_, ?_, .inl rfl⟩
  · exact hold.symm ▸ hroot'
  · exact (congrArg Zfile.size hold).trans hsize

/-- Reads in range that are fine give the virtual disk, wherever seeks and such reads lead. -/
theorem reads_virtual_disk {fs₀ : Files} {z : Nat} {tmp : Image} (hroot : Root (fs₀.zfile z) m)
    (hz : z < fs₀.next) (hfile : WellFormed m (fs₀.zfile z).size) (hlow : LowTables m)
    (hopen : vhd fs₀ tmp z = .ok (i, fs)) (hreach : (viewMachine m i).Reachable fs fs')
    (hroom : InRange m fs' i l1 l2) (hok : ReadOk m (fs'.zfile i).seek l1 l2) :
    ReadsDisk m fs' i l1 l2 := by
  have hview : View m (fs₀.zfile z).size fs' i z :=
    hreach.induct (P := fun t => View m (fs₀.zfile z).size t i z)
      (fun h hlegal hstep => h.step hfile hlow hlegal hstep)
      (View.opened hroot hz hfile.file hopen).1
  intro tmp b
  obtain ⟨fs₁, hread, hseek, -⟩ := hview.fread hfile hlow hroom hok tmp b
  exact ⟨fs₁, hread, hseek⟩

/-! ### Unaligned reads -/

theorem throughBuffer_out {u u' : Unaligned} {offset skip n len : Nat}
    (h : throughBuffer u offset skip n len = .ok u') : u'.out = u.out + n := by
  obtain ⟨⟨_, st⟩, -, h⟩ := ok_of_bind h
  cases h
  rfl

theorem unalignedLoop_out (n : Nat) {u u' : Unaligned} {len size : Nat} (hturns : size ≤ n * 512)
    (h : unalignedLoop n u len size = .ok u') : u'.out = u.out + size := by
  induction n generalizing u size with
  | zero =>
    cases h
    omega
  | succ n ih =>
    obtain ⟨u₁, hfirst, h⟩ := ok_of_bind h
    have hfirst' := throughBuffer_out hfirst
    have hrest := ih (by omega) h
    omega

/-- An unaligned read counts the bytes in front of the next sector twice. -/
theorem vhdFread_unaligned {z z' zp zp' : Zfile} {v : ZfileVhd} {tmp b b' : Image} {ret : Nat}
    (hl1 : l1 ≠ 0) (hl2 : l2 ≠ 0) (hseek : z.seek % 512 ≠ 0)
    (h : vhdFread tmp z zp v b l1 l2 = .ok (b', ret, z', zp')) :
    ret = 512 - z.seek % 512 + l1 * l2 := by
  rw [vhdFread, if_neg (by omega), if_pos (.inl hseek)] at h
  obtain ⟨u, hread, h⟩ := ok_of_bind h
  cases h
  rw [vhdUnaligned, if_pos hseek] at hread
  obtain ⟨u₁, hfirst, hrest⟩ := ok_of_bind hread
  have hfirst' : u₁.out = 0 + (512 - z.seek % 512) := throughBuffer_out hfirst
  have hrest' := unalignedLoop_out _ (by omega) hrest
  omega

/-- No unaligned read of bytes is right. -/
theorem View.unaligned (h : View m size fs i p) (hl1 : l1 ≠ 0) (hl2 : l2 ≠ 0)
    (hseek : (fs.zfile i).seek % 512 ≠ 0) : ¬ReadsDisk m fs i l1 l2 := by
  intro hreads
  obtain ⟨fs', hread, -⟩ := hreads (fun _ => 0) fun _ => 0
  obtain ⟨v, huser, -⟩ := h.reading
  rw [zfileFread, h.parent] at hread
  dsimp only at hread
  rw [huser] at hread
  obtain ⟨⟨b', ret, z', zp'⟩, hread, heq⟩ := ok_of_bind hread
  have hret := vhdFread_unaligned hl1 hl2 hseek hread
  obtain rfl : ret = l2 := (Prod.mk.inj (Prod.mk.inj (Except.ok.inj heq)).2).1
  have hle := Nat.le_mul_of_pos_left ret (Nat.pos_of_ne_zero hl1)
  omega

end Runs

/-! ### A file with a block -/

/-- A dynamic VHD file with one block of eight sectors, of which the first two and the last are
there: two sectors with the header, the header of the table and the table, the bitmap, the block,
and the footer. -/
def blockVhd : Image := fun i =>
  if i < 1024 ∨ 5632 ≤ i then
    ([0, 0, 0, 2, 0, 0, 0, 0, 0, 0, 0, 2, 0, 1, 0, 0, 0, 0, 0, 0, 0, 0, 2, 0, 0, 1, 0, 0, 0, 0, 0,
      0, 0, 0, 0x10, 0, 0xff, 0xff, 0xfc, 0x6d, 0, 0, 0, 0, 0, 0, 0, 0, 0, 0, 0, 0, 0, 0, 0x10, 0,
      0, 0, 0, 0, 0, 0, 0, 3, 0xff, 0xff, 0xfc, 0x6d] : List Byte).getD (i % 512) 0
  else if i < 1536 then ([0xc1] : List Byte).getD (i - 1024) 0
  else BitVec.ofNat 8 (i / 5)

theorem blockVhd_dynamic : DynamicFile blockVhd 6144 := by
  refine ⟨by decide, by decide +kernel, ?_, by decide, by decide, by decide +kernel, by decide,
    by decide⟩
  refine List.map_congr_left fun k hk => ?_
  have hlt : k < 512 := List.mem_range.mp hk
  have hfront : 0 + k < 1024 ∨ 5632 ≤ 0 + k := by omega
  have hback : 6144 - 512 + k < 1024 ∨ 5632 ≤ 6144 - 512 + k := by omega
  have hmod : (0 + k) % 512 = (6144 - 512 + k) % 512 := by omega
  rw [blockVhd, blockVhd, if_pos hfront, if_pos hback, hmod]

theorem blockVhd_entry {o : Nat} (ho : o < 4096) : entryOf blockVhd o = 2 := by
  have hblock : o / bsOf blockVhd = 0 := by
    have hbs : bsOf blockVhd = 4096 := by decide
    rw [hbs]
    omega
  rw [entryOf, hblock]
  decide

theorem blockVhd_wellFormed : WellFormed blockVhd 6144 := by
  refine ⟨blockVhd_dynamic, ⟨3, by decide⟩, fun o ho _ => ?_⟩
  rw [blockEnd, blockVhd_entry (lt_of_lt_of_eq ho (by decide))]
  decide

theorem blockVhd_sectorOk {o : Nat} (ho : o < 4096) : SectorOk blockVhd o := by
  have hbs : bsOf blockVhd = 4096 := by decide
  rw [SectorOk, blockVhd_entry ho, hbs]
  refine fun _ => ⟨by omega, fun _ => ⟨Nat.le_refl _, ?_⟩⟩
  have hbitmap : bitmapBytes 4096 = 512 := by decide
  rw [hbitmap]
  omega

/-- The file opened. -/
def blockFiles : Files :=
  (⟨fun _ => Zfile.created, 0⟩ : Files).add
    { Zfile.created with f := some ⟨blockVhd, 6144, 0⟩, size := 6144 }

theorem blockFiles_root : Root (blockFiles.zfile 0) blockVhd :=
  ⟨rfl, rfl, .inl ⟨rfl, rfl, _, rfl, rfl, rfl⟩⟩

/-- Behind a seek and the read of a sector the next two are read right, of which only the first
is there. -/
theorem reads_virtual_disk_block : ∃ i fs fs', vhd blockFiles (fun _ => 0) 0 = .ok (i, fs) ∧
    (viewMachine blockVhd i).Reachable fs fs' ∧ (fs'.zfile i).seek = 512 ∧
    ReadsDisk blockVhd fs' i 2 512 ∧
    virtualDisk blockVhd 512 = BitVec.ofNat 8 (2048 / 5) ∧ virtualDisk blockVhd 1024 = 0 := by
  have hlow : LowTables blockVhd := ⟨by decide, by decide⟩
  obtain ⟨i, fs, hopen⟩ : ∃ i fs, vhd blockFiles (fun _ => 0) 0 = .ok (i, fs) := by
    obtain ⟨z', -, -, hopen⟩ := blockFiles_root.vhd_dynamic blockVhd_dynamic fun _ => 0
    exact ⟨_, _, hopen⟩
  obtain ⟨hview, -, -⟩ := View.opened blockFiles_root Nat.zero_lt_one blockVhd_dynamic hopen
  have hown : (fs.zfile i).ownSeek = true := by
    rw [Zfile.ownSeek, hview.dataseek, Bool.or_true, Bool.true_or]
  have hstart := hview.fseek 0 .set
  have hseek : ((fs.set i (zfileFseek (fs.zfile i) 0 .set).2).zfile i).seek = 0 := by
    rw [fs.set_self]
    exact congrArg Zfile.seek (zfileFseek_own_set hown (Nat.zero_le _))
  generalize hmoved : fs.set i (zfileFseek (fs.zfile i) 0 .set).2 = fs₁ at hstart hseek
  have hok : ∀ {seek l1 : Nat}, seek % 512 = 0 → l1 ≠ 0 → seek + l1 * 512 ≤ 4096 →
      ReadOk blockVhd seek l1 512 := fun hsector hl1 hend =>
    .inr ⟨hl1, hsector, .inl (Nat.mul_mod_left _ _), fun o _ ho => blockVhd_sectorOk (by omega)⟩
  have hroom : InRange blockVhd fs₁ i 1 512 := by
    rw [InRange, hseek]
    decide
  have hfirst : ReadOk blockVhd (fs₁.zfile i).seek 1 512 :=
    hok (by rw [hseek]) Nat.one_ne_zero (by rw [hseek]; decide)
  obtain ⟨fs₂, hread, hseek₂, -⟩ :=
    hstart.fread blockVhd_wellFormed hlow hroom hfirst (fun _ => 0) fun _ => 0
  rw [hseek] at hseek₂
  have hrun : (viewMachine blockVhd i).Run fs
      [.seek 0 .set, .read 1 512 (fun _ => 0) fun _ => 0] (.ok fs₂) := by
    refine .cons trivial (congrArg Except.ok hmoved) (.cons ⟨hroom, hfirst⟩ ?_ (.nil _))
    change (zfileFread fs₁ (fun _ => 0) (fun _ => 0) 1 512 i >>= fun r => pure r.2.2) = _
    rw [hread]
    rfl
  refine ⟨i, fs, fs₂, hopen, ⟨_, hrun⟩, hseek₂, ?_, by decide +kernel, by decide +kernel⟩
  refine reads_virtual_disk blockFiles_root Nat.zero_lt_one blockVhd_wellFormed hlow hopen
    ⟨_, hrun⟩ ?_ (hok (by rw [hseek₂]) (by decide) (by rw [hseek₂]; decide))
  rw [InRange, hseek₂]
  decide

/-! ### The file of two sectors -/

/-- The file of two sectors, opened. -/
def tinyFiles : Files :=
  (⟨fun _ => Zfile.created, 0⟩ : Files).add
    { Zfile.created with f := some ⟨tinyVhd, 1024, 0⟩, size := 1024 }

theorem tinyFiles_root : Root (tinyFiles.zfile 0) tinyVhd :=
  ⟨rfl, rfl, .inl ⟨rfl, rfl, _, rfl, rfl, rfl⟩⟩

theorem tinyVhd_unallocated {o : Nat} (ho : o < 512) : ¬Allocated tinyVhd o := by
  have hblock : o / bsOf tinyVhd = 0 := by
    have hbs : bsOf tinyVhd = 512 * 2 ^ 12 := by decide
    rw [hbs]
    omega
  rw [Allocated, entryOf, hblock]
  decide

theorem tinyVhd_wellFormed : WellFormed tinyVhd 1024 :=
  ⟨tinyVhd_dynamic, ⟨12, by decide⟩, fun _ ho h => absurd h (tinyVhd_unallocated ho)⟩

/-- The view of it, at its start. -/
theorem tinyVhd_opened : ∃ i fs, vhd tinyFiles (fun _ => 0) 0 = .ok (i, fs) ∧
    View tinyVhd 1024 fs i 0 ∧ (fs.zfile i).seek = 0 ∧
      (fs.zfile i).size = virtsizeOf tinyVhd := by
  obtain ⟨z', -, -, hopen⟩ := tinyFiles_root.vhd_dynamic tinyVhd_dynamic fun _ => 0
  exact ⟨_, _, hopen, View.opened tinyFiles_root Nat.zero_lt_one tinyVhd_dynamic hopen⟩

/-- The second byte is not. -/
theorem second_byte_misread : ∃ i fs fs', WellFormed tinyVhd 1024 ∧ LowTables tinyVhd ∧
    vhd tinyFiles (fun _ => 0) 0 = .ok (i, fs) ∧ viewStep i fs (.seek 1 .set) = .ok fs' ∧
    InRange tinyVhd fs' i 1 1 ∧ ¬ReadsDisk tinyVhd fs' i 1 1 := by
  obtain ⟨i, fs, hopen, hview, -, hsize⟩ := tinyVhd_opened
  have hmoved := hview.fseek 1 .set
  have hin : 1 ≤ (fs.zfile i).size := by
    rw [hsize]
    decide
  have hown : (fs.zfile i).ownSeek = true := by
    rw [Zfile.ownSeek, hview.dataseek, Bool.or_true, Bool.true_or]
  have hseek : ((fs.set i (zfileFseek (fs.zfile i) 1 .set).2).zfile i).seek = 1 := by
    rw [fs.set_self]
    exact congrArg Zfile.seek (zfileFseek_own_set hown hin)
  refine ⟨i, fs, _, tinyVhd_wellFormed, ⟨by decide, by decide⟩, hopen, rfl, ?_, ?_⟩
  · rw [InRange, hseek]
    decide
  · refine hmoved.unaligned (by decide) (by decide) ?_
    rw [hseek]
    decide

end LibretroUae.Storage
