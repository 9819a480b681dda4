import LibretroUae.Hardfile.Vhd
import Mathlib.Data.Finset.Card

/-!
# LibretroUae.Hardfile.VhdLayout

**The layout of a dynamic VHD image.** The virtual disk is a function of the image: the
byte of a sector is the one of its data block if the block is allocated and the bit of
the sector is set, and zero else. `Vhd.Inv` ties memory and file together: the header in
memory is that of the file, the footer repeats it, allocated blocks are disjoint and lie
between the block table and the footer, and the cached sector is one of a bitmap.
-/

namespace LibretroUae.Hardfile

open Lib Lib.Image

variable {h : HardFile} {i s e : Nat}

/-! ### Bits of a byte -/

theorem and_bit_eq_zero (x : Byte) (k : Nat) :
    x &&& ((1 : Byte) <<< k) = 0 ↔ x.getLsbD k = false := by
  have htwo : (1 : Byte) <<< k = BitVec.twoPow 8 k := rfl
  rw [htwo, BitVec.and_twoPow]
  by_cases hk : k < 8
  · cases hx : x.getLsbD k with
    | false => simp
    | true =>
      simp only [if_true]
      refine iff_of_false (fun hz => ?_) (by decide)
      have hbit := congrArg (fun y => BitVec.getLsbD y k) hz
      simp [hk] at hbit
  · rw [BitVec.getLsbD_of_ge x k (by omega)]
    simp

/-- Setting a bit leaves the other ones. -/
theorem or_bit_and (x : Byte) {j k : Nat} (hj : j < 8) :
    (x ||| ((1 : Byte) <<< j)) &&& ((1 : Byte) <<< k) = 0 ↔
      j ≠ k ∧ x &&& ((1 : Byte) <<< k) = 0 := by
  have htwo : (1 : Byte) <<< j = BitVec.twoPow 8 j := rfl
  rw [and_bit_eq_zero, and_bit_eq_zero, htwo, BitVec.getLsbD_or, BitVec.getLsbD_twoPow]
  simp [hj]
  tauto

/-! ### Sectors and blocks -/

/-- Sectors of a block. -/
def spb (h : HardFile) : Nat := h.vhd.blocksize / 512

/-- Entries of the block table. -/
def entries (h : HardFile) : Nat := (h.virtsize + h.vhd.blocksize - 1) / h.vhd.blocksize

/-- Entry `i` of the block table. -/
def entry (h : HardFile) (i : Nat) : Nat := h.vhd.header.getLong (h.vhd.bamoffset + i * 4)

/-- The end of the block table. -/
def tableEnd (h : HardFile) : Nat := h.vhd.bamoffset + h.vhd.bamsize

/-- The bitmap byte of sector `s` in a block that starts at sector `e` of the file. -/
def mapByte (h : HardFile) (e s : Nat) : Nat := e * 512 + s % spb h / 8

/-- The data of sector `s` in a block that starts at sector `e` of the file. -/
def dataAt (h : HardFile) (e s : Nat) : Nat := e * 512 + h.vhd.bitmapsize + s % spb h * 512

/-- Sector `s` is there: its bit in the bitmap is set. -/
def Present (h : HardFile) (e s : Nat) : Prop :=
  h.target.disk (mapByte h e s) &&& ((1 : Byte) <<< (7 - s % spb h % 8)) ≠ 0

instance (h : HardFile) (e s : Nat) : Decidable (Present h e s) :=
  inferInstanceAs (Decidable (_ ≠ _))

/-- The byte at `o` of the virtual disk is there. -/
def Stored (h : HardFile) (o : Nat) : Prop :=
  o < h.virtsize ∧ entry h (o / 512 / spb h) ≠ unallocated ∧
    Present h (entry h (o / 512 / spb h)) (o / 512)

instance (h : HardFile) (o : Nat) : Decidable (Stored h o) :=
  inferInstanceAs (Decidable (_ ∧ _))

/-- The virtual disk. -/
def view (h : HardFile) : Image := fun o =>
  if Stored h o then h.target.disk (dataAt h (entry h (o / 512 / spb h)) (o / 512) + o % 512)
  else 0

/-- Sector `s` is on the disk. -/
def InDisk (h : HardFile) (s : Nat) : Prop := s * 512 < h.virtsize

/-- The allocated entries. -/
def allocated (h : HardFile) : Finset Nat :=
  (Finset.range (entries h)).filter fun i => entry h i ≠ unallocated

/-- Bytes of a block in the file. -/
def blockBytes (h : HardFile) : Nat := h.vhd.bitmapsize + h.vhd.blocksize

/-! ### The invariant -/

/-- What never changes after an image was opened. `base` bounds the part of the file that
is there without its blocks. -/
structure Vhd.Fixed (h : HardFile) (base : Nat) : Prop where
  hfdType : h.hfdType = .vhdDynamic
  usable : h.target.Usable
  virtsize : 512 ∣ h.virtsize
  blocksize : h.vhd.blocksize = 512 * spb h
  sectors : 8 ∣ spb h ∧ 0 < spb h
  bitmapsize : h.vhd.bitmapsize = roundUp512 (h.vhd.blocksize / (8 * 512))
  bamoffset : 512 ≤ h.vhd.bamoffset
  bamsize : entries h * 4 ≤ h.vhd.bamsize
  table : tableEnd h < 2 ^ 32
  /-- With all blocks the file still has less than `2 ^ 32 - 1` sectors. -/
  room : base + entries h * blockBytes h < 512 * (2 ^ 32 - 1)

/-- The cached sector is a sector of the bitmap of an allocated block. -/
def Vhd.Cached (h : HardFile) : Prop :=
  h.vhd.sectormapblock = 2 ^ 64 - 1 ∨
    (∃ i < entries h, entry h i ≠ unallocated ∧ ∃ k, k * 512 < h.vhd.bitmapsize ∧
      h.vhd.sectormapblock = entry h i * 512 + k * 512) ∧
    ∀ j < 512, h.vhd.sectormap j = h.target.disk (h.vhd.sectormapblock + j)

/-- The invariant of an open image. -/
structure Vhd.Inv (base : Nat) (h : HardFile) : Prop extends Vhd.Fixed h base where
  header : Agree h.vhd.header h.target.disk 0 (tableEnd h)
  footer : h.target.disk.slice h.vhd.footerblock 512 = h.target.disk.slice 0 512
  physsize : h.target.physsize = h.vhd.footerblock + 512
  footerblock : 512 ∣ h.vhd.footerblock ∧ tableEnd h ≤ h.vhd.footerblock
  extent : h.vhd.footerblock ≤ base + (allocated h).card * blockBytes h
  inside : ∀ i < entries h, entry h i ≠ unallocated →
    tableEnd h ≤ entry h i * 512 ∧ entry h i * 512 + blockBytes h ≤ h.vhd.footerblock
  disjoint : ∀ i < entries h, ∀ j < entries h, i ≠ j → entry h i ≠ unallocated →
    entry h j ≠ unallocated → entry h i * 512 + blockBytes h ≤ entry h j * 512 ∨
      entry h j * 512 + blockBytes h ≤ entry h i * 512
  cached : Vhd.Cached h

/-! ### Arithmetic of sectors -/

namespace Vhd.Fixed

variable {base : Nat} (hf : Vhd.Fixed h base)
include hf

/-- The bitmap has room for the bits of all sectors. -/
theorem bitmap_room : spb h ≤ h.vhd.bitmapsize * 8 ∧ 512 ∣ h.vhd.bitmapsize := by
  have h1 := hf.blocksize
  obtain ⟨⟨c, hc⟩, h2⟩ := hf.sectors
  rw [hf.bitmapsize, roundUp512]
  omega

theorem mod_lt (s : Nat) : s % spb h < spb h := Nat.mod_lt _ hf.sectors.2

/-- The sector of the bitmap that a bit lies in is one of the bitmap. -/
theorem mapSector_lt (s : Nat) : s % spb h / 8 / 512 * 512 < h.vhd.bitmapsize := by
  obtain ⟨h1, ⟨c, hc⟩⟩ := hf.bitmap_room
  have h2 := hf.mod_lt s
  omega

omit hf in
theorem bitmapoffsetbits_eq (s : Nat) : bitmapoffsetbits h.vhd (s * 512) = s % spb h := by
  rw [bitmapoffsetbits, Nat.mul_div_cancel _ (by decide)]
  rfl

/-- A sector of the disk has an entry. -/
theorem entry_lt (hs : InDisk h s) : s / spb h < entries h := by
  have hpos := hf.sectors.2
  have hdiv : s / spb h = s * 512 / h.vhd.blocksize := by
    rw [hf.blocksize, Nat.mul_comm s, Nat.mul_div_mul_left _ _ (by decide)]
  have hblock : 0 < h.vhd.blocksize := by
    rw [hf.blocksize]
    omega
  rw [hdiv, entries, Nat.lt_div_iff_mul_lt hblock]
  have := Nat.div_mul_le_self (s * 512) h.vhd.blocksize
  rw [InDisk] at hs
  omega

theorem bamEntry_eq (hs : InDisk h s) :
    bamEntry h.vhd (s * 512) = h.vhd.bamoffset + s / spb h * 4 := by
  have h1 := hf.entry_lt hs
  have h2 := hf.table
  have h3 := hf.bamsize
  have hdiv : s * 512 / h.vhd.blocksize = s / spb h := by
    rw [hf.blocksize, Nat.mul_comm s, Nat.mul_div_mul_left _ _ (by decide)]
  rw [tableEnd] at h2
  rw [bamEntry, hdiv, Nat.mod_eq_of_lt (by omega)]
  omega

/-- A sector of the disk as a part of its block. -/
theorem dataAt_bounds (e s : Nat) : e * 512 + h.vhd.bitmapsize ≤ dataAt h e s ∧
    dataAt h e s + 512 ≤ e * 512 + blockBytes h := by
  have h1 := hf.mod_lt s
  have h2 := hf.blocksize
  rw [dataAt, blockBytes]
  omega

theorem mapByte_bounds (e s : Nat) : e * 512 ≤ mapByte h e s ∧
    mapByte h e s < e * 512 + h.vhd.bitmapsize := by
  have h1 := hf.mod_lt s
  have h2 := hf.bitmap_room.1
  rw [mapByte]
  omega

omit hf in
/-- Two sectors of one block have different data, or are the same. -/
theorem dataAt_ne {e s t : Nat} (hblock : s / spb h = t / spb h) (hne : s ≠ t) :
    dataAt h e s + 512 ≤ dataAt h e t ∨ dataAt h e t + 512 ≤ dataAt h e s := by
  have h1 := Nat.div_add_mod s (spb h)
  have h2 := Nat.div_add_mod t (spb h)
  rw [hblock] at h1
  rw [dataAt, dataAt]
  omega

end Vhd.Fixed

end LibretroUae.Hardfile
