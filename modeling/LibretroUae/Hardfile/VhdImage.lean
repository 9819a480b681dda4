import LibretroUae.Hardfile.VhdWrite
import LibretroUae.Lib.Machine
import Mathlib.Algebra.Order.BigOperators.Group.Finset

/-!
# LibretroUae.Hardfile.VhdImage

**Images that were created.** The header blocks of a new image pass the checks of the
opening code and say its size; the new image has the invariant and an empty virtual
disk. What later writes keep of the file, the two header blocks and the footer, is
enough for it to be opened again.
-/

namespace LibretroUae.Hardfile

open Lib Lib.Image

/-! ### Bytes of a block -/

/-- The byte that a list of rows gives to an address; later rows win. -/
def rowByte (rows : List (Nat × List Byte)) (i : Nat) : Byte :=
  match rows.reverse.find? fun row => decide (row.1 ≤ i ∧ i < row.1 + row.2.length) with
  | some row => row.2.getD (i - row.1) 0
  | none => 0

theorem writeAll_apply (rows : List (Nat × List Byte)) (i : Nat) :
    writeAll (fun _ => 0) rows i = rowByte rows i := by
  induction rows using List.reverseRecOn with
  | nil => rfl
  | append_singleton rows row ih =>
    rw [writeAll, List.foldl_append, List.foldl_cons, List.foldl_nil, rowByte,
      List.reverse_append, List.reverse_cons, List.reverse_nil, List.nil_append,
      List.singleton_append, List.find?_cons, blit]
    rw [writeAll, rowByte] at ih
    by_cases hrow : row.1 ≤ i ∧ i < row.1 + row.2.length
    · rw [if_pos hrow, decide_eq_true hrow]
    · rw [if_neg hrow, decide_eq_false hrow, ih]

theorem getLong_of_bytes {m : Image} {off v : Nat}
    (h : ∀ k < 4, m (off + k) = (longBytes v).getD k 0) : m.getLong off = v % 2 ^ 32 := by
  have hagree : Agree (m.putLong off v) m off 4 := by
    intro i h1 h2
    obtain ⟨k, rfl⟩ := Nat.exists_eq_add_of_le h1
    rw [h k (by omega), putLong, blit, if_pos ⟨h1, h2⟩, Nat.add_sub_cancel_left]
  rw [hagree.getLong, getLong_putLong]

/-! ### Checksums -/

theorem vhdChecksum_congr {m m' : Image} {p : Option Nat} (h : Agree m m' 0 512) :
    vhdChecksum m' p = vhdChecksum m p := by
  have hsum : (∑ i ∈ Finset.range 512,
        if p.any fun o => o ≤ i ∧ i < o + 4 then 0 else (m' i).toNat) =
      ∑ i ∈ Finset.range 512, if p.any fun o => o ≤ i ∧ i < o + 4 then 0 else (m i).toNat := by
    refine Finset.sum_congr rfl fun i hi => ?_
    have hi := Finset.mem_range.mp hi
    rw [h i (Nat.zero_le _) (by omega)]
  rw [vhdChecksum, hsum, vhdChecksum]

/-- The stored checksum is not part of the sum. -/
theorem vhdChecksum_withChecksum {b : Image} {p : Nat}
    (hzero : ∀ k < 4, b (p + k) = 0) :
    vhdChecksum (withChecksum b p) (some p) = vhdChecksum b none := by
  have hsum : (∑ i ∈ Finset.range 512, if (some p).any fun o => o ≤ i ∧ i < o + 4 then 0
        else (withChecksum b p i).toNat) =
      ∑ i ∈ Finset.range 512, if (none : Option Nat).any fun o => o ≤ i ∧ i < o + 4 then 0
        else (b i).toNat := by
    refine Finset.sum_congr rfl fun i _ => ?_
    simp only [Option.any_some, Option.any_none, Bool.false_eq_true, if_false, decide_eq_true_eq]
    by_cases hi : p ≤ i ∧ i < p + 4
    · obtain ⟨k, rfl⟩ := Nat.exists_eq_add_of_le hi.1
      rw [if_pos hi, hzero k (by omega)]
      rfl
    · rw [if_neg hi, withChecksum, blit, length_longBytes, if_neg hi]
  rw [vhdChecksum, hsum, vhdChecksum]

/-- A checksum is never zero: 512 bytes do not sum up to `2 ^ 32 - 1`. -/
theorem vhdChecksum_bounds (m : Image) (p : Option Nat) :
    0 < vhdChecksum m p ∧ vhdChecksum m p < 2 ^ 32 := by
  have hsum : (∑ i ∈ Finset.range 512,
      if p.any fun o => o ≤ i ∧ i < o + 4 then 0 else (m i).toNat) ≤ ∑ _i ∈ Finset.range 512, 255 :=
    Finset.sum_le_sum fun i _ => by
      have := (m i).isLt
      split <;> omega
  rw [Finset.sum_const_nat (m := 255) fun _ _ => rfl, Finset.card_range] at hsum
  rw [vhdChecksum]
  omega

theorem getLong_withChecksum {b : Image} {p : Nat} :
    (withChecksum b p).getLong p = vhdChecksum b none := by
  have h := getLong_putLong b p (vhdChecksum b none)
  rwa [Nat.mod_eq_of_lt (vhdChecksum_bounds _ _).2] at h

/-! ### The header blocks -/

/-- The header block, which is also the footer. -/
def headerBlock (stamp : Stamp) (size : Nat) : Image :=
  withChecksum (writeAll (fun _ => 0) (headerRows stamp size)) 0x40

def dynamicBlock (size : Nat) : Image :=
  withChecksum (writeAll (fun _ => 0) (dynamicRows size)) 0x24

section Fields

variable (stamp : Stamp) (size : Nat)

theorem headerBlock_apply {i : Nat} (h : i < 0x40 ∨ 0x44 ≤ i) :
    headerBlock stamp size i = rowByte (headerRows stamp size) i := by
  rw [← writeAll_apply, headerBlock, withChecksum, blit, if_neg]
  rw [length_longBytes]
  omega

theorem dynamicBlock_apply {i : Nat} (h : i < 0x24 ∨ 0x28 ≤ i) :
    dynamicBlock size i = rowByte (dynamicRows size) i := by
  rw [← writeAll_apply, dynamicBlock, withChecksum, blit, if_neg]
  rw [length_longBytes]
  omega

/-- A longword of the header, byte by byte. -/
theorem getLong_headerBlock {off v : Nat} (hoff : off + 4 ≤ 0x40)
    (h : ∀ k < 4, rowByte (headerRows stamp size) (off + k) = (longBytes v).getD k 0) :
    (headerBlock stamp size).getLong off = v % 2 ^ 32 :=
  getLong_of_bytes fun k hk => (headerBlock_apply stamp size (by omega)).trans (h k hk)

theorem getLong_dynamicBlock {off v : Nat} (hoff : off + 4 ≤ 0x24)
    (h : ∀ k < 4, rowByte (dynamicRows size) (off + k) = (longBytes v).getD k 0) :
    (dynamicBlock size).getLong off = v % 2 ^ 32 :=
  getLong_of_bytes fun k hk => (dynamicBlock_apply size (by omega)).trans (h k hk)

/-- A statement about the four bytes of a longword. -/
theorem forall_bytes {P : Nat → Prop} (h0 : P 0) (h1 : P 1) (h2 : P 2) (h3 : P 3) :
    ∀ k < 4, P k := by
  intro k hk
  obtain rfl | rfl | rfl | rfl : k = 0 ∨ k = 1 ∨ k = 2 ∨ k = 3 := by omega
  · exact h0
  · exact h1
  · exact h2
  · exact h3

/-- The fields of the header that opening an image reads. -/
theorem headerBlock_fields : (headerBlock stamp size).getLong 8 = 2 ∧
    (headerBlock stamp size).getLong (8 + 4) = 2 ^ 16 ∧
    (headerBlock stamp size).getLong 0x14 = 512 ∧
    (headerBlock stamp size).getLong 0x30 = size / 2 ^ 32 % 2 ^ 32 ∧
    (headerBlock stamp size).getLong 0x34 = size % 2 ^ 32 ∧
    (headerBlock stamp size).getLong 0x3c = 3 :=
  ⟨getLong_headerBlock stamp size (v := 2) (by decide) (forall_bytes rfl rfl rfl rfl),
    getLong_headerBlock stamp size (v := 2 ^ 16) (by decide) (forall_bytes rfl rfl rfl rfl),
    getLong_headerBlock stamp size (v := 512) (by decide) (forall_bytes rfl rfl rfl rfl),
    getLong_headerBlock stamp size (by decide) (forall_bytes rfl rfl rfl rfl),
    getLong_headerBlock stamp size (by decide) (forall_bytes rfl rfl rfl rfl),
    getLong_headerBlock stamp size (v := 3) (by decide) (forall_bytes rfl rfl rfl rfl)⟩

theorem headerBlock_checksum : vhdChecksum (headerBlock stamp size) (some 0x40) =
    (headerBlock stamp size).getLong 0x40 := by
  rw [headerBlock, getLong_withChecksum, vhdChecksum_withChecksum]
  exact forall_bytes (writeAll_apply _ _) (writeAll_apply _ _) (writeAll_apply _ _)
    (writeAll_apply _ _)

theorem dynamicBlock_fields : (dynamicBlock size).getLong 0x14 = 0x600 ∧
    (dynamicBlock size).getLong 0x18 = 2 ^ 16 ∧
    (dynamicBlock size).getLong 0x20 = newBlocksize size % 2 ^ 32 :=
  ⟨getLong_dynamicBlock size (v := 0x600) (by decide) (forall_bytes rfl rfl rfl rfl),
    getLong_dynamicBlock size (v := 2 ^ 16) (by decide) (forall_bytes rfl rfl rfl rfl),
    getLong_dynamicBlock size (by decide) (forall_bytes rfl rfl rfl rfl)⟩

theorem dynamicBlock_checksum : vhdChecksum (dynamicBlock size) (some 0x24) =
    (dynamicBlock size).getLong 0x24 := by
  rw [dynamicBlock, getLong_withChecksum, vhdChecksum_withChecksum]
  exact forall_bytes (writeAll_apply _ _) (writeAll_apply _ _) (writeAll_apply _ _)
    (writeAll_apply _ _)

end Fields

/-! ### Opening an image -/

/-- The file starts with the header blocks of an image of `size` bytes. -/
structure Created (stamp : Stamp) (size : Nat) (disk : Image) : Prop where
  header : Agree (headerBlock stamp size) disk 0 512
  dynamic : Agree (dynamicBlock size) (at' disk 512) 0 1024

/-- The hardfile of an open image. -/
def opened (blocksize : Nat) (t : Target) (size : Nat) : HardFile where
  target := t
  blocksize := blocksize
  virtsize := size
  virtualRdb := none
  virtualSize := 0
  byteswap := false
  adide := false
  hfdType := .vhdDynamic
  vhd :=
    { header := t.disk
      bamoffset := 0x600
      bamsize := roundUp512 (batentrysize size * 4)
      blocksize := newBlocksize size
      bitmapsize := 512
      sectormap := fun _ => 0
      sectormapblock := 2 ^ 64 - 1
      footerblock := t.physsize - 512 }

theorem newBlocksize_cases (size : Nat) :
    newBlocksize size = 512 * 1024 ∧ size < 10 * 1024 * 1024 * 1024 ∨
      newBlocksize size = 2 * 1024 * 1024 := by
  rw [newBlocksize]
  split <;> omega

/-- The block table of an image below `2 ^ 40` bytes is not large. -/
theorem batentrysize_bounds {size : Nat} (hsize : size < 2 ^ 40) :
    batentrysize size = (size + newBlocksize size - 1) / newBlocksize size ∧
      batentrysize size ≤ 2 ^ 19 := by
  rw [batentrysize]
  rcases newBlocksize_cases size with ⟨h1, h2⟩ | h1 <;> rw [h1] <;> omega

theorem hdfOpen2_created {stamp : Stamp} {size : Nat} {t : Target} {blocksize : Nat}
    (hsize : size < 2 ^ 40) (hc : Created stamp size t.disk) (hempty : t.driveEmpty = false)
    (hphys : 0x600 + roundUp512 (batentrysize size * 4) + 512 ≤ t.physsize)
    (hfooter : t.disk.slice (t.physsize - 512) 512 = t.disk.slice 0 512) :
    hdfOpen2 blocksize t = some (opened blocksize t size) := by
  obtain ⟨h8, h12, h14, h30, h34, h3c⟩ := headerBlock_fields stamp size
  obtain ⟨d14, d18, d20⟩ := dynamicBlock_fields size
  obtain ⟨hbat, hbatle⟩ := batentrysize_bounds hsize
  have hlong : ∀ off, off + 4 ≤ 512 → t.disk.getLong off = (headerBlock stamp size).getLong off :=
    fun off hoff => (hc.header.mono (Nat.zero_le _) (by omega)).getLong
  have hdyn : ∀ off, off + 4 ≤ 512 →
      (at' t.disk 512).getLong off = (dynamicBlock size).getLong off :=
    fun off hoff => (hc.dynamic.mono (Nat.zero_le _) (by omega)).getLong
  have htype : vhdType t.disk = some .vhdDynamic := by
    have hsum : vhdChecksum t.disk (some 0x40) = t.disk.getLong 0x40 := by
      rw [vhdChecksum_congr hc.header, headerBlock_checksum, hlong _ (by decide)]
    have hpos : t.disk.getLong 0x40 ≠ 0 := by
      rw [← hsum]
      exact Nat.ne_of_gt (vhdChecksum_bounds _ _).1
    rw [vhdType, hlong 8 (by decide), h8, if_neg (by decide), hlong (8 + 4) (by decide), h12,
      if_neg (by decide)]
    simp only [hlong 0x3c (by decide), h3c, hsum, ne_eq, not_true_eq_false, or_false, hpos,
      if_false]
    rfl
  have hread : ∀ off len, off + len ≤ t.physsize →
      (hdfReadTarget t off len).length = len := fun off len hle => by
    rw [hdfReadTarget_of_le hempty hle, length_slice]
  have hlast : hdfReadTarget t (t.physsize - 512) 512 = t.disk.slice 0 512 := by
    rw [hdfReadTarget_of_le hempty (by omega), hfooter]
  have hvirt : t.disk.getLong 0x30 * 2 ^ 32 + t.disk.getLong 0x34 = size := by
    rw [hlong _ (by decide), hlong _ (by decide), h30, h34]
    omega
  have hblock : (at' t.disk 512).getLong 0x20 = newBlocksize size := by
    rw [hdyn _ (by decide), d20]
    rcases newBlocksize_cases size with ⟨h1, -⟩ | h1 <;> omega
  have hsum : vhdChecksum (at' t.disk 512) (some 0x24) = (at' t.disk 512).getLong 0x24 := by
    rw [vhdChecksum_congr (hc.dynamic.mono (Nat.le_refl 0) (by decide)), dynamicBlock_checksum,
      hdyn _ (by decide)]
  have hbam : (at' t.disk 512).getLong 0x14 = 0x600 := by rw [hdyn _ (by decide), d14]
  have hversion : (at' t.disk 512).getLong 0x18 = 2 ^ 16 := by rw [hdyn _ (by decide), d18]
  have hoff : t.disk.getLong 0x14 = 512 := by rw [hlong _ (by decide), h14]
  have htable : roundUp512 ((size + newBlocksize size - 1) / newBlocksize size * 4) % 2 ^ 32 =
      roundUp512 (batentrysize size * 4) := by
    rw [← hbat, roundUp512]
    omega
  have hend : (0x600 + roundUp512 (batentrysize size * 4)) % 2 ^ 32 =
      0x600 + roundUp512 (batentrysize size * 4) := by
    rw [roundUp512]
    omega
  have hmap : roundUp512 (newBlocksize size / (8 * 512)) = 512 := by
    rcases newBlocksize_cases size with ⟨h1, -⟩ | h1 <;> rw [h1, roundUp512]
  have hone : 2 ^ 16 / 2 ^ 16 = 1 := by decide
  have hall := hread 0 (0x600 + roundUp512 (batentrysize size * 4))
    (by rw [Nat.zero_add]; exact Nat.le_of_add_right_le hphys)
  have hpos : ¬ (512 = 0 ∨ t.physsize ≤ 512) := by omega
  simp only [hdfOpen2, hread 0 512 (by omega), htype, hlast, length_slice, hoff, hpos,
    hread 512 512 (by omega), hsum, hversion, hone, hblock, hbam, hvirt, htable, hend,
    hall, hmap, ne_eq, not_true_eq_false,
    if_false]
  rfl

/-! ### A new image -/

/-- The target file of a new image: what was written, and anything behind its end. -/
structure NewFile (stamp : Stamp) (size : Nat) (t : Target) : Prop where
  usable : t.Usable
  physsize : t.physsize = (vhdCreate stamp size).2
  disk : Agree (vhdCreate stamp size).1 t.disk 0 (vhdCreate stamp size).2

section New

variable {stamp : Stamp} {size : Nat} {t : Target} (hn : NewFile stamp size t)
  (hsize : size < 2 ^ 40)

/-- Header, dynamic header and table in a row, and the header again behind them. -/
theorem slices_of_writes (m : Image) {hd dy bat : List Byte} {p1 p2 p3 : Nat}
    (h1 : hd.length = p1) (h2 : p1 + dy.length = p2) (h3 : p2 + bat.length = p3) :
    ((((m.blit 0 hd).blit p3 hd).blit p1 dy).blit p2 bat).slice 0 hd.length = hd ∧
    ((((m.blit 0 hd).blit p3 hd).blit p1 dy).blit p2 bat).slice p1 dy.length = dy ∧
    ((((m.blit 0 hd).blit p3 hd).blit p1 dy).blit p2 bat).slice p2 bat.length = bat ∧
    ((((m.blit 0 hd).blit p3 hd).blit p1 dy).blit p2 bat).slice p3 hd.length = hd := by
  refine ⟨?_, ?_, slice_blit _ _ _, ?_⟩
  · rw [(agree_blit (Or.inl (by omega))).slice, (agree_blit (Or.inl (by omega))).slice,
      (agree_blit (Or.inl (by omega))).slice, slice_blit]
  · rw [(agree_blit (Or.inl (by omega))).slice, slice_blit]
  · rw [(agree_blit (Or.inr (by omega))).slice, (agree_blit (Or.inr (by omega))).slice, slice_blit]

/-- The block table of a new image. -/
def newTable (size : Nat) : List Byte :=
  List.replicate (batentrysize size * 4) 0xff ++
    List.replicate (roundUp512 (batentrysize size * 4) - batentrysize size * 4) 0

theorem length_newTable (size : Nat) :
    (newTable size).length = roundUp512 (batentrysize size * 4) := by
  rw [newTable, List.length_append, List.length_replicate, List.length_replicate, roundUp512]
  omega

/-- The parts of the file in the order they stand there. -/
theorem vhdCreate_parts (stamp : Stamp) (size : Nat) :
    Agree (headerBlock stamp size) (vhdCreate stamp size).1 0 512 ∧
    Agree (dynamicBlock size) (at' (vhdCreate stamp size).1 512) 0 1024 ∧
    (vhdCreate stamp size).1.slice 0x600 (newTable size).length = newTable size ∧
    (vhdCreate stamp size).1.slice (0x600 + roundUp512 (batentrysize size * 4)) 512 =
      (headerBlock stamp size).slice 0 512 := by
  obtain ⟨h1, h2, h3, h4⟩ := slices_of_writes (fun _ => 0)
    (length_slice (headerBlock stamp size) 0 512)
    (show 512 + ((dynamicBlock size).slice 0 1024).length = 512 + 1024 by rw [length_slice])
    (show 512 + 1024 + (newTable size).length = 512 + 1024 + roundUp512 (batentrysize size * 4) by
      rw [length_newTable])
  rw [length_slice] at h1 h2 h4
  have hat : (at' (vhdCreate stamp size).1 512).slice 0 1024 =
      (vhdCreate stamp size).1.slice 512 1024 := by
    simp only [slice, at', Nat.zero_add]
  exact ⟨agree_of_slice h1, agree_of_slice (hat.trans h2), h3, h4⟩

include hn

theorem NewFile.created : Created stamp size t.disk := by
  obtain ⟨h1, h2, -, -⟩ := vhdCreate_parts stamp size
  have hlen : 512 + 1024 ≤ (vhdCreate stamp size).2 := by
    rw [vhdCreate]
    omega
  exact ⟨h1.trans (hn.disk.mono (Nat.le_refl 0) (by omega)),
    h2.trans fun i _ hi => hn.disk (512 + i) (Nat.zero_le _) (by omega)⟩

theorem NewFile.footer : t.disk.slice (t.physsize - 512) 512 = t.disk.slice 0 512 := by
  obtain ⟨h1, -, -, h4⟩ := vhdCreate_parts stamp size
  have hphys : t.physsize - 512 = 0x600 + roundUp512 (batentrysize size * 4) := by
    rw [hn.physsize, vhdCreate]
    omega
  have hlen : (vhdCreate stamp size).2 = 0x600 + roundUp512 (batentrysize size * 4) + 512 := by
    rw [vhdCreate]
  rw [hphys, (hn.disk.mono (Nat.zero_le _) (by omega) :
    Agree _ t.disk (0x600 + roundUp512 (batentrysize size * 4)) 512).slice, h4,
    (h1.trans (hn.disk.mono (Nat.le_refl 0) (by omega))).slice]

theorem NewFile.entry_unallocated {blocksize i : Nat} (hi : i < batentrysize size) :
    entry (opened blocksize t size) i = unallocated := by
  obtain ⟨-, -, h3, -⟩ := vhdCreate_parts stamp size
  have hlen : 0x600 + batentrysize size * 4 ≤ (vhdCreate stamp size).2 := by
    rw [vhdCreate, roundUp512]
    omega
  have hbytes : ∀ k < 4, t.disk (0x600 + i * 4 + k) = (longBytes unallocated).getD k 0 := by
    intro k hk
    have hk' : i * 4 + k < (newTable size).length := by
      rw [length_newTable, roundUp512]
      omega
    have hbyte := getElem_slice (vhdCreate stamp size).1 0x600 (newTable size).length
      (i := i * 4 + k) (by rw [length_slice]; exact hk')
    have htable : (newTable size)[i * 4 + k] = 0xff := by
      simp only [newTable]
      rw [List.getElem_append_left (by simp; omega), List.getElem_replicate]
    simp only [h3, htable] at hbyte
    have hff : ∀ k < 4, (0xff : Byte) = (longBytes unallocated).getD k 0 := by decide
    rw [hn.disk _ (Nat.zero_le _) (by omega), Nat.add_assoc, ← hbyte]
    exact hff k hk
  exact getLong_of_bytes hbytes

include hsize

theorem NewFile.inv (blocksize : Nat) (hdvd : 512 ∣ size) :
    Vhd.Inv (0x600 + roundUp512 (batentrysize size * 4)) (opened blocksize t size) := by
  obtain ⟨hbat, hbatle⟩ := batentrysize_bounds hsize
  have hphys : t.physsize = 0x600 + roundUp512 (batentrysize size * 4) + 512 := by
    rw [hn.physsize, vhdCreate]
  have hentries : entries (opened blocksize t size) = batentrysize size := hbat.symm
  have hun : ∀ i < entries (opened blocksize t size),
      entry (opened blocksize t size) i = unallocated := fun i hi =>
    hn.entry_unallocated (hentries ▸ hi)
  have hround : batentrysize size * 4 ≤ roundUp512 (batentrysize size * 4) ∧
      roundUp512 (batentrysize size * 4) ≤ batentrysize size * 4 + 511 := by
    rw [roundUp512]
    omega
  have hspb : newBlocksize size = 512 * spb (opened blocksize t size) ∧
      8 ∣ spb (opened blocksize t size) ∧ 0 < spb (opened blocksize t size) := by
    change newBlocksize size = 512 * (newBlocksize size / 512) ∧ 8 ∣ newBlocksize size / 512 ∧
      0 < newBlocksize size / 512
    rcases newBlocksize_cases size with ⟨h1, -⟩ | h1 <;> rw [h1] <;> decide
  refine ⟨⟨rfl, hn.usable, hdvd, hspb.1, hspb.2, ?_, (by decide : 512 ≤ 0x600), ?_, ?_, ?_⟩, Agree.refl _ _ _,
    hn.footer, ?_, ⟨?_, ?_⟩, ?_, fun i hi hne => absurd (hun i hi) hne,
    fun i hi j hj _ hne => absurd (hun i hi) hne, Or.inl rfl⟩
  · change 512 = roundUp512 (newBlocksize size / (8 * 512))
    rcases newBlocksize_cases size with ⟨h1, -⟩ | h1 <;> rw [h1, roundUp512]
  · rw [hentries]
    exact hround.1
  · change 0x600 + roundUp512 (batentrysize size * 4) < 2 ^ 32
    omega
  · rw [hentries]
    change _ + batentrysize size * (512 + newBlocksize size) < _
    rcases newBlocksize_cases size with ⟨h1, h2⟩ | h1 <;> rw [h1] at hbat ⊢ <;> omega
  · change t.physsize = t.physsize - 512 + 512
    omega
  · change 512 ∣ t.physsize - 512
    rw [hphys, roundUp512]
    omega
  · change 0x600 + roundUp512 (batentrysize size * 4) ≤ t.physsize - 512
    omega
  · change t.physsize - 512 ≤ _
    rw [hphys, Nat.add_sub_cancel]
    exact Nat.le_add_right _ _

/-- The disk of a new image is empty. -/
theorem NewFile.view (blocksize : Nat) (hdvd : 512 ∣ size) :
    Hardfile.view (opened blocksize t size) = fun _ => 0 := by
  have hI := hn.inv hsize blocksize hdvd
  obtain ⟨hbat, -⟩ := batentrysize_bounds hsize
  have hentries : entries (opened blocksize t size) = batentrysize size := hbat.symm
  funext o
  rw [Hardfile.view, if_neg]
  rintro ⟨ho, hne, -⟩
  have hlt := hI.entry_lt (show o / 512 * 512 < (opened blocksize t size).virtsize by omega)
  exact hne (hn.entry_unallocated (hentries ▸ hlt))

end New

/-! ### Opening again -/

/-- The hardfile with memory as it is after opening the file. -/
def reopened (h : HardFile) : HardFile :=
  { h with vhd := { h.vhd with
      header := h.target.disk, sectormap := fun _ => 0, sectormapblock := 2 ^ 64 - 1 } }

section Reopen

variable {h : HardFile} {base : Nat}

/-- The table in the file is the one in memory. -/
theorem entry_reopened (hI : Vhd.Inv base h) {i : Nat} (hi : i < entries h) :
    entry (reopened h) i = entry h i := by
  have hbam := hI.bamsize
  exact (hI.header.mono (Nat.zero_le _) (by rw [tableEnd]; omega) :
    Agree h.vhd.header h.target.disk (h.vhd.bamoffset + i * 4) 4).getLong

/-- Opening the file again shows the same virtual disk. -/
theorem view_reopened (hI : Vhd.Inv base h) : view (reopened h) = view h := by
  funext o
  have hentry : o < h.virtsize →
      entry (reopened h) (o / 512 / spb (reopened h)) = entry h (o / 512 / spb h) := fun ho =>
    entry_reopened hI (hI.entry_lt (show o / 512 * 512 < h.virtsize by omega))
  have hstored : Stored (reopened h) o ↔ Stored h o := by
    rw [Stored, Stored]
    refine and_congr_right fun ho => ?_
    rw [hentry ho]
    rfl
  rw [view, view]
  by_cases hold : Stored h o
  · rw [if_pos (hstored.mpr hold), if_pos hold, hentry hold.1]
    rfl
  · rw [if_neg (mt hstored.mp hold), if_neg hold]

/-- What was kept of a created image is enough to open it again. -/
theorem hdfOpen2_reopened {stamp : Stamp} {size blocksize : Nat} {t : Target}
    (hn : NewFile stamp size t) (hsize : size < 2 ^ 40) (hI : Vhd.Inv base h)
    (hk : Keeps (opened blocksize t size) h) :
    hdfOpen2 blocksize h.target = some (reopened h) := by
  have hphys := hI.physsize
  have hfoot := hI.footerblock.2
  have hsub : h.target.physsize - 512 = h.vhd.footerblock := by omega
  rw [tableEnd, hk.bamoffset, hk.bamsize] at hfoot
  change 0x600 + roundUp512 (batentrysize size * 4) ≤ _ at hfoot
  have hhead : Agree t.disk h.target.disk 0 0x600 := hk.head
  have hc : Created stamp size h.target.disk :=
    ⟨hn.created.header.trans (hhead.mono (Nat.le_refl 0) (by decide)),
      hn.created.dynamic.trans fun i _ hi => hhead (512 + i) (Nat.zero_le _) (by omega)⟩
  rw [hdfOpen2_created hsize hc hI.usable.driveEmpty (by omega) (by rw [hsub]; exact hI.footer)]
  have h1 := hk.blocksize
  have h2 := hk.virtsize
  have h3 := hk.virtualRdb
  have h4 := hk.virtualSize
  have h5 := hk.byteswap
  have h6 := hk.adide
  have h7 := hI.hfdType
  have h8 := hk.bamoffset
  have h9 := hk.bamsize
  have h10 := hk.vhdBlocksize
  have h11 := hk.bitmapsize
  obtain ⟨target, bs, virtsize, rdb, rdbSize, swap, adide, ty,
    ⟨hdr, bo, bsz, vbs, bms, sm, smb, fb⟩⟩ := h
  simp only [opened] at h1 h2 h3 h4 h5 h6 h7 h8 h9 h10 h11
  subst h1 h2 h3 h4 h5 h6 h7 h8 h9 h10 h11
  have hfooter : target.physsize - 512 = fb := hsub
  simp only [opened, reopened, hfooter]

end Reopen

/-! ### Runs -/

/-- What is done with an open image. -/
inductive VhdOp
  | read (offset len : Nat)
  | write (offset : Nat) (data : List Byte)

/-- How a call can go wrong. -/
inductive VhdFault
  | wrongBytes
  | shortWrite
  | neverReturns
  deriving DecidableEq

/-- Whole sectors inside the disk. -/
def VhdOp.Ok (size : Nat) : VhdOp → Prop
  | read offset len => 512 ∣ offset ∧ 512 ∣ len ∧ offset + len ≤ size
  | write offset data => 512 ∣ offset ∧ 512 ∣ data.length ∧ offset + data.length ≤ size

/-- An open image beside the disk that it stands for: what was last written to each byte.
A call whose result is not that of the disk is a fault. -/
def vhdDisk : Machine (HardFile × Image) VhdOp VhdFault where
  legal s op := op.Ok s.1.virtsize
  step s
    | .read offset len =>
      let (bs, h) := vhdRead s.1 offset len
      if bs = s.2.slice offset len then .ok (h, s.2) else .error .wrongBytes
    | .write offset data =>
      match vhdWrite s.1 offset data with
      | none => .error .neverReturns
      | some (written, h) =>
        if written = data.length then .ok (h, s.2.blit offset data) else .error .shortWrite

/-- A valid image file that stands for `disk` and shows it when it is opened again. -/
structure ValidImage (blocksize size : Nat) (h : HardFile) (disk : Image) : Prop where
  /-- The last 512 bytes are those of the header. -/
  footer : h.target.disk.slice (h.target.physsize - 512) 512 = h.target.disk.slice 0 512
  table : ∀ i < entries h, h.target.disk.getLong (h.vhd.bamoffset + i * 4) = entry h i
  inside : ∀ i < entries h, entry h i ≠ unallocated → tableEnd h ≤ entry h i * 512 ∧
    entry h i * 512 + blockBytes h ≤ h.target.physsize - 512
  disjoint : ∀ i < entries h, ∀ j < entries h, i ≠ j → entry h i ≠ unallocated →
    entry h j ≠ unallocated → entry h i * 512 + blockBytes h ≤ entry h j * 512 ∨
      entry h j * 512 + blockBytes h ≤ entry h i * 512
  reopens : ∃ h', hdfOpen2 blocksize h.target = some h' ∧ h'.virtsize = size ∧
    ∀ offset len, (VhdOp.read offset len).Ok size →
      (vhdRead h' offset len).1 = disk.slice offset len

section Runs

variable {blocksize size base : Nat} {stamp : Stamp} {t : Target}

/-- The invariant of a run: the image has its own one, and shows the disk. -/
structure RunInv (base blocksize size : Nat) (t : Target) (s : HardFile × Image) : Prop where
  inv : Vhd.Inv base s.1
  keeps : Keeps (opened blocksize t size) s.1
  view : view s.1 = s.2

theorem runInv_invariant : vhdDisk.Invariant (RunInv base blocksize size t) := by
  rintro ⟨h, disk⟩ op hs hlegal
  cases op with
  | read offset len =>
    obtain ⟨m, b, hread, hI⟩ := vhdRead_spec hs.inv hlegal.1 hlegal.2.1 hlegal.2.2
    refine ⟨(withCache h m b, disk), ?_, hI, hs.keeps.trans (Keeps.withCache m b), hs.view⟩
    simp only [vhdDisk, hread]
    rw [if_pos (congrArg (slice · offset len) hs.view)]
  | write offset data =>
    obtain ⟨h', hwrite, hw⟩ := vhdWrite_spec hs.inv hlegal.1 hlegal.2.1 hlegal.2.2
    refine ⟨(h', disk.blit offset data), ?_, hw.inv, hs.keeps.trans hw.keeps,
      hw.view.trans (congrArg (blit · offset data) hs.view)⟩
    simp only [vhdDisk, hwrite]
    rfl

/-- The invariant of a reopened image. -/
theorem Vhd.Inv.reopened {h : HardFile} (hI : Vhd.Inv base h) :
    Vhd.Inv base (Hardfile.reopened h) := by
  have hentry := fun {i : Nat} (hi : i < entries h) => entry_reopened hI hi
  have halloc : allocated (Hardfile.reopened h) = allocated h := by
    refine Finset.filter_congr fun i hi => ?_
    rw [hentry (Finset.mem_range.mp hi)]
  refine ⟨⟨hI.hfdType, hI.usable, hI.virtsize, hI.blocksize, hI.sectors, hI.bitmapsize,
    hI.bamoffset, hI.bamsize, hI.table, hI.room⟩, Agree.refl _ _ _, hI.footer, hI.physsize,
    hI.footerblock, ?_, fun i hi hne => ?_, fun i hi j hj hij hne hne' => ?_, Or.inl rfl⟩
  · rw [halloc]
    exact hI.extent
  · rw [hentry hi] at hne ⊢
    exact hI.inside i hi hne
  · rw [hentry hi] at hne ⊢
    rw [hentry hj] at hne' ⊢
    exact hI.disjoint i hi j hj hij hne hne'

theorem RunInv.valid (hn : NewFile stamp size t) (hsize : size < 2 ^ 40)
    {s : HardFile × Image} (hs : RunInv base blocksize size t s) :
    ValidImage blocksize size s.1 s.2 := by
  have hI := hs.inv
  have hsub : s.1.target.physsize - 512 = s.1.vhd.footerblock := by
    have := hI.physsize
    omega
  refine ⟨hsub ▸ hI.footer, fun i hi => entry_reopened hI hi, fun i hi hne => hsub ▸
    hI.inside i hi hne, hI.disjoint, reopened s.1, hdfOpen2_reopened hn hsize hI hs.keeps,
    hs.keeps.virtsize, fun offset len hok => ?_⟩
  have hle : offset + len ≤ (reopened s.1).virtsize := hs.keeps.virtsize.symm ▸ hok.2.2
  obtain ⟨m, b, hread, -⟩ := vhdRead_spec hI.reopened hok.1 hok.2.1 hle
  rw [hread, view_reopened hI, hs.view]

/-- An image made by `vhd_create` can be opened, and every run of reads and writes of whole
sectors on it goes like on a disk of zeros; the file is a valid image at every time. -/
theorem vhd_runs_as_disk (hn : NewFile stamp size t) (hdvd : 512 ∣ size) (hsize : size < 2 ^ 40)
    (blocksize : Nat) : ∃ h, hdfOpen2 blocksize t = some h ∧ h.virtsize = size ∧
      ∀ ops r, vhdDisk.Run (h, fun _ => 0) ops r →
        ∃ h' disk, r = .ok (h', disk) ∧ ValidImage blocksize size h' disk := by
  have hphys : 0x600 + roundUp512 (batentrysize size * 4) + 512 ≤ t.physsize := by
    rw [hn.physsize, vhdCreate]
  have hopen : hdfOpen2 blocksize t = some (opened blocksize t size) :=
    hdfOpen2_created hsize hn.created hn.usable.driveEmpty hphys hn.footer
  refine ⟨_, hopen, rfl, fun ops r hrun => ?_⟩
  have hstart : RunInv (0x600 + roundUp512 (batentrysize size * 4)) blocksize size t
      (opened blocksize t size, fun _ => 0) :=
    ⟨hn.inv hsize blocksize hdvd, Keeps.refl _, hn.view hsize blocksize hdvd⟩
  obtain ⟨s', hr, hs'⟩ := runInv_invariant.run hrun hstart
  exact ⟨s'.1, s'.2, hr, hs'.valid hn hsize⟩

/-- The file of a new image of one megabyte. -/
def newFile (stamp : Stamp) (size : Nat) : Target where
  disk := (vhdCreate stamp size).1
  physsize := (vhdCreate stamp size).2
  driveEmpty := false
  readonly := false
  dangerous := false

theorem newFile_ok (stamp : Stamp) (size : Nat) : NewFile stamp size (newFile stamp size) :=
  ⟨⟨rfl, rfl, rfl⟩, rfl, Agree.refl _ _ _⟩

theorem vhd_runs_as_disk_megabyte : ∃ h, hdfOpen2 512 (newFile ⟨0, 0, 0, 0, fun _ => 0⟩ 1048576) =
    some h ∧ h.virtsize = 1048576 ∧ ∀ ops r, vhdDisk.Run (h, fun _ => 0) ops r →
      ∃ h' disk, r = .ok (h', disk) ∧ ValidImage 512 1048576 h' disk :=
  vhd_runs_as_disk (newFile_ok _ _) (by decide) (by decide) 512

end Runs

end LibretroUae.Hardfile
