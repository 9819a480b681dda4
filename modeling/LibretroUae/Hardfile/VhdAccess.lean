import LibretroUae.Hardfile.VhdLayout

/-!
# LibretroUae.Hardfile.VhdAccess

**Reading and writing a dynamic VHD image.** Each operation of the image code keeps the
invariant. Reading delivers the virtual disk and changes the cache only; making a new
block does not change the virtual disk; writing a sector changes it in that sector.
-/

namespace LibretroUae.Hardfile

open Lib Lib.Image

variable {h : HardFile} {base i s e : Nat}

/-! ### The cached sector -/

/-- The image with another cached sector. -/
def withCache (h : HardFile) (sectormap : Image) (sectormapblock : Nat) : HardFile :=
  { h with vhd := { h.vhd with sectormap, sectormapblock } }

/-- The image with another file. -/
def withDisk (h : HardFile) (disk : Image) : HardFile :=
  { h with target := { h.target with disk } }

theorem view_withCache (m : Image) (b : Nat) : view (withCache h m b) = view h := rfl

/-- A file that is the same in the table and the footer keeps the invariant if the cached
sector is one of the new file. -/
theorem Vhd.Inv.change (hI : Vhd.Inv base h) {disk m : Image} {b : Nat}
    (htable : Agree h.target.disk disk 0 (tableEnd h))
    (hfooter : Agree h.target.disk disk h.vhd.footerblock 512)
    (hcached : Vhd.Cached (withCache (withDisk h disk) m b)) :
    Vhd.Inv base (withCache (withDisk h disk) m b) := by
  have hstart : Agree h.target.disk disk 0 512 := htable.mono (Nat.le_refl 0) (by
    have := hI.bamoffset
    rw [tableEnd]
    omega)
  exact ⟨⟨hI.hfdType, ⟨hI.usable.driveEmpty, hI.usable.readonly, hI.usable.dangerous⟩,
    hI.virtsize, hI.blocksize, hI.sectors, hI.bitmapsize, hI.bamoffset, hI.bamsize, hI.table, hI.room⟩,
    hI.header.trans htable, (hfooter.slice.trans hI.footer).trans hstart.slice.symm, hI.physsize,
    hI.footerblock, hI.extent, hI.inside, hI.disjoint, hcached⟩

section Sectormap

variable (hI : Vhd.Inv base h) (hi : i < entries h) (he : entry h i ≠ unallocated)
include hI hi he

/-- Reading a sector of the bitmap of an allocated block succeeds. -/
theorem readSectormap_spec {k : Nat} (hk : k * 512 < h.vhd.bitmapsize) :
    ∃ m, readSectormap h (entry h i * 512 + k * 512) =
        (true, withCache h m (entry h i * 512 + k * 512)) ∧
      (∀ j < 512, m j = h.target.disk (entry h i * 512 + k * 512 + j)) ∧
      Vhd.Inv base (withCache h m (entry h i * 512 + k * 512)) := by
  have hinside := hI.inside i hi he
  have hdvd := hI.bitmap_room.2
  have hphys := hI.physsize
  have htable := hI.footerblock
  have hcap : h.vhd.footerblock < 2 ^ 64 - 1 := by
    have := hI.extent
    have := hI.room
    have : (allocated h).card * blockBytes h ≤ entries h * blockBytes h :=
      Nat.mul_le_mul_right _ ((Finset.card_filter_le _ _).trans_eq (Finset.card_range _))
    omega
  rw [blockBytes] at hinside
  obtain ⟨m, hread, hm⟩ : ∃ m, readSectormap h (entry h i * 512 + k * 512) =
      (true, withCache h m (entry h i * 512 + k * 512)) ∧
      ∀ j < 512, m j = h.target.disk (entry h i * 512 + k * 512 + j) := by
    by_cases hcached : h.vhd.sectormapblock = entry h i * 512 + k * 512
    · refine ⟨h.vhd.sectormap, ?_, ?_⟩
      · rw [readSectormap, if_pos hcached, ← hcached]
        rfl
      · rcases hI.cached with hnone | ⟨-, hsame⟩
        · omega
        · rwa [hcached] at hsame
    · have hbs : hdfReadTarget h.target (entry h i * 512 + k * 512) 512 =
          h.target.disk.slice (entry h i * 512 + k * 512) 512 :=
        hdfReadTarget_of_le hI.usable.driveEmpty (by omega)
      refine ⟨h.vhd.sectormap.blit 0 (h.target.disk.slice (entry h i * 512 + k * 512) 512), ?_, ?_⟩
      · rw [readSectormap, if_neg hcached, hbs]
        simp only [length_slice, ne_eq, not_true_eq_false, if_false]
        rfl
      · intro j hj
        rw [blit, if_pos (by simp only [length_slice]; omega), Nat.sub_zero,
          List.getD_eq_getElem?_getD, List.getElem?_eq_getElem (by simpa using hj), Option.getD_some,
          getElem_slice]
  refine ⟨m, hread, hm, hI.change (Agree.refl _ _ _) (Agree.refl _ _ _) (Or.inr ⟨?_, hm⟩)⟩
  exact ⟨i, hi, he, k, hk, rfl⟩

end Sectormap

/-! ### Reading -/

theorem sector_div {j : Nat} (hj : j < 512) : (s * 512 + j) / 512 = s := by omega

theorem sector_mod {j : Nat} (hj : j < 512) : (s * 512 + j) % 512 = j := by omega

theorem sector_bounds {o : Nat} (h : o / 512 = s) : s * 512 ≤ o ∧ o < s * 512 + 512 := by omega

theorem sector_sub {o : Nat} (h : o / 512 = s) : o - s * 512 = o % 512 := by omega

/-- A sector that starts inside the disk ends inside it. -/
theorem Vhd.Fixed.sector_lt (hf : Vhd.Fixed h base) (hs : InDisk h s) :
    s * 512 + 512 ≤ h.virtsize := by
  obtain ⟨n, hn⟩ := hf.virtsize
  rw [InDisk] at hs
  omega

/-- The bytes of a present sector. -/
theorem view_slice_present (hf : Vhd.Fixed h base) (hs : InDisk h s)
    (he : entry h (s / spb h) = e) (hne : e ≠ unallocated)
    (hp : Present h e s) :
    (view h).slice (s * 512) 512 = h.target.disk.slice (dataAt h e s) 512 := by
  have hlt := hf.sector_lt hs
  refine List.map_congr_left fun j hj => ?_
  have hj := List.mem_range.mp hj
  have hstored : Stored h (s * 512 + j) := by
    refine ⟨Nat.lt_of_lt_of_le (Nat.add_lt_add_left hj _) hlt, ?_, ?_⟩
    · rw [sector_div hj, he]
      exact hne
    · rw [sector_div hj, he]
      exact hp
  rw [view, if_pos hstored, sector_div hj, sector_mod hj, he]

/-- A sector that is not there reads as zeros. -/
theorem view_slice_absent
    (habs : entry h (s / spb h) = unallocated ∨ ¬ Present h (entry h (s / spb h)) s) :
    (view h).slice (s * 512) 512 = List.replicate 512 0 := by
  refine List.eq_replicate_iff.mpr ⟨length_slice _ _ _, fun b hb => ?_⟩
  obtain ⟨j, hj, rfl⟩ := List.mem_map.mp hb
  have hj := List.mem_range.mp hj
  rw [view, if_neg]
  rintro ⟨-, h1, h2⟩
  rw [sector_div hj] at h1 h2
  exact habs.elim h1 fun h3 => h3 h2

section Read

/-- The cached bit of a sector is the one of the file. -/
theorem cached_bit {m : Image} {b : Nat}
    (hm : ∀ j < 512, m j = h.target.disk (b + j))
    (hb : b = e * 512 + s % spb h / 8 / 512 * 512) :
    m (bitIndex h.vhd (s * 512)) = h.target.disk (mapByte h e s) := by
  have hbit : bitIndex h.vhd (s * 512) = s % spb h / 8 % 512 := by
    rw [bitIndex, Vhd.Fixed.bitmapoffsetbits_eq]
  have hplace : b + s % spb h / 8 % 512 = mapByte h e s := by
    rw [mapByte, hb]
    omega
  rw [hbit, hm _ (by omega), hplace]

theorem vhdReadSector_spec (hI : Vhd.Inv base h) (hs : InDisk h s) : ∃ m b, vhdReadSector h (s * 512) =
      (some ((view h).slice (s * 512) 512), withCache h m b) ∧ Vhd.Inv base (withCache h m b) := by
  have hi := hI.entry_lt hs
  rw [vhdReadSector, hI.bamEntry_eq hs]
  obtain ⟨e, he⟩ : ∃ e, entry h (s / spb h) = e := ⟨_, rfl⟩
  have he' : h.vhd.header.getLong (h.vhd.bamoffset + s / spb h * 4) = e := he
  simp only [he']
  by_cases hne : e = unallocated
  · refine ⟨h.vhd.sectormap, h.vhd.sectormapblock, ?_, hI⟩
    rw [if_pos hne, view_slice_absent (Or.inl (he.trans hne))]
    rfl
  · have halloc : entry h (s / spb h) ≠ unallocated := he ▸ hne
    obtain ⟨m, hread, hm, hinv⟩ := readSectormap_spec hI hi halloc
      (hI.mapSector_lt s)
    rw [he] at hread hm hinv
    have hplace : sectormapOf h.vhd e (s * 512) = e * 512 + s % spb h / 8 / 512 * 512 := by
      rw [sectormapOf, Vhd.Fixed.bitmapoffsetbits_eq]
    have hdata : dataOf h.vhd e (s * 512) = dataAt h e s := by
      rw [dataOf, Vhd.Fixed.bitmapoffsetbits_eq, dataAt]
    have hbit := cached_bit (e := e) hm rfl
    have hmask : bitMask h.vhd (s * 512) = (1 : Byte) <<< (7 - s % spb h % 8) := by
      rw [bitMask, Vhd.Fixed.bitmapoffsetbits_eq]
    refine ⟨m, e * 512 + s % spb h / 8 / 512 * 512, ?_, hinv⟩
    rw [if_neg hne, hplace, hread]
    have hcond : (withCache h m (e * 512 + s % spb h / 8 / 512 * 512)).vhd.sectormap
        (bitIndex (withCache h m (e * 512 + s % spb h / 8 / 512 * 512)).vhd (s * 512)) &&&
        bitMask (withCache h m (e * 512 + s % spb h / 8 / 512 * 512)).vhd (s * 512) ≠ 0 ↔
        Present h e s := by
      change m (bitIndex h.vhd (s * 512)) &&& bitMask h.vhd (s * 512) ≠ 0 ↔ _
      rw [hbit, hmask]
      rfl
    simp only [hcond]
    by_cases hp : Present h e s
    · have hbounds := hI.dataAt_bounds e s
      have hinside := hI.inside _ hi halloc
      rw [he] at hinside
      have hbs : hdfReadTarget h.target (dataOf h.vhd e (s * 512)) 512 =
          h.target.disk.slice (dataAt h e s) 512 := by
        rw [hdata]
        refine hdfReadTarget_of_le hI.usable.driveEmpty ?_
        have := hI.physsize
        omega
      have hbs' : hdfReadTarget (withCache h m (e * 512 + s % spb h / 8 / 512 * 512)).target
          (dataOf (withCache h m (e * 512 + s % spb h / 8 / 512 * 512)).vhd e (s * 512)) 512 =
          h.target.disk.slice (dataAt h e s) 512 := hbs
      rw [if_pos hp, hbs', if_neg (by simp), view_slice_present hI.toFixed hs he hne hp]
    · rw [if_neg hp, view_slice_absent (Or.inr (he.symm ▸ hp))]

end Read

/-- Reading some sectors. -/
theorem readLoop_spec {sectors : Nat} : ∀ {h : HardFile} {s : Nat}, Vhd.Inv base h →
    (s + sectors) * 512 ≤ h.virtsize → ∃ m b, readLoop vhdReadSector sectors h (s * 512) =
      ((view h).slice (s * 512) (sectors * 512), withCache h m b) ∧
        Vhd.Inv base (withCache h m b) := by
  induction sectors with
  | zero =>
    intro h s hI _
    exact ⟨h.vhd.sectormap, h.vhd.sectormapblock, rfl, hI⟩
  | succ sectors ih =>
    intro h s hI hle
    obtain ⟨m, b, hread, hI'⟩ := vhdReadSector_spec hI (show s * 512 < h.virtsize by omega)
    rw [← Nat.add_assoc, Nat.add_right_comm] at hle
    obtain ⟨m', b', hrest, hI''⟩ := ih hI' hle
    have hoff : s * 512 + 512 = (s + 1) * 512 := by omega
    refine ⟨m', b', ?_, hI''⟩
    rw [readLoop, hread]
    simp only [hoff, hrest]
    rw [show (sectors + 1) * 512 = 512 + sectors * 512 by omega, slice_add, hoff]
    rfl

/-- `vhd_read` of sectors inside the disk delivers the virtual disk. -/
theorem vhdRead_spec (hI : Vhd.Inv base h) {offset len : Nat} (hoff : 512 ∣ offset)
    (hlen : 512 ∣ len) (hle : offset + len ≤ h.virtsize) : ∃ m b,
      vhdRead h offset len = ((view h).slice offset len, withCache h m b) ∧
        Vhd.Inv base (withCache h m b) := by
  obtain ⟨s, rfl⟩ := hoff
  obtain ⟨sectors, rfl⟩ := hlen
  rw [Nat.mul_comm 512 s, Nat.mul_comm 512 sectors] at hle ⊢
  rw [← Nat.add_mul] at hle
  obtain ⟨m, b, hread, hI'⟩ := readLoop_spec hI hle
  refine ⟨m, b, ?_, hI'⟩
  rw [vhdRead, if_neg (by simp), if_neg (by simp), Nat.mul_div_cancel _ (by decide), hread]

/-! ### Writing a sector -/

/-- The file after sector `s` of a block at `e` was written: its data, and its bit set. -/
structure Wrote (h : HardFile) (disk : Image) (e s : Nat) (data : List Byte) : Prop where
  length : data.length = 512
  bit : disk (mapByte h e s) =
    h.target.disk (mapByte h e s) ||| ((1 : Byte) <<< (7 - s % spb h % 8))
  rest : ∀ a ≠ mapByte h e s, disk a = h.target.disk.blit (dataAt h e s) data a

section Wrote

variable {disk : Image} {data : List Byte} (hI : Vhd.Inv base h) (hw : Wrote h disk e s data)
include hI hw

/-- Nothing outside the block changes. -/
theorem Wrote.outside {a : Nat} (h1 : a < e * 512 ∨ e * 512 + blockBytes h ≤ a) :
    disk a = h.target.disk a := by
  have hmap := hI.mapByte_bounds e s
  have hdata := hI.dataAt_bounds e s
  have hlen := hw.length
  rw [blockBytes] at h1
  rw [blockBytes] at hdata
  rw [hw.rest a (by omega)]
  rcases h1 with h1 | h1
  · exact blit_of_lt (by omega)
  · exact blit_of_ge (by omega)

/-- Another byte of the bitmap does not change. -/
theorem Wrote.mapByte_ne {a : Nat} (h1 : a < e * 512 + h.vhd.bitmapsize)
    (h2 : a ≠ mapByte h e s) : disk a = h.target.disk a := by
  have hdata := hI.dataAt_bounds e s
  rw [hw.rest a h2]
  exact blit_of_lt (by omega)

/-- The bits of the bitmap after the write. -/
theorem Wrote.present_iff {t : Nat} (hblock : t / spb h = s / spb h) :
    Present (withDisk h disk) e t ↔ t = s ∨ Present h e t := by
  have ht := Nat.div_add_mod t (spb h)
  have hs := Nat.div_add_mod s (spb h)
  rw [hblock] at ht
  change disk (mapByte h e t) &&& ((1 : Byte) <<< (7 - t % spb h % 8)) ≠ 0 ↔ _
  by_cases hbyte : mapByte h e t = mapByte h e s
  · rw [hbyte, hw.bit, ne_eq, or_bit_and _ (by omega), Present, hbyte]
    rw [mapByte, mapByte] at hbyte
    constructor
    · intro hor
      by_cases hts : t = s
      · exact Or.inl hts
      · refine Or.inr fun hzero => hor ⟨?_, hzero⟩
        omega
    · rintro (rfl | hp) ⟨h1, h2⟩
      · exact h1 rfl
      · exact hp h2
  · have hmap := hI.mapByte_bounds e t
    rw [hw.mapByte_ne hI hmap.2 hbyte, Present]
    refine ⟨Or.inr, fun hor => hor.resolve_left ?_⟩
    rintro rfl
    exact hbyte rfl

variable (hs : InDisk h s) (he : entry h (s / spb h) = e) (hne : e ≠ unallocated)
include hs he hne

/-- Nothing changes in another block. -/
theorem Wrote.block_ne {j a : Nat} (hj : j < entries h) (hblock : j ≠ s / spb h)
    (halloc : entry h j ≠ unallocated) (h1 : entry h j * 512 ≤ a)
    (h2 : a < entry h j * 512 + blockBytes h) : disk a = h.target.disk a := by
  have hdis := hI.disjoint _ (hI.entry_lt hs) _ hj (Ne.symm hblock) (he.symm ▸ hne) halloc
  rw [he] at hdis
  exact hw.outside hI (by omega)

/-- The virtual disk after the write. -/
theorem Wrote.view {m : Image} {b : Nat} :
    Hardfile.view (withCache (withDisk h disk) m b) =
      (Hardfile.view h).blit (s * 512) data := by
  have hbounds := hI.dataAt_bounds e s
  have hmap := hI.mapByte_bounds e s
  have hlen := hw.length
  rw [view_withCache]
  funext o
  by_cases hts : o / 512 = s
  · -- a byte of the sector that was written
    have hstored : Stored (withDisk h disk) o := by
      refine ⟨Nat.lt_of_lt_of_le (sector_bounds hts).2 (hI.sector_lt hs), ?_, ?_⟩
      · rw [hts]
        exact he.symm ▸ hne
      · have hentry : entry (withDisk h disk) (o / 512 / spb (withDisk h disk)) = e := by
          rw [hts]
          exact he
        rw [hentry, hts]
        exact (hw.present_iff hI rfl).mpr (Or.inl rfl)
    have hdata : Hardfile.view (withDisk h disk) o = disk (dataAt h e s + o % 512) := by
      rw [Hardfile.view, if_pos hstored, hts]
      change disk (dataAt h (entry h (s / spb h)) s + o % 512) = _
      rw [he]
    rw [hdata, hw.rest _ (by omega), blit, blit, if_pos (by omega),
      if_pos (hlen.symm ▸ sector_bounds hts), Nat.add_sub_cancel_left, sector_sub hts]
  · -- a byte of another sector
    have hsame : (Hardfile.view h).blit (s * 512) data o = Hardfile.view h o := by
      rcases Nat.lt_or_gt_of_ne hts with hlt | hgt
      · exact blit_of_lt (by omega)
      · exact blit_of_ge (by omega)
    rw [hsame]
    obtain ⟨t, ht⟩ : ∃ t, o / 512 = t := ⟨_, rfl⟩
    obtain ⟨e', he'⟩ : ∃ e', entry h (t / spb h) = e' := ⟨_, rfl⟩
    have hkeep : o < h.virtsize → e' ≠ unallocated →
        (Present (withDisk h disk) e' t ↔ Present h e' t) ∧
          disk (dataAt h e' t + o % 512) = h.target.disk (dataAt h e' t + o % 512) := by
      intro ho hne'
      have hdata' := hI.dataAt_bounds e' t
      by_cases hblock : t / spb h = s / spb h
      · -- another sector of the same block
        obtain rfl : e = e' := by rw [← he, ← he', hblock]
        refine ⟨(hw.present_iff hI hblock).trans (or_iff_right (ht ▸ hts)), ?_⟩
        rw [hw.rest _ (by omega)]
        rcases Vhd.Fixed.dataAt_ne (h := h) (e := e) hblock (ht ▸ hts) with h1 | h1
        · exact blit_of_lt (by omega)
        · exact blit_of_ge (by omega)
      · have hj := hI.entry_lt (show t * 512 < h.virtsize by omega)
        have hkeep := fun {a : Nat} => hw.block_ne hI hs he hne (a := a) hj hblock (he'.symm ▸ hne')
        rw [he'] at hkeep
        have hmap' := hI.mapByte_bounds e' t
        have hbb : h.vhd.bitmapsize ≤ blockBytes h := Nat.le_add_right _ _
        refine ⟨?_, hkeep (by omega) (by omega)⟩
        rw [Present, Present, ← hkeep hmap'.1 (by omega)]
        rfl
    have hstored : Stored (withDisk h disk) o ↔ Stored h o := by
      rw [Stored, Stored, ht, he']
      change o < h.virtsize ∧ entry h (t / spb h) ≠ unallocated ∧
        Present (withDisk h disk) (entry h (t / spb h)) t ↔ _
      rw [he']
      exact and_congr_right fun ho => and_congr_right fun hne' => (hkeep ho hne').1
    rw [Hardfile.view, Hardfile.view]
    by_cases hold : Stored h o
    · rw [if_pos (hstored.mpr hold), if_pos hold, ht, he']
      rw [Stored, ht, he'] at hold
      have hbyte := (hkeep hold.1 hold.2.1).2
      rw [← he'] at hbyte ⊢
      exact hbyte
    · rw [if_neg (mt hstored.mp hold), if_neg hold]

end Wrote

/-- A set bit stays when it is set again. -/
theorem or_bit_self {x : Byte} {k : Nat} (hx : x &&& ((1 : Byte) <<< k) ≠ 0) :
    x ||| ((1 : Byte) <<< k) = x := by
  have htwo : (1 : Byte) <<< k = BitVec.twoPow 8 k := rfl
  rw [ne_eq, and_bit_eq_zero, Bool.not_eq_false] at hx
  refine BitVec.eq_of_getLsbD_eq fun i _ => ?_
  rw [htwo, BitVec.getLsbD_or, BitVec.getLsbD_twoPow]
  by_cases hik : k = i
  · subst hik
    rw [hx, Bool.true_or]
  · simp [hik]

section WriteSector

variable {data : List Byte} (hI : Vhd.Inv base h) (hs : InDisk h s)
  (he : entry h (s / spb h) = e) (hne : e ≠ unallocated) (hlen : data.length = 512)
include hI hs he hne hlen

theorem vhdWriteSector_spec : ∃ disk m b,
    vhdWriteSector h e (s * 512) data = (true, withCache (withDisk h disk) m b) ∧
      Wrote h disk e s data ∧ Vhd.Inv base (withCache (withDisk h disk) m b) := by
  have hi := hI.entry_lt hs
  have halloc : entry h (s / spb h) ≠ unallocated := he.symm ▸ hne
  obtain ⟨m, hread, hm, hinv⟩ := readSectormap_spec hI hi halloc (hI.mapSector_lt s)
  rw [he] at hread hm hinv
  obtain ⟨b, hb⟩ : ∃ b, e * 512 + s % spb h / 8 / 512 * 512 = b := ⟨_, rfl⟩
  rw [hb] at hread hm hinv
  have hplace : sectormapOf h.vhd e (s * 512) = b := by
    rw [sectormapOf, Vhd.Fixed.bitmapoffsetbits_eq, ← hb]
  have hdata : dataOf h.vhd e (s * 512) = dataAt h e s := by
    rw [dataOf, Vhd.Fixed.bitmapoffsetbits_eq, dataAt]
  have hbit := cached_bit (e := e) hm hb.symm
  have hbyte : mapByte h e s = b + bitIndex h.vhd (s * 512) := by
    rw [bitIndex, Vhd.Fixed.bitmapoffsetbits_eq, mapByte, ← hb]
    omega
  have hindex : bitIndex h.vhd (s * 512) < 512 := Nat.mod_lt _ (by decide)
  have hmask : bitMask h.vhd (s * 512) = (1 : Byte) <<< (7 - s % spb h % 8) := by
    rw [bitMask, Vhd.Fixed.bitmapoffsetbits_eq]
  have hbounds := hI.dataAt_bounds e s
  have hinside := hI.inside _ hi halloc
  rw [he] at hinside
  have hphys := hI.physsize
  have hmapend : b + 512 ≤ e * 512 + h.vhd.bitmapsize := by
    have := hI.mapSector_lt s
    obtain ⟨-, ⟨c, hc⟩⟩ := hI.bitmap_room
    omega
  -- the data is written
  obtain ⟨d, hd⟩ : ∃ d, h.target.disk.blit (dataAt h e s) data = d := ⟨_, rfl⟩
  have hwrite : hdfWriteTarget h.target (dataAt h e s) data = (512, (withDisk h d).target) := by
    rw [hdfWriteTarget_of_le hI.usable (by omega), hlen, hd]
    rfl
  have hd_below : ∀ a < dataAt h e s, d a = h.target.disk a := fun a ha => by
    rw [← hd]
    exact blit_of_lt ha
  -- then the bit, if it is not set
  have hcases : ∃ disk m', vhdWriteSector h e (s * 512) data =
      (true, withCache (withDisk h disk) m' b) ∧ Wrote h disk e s data ∧
        ∀ j < 512, m' j = disk (b + j) := by
    rw [vhdWriteSector]
    simp only [hplace, hread]
    have hdata' : dataOf (withCache h m b).vhd e (s * 512) = dataAt h e s := hdata
    have hwrite' : hdfWriteTarget (withCache h m b).target (dataAt h e s) data =
        (512, (withDisk h d).target) := hwrite
    rw [hdata', hwrite']
    have hold : (withCache h m b).vhd.sectormap (bitIndex h.vhd (s * 512)) =
        h.target.disk (mapByte h e s) := hbit
    have hmask' : bitMask (withCache h m b).vhd (s * 512) =
        (1 : Byte) <<< (7 - s % spb h % 8) := hmask
    have hindex' : bitIndex (withCache h m b).vhd (s * 512) = bitIndex h.vhd (s * 512) := rfl
    simp only [ne_eq, not_true_eq_false, if_false, hindex', hold, hmask']
    by_cases hzero : h.target.disk (mapByte h e s) &&& ((1 : Byte) <<< (7 - s % spb h % 8)) = 0
    · rw [if_pos hzero]
      obtain ⟨m', hm'⟩ : ∃ m', m.blit (bitIndex h.vhd (s * 512))
          [h.target.disk (mapByte h e s) ||| ((1 : Byte) <<< (7 - s % spb h % 8))] = m' := ⟨_, rfl⟩
      have hm'' : (withCache h m b).vhd.sectormap.blit (bitIndex h.vhd (s * 512))
          [h.target.disk (mapByte h e s) ||| ((1 : Byte) <<< (7 - s % spb h % 8))] = m' := hm'
      have husable : (withDisk h d).target.Usable :=
        ⟨hI.usable.driveEmpty, hI.usable.readonly, hI.usable.dangerous⟩
      have hroom : b + (m'.slice 0 512).length ≤ (withDisk h d).target.physsize := by
        rw [length_slice]
        change b + 512 ≤ h.target.physsize
        omega
      have hwrite2 : hdfWriteTarget (withDisk h d).target b (m'.slice 0 512) =
          (512, (withDisk h (d.blit b (m'.slice 0 512))).target) := by
        rw [hdfWriteTarget_of_le husable hroom, length_slice]
        rfl
      rw [hm'', hwrite2]
      have hsame : ∀ j < 512, m' j = (d.blit b (m'.slice 0 512)) (b + j) := by
        intro j hj
        rw [blit, if_pos ⟨Nat.le_add_right _ _, by rw [length_slice]; omega⟩,
          Nat.add_sub_cancel_left, List.getD_eq_getElem?_getD,
          List.getElem?_eq_getElem (by simpa using hj), Option.getD_some, getElem_slice,
          Nat.zero_add]
      have hm_ne : ∀ j ≠ bitIndex h.vhd (s * 512), m' j = m j := by
        intro j hj
        rw [← hm', blit, if_neg]
        simp only [List.length_singleton]
        omega
      have hm_eq : m' (bitIndex h.vhd (s * 512)) =
          h.target.disk (mapByte h e s) ||| ((1 : Byte) <<< (7 - s % spb h % 8)) := by
        rw [← hm', blit, if_pos ⟨Nat.le_refl _, Nat.lt_succ_self _⟩, Nat.sub_self]
        rfl
      refine ⟨d.blit b (m'.slice 0 512), m', rfl, ⟨hlen, ?_, fun a ha => ?_⟩, hsame⟩
      · rw [hbyte, ← hsame _ hindex, hm_eq, hbyte]
      · rw [hd]
        by_cases hin : b ≤ a ∧ a < b + 512
        · obtain ⟨j, rfl⟩ := Nat.exists_eq_add_of_le hin.1
          have hj : j < 512 := by omega
          rw [← hsame j hj, hm_ne j (by omega), hm j hj]
          exact (hd_below _ (by omega)).symm
        · rcases Nat.lt_or_ge a b with hlt | hge
          · exact blit_of_lt hlt
          · exact blit_of_ge (by rw [length_slice]; omega)
    · rw [if_neg hzero]
      refine ⟨d, m, rfl, ⟨hlen, ?_, fun a _ => by rw [hd]⟩, fun j hj => ?_⟩
      · rw [hd_below _ (by have := hI.mapByte_bounds e s; omega),
          or_bit_self hzero]
      · rw [hm j hj]
        exact (hd_below _ (by omega)).symm
  obtain ⟨disk, m', hspec, hw, hm'⟩ := hcases
  refine ⟨disk, m', b, hspec, hw, hI.change ?_ ?_ (Or.inr ⟨?_, hm'⟩)⟩
  · exact fun a _ ha => hw.outside hI (by omega)
  · exact fun a ha _ => hw.outside hI (by omega)
  · refine ⟨_, hi, halloc, s % spb h / 8 / 512, hI.mapSector_lt s, ?_⟩
    change b = entry h (s / spb h) * 512 + _
    rw [he, hb]

end WriteSector

end LibretroUae.Hardfile
