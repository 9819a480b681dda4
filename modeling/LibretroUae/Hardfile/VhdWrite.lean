import LibretroUae.Hardfile.VhdAccess

/-!
# LibretroUae.Hardfile.VhdWrite

**Allocating blocks.** A new block takes the place of the footer: a bitmap of zeros and
data of zeros, and the footer again behind them. Its entry is written to the table in
memory and in the file. The virtual disk is the same as before, so that writing any
sectors amounts to writing them to the virtual disk.
-/

namespace LibretroUae.Hardfile

open Lib Lib.Image

variable {h : HardFile} {base i s : Nat}

/-! ### A new block -/

/-- The header with the footer's place as entry `i`. -/
def grownHeader (h : HardFile) (i : Nat) : Image :=
  h.vhd.header.putLong (h.vhd.bamoffset + i * 4) (h.vhd.footerblock / 512 % 2 ^ 32)

/-- The file with an empty block and the footer behind it. -/
def grownDisk (h : HardFile) (i : Nat) : Image :=
  (h.target.disk.blit h.vhd.footerblock
    (List.replicate (blockBytes h) 0 ++ h.vhd.header.slice 0 512)).blit h.vhd.bamoffset
      ((grownHeader h i).slice h.vhd.bamoffset h.vhd.bamsize)

/-- The image with a new block for entry `i`. -/
def grown (h : HardFile) (i : Nat) : HardFile :=
  { h with
    target := { h.target with
      disk := grownDisk h i
      physsize := h.target.physsize + blockBytes h }
    vhd := { h.vhd with
      header := grownHeader h i
      footerblock := h.vhd.footerblock + blockBytes h } }

section Grown

variable (hI : Vhd.Inv base h)
include hI

omit hI in
theorem add_512_sub (a b : Nat) : a + (b + 512) - 512 = a + b := by
  rw [← Nat.add_assoc, Nat.add_sub_cancel]

theorem vhdWriteEnlarge_spec :
    vhdWriteEnlarge h (h.vhd.bamoffset + i * 4) = (true, grown h i) := by
  have hphys := hI.physsize
  have htable := hI.footerblock
  rw [tableEnd] at htable
  have hlen : h.vhd.blocksize + h.vhd.bitmapsize + 512 = blockBytes h + 512 := by
    rw [blockBytes, Nat.add_comm h.vhd.blocksize]
  obtain ⟨t, ht⟩ : ∃ t, hdfResizeTarget h.target (h.target.physsize + blockBytes h) = t := ⟨_, rfl⟩
  have husable : t.Usable := by
    subst ht
    exact ⟨hI.usable.driveEmpty, hI.usable.readonly, hI.usable.dangerous⟩
  have hsize : t.physsize = h.target.physsize + blockBytes h := by
    subst ht
    rfl
  obtain ⟨buf, hbuf⟩ : ∃ buf, List.replicate (blockBytes h) 0 ++ h.vhd.header.slice 0 512 = buf :=
    ⟨_, rfl⟩
  have hbuflen : buf.length = blockBytes h + 512 := by
    rw [← hbuf]
    simp
  obtain ⟨t', ht'⟩ : ∃ t', { t with disk := t.disk.blit h.vhd.footerblock buf } = t' := ⟨_, rfl⟩
  have hfirst : hdfWriteTarget t h.vhd.footerblock buf = (blockBytes h + 512, t') := by
    rw [hdfWriteTarget_of_le husable (by omega), hbuflen, ht']
  have husable' : t'.Usable := by
    subst ht'
    exact ⟨husable.driveEmpty, husable.readonly, husable.dangerous⟩
  have hsize' : t'.physsize = h.target.physsize + blockBytes h := by
    subst ht'
    exact hsize
  obtain ⟨table, htab⟩ : ∃ table,
      (grownHeader h i).slice h.vhd.bamoffset h.vhd.bamsize = table := ⟨_, rfl⟩
  have htablelen : table.length = h.vhd.bamsize := by
    rw [← htab, length_slice]
  have hsecond : hdfWriteTarget t' h.vhd.bamoffset table =
      (h.vhd.bamsize, { t' with disk := t'.disk.blit h.vhd.bamoffset table }) := by
    rw [hdfWriteTarget_of_le husable' (by omega), htablelen]
  have htab' : (h.vhd.header.putLong (h.vhd.bamoffset + i * 4)
      (h.vhd.footerblock / 512 % 2 ^ 32)).slice h.vhd.bamoffset h.vhd.bamsize = table := htab
  simp only [vhdWriteEnlarge, hlen, add_512_sub, Nat.add_sub_cancel, ht, hbuf, hfirst, ne_eq,
    not_true_eq_false, if_false, htab', hsecond]
  subst ht' ht hbuf htab
  rfl

/-! ### What the new file holds -/

theorem footer_lt : h.vhd.footerblock / 512 < 2 ^ 32 - 1 := by
  have h1 := hI.extent
  have h2 := hI.room
  have h3 : (allocated h).card * blockBytes h ≤ entries h * blockBytes h :=
    Nat.mul_le_mul_right _ ((Finset.card_filter_le _ _).trans_eq (Finset.card_range _))
  omega

omit hI in
/-- The file between table and footer is as it was. -/
theorem grownDisk_old {a : Nat} (h1 : tableEnd h ≤ a) (h2 : a < h.vhd.footerblock) :
    grownDisk h i a = h.target.disk a := by
  rw [tableEnd] at h1
  rw [grownDisk, blit_of_ge (by rw [length_slice]; omega), blit_of_lt h2]

/-- The new block is empty. -/
theorem grownDisk_new {a : Nat} (h1 : h.vhd.footerblock ≤ a)
    (h2 : a < h.vhd.footerblock + blockBytes h) : grownDisk h i a = 0 := by
  have htable := hI.footerblock.2
  rw [tableEnd] at htable
  rw [grownDisk, blit_of_ge (by rw [length_slice]; omega), blit,
    if_pos ⟨h1, by simp only [List.length_append, List.length_replicate, length_slice]; omega⟩,
    List.getD_eq_getElem?_getD, List.getElem?_append_left (by simp; omega),
    List.getElem?_replicate, if_pos (by omega), Option.getD_some]

theorem slice_grownDisk_footer : (grownDisk h i).slice (h.vhd.footerblock + blockBytes h) 512 =
    h.vhd.header.slice 0 512 := by
  have htable := hI.footerblock.2
  rw [tableEnd] at htable
  have hpart := slice_blit_part h.target.disk h.vhd.footerblock (blockBytes h) (b := 512)
    (List.replicate (blockBytes h) 0 ++ h.vhd.header.slice 0 512) (by simp)
  rw [grownDisk, (agree_blit (Or.inr (by rw [length_slice]; omega))).slice, hpart]
  simp

/-- Header and file agree up to the end of the table. -/
theorem grownDisk_header : Agree (grownHeader h i) (grownDisk h i) 0 (tableEnd h) := by
  have htable := hI.footerblock.2
  rw [tableEnd] at htable ⊢
  intro a _ h2
  by_cases ha : h.vhd.bamoffset ≤ a
  · rw [grownDisk, blit, if_pos ⟨ha, by rw [length_slice]; omega⟩, List.getD_eq_getElem?_getD,
      List.getElem?_eq_getElem (by rw [length_slice]; omega), Option.getD_some, getElem_slice,
      Nat.add_sub_cancel' ha]
  · rw [grownDisk, blit_of_lt (by omega), blit_of_lt (by omega)]
    have hold : h.target.disk a = h.vhd.header a :=
      hI.header a (Nat.zero_le a) (by rw [tableEnd]; omega)
    rw [hold, grownHeader, putLong, blit_of_lt (by omega)]

theorem slice_grownDisk_header : (grownDisk h i).slice 0 512 = h.vhd.header.slice 0 512 := by
  have hbam := hI.bamoffset
  have hhead : Agree h.vhd.header (grownHeader h i) 0 512 := agree_putLong (Or.inl (by omega))
  have hdisk : Agree (grownHeader h i) (grownDisk h i) 0 512 :=
    (grownDisk_header hI).mono (Nat.le_refl 0) (by rw [tableEnd]; omega)
  rw [hdisk.slice, hhead.slice]

theorem entry_grown (j : Nat) :
    entry (grown h i) j = if j = i then h.vhd.footerblock / 512 else entry h j := by
  have hlt := footer_lt hI
  change (grownHeader h i).getLong (h.vhd.bamoffset + j * 4) = _
  split
  · rename_i hji
    rw [hji, grownHeader, getLong_putLong, Nat.mod_mod, Nat.mod_eq_of_lt (by omega)]
  · rename_i hji
    exact getLong_putLong_of_ne (Ne.symm hji)

variable (hi : i < entries h) (hun : entry h i = unallocated)
include hi hun

theorem allocated_grown : allocated (grown h i) = insert i (allocated h) := by
  have hlt := footer_lt hI
  ext j
  rw [allocated, Finset.mem_filter, Finset.mem_insert, allocated, Finset.mem_filter,
    entry_grown hI, Finset.mem_range, Finset.mem_range]
  have hentries : entries (grown h i) = entries h := rfl
  rw [hentries]
  by_cases hji : j = i
  · subst hji
    rw [if_pos rfl]
    refine iff_of_true ⟨hi, ?_⟩ (Or.inl rfl)
    rw [unallocated]
    omega
  · rw [if_neg hji]
    exact (or_iff_right hji).symm

omit hI hi in
theorem not_mem_allocated : i ∉ allocated h := by
  rw [allocated, Finset.mem_filter]
  exact fun hmem => hmem.2 hun

theorem Vhd.Inv.grow : Vhd.Inv base (grown h i) := by
  have hdvd := hI.footerblock.1
  have htable := hI.footerblock.2
  have hblock : 512 ∣ blockBytes h := by
    rw [blockBytes, hI.blocksize]
    exact Nat.dvd_add hI.bitmap_room.2 (Nat.dvd_mul_right _ _)
  have hplace : h.vhd.footerblock / 512 * 512 = h.vhd.footerblock := Nat.div_mul_cancel hdvd
  have hentry := fun j => entry_grown hI (i := i) j
  have hbytes : blockBytes (grown h i) = blockBytes h := rfl
  have hold : ∀ j < entries h, entry h j ≠ unallocated → entry h j * 512 + blockBytes h ≤
      h.vhd.footerblock := fun j hj hne => (hI.inside j hj hne).2
  refine ⟨⟨hI.hfdType, ⟨hI.usable.driveEmpty, hI.usable.readonly, hI.usable.dangerous⟩,
    hI.virtsize, hI.blocksize, hI.sectors, hI.bitmapsize, hI.bamoffset, hI.bamsize, hI.table,
    hI.room⟩, grownDisk_header hI, ?_, ?_, ⟨Nat.dvd_add hdvd hblock, ?_⟩, ?_, ?_, ?_, ?_⟩
  · exact (slice_grownDisk_footer hI).trans (slice_grownDisk_header hI).symm
  · change h.target.physsize + blockBytes h = h.vhd.footerblock + blockBytes h + 512
    have := hI.physsize
    omega
  · change tableEnd h ≤ h.vhd.footerblock + blockBytes h
    omega
  · -- one more block
    rw [allocated_grown hI hi hun, Finset.card_insert_of_notMem (not_mem_allocated hun),
      Nat.add_mul, Nat.one_mul, hbytes]
    change h.vhd.footerblock + blockBytes h ≤ _
    have := hI.extent
    omega
  · intro j hj hne
    rw [hentry] at hne ⊢
    rw [hbytes]
    change tableEnd h ≤ _ ∧ _ ≤ h.vhd.footerblock + blockBytes h
    split_ifs with hji
    · rw [hplace]
      exact ⟨htable, Nat.le_refl _⟩
    · rw [if_neg hji] at hne
      have := hI.inside j hj hne
      omega
  · intro j hj k hk hjk hnej hnek
    rw [hentry] at hnej hnek ⊢
    rw [hentry, hbytes]
    split_ifs at hnej hnek ⊢ with hji hki hki
    · exact absurd (hji.trans hki.symm) hjk
    · rw [hplace]
      exact Or.inr (hold k hk hnek)
    · rw [hplace]
      exact Or.inl (hold j hj hnej)
    · exact hI.disjoint j hj k hk hjk hnej hnek
  · rcases hI.cached with hnone | ⟨⟨j, hj, hne, k, hk, hcached⟩, hsame⟩
    · exact Or.inl hnone
    · have hji : j ≠ i := fun hji => hne (hji ▸ hun)
      have hentry' : entry (grown h i) j = entry h j := by rw [hentry, if_neg hji]
      refine Or.inr ⟨⟨j, hj, hentry'.symm ▸ hne, k, hk, ?_⟩, fun a ha => ?_⟩
      · rw [hentry']
        exact hcached
      · have hin := hI.inside j hj hne
        have hroom := hI.bitmap_room.2
        rw [blockBytes] at hin
        change h.vhd.sectormap a = grownDisk h i (h.vhd.sectormapblock + a)
        rw [grownDisk_old (by omega) (by omega)]
        exact hsame a ha

omit hi in
/-- A new block does not change the virtual disk. -/
theorem view_grown : view (grown h i) = view h := by
  have hplace : h.vhd.footerblock / 512 * 512 = h.vhd.footerblock :=
    Nat.div_mul_cancel hI.footerblock.1
  funext o
  obtain ⟨t, ht⟩ : ∃ t, o / 512 = t := ⟨_, rfl⟩
  have hspb : spb (grown h i) = spb h := rfl
  by_cases hji : t / spb h = i
  · -- no sector of the new block is there
    rw [view, view, if_neg, if_neg]
    · rintro ⟨-, hne, -⟩
      rw [ht, hji] at hne
      exact hne hun
    · rintro ⟨-, -, hp⟩
      rw [ht, hspb, hji, entry_grown hI, if_pos rfl] at hp
      refine hp ?_
      have hmap := hI.mapByte_bounds (h.vhd.footerblock / 512) t
      rw [hplace] at hmap
      change grownDisk h i (mapByte h (h.vhd.footerblock / 512) t) &&& _ = 0
      rw [grownDisk_new hI (by omega) (by rw [blockBytes]; omega)]
      exact BitVec.zero_and
  · have hentry : entry (grown h i) (t / spb h) = entry h (t / spb h) := by
      rw [entry_grown hI, if_neg hji]
    have hkeep : ∀ a, o < h.virtsize → entry h (t / spb h) ≠ unallocated →
        entry h (t / spb h) * 512 ≤ a → a < entry h (t / spb h) * 512 + blockBytes h →
        grownDisk h i a = h.target.disk a := by
      intro a ho hne h1 h2
      have hin := hI.inside _ (hI.entry_lt (show t * 512 < h.virtsize by omega)) hne
      exact grownDisk_old (by omega) (by omega)
    have hstored : Stored (grown h i) o ↔ Stored h o := by
      rw [Stored, Stored, ht, hspb, hentry]
      refine and_congr_right fun ho => and_congr_right fun hne => ?_
      have hmap := hI.mapByte_bounds (entry h (t / spb h)) t
      have hbb : h.vhd.bitmapsize ≤ blockBytes h := Nat.le_add_right _ _
      rw [Present, Present, ← hkeep _ ho hne hmap.1 (by omega)]
      rfl
    rw [view, view]
    by_cases hold : Stored h o
    · rw [if_pos (hstored.mpr hold), if_pos hold, ht, hspb, hentry]
      have hdata := hI.dataAt_bounds (entry h (t / spb h)) t
      rw [Stored, ht] at hold
      change grownDisk h i (dataAt h (entry h (t / spb h)) t + o % 512) = _
      exact hkeep _ hold.1 hold.2.1 (by omega) (by omega)
    · rw [if_neg (mt hstored.mp hold), if_neg hold]

end Grown

/-! ### What stays -/

/-- `h'` is the hardfile `h` with other blocks: the same disk size and layout, the same
header in the file. -/
structure Keeps (h h' : HardFile) : Prop where
  blocksize : h'.blocksize = h.blocksize
  virtsize : h'.virtsize = h.virtsize
  virtualRdb : h'.virtualRdb = h.virtualRdb
  virtualSize : h'.virtualSize = h.virtualSize
  byteswap : h'.byteswap = h.byteswap
  adide : h'.adide = h.adide
  bamoffset : h'.vhd.bamoffset = h.vhd.bamoffset
  bamsize : h'.vhd.bamsize = h.vhd.bamsize
  vhdBlocksize : h'.vhd.blocksize = h.vhd.blocksize
  bitmapsize : h'.vhd.bitmapsize = h.vhd.bitmapsize
  head : Agree h.target.disk h'.target.disk 0 h.vhd.bamoffset

theorem Keeps.refl (h : HardFile) : Keeps h h :=
  ⟨rfl, rfl, rfl, rfl, rfl, rfl, rfl, rfl, rfl, rfl, Agree.refl _ _ _⟩

theorem Keeps.trans {h' h'' : HardFile} (h1 : Keeps h h') (h2 : Keeps h' h'') : Keeps h h'' :=
  ⟨h2.blocksize.trans h1.blocksize, h2.virtsize.trans h1.virtsize,
    h2.virtualRdb.trans h1.virtualRdb, h2.virtualSize.trans h1.virtualSize,
    h2.byteswap.trans h1.byteswap, h2.adide.trans h1.adide, h2.bamoffset.trans h1.bamoffset,
    h2.bamsize.trans h1.bamsize, h2.vhdBlocksize.trans h1.vhdBlocksize,
    h2.bitmapsize.trans h1.bitmapsize, h1.head.trans (h1.bamoffset ▸ h2.head)⟩

theorem Keeps.withCache (m : Image) (b : Nat) : Keeps h (withCache h m b) :=
  ⟨rfl, rfl, rfl, rfl, rfl, rfl, rfl, rfl, rfl, rfl, Agree.refl _ _ _⟩

theorem Keeps.withDisk {disk m : Image} {b : Nat}
    (hhead : Agree h.target.disk disk 0 h.vhd.bamoffset) :
    Keeps h (Hardfile.withCache (Hardfile.withDisk h disk) m b) :=
  ⟨rfl, rfl, rfl, rfl, rfl, rfl, rfl, rfl, rfl, rfl, hhead⟩

theorem Keeps.grown (hI : Vhd.Inv base h) : Keeps h (Hardfile.grown h i) := by
  refine ⟨rfl, rfl, rfl, rfl, rfl, rfl, rfl, rfl, rfl, rfl, fun a _ ha => ?_⟩
  have htable := hI.footerblock.2
  rw [tableEnd] at htable
  change grownDisk h i a = _
  rw [grownDisk, blit_of_lt (by omega), blit_of_lt (by omega)]

/-! ### Writing sectors -/

/-- What a write of `data` at `offset` leaves. -/
structure Written (base : Nat) (h h' : HardFile) (offset : Nat) (data : List Byte) : Prop where
  inv : Vhd.Inv base h'
  keeps : Keeps h h'
  view : view h' = (view h).blit offset data

theorem vhdWriteTurn_allocated (hI : Vhd.Inv base h) (hs : InDisk h s) {data : List Byte}
    (hne : entry h (s / spb h) ≠ unallocated) (hlen : data.length = 512) :
    ∃ h', vhdWriteTurn h (s * 512) data = .written h' ∧ Written base h h' (s * 512) data := by
  obtain ⟨disk, m, b, hspec, hw, hI'⟩ := vhdWriteSector_spec hI hs rfl hne hlen
  refine ⟨_, ?_, hI', Keeps.withDisk ?_, hw.view hI hs rfl hne⟩
  · have hentry : h.vhd.header.getLong (h.vhd.bamoffset + s / spb h * 4) =
        entry h (s / spb h) := rfl
    rw [vhdWriteTurn, hI.bamEntry_eq hs, hentry, if_neg hne, hspec]
  · have hin := hI.inside _ (hI.entry_lt hs) hne
    rw [tableEnd] at hin
    exact fun a _ ha => hw.outside hI (Or.inl (by omega))

theorem vhdWriteTurn_unallocated (hI : Vhd.Inv base h) (hs : InDisk h s) (data : List Byte)
    (hun : entry h (s / spb h) = unallocated) :
    vhdWriteTurn h (s * 512) data = .enlarged (grown h (s / spb h)) := by
  have hentry : h.vhd.header.getLong (h.vhd.bamoffset + s / spb h * 4) =
      entry h (s / spb h) := rfl
  rw [vhdWriteTurn, hI.bamEntry_eq hs, hentry, if_pos hun, vhdWriteEnlarge_spec hI]

/-- After a new block was made for it, a sector's block is allocated. -/
theorem entry_grown_ne (hI : Vhd.Inv base h) : entry (grown h i) i ≠ unallocated := by
  have hlt := footer_lt hI
  rw [entry_grown hI, if_pos rfl, unallocated]
  omega

/-- One sector and then the others. -/
theorem Written.append {h' h'' : HardFile} {offset : Nat} {data rest : List Byte}
    (h1 : Written base h h' offset data) (h2 : Written base h' h'' (offset + data.length) rest) :
    Written base h h'' offset (data ++ rest) :=
  ⟨h2.inv, h1.keeps.trans h2.keeps, by rw [h2.view, h1.view, blit_append]⟩

theorem writeLoop_spec {sectors : Nat} : ∀ {h : HardFile} {s fuel : Nat} {data : List Byte},
    Vhd.Inv base h → data.length = sectors * 512 → (s + sectors) * 512 ≤ h.virtsize →
    2 * sectors ≤ fuel → ∃ h', writeLoop vhdWriteTurn fuel h (s * 512) data =
      some (data.length, h') ∧ Written base h h' (s * 512) data := by
  induction sectors with
  | zero =>
    intro h s fuel data hI hlen _ _
    obtain rfl := List.eq_nil_of_length_eq_zero (hlen.trans (Nat.zero_mul _))
    refine ⟨h, ?_, hI, Keeps.refl h, (blit_nil _ _).symm⟩
    cases fuel <;> rfl
  | succ sectors ih =>
    intro h s fuel data hI hlen hle hfuel
    obtain ⟨fuel, rfl⟩ : ∃ n, fuel = n + 2 := ⟨fuel - 2, by omega⟩
    have hs : InDisk h s := by
      rw [InDisk]
      omega
    have hempty : data.isEmpty = false := by
      cases data with
      | nil => simp at hlen
      | cons b bs => rfl
    have htake : (data.take 512).length = 512 := by
      rw [List.length_take]
      omega
    have hdrop : (data.drop 512).length = sectors * 512 := by
      rw [List.length_drop]
      omega
    rw [← Nat.add_assoc, Nat.add_right_comm] at hle
    -- one sector whose block is allocated, then the others
    have hwrite : ∀ {h' : HardFile} {fuel' : Nat}, Vhd.Inv base h' → h'.virtsize = h.virtsize →
        entry h' (s / spb h') ≠ unallocated → 2 * sectors ≤ fuel' →
        ∃ h'', writeLoop vhdWriteTurn (fuel' + 1) h' (s * 512) data = some (data.length, h'') ∧
          Written base h' h'' (s * 512) data := by
      intro h' fuel' hI' hsize hne hfuel'
      have hs' : InDisk h' s := by
        rw [InDisk, hsize]
        exact hs
      obtain ⟨h1, hturn, hw1⟩ := vhdWriteTurn_allocated hI' hs' hne htake
      obtain ⟨h2, hloop, hw2⟩ := ih (s := s + 1) hw1.inv hdrop
        (by rw [hw1.keeps.virtsize, hsize]; exact hle) hfuel'
      have hoff : (s + 1) * 512 = s * 512 + 512 := Nat.add_one_mul s 512
      rw [hoff] at hloop hw2
      refine ⟨h2, ?_, ?_⟩
      · rw [writeLoop, if_neg (by rw [hempty]; decide), hturn]
        simp only [hloop, Option.map_some]
        rw [hdrop, hlen, Nat.add_one_mul, Nat.add_comm 512]
      · have happ := hw1.append (by rw [htake]; exact hw2)
        rwa [List.take_append_drop] at happ
    by_cases hun : entry h (s / spb h) = unallocated
    · obtain ⟨h', hloop, hw⟩ := hwrite (hI.grow (hI.entry_lt hs) hun) rfl
        (entry_grown_ne hI : entry (grown h (s / spb h)) (s / spb h) ≠ unallocated)
        (show 2 * sectors ≤ fuel by omega)
      refine ⟨h', ?_, hw.inv, (Keeps.grown hI).trans hw.keeps, by rw [hw.view, view_grown hI hun]⟩
      rw [writeLoop, if_neg (by rw [hempty]; decide), vhdWriteTurn_unallocated hI hs _ hun]
      exact hloop
    · exact hwrite hI rfl hun (by omega)

/-- `vhd_write` of sectors inside the disk writes them to the virtual disk. -/
theorem vhdWrite_spec (hI : Vhd.Inv base h) {offset : Nat} {data : List Byte}
    (hoff : 512 ∣ offset) (hlen : 512 ∣ data.length) (hle : offset + data.length ≤ h.virtsize) :
    ∃ h', vhdWrite h offset data = some (data.length, h') ∧ Written base h h' offset data := by
  obtain ⟨s, rfl⟩ := hoff
  obtain ⟨sectors, hsectors⟩ := hlen
  rw [Nat.mul_comm 512 s] at hle ⊢
  rw [Nat.mul_comm] at hsectors
  rw [hsectors, ← Nat.add_mul] at hle
  have hfuel : 2 * sectors ≤ 2 * (data.length / 512) := by
    rw [hsectors, Nat.mul_div_cancel _ (by decide)]
  obtain ⟨h', hloop, hw⟩ := writeLoop_spec hI hsectors hle hfuel
  refine ⟨h', ?_, hw⟩
  rw [vhdWrite, if_neg (by simp), if_neg (by simp [hsectors]), hloop]

end LibretroUae.Hardfile
