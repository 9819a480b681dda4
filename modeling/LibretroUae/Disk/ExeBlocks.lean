import LibretroUae.Disk.ExeAlloc

/-!
# LibretroUae.Disk.ExeBlocks

**The metadata blocks of an executable's disk.** A header or extension block is valid if it has
its own number, its parent and the number of the blocks it lists, and its longwords sum to zero.
The last extension block of a file is written at another place than the others, which does not
store its number.
-/

namespace LibretroUae.Disk

open Lib Lib.Image

/-! ### Valid blocks -/

/-- The place of the `i`-th data block in the table of a block. -/
def entryAt (i : Nat) : Nat := 308 - i * 4

/-- The number of data blocks that a block lists. -/
def listed (sector : Block) : Nat :=
  (List.range extensionBlocks).countP fun i => sector.getLong (entryAt i) ≠ 0

structure ValidBlock (parent : Int) (count : Nat) (w : Write) : Prop where
  own : (w.sector.getLong 4 : Int) = w.block
  parent : (w.sector.getLong 500 : Int) = parent
  count : w.sector.getLong 8 = count
  sum : w.sector.longSum 0 128 % 2 ^ 32 = 0

/-- A block is valid for what it is written for. -/
def Valid (w : Write) : Prop :=
  match w.kind with
  | .fileHeader parent => ValidBlock parent (listed w.sector) w
  | .dirHeader parent => ValidBlock parent 0 w
  | .extension header => ValidBlock header (listed w.sector) w
  | .other => True

/-! ### Longwords of a block -/

variable {m : Block} {off off' : Nat} {v : Int}

theorem getLong_pl (m : Block) (off : Nat) (v : Int) :
    (pl m off v).getLong off = (v % 2 ^ 32).toNat := by
  rw [pl, getLong_putLong, Nat.mod_eq_of_lt]
  omega

theorem getLong_pl_nat (m : Block) (off : Nat) {n : Nat} (h : n < 2 ^ 32) :
    (pl m off n).getLong off = n := by
  rw [getLong_pl]
  omega

theorem getLong_pl_ne (h : off' + 4 ≤ off ∨ off + 4 ≤ off') :
    (pl m off v).getLong off' = m.getLong off' := (agree_putLong h).getLong

theorem getLong_blit_ne {bs : List Byte} (h : off' + 4 ≤ off ∨ off + bs.length ≤ off') :
    (m.blit off bs).getLong off' = m.getLong off' := (agree_blit h).getLong

theorem getLong_putName {name : List Byte}
    (h : off' + 4 ≤ off ∨ off + name.length + 2 ≤ off') :
    (putName m off name).getLong off' = m.getLong off' := by
  rw [putName, getLong_blit_ne, getLong_blit_ne]
  · simp only [List.length_singleton]
    omega
  · simp only [List.length_append, List.length_singleton]
    omega

theorem getLong_zeroBlock (off : Nat) : zeroBlock.getLong off = 0 := by
  simp [getLong, zeroBlock]

theorem longSum_pl {n k : Nat} (hk : k < n) (hoff : off = 0 + k * 4) :
    (pl m off v).longSum 0 n + m.getLong off = m.longSum 0 n + (v % 2 ^ 32).toNat := by
  subst hoff
  rw [pl, longSum_putLong m 0 _ hk, Nat.mod_eq_of_lt]
  omega

/-- The checksum makes the sum of a block zero. -/
theorem longSum_diskChecksum (h : m.getLong 20 = 0) :
    (diskChecksum m 20).longSum 0 128 % 2 ^ 32 = 0 := by
  have hsum := longSum_pl (m := m) (v := -(m.longSum 0 128 : Int)) (k := 5) (n := 128)
    (by omega) (by rfl : 20 = 0 + 5 * 4)
  rw [h] at hsum
  rw [diskChecksum]
  generalize m.longSum 0 128 = a at hsum ⊢
  generalize (pl m 20 (-(a : Int))).longSum 0 128 = c at hsum ⊢
  omega

theorem getLong_diskChecksum (h : off' + 4 ≤ 20 ∨ 24 ≤ off') :
    (diskChecksum m 20).getLong off' = m.getLong off' := getLong_pl_ne h

theorem countP_range_lt (n c : Nat) : (List.range n).countP (fun i => i < c) = min c n := by
  induction n with
  | zero => simp
  | succ n ih =>
    rw [List.range_succ, List.countP_append, ih, List.countP_singleton]
    split_ifs with h <;> simp only [decide_eq_true_eq] at h <;> omega

/-- The first `c` places of the table are filled. -/
def Entries (sector : Block) (c : Nat) : Prop :=
  ∀ i < extensionBlocks, sector.getLong (entryAt i) ≠ 0 ↔ i < c

theorem listed_of_entries {sector : Block} {c : Nat} (h : Entries sector c)
    (hc : c ≤ extensionBlocks) : listed sector = c := by
  have hcount : listed sector = (List.range extensionBlocks).countP (fun i => i < c) := by
    refine List.countP_congr fun i hi => ?_
    have := h i (List.mem_range.mp hi)
    simpa using this
  rw [hcount, countP_range_lt]
  omega

theorem entries_diskChecksum {sector : Block} {c : Nat} (h : Entries sector c) :
    Entries (diskChecksum sector 20) c := by
  intro i hi
  rw [getLong_diskChecksum]
  · exact h i hi
  · simp only [extensionBlocks] at hi
    rw [entryAt]
    omega

/-- One more data block in the table. -/
theorem entries_succ {sector : Block} {c : Nat} (h : Entries sector c) (hc : c < extensionBlocks)
    (h0 : 0 < v) (hv : v < 2 ^ 32) : Entries (pl sector (entryAt c) v) (c + 1) := by
  intro i hi
  simp only [extensionBlocks] at hi hc
  by_cases heq : i = c
  · subst heq
    rw [getLong_pl]
    omega
  · rw [getLong_pl_ne (by simp only [entryAt]; omega), h i hi]
    omega

/-- Stores outside of the table. -/
theorem entries_pl {sector : Block} {c : Nat} (h : Entries sector c)
    (hoff : off + 4 ≤ 24 ∨ 312 ≤ off) : Entries (pl sector off v) c := by
  intro i hi
  rw [getLong_pl_ne (by simp only [entryAt, extensionBlocks] at hi ⊢; omega)]
  exact h i hi

/-! ### The loop over the data blocks -/

/-- Is a block number one that `getblock` hands out? -/
def IsBlock (v : Int) : Prop := 2 ≤ v ∧ v < 3520

/-- The header of a file of `n` data blocks, with those before the `t`-th one listed. -/
structure HeaderAt (block parent : Int) (n t : Nat) (sector : Block) : Prop where
  own : (sector.getLong 4 : Int) = block
  parent : (sector.getLong 500 : Int) = parent
  count : sector.getLong 8 = min n extensionBlocks
  checksum : sector.getLong 20 = 0
  entries : Entries sector (min t extensionBlocks)

/-- The open extension block: its own number is not in it. -/
structure ExtensionAt (block : Int) (c : Nat) (sector3 : Block) : Prop where
  own : sector3.getLong 4 = 0
  parent : (sector3.getLong 500 : Int) = block
  checksum : sector3.getLong 20 = 0
  entries : Entries sector3 c

/-- The loop before the `t`-th of `n` data blocks, with `e` extension blocks, of a file whose
header is the `b`-th block that is handed out. -/
structure LoopAt (hd b n t e : Nat) (ffs : Bool) (size : Nat) (block parent : Int)
    (s : FileLoop) : Prop where
  src : s.src.length = size - t * payloadSize ffs
  handed : Handed hd (b + 1 + max 1 (min (t + 1) n) + e) s.a
  datablock : t < n → IsBlock s.datablock
  extensionblocks : s.extensionblocks = e
  extensioncounter : s.extensioncounter + e * extensionBlocks = t
  inBlock : s.extensioncounter ≤ extensionBlocks
  extensionblock : 0 < e → IsBlock s.extensionblock
  header : HeaderAt block parent n t s.sector
  extension : 0 < e → ExtensionAt block s.extensioncounter s.sector3
  written : ∀ w ∈ s.z, Valid w

variable {hd b n t e size : Nat} {ffs : Bool} {block parent : Int} {s : FileLoop}

theorem isBlock_handed {k : Nat} (hhd : 1 ≤ hd) (hhd' : hd ≤ 2) (hk : k < 2 * halfBlocks hd) :
    IsBlock (handed hd k) := by
  obtain ⟨h2, hlt, -⟩ := handed_bounds hhd hk
  simp only [IsBlock]
  omega

/-- The number of data blocks decides whether there is more of the source. -/
theorem lt_dataBlocks (ffs : Bool) (size t : Nat) :
    t < dataBlocks ffs size ↔ 0 < size - t * payloadSize ffs := by
  have hpos : 0 < payloadSize ffs := by cases ffs <;> decide
  rw [dataBlocks, Nat.lt_div_iff_mul_lt hpos]
  omega

theorem headerAt_pl (h : HeaderAt block parent n t m) (hoff : 504 ≤ off) :
    HeaderAt block parent n t (pl m off v) := by
  refine ⟨?_, ?_, ?_, ?_, entries_pl h.entries (by omega)⟩
  · rw [getLong_pl_ne (by omega), h.own]
  · rw [getLong_pl_ne (by omega), h.parent]
  · rw [getLong_pl_ne (by omega), h.count]
  · rw [getLong_pl_ne (by omega), h.checksum]

theorem extensionAt_first (hblock : IsBlock block) :
    ExtensionAt block 0 (pl (pl (pl zeroBlock 0 16) 500 block) 508 (-3)) := by
  obtain ⟨h2, hlt⟩ := hblock
  refine ⟨?_, ?_, ?_, fun i hi => ?_⟩
  · rw [getLong_pl_ne (by omega), getLong_pl_ne (by omega), getLong_pl_ne (by omega),
      getLong_zeroBlock]
  · rw [getLong_pl_ne (by omega), getLong_pl]
    omega
  · rw [getLong_pl_ne (by omega), getLong_pl_ne (by omega), getLong_pl_ne (by omega),
      getLong_zeroBlock]
  · simp only [extensionBlocks] at hi
    rw [getLong_pl_ne, getLong_pl_ne, getLong_pl_ne, getLong_zeroBlock]
    · simp
    all_goals
      simp only [entryAt]
      omega

/-- An extension block that another one follows is valid. -/
theorem valid_fullExtension {sector3 : Block} {extensionblock next : Int}
    (h : ExtensionAt block extensionBlocks sector3) (hext : IsBlock extensionblock) :
    Valid ⟨.extension block, extensionblock,
      diskChecksum (pl (pl (pl sector3 8 extensionBlocks) 504 next) 4 extensionblock) 20⟩ := by
  obtain ⟨h2, hlt⟩ := hext
  have hentries : Entries (pl (pl (pl sector3 8 extensionBlocks) 504 next) 4 extensionblock)
      extensionBlocks :=
    entries_pl (entries_pl (entries_pl h.entries (by omega)) (by omega)) (by omega)
  simp only [Valid]
  rw [listed_of_entries (entries_diskChecksum hentries) le_rfl]
  refine ⟨?_, ?_, ?_, ?_⟩
  · rw [getLong_diskChecksum (by omega), getLong_pl]
    simp only
    omega
  · rw [getLong_diskChecksum (by omega), getLong_pl_ne (by omega), getLong_pl_ne (by omega),
      getLong_pl_ne (by omega), h.parent]
  · rw [getLong_diskChecksum (by omega), getLong_pl_ne (by omega), getLong_pl_ne (by omega),
      getLong_pl_nat _ _ (by decide)]
  · refine longSum_diskChecksum ?_
    rw [getLong_pl_ne (by omega), getLong_pl_ne (by omega), getLong_pl_ne (by omega), h.checksum]

/-- A round that opens an extension block. -/
theorem loopAt_nextExtension (hhd : 1 ≤ hd) (hhd' : hd ≤ 2) (hblock : IsBlock block)
    (h : LoopAt hd b n t e ffs size block parent s)
    (hroom : b + 1 + max 1 (min (t + 1) n) + e < 2 * halfBlocks hd)
    (hfull : s.extensioncounter = extensionBlocks) :
    LoopAt hd b n t (e + 1) ffs size block parent (nextExtension block s) := by
  obtain ⟨hnew, hhanded⟩ := getblock_handed hhd hhd' h.handed hroom
  have hcounter := h.extensioncounter
  rw [hfull] at hcounter
  have hisBlock := isBlock_handed hhd hhd' hroom
  rw [← hnew] at hisBlock
  simp only [nextExtension]
  split_ifs with hpos
  · have he : 0 < e := h.extensionblocks ▸ hpos
    have hext := h.extension he
    rw [hfull] at hext
    refine ⟨h.src, hhanded, h.datablock, ?_, ?_, Nat.zero_le _, fun _ => hisBlock, h.header,
      fun _ => extensionAt_first hblock, fun w hw => ?_⟩
    · simp only [h.extensionblocks]
    · simp only [Nat.add_mul]
      omega
    · rcases List.mem_append.mp hw with hw | hw
      · exact h.written w hw
      · obtain rfl := List.mem_singleton.mp hw
        exact valid_fullExtension hext (h.extensionblock he)
  · refine ⟨h.src, hhanded, h.datablock, ?_, ?_, Nat.zero_le _, fun _ => hisBlock,
      headerAt_pl h.header le_rfl, fun _ => extensionAt_first hblock, h.written⟩
    · simp only [h.extensionblocks]
    · simp only [Nat.add_mul]
      omega

/-- A data block is listed in the header or in the open extension block. -/
theorem loopAt_nextData (hhd : 1 ≤ hd) (hhd' : hd ≤ 2)
    (h : LoopAt hd b n t e ffs size block parent s) (hn : n = dataBlocks ffs size) (ht : t < n)
    (hroom : b + 1 + max 1 n + e ≤ 2 * halfBlocks hd)
    (hopen : s.extensioncounter < extensionBlocks) :
    LoopAt hd b n (t + 1) e ffs size block parent (nextData ffs block s) := by
  have hlen : (s.src.drop (payloadSize ffs)).length = size - (t + 1) * payloadSize ffs := by
    rw [List.length_drop, h.src, Nat.add_mul, Nat.one_mul]
    omega
  have hmore : (s.src.drop (payloadSize ffs)).length > 0 ↔ t + 1 < n := by
    rw [hlen, hn, lt_dataBlocks]
  have hisBlock := h.datablock ht
  -- the block for the next round
  obtain ⟨datablock, a, hnext, hhanded, hdatablock⟩ : ∃ datablock a,
      (if (s.src.drop (payloadSize ffs)).length > 0 then getblock s.a else (0, s.a)) =
        (datablock, a) ∧ Handed hd (b + 1 + max 1 (min (t + 1 + 1) n) + e) a ∧
        (t + 1 < n → IsBlock datablock) := by
    by_cases hlt : t + 1 < n
    · have hindex : b + 1 + max 1 (min (t + 1) n) + e < 2 * halfBlocks hd := by omega
      obtain ⟨hnew, hhanded⟩ := getblock_handed hhd hhd' h.handed hindex
      refine ⟨(getblock s.a).1, (getblock s.a).2, if_pos (hmore.mpr hlt), ?_, fun _ => ?_⟩
      · have hk : b + 1 + max 1 (min (t + 1) n) + e + 1 =
            b + 1 + max 1 (min (t + 1 + 1) n) + e := by omega
        rwa [hk] at hhanded
      · rw [hnew]
        exact isBlock_handed hhd hhd' hindex
    · refine ⟨0, s.a, if_neg (mt hmore.mp hlt), ?_, fun h => absurd h hlt⟩
      have hk : min (t + 1) n = min (t + 1 + 1) n := by omega
      rw [← hk]
      exact h.handed
  have hcounter := h.extensioncounter
  by_cases hzero : s.extensionblocks = 0
  · simp only [nextData, hnext, if_pos hzero]
    have he : e = 0 := h.extensionblocks.symm.trans hzero
    subst he
    rw [Nat.zero_mul, Nat.add_zero] at hcounter
    rw [hcounter] at hopen
    refine ⟨hlen, hhanded, hdatablock, hzero, ?_, ?_, fun h0 => absurd h0 (lt_irrefl 0), ?_,
      fun h0 => absurd h0 (lt_irrefl 0), fun w hw => ?_⟩
    · simp only
      omega
    · simp only
      omega
    · obtain ⟨h2, hlt⟩ := hisBlock
      have hentries := h.header.entries
      rw [Nat.min_eq_left hopen.le] at hentries
      have hnew := entries_succ hentries hopen (by omega : 0 < s.datablock) (by omega)
      rw [hcounter, ← entryAt]
      have hat : 24 ≤ entryAt t ∧ entryAt t ≤ 308 := by
        simp only [extensionBlocks] at hopen
        rw [entryAt]
        omega
      refine ⟨?_, ?_, ?_, ?_, ?_⟩
      · rw [getLong_pl_ne (by omega), h.header.own]
      · rw [getLong_pl_ne (by omega), h.header.parent]
      · rw [getLong_pl_ne (by omega), h.header.count]
      · rw [getLong_pl_ne (by omega), h.header.checksum]
      · rwa [Nat.min_eq_left hopen]
    · rcases List.mem_append.mp hw with hw | hw
      · exact h.written w hw
      · obtain rfl := List.mem_singleton.mp hw
        trivial
  · simp only [nextData, hnext, if_neg hzero]
    have he : 0 < e := by
      have := h.extensionblocks
      omega
    obtain ⟨h2, hlt⟩ := hisBlock
    have hext := h.extension he
    have hnew := entries_succ hext.entries hopen (by omega : 0 < s.datablock) (by omega)
    have hat : 24 ≤ entryAt s.extensioncounter ∧ entryAt s.extensioncounter ≤ 308 := by
      simp only [extensionBlocks] at hopen
      rw [entryAt]
      omega
    have hheader : HeaderAt block parent n (t + 1) s.sector := by
      refine ⟨h.header.own, h.header.parent, h.header.count, h.header.checksum, ?_⟩
      have hfull : min t extensionBlocks = min (t + 1) extensionBlocks := by
        have : extensionBlocks ≤ e * extensionBlocks := Nat.le_mul_of_pos_left _ he
        omega
      rw [← hfull]
      exact h.header.entries
    refine ⟨hlen, hhanded, hdatablock, h.extensionblocks, ?_, ?_, h.extensionblock, hheader,
      fun _ => ?_, fun w hw => ?_⟩
    · simp only
      omega
    · simp only
      omega
    · rw [← entryAt]
      refine ⟨?_, ?_, ?_, hnew⟩
      · rw [getLong_pl_ne (by omega), hext.own]
      · rw [getLong_pl_ne (by omega), hext.parent]
      · rw [getLong_pl_ne (by omega), hext.checksum]
    · rcases List.mem_append.mp hw with hw | hw
      · exact h.written w hw
      · obtain rfl := List.mem_singleton.mp hw
        trivial

/-- The number of extension blocks before the `t`-th data block. -/
def extensionsAt (t : Nat) : Nat := (t - 1) / extensionBlocks

theorem loopAt_fileRound (hhd : 1 ≤ hd) (hhd' : hd ≤ 2) (hblock : IsBlock block)
    (h : LoopAt hd b n t (extensionsAt t) ffs size block parent s) (hn : n = dataBlocks ffs size)
    (ht : t < n) (hroom : b + 1 + max 1 n + extensionsAt n ≤ 2 * halfBlocks hd) :
    LoopAt hd b n (t + 1) (extensionsAt (t + 1)) ffs size block parent
      (fileRound ffs block s) := by
  have hcounter := h.extensioncounter
  have hmono : extensionsAt (t + 1) ≤ extensionsAt n := Nat.div_le_div_right (by omega)
  rw [fileRound]
  split_ifs with hfull
  · have hnext : extensionsAt (t + 1) = extensionsAt t + 1 := by
      simp only [extensionsAt, extensionBlocks] at hcounter hfull ⊢
      omega
    rw [hnext] at hmono ⊢
    have hopened := loopAt_nextExtension hhd hhd' hblock h (by omega) hfull
    refine loopAt_nextData hhd hhd' hopened hn ht (by omega) ?_
    simp only [nextExtension]
    split_ifs <;> exact (by decide : 0 < extensionBlocks)
  · have hsame : extensionsAt (t + 1) = extensionsAt t := by
      have := h.inBlock
      simp only [extensionsAt, extensionBlocks] at hcounter hfull this ⊢
      omega
    rw [hsame] at hmono ⊢
    exact loopAt_nextData hhd hhd' h hn ht (by omega) (lt_of_le_of_ne h.inBlock hfull)

theorem loopAt_fileLoop (hhd : 1 ≤ hd) (hhd' : hd ≤ 2) (hblock : IsBlock block)
    (hn : n = dataBlocks ffs size) (hroom : b + 1 + max 1 n + extensionsAt n ≤ 2 * halfBlocks hd)
    {r : Nat} : ∀ {t : Nat} {s : FileLoop}, t + r = n →
    LoopAt hd b n t (extensionsAt t) ffs size block parent s →
    LoopAt hd b n n (extensionsAt n) ffs size block parent (fileLoop ffs block r s) := by
  induction r with
  | zero =>
    intro t s htr h
    obtain rfl : t = n := by omega
    exact h
  | succ r ih =>
    intro t s htr h
    have ht : t < n := by omega
    have hmore : s.src.length > 0 := by
      rw [h.src]
      exact (lt_dataBlocks ffs size t).mp (hn ▸ ht)
    rw [fileLoop, if_pos hmore]
    exact ih (by omega) (loopAt_fileRound hhd hhd' hblock h hn ht hroom)

/-! ### Files -/

theorem headerAt_fileHeader {datablock : Int} {filename date : List Byte} (hblock : IsBlock block)
    (hparent : IsBlock parent) :
    HeaderAt block parent n 0 (fileHeader block datablock parent n size filename date) := by
  obtain ⟨h2, hlt⟩ := hblock
  obtain ⟨h2', hlt'⟩ := hparent
  have hfront : ∀ {off : Nat} {sector : Block}, off + 4 ≤ 420 →
      (pl (pl (putName (sector.blit 420 date) 432 filename) 500 parent) 508 (-3)).getLong off =
        sector.getLong off := by
    intro off sector hoff
    rw [getLong_pl_ne (by omega), getLong_pl_ne (by omega), getLong_putName (by omega),
      getLong_blit_ne (by omega)]
  rw [fileHeader]
  refine ⟨?_, ?_, ?_, ?_, fun i hi => ?_⟩
  · rw [hfront (by omega), getLong_pl_ne (by omega), getLong_pl_ne (by omega),
      getLong_pl_ne (by omega), getLong_pl]
    omega
  · rw [getLong_pl_ne (by omega), getLong_pl]
    omega
  · have hmin : min (n : Int) (extensionBlocks : Int) = ((min n extensionBlocks : Nat) : Int) := by
      omega
    rw [hfront (by omega), getLong_pl_ne (by omega), getLong_pl_ne (by omega), hmin,
      getLong_pl_nat _ _ (lt_of_le_of_lt (Nat.min_le_right _ _) (by decide))]
  · rw [hfront (by omega), getLong_pl_ne (by omega), getLong_pl_ne (by omega),
      getLong_pl_ne (by omega), getLong_pl_ne (by omega), getLong_pl_ne (by omega),
      getLong_zeroBlock]
  · simp only [extensionBlocks] at hi
    have hat : 24 ≤ entryAt i ∧ entryAt i ≤ 308 := by
      rw [entryAt]
      omega
    rw [hfront (by omega), getLong_pl_ne (by omega), getLong_pl_ne (by omega),
      getLong_pl_ne (by omega), getLong_pl_ne (by omega), getLong_pl_ne (by omega),
      getLong_zeroBlock]
    simp

/-- The last extension block lacks its number. -/
theorem not_valid_lastExtension {sector3 : Block} {extensionblock : Int} {c : Nat}
    (h : ExtensionAt block c sector3) (hext : IsBlock extensionblock) :
    ¬ Valid ⟨.extension block, extensionblock, diskChecksum (pl sector3 8 c) 20⟩ := by
  intro hvalid
  have hown := hvalid.own
  simp only at hown
  rw [getLong_diskChecksum (by omega), getLong_pl_ne (by omega), h.own] at hown
  have := hext.1
  omega

theorem valid_header {sector : Block} {datablocks : Nat}
    (h : HeaderAt block parent datablocks datablocks sector) :
    Valid ⟨.fileHeader parent, block, diskChecksum sector 20⟩ := by
  simp only [Valid]
  rw [listed_of_entries (entries_diskChecksum h.entries) (Nat.min_le_right _ _)]
  refine ⟨?_, ?_, ?_, longSum_diskChecksum h.checksum⟩
  · exact (congrArg Nat.cast (getLong_diskChecksum (by omega))).trans h.own
  · exact (congrArg Nat.cast (getLong_diskChecksum (by omega))).trans h.parent
  · exact (getLong_diskChecksum (by omega)).trans h.count

/-- The loop starts with the header and the first data block handed out. -/
theorem loopAt_start {datablock : Int} {z : List Write} {a : Alloc} (ffs : Bool)
    (filename date src : List Byte) (hblock : IsBlock block) (hparent : IsBlock parent)
    (hdata : IsBlock datablock) (h : Handed hd (b + 1 + 1) a) (hz : ∀ w ∈ z, Valid w) :
    LoopAt hd b n 0 (extensionsAt 0) ffs src.length block parent {
      z := z, sector := fileHeader block datablock parent n src.length filename date
      sector3 := zeroBlock, a := a, datablock := datablock, datasec := 1, extensionblock := 0
      extensioncounter := 0, extensionblocks := 0, src := src } := by
  refine ⟨by simp, ?_, fun _ => hdata, rfl, rfl, Nat.zero_le _, fun h0 => absurd h0 (by decide),
    headerAt_fileHeader hblock hparent, fun h0 => absurd h0 (by decide), hz⟩
  have hk : b + 1 + max 1 (min (0 + 1) n) + extensionsAt 0 = b + 1 + 1 := by
    have : extensionsAt 0 = 0 := rfl
    omega
  rw [hk]
  exact h

/-- The number of blocks that a file is handed. -/
def fileBlocks (n : Nat) : Nat := 1 + max 1 n + extensionsAt n

/-- A file's blocks are valid exactly if it has no extension block. -/
theorem createfileheaderblock_spec (ffs : Bool) {z : List Write} (filename date src : List Byte)
    {a : Alloc} (hhd : 1 ≤ hd) (hhd' : hd ≤ 2) (h : Handed hd b a) (hparent : IsBlock parent)
    (hz : ∀ w ∈ z, Valid w)
    (hroom : b + fileBlocks (dataBlocks ffs src.length) ≤ 2 * halfBlocks hd) :
    IsBlock (createfileheaderblock z parent filename date src a ffs).1 ∧
    Handed hd (b + fileBlocks (dataBlocks ffs src.length))
      (createfileheaderblock z parent filename date src a ffs).2.2 ∧
    ((∀ w ∈ (createfileheaderblock z parent filename date src a ffs).2.1, Valid w) ↔
      dataBlocks ffs src.length ≤ extensionBlocks) := by
  generalize hn : dataBlocks ffs src.length = n at hroom ⊢
  rw [fileBlocks] at hroom ⊢
  obtain ⟨hnew, hhanded⟩ := getblock_handed hhd hhd' h (by omega)
  obtain ⟨hnew', hhanded'⟩ := getblock_handed hhd hhd' hhanded (by omega)
  have hblock := isBlock_handed hhd hhd' (by omega : b < 2 * halfBlocks hd)
  have hdata := isBlock_handed hhd hhd' (by omega : b + 1 < 2 * halfBlocks hd)
  rw [← hnew] at hblock
  rw [← hnew'] at hdata
  simp only [createfileheaderblock, hn]
  have hstart := loopAt_start (n := n) ffs filename date src hblock hparent hdata hhanded' hz
  have hend := loopAt_fileLoop hhd hhd' hblock hn.symm (by omega) (by omega : 0 + n = n) hstart
  refine ⟨hblock, ?_, ?_⟩
  · have hk : b + (1 + max 1 n + extensionsAt n) =
        b + 1 + max 1 (min (n + 1) n) + extensionsAt n := by omega
    rw [hk]
    exact hend.handed
  · generalize fileLoop ffs (getblock a).1 n _ = s at hend ⊢
    have hfew : n ≤ extensionBlocks ↔ extensionsAt n = 0 := by
      simp only [extensionsAt, extensionBlocks]
      omega
    rw [hfew, closeFile, ← hend.extensionblocks]
    split_ifs with hpos
    · refine iff_of_false (fun hall => ?_) (by omega)
      have he : 0 < extensionsAt n := hend.extensionblocks ▸ hpos
      exact not_valid_lastExtension (hend.extension he) (hend.extensionblock he)
        (hall _ (by simp))
    · refine iff_of_true (fun w hw => ?_) (by omega)
      rcases List.mem_append.mp hw with hw | hw
      · exact hend.written w hw
      · obtain rfl := List.mem_singleton.mp hw
        exact valid_header hend.header

/-! ### The image -/

/-- The directory, once its file is entered. -/
theorem createdirheaderblock_spec (filename date : List Byte) {a : Alloc} (hhd : 1 ≤ hd)
    (hhd' : hd ≤ 2) (h : Handed hd b a) (hb : b < 2 * halfBlocks hd) (hparent : IsBlock parent) :
    IsBlock (createdirheaderblock parent filename date a).1 ∧
    Handed hd (b + 1) (createdirheaderblock parent filename date a).2.2 ∧
    ∀ (hash : Nat) (fblock : Int), hash < 72 →
      Valid ⟨.dirHeader parent, (createdirheaderblock parent filename date a).1, diskChecksum
        (pl (createdirheaderblock parent filename date a).2.1 (24 + hash * 4) fblock) 20⟩ := by
  obtain ⟨hnew, hhanded⟩ := getblock_handed hhd hhd' h hb
  have hblock := isBlock_handed hhd hhd' hb
  rw [← hnew] at hblock
  refine ⟨hblock, hhanded, fun hash fblock hhash => ?_⟩
  obtain ⟨h2, hlt⟩ := hblock
  obtain ⟨h2', hlt'⟩ := hparent
  simp only [createdirheaderblock, Valid]
  have hfront : ∀ {off : Nat} {sector : Block}, off + 4 ≤ 24 → (pl (pl (pl (putName (sector.blit 420
      date) 432 filename) 500 parent) 508 2) (24 + hash * 4) fblock).getLong off =
      sector.getLong off := by
    intro off sector hoff
    rw [getLong_pl_ne (by omega), getLong_pl_ne (by omega), getLong_pl_ne (by omega),
      getLong_putName (by omega), getLong_blit_ne (by omega)]
  refine ⟨?_, ?_, ?_, longSum_diskChecksum ?_⟩
  · rw [getLong_diskChecksum (by omega), hfront (by omega), getLong_pl]
    simp only
    omega
  · rw [getLong_diskChecksum (by omega), getLong_pl_ne (by omega), getLong_pl_ne (by omega),
      getLong_pl]
    omega
  · rw [getLong_diskChecksum (by omega), hfront (by omega), getLong_pl_ne (by omega),
      getLong_pl_ne (by omega), getLong_zeroBlock]
  · rw [hfront (by omega), getLong_pl_ne (by omega), getLong_pl_ne (by omega), getLong_zeroBlock]

theorem dirhash_lt (upper : List Byte) : dirhash upper < 72 := Nat.mod_lt _ (by omega)

/-- The blocks of the image, with the executable that fits on it. -/
theorem valid_exeImage_iff {src : List Byte} (l : Labels) (hhd : 1 ≤ hd) (hhd' : hd ≤ 2)
    (hroom : 3 + fileBlocks (dataBlocks ffs src.length) ≤ 2 * halfBlocks hd) :
    (∀ w ∈ exeImage src hd ffs l, Valid w) ↔ dataBlocks ffs src.length ≤ extensionBlocks := by
  have hm := halfBlocks_eq hd
  have hroot : IsBlock (880 * hd) := by
    simp only [IsBlock]
    omega
  have hscript : dataBlocks ffs (chars "runme.exe").length = 1 := by cases ffs <;> decide
  have htwo : fileBlocks 1 = 2 := rfl
  obtain ⟨hdblock, hdir, hdirectory⟩ := createdirheaderblock_spec (chars "s") (l.date 0) hhd hhd'
    handed_first (by omega) hroot
  rw [exeImage]
  generalize createdirheaderblock (880 * hd) (chars "s") (l.date 0) ⟨firstBitmap hd, 880 * hd⟩ = d
    at hdblock hdir hdirectory ⊢
  obtain ⟨-, hfile, hfirst⟩ := createfileheaderblock_spec ffs (chars "startup-sequence")
    (l.date 1) (chars "runme.exe") hhd hhd' hdir hdblock
    (fun w hw => absurd hw List.not_mem_nil) (by rw [hscript, htwo]; omega)
  rw [hscript, htwo] at hfile
  have hscripts := hfirst.mpr (by rw [hscript]; decide)
  simp only
  generalize createfileheaderblock [] d.1 (chars "startup-sequence") (l.date 1) (chars "runme.exe")
    d.2.2 ffs = f at hfile hscripts ⊢
  have hz : ∀ w ∈ f.2.1 ++ [⟨.dirHeader (880 * hd), d.1, diskChecksum (pl d.2.1
      (24 + dirhash (chars "STARTUP-SEQUENCE") * 4) f.1) 20⟩], Valid w := by
    intro w hw
    rcases List.mem_append.mp hw with hw | hw
    · exact hscripts w hw
    · obtain rfl := List.mem_singleton.mp hw
      exact hdirectory _ _ (dirhash_lt _)
  obtain ⟨-, -, hexe⟩ := createfileheaderblock_spec ffs (chars "runme.exe") (l.date 2) src hhd
    hhd' hfile hroot hz (by omega)
  rw [← hexe]
  constructor
  · exact fun hall w hw => hall w (List.mem_append_left _ hw)
  · intro hall w hw
    rcases List.mem_append.mp hw with hw | hw
    · exact hall w hw
    · simp only [List.mem_cons, List.not_mem_nil, or_false] at hw
      rcases hw with rfl | rfl | rfl <;> trivial

theorem image_of_fits {src : List Byte} {l : Labels}
    (hfits : (createimagefromexe src hd ffs l).1 = 1) :
    (createimagefromexe src hd ffs l).2 = exeImage src hd ffs l := by
  rw [createimagefromexe] at hfits ⊢
  split
  case isTrue h =>
    rw [if_pos h] at hfits
    exact absurd hfits Nat.zero_ne_one
  case isFalse => rfl

/-- **Metadata blocks.** All that is written is valid exactly if the executable needs no
extension block. -/
theorem valid_image_iff {src : List Byte} (l : Labels) (hhd : 1 ≤ hd) (hhd' : hd ≤ 2)
    (hfits : (createimagefromexe src hd ffs l).1 = 1) :
    (∀ w ∈ (createimagefromexe src hd ffs l).2, Valid w) ↔
      src.length ≤ 72 * payloadSize ffs := by
  have hroom := (createimagefromexe_ret src hd ffs l).mp hfits
  have hm := halfBlocks_eq hd
  have hfew : src.length ≤ 72 * payloadSize ffs ↔ dataBlocks ffs src.length ≤ extensionBlocks := by
    have hlt := lt_dataBlocks ffs src.length 72
    simp only [extensionBlocks]
    omega
  have hext : extensionsAt (dataBlocks ffs src.length) ≤
      (dataBlocks ffs src.length + 71) / 72 - 1 := by
    simp only [extensionsAt, extensionBlocks]
    omega
  rw [image_of_fits hfits, hfew]
  exact valid_exeImage_iff l hhd hhd' (by rw [fileBlocks]; omega)

theorem valid_image_small :
    (∀ w ∈ (createimagefromexe (zeros 8) 1 false noLabels).2, Valid w) ↔
      (zeros 8).length ≤ 72 * payloadSize false :=
  valid_image_iff noLabels le_rfl (by omega) ((createimagefromexe_ret ..).mpr (by decide))

/-- With 73 data blocks there is an extension block, and it is not valid. -/
theorem last_extension_not_valid : ¬ ∀ (src : List Byte) (ffs : Bool) (hd : Nat) (l : Labels),
    1 ≤ hd → hd ≤ 2 → (createimagefromexe src hd ffs l).1 = 1 →
    ∀ w ∈ (createimagefromexe src hd ffs l).2, Valid w := by
  intro h
  have hlen : (zeros (72 * 488 + 1)).length = 72 * 488 + 1 := List.length_replicate
  have hfits : (createimagefromexe (zeros (72 * 488 + 1)) 1 false noLabels).1 = 1 :=
    (createimagefromexe_ret ..).mpr (by rw [hlen]; decide)
  have hall := h (zeros (72 * 488 + 1)) false 1 noLabels le_rfl (by omega) hfits
  rw [image_of_fits hfits, valid_exeImage_iff noLabels le_rfl (by omega) (by rw [hlen]; decide),
    hlen] at hall
  exact absurd hall (by decide)

end LibretroUae.Disk
