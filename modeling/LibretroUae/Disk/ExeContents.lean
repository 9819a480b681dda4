import LibretroUae.Disk.ExeBlocks

/-!
# LibretroUae.Disk.ExeContents

**The executable read back from its disk.** The header and the extension blocks of the file list
its data blocks in order, and these hold the bytes of the executable. Each block comes from its own
call of `getblock`, and the bitmap of the disk has exactly those blocks as used.
-/

namespace LibretroUae.Disk

open Lib Lib.Image

/-! ### Blocks of the image -/

/-- A block of the image: what was written there last. -/
def blockOf (z : List Write) (b : Nat) : Block :=
  z.foldl (fun m w => if w.block = (b : Int) then w.sector else m) zeroBlock

theorem blockOf_append (z : List Write) (w : Write) (b : Nat) :
    blockOf (z ++ [w]) b = if w.block = (b : Int) then w.sector else blockOf z b := by
  rw [blockOf, List.foldl_append]
  rfl

theorem blockOf_same {z : List Write} {w : Write} {b : Nat} (h : w.block = (b : Int)) :
    blockOf (z ++ [w]) b = w.sector := by
  rw [blockOf_append, if_pos h]

theorem blockOf_other {z : List Write} {w : Write} {b : Nat} (h : w.block ≠ (b : Int)) :
    blockOf (z ++ [w]) b = blockOf z b := by
  rw [blockOf_append, if_neg h]

/-- The blocks that a header or an extension block lists, in order. -/
def listedBlocks (sector : Block) : List Nat :=
  (List.range (sector.getLong 8)).map fun i => sector.getLong (entryAt i)

/-- The bytes of the file in a data block. -/
def payload (ffs : Bool) (sector : Block) : List Byte :=
  if ffs then sector.slice 0 512 else sector.slice 24 488

/-- The image has a file: its header and extension blocks one behind the other, which list its data
blocks, and these hold its bytes. -/
structure HoldsFile (z : List Write) (ffs : Bool) (header : Nat) (tables data : List Nat)
    (src : List Byte) : Prop where
  first : tables.head? = some header
  chain : ∀ j < tables.length,
    (blockOf z (tables.getD j 0)).getLong 504 = tables.getD (j + 1) 0
  lists : tables.flatMap (fun b => listedBlocks (blockOf z b)) = data
  size : (blockOf z header).getLong 324 = src.length
  payloads : (data.flatMap fun b => payload ffs (blockOf z b)).take src.length = src
  sequence : ffs = false → ∀ i < data.length,
    (blockOf z (data.getD i 0)).getLong 8 = i + 1 ∧
      (blockOf z (data.getD i 0)).getLong 16 = data.getD (i + 1) 0

/-! ### The calls of `getblock` -/

def firstAlloc (hd : Nat) : Alloc := ⟨firstBitmap hd, 880 * hd⟩

/-- The bitmap after `k` calls. -/
def allocAfter (hd : Nat) : Nat → Alloc
  | 0 => firstAlloc hd
  | k + 1 => (getblock (allocAfter hd k)).2

variable {hd : Nat}

theorem handed_allocAfter (hhd : 1 ≤ hd) (hhd' : hd ≤ 2) {k : Nat} (hk : k ≤ 2 * halfBlocks hd) :
    Handed hd k (allocAfter hd k) := by
  induction k with
  | zero => exact handed_first
  | succ k ih => exact (getblock_handed hhd hhd' (ih (by omega)) hk).2

theorem getblock_allocAfter (hhd : 1 ≤ hd) (hhd' : hd ≤ 2) {k : Nat} (hk : k < 2 * halfBlocks hd) :
    getblock (allocAfter hd k) = (↑(handed hd k), allocAfter hd (k + 1)) :=
  Prod.ext (getblock_handed hhd hhd' (handed_allocAfter hhd hhd' hk.le) hk).1 rfl

/-- No block is handed out twice. -/
theorem handed_inj {j k : Nat} (hj : j < 2 * halfBlocks hd) (hk : k < 2 * halfBlocks hd)
    (h : handed hd j = handed hd k) : j = k := by
  have hhalf := halfBlocks_eq hd
  rw [handed, handed] at h
  split_ifs at h <;> omega

/-- The blocks that were handed out are used, and the root and the bitmap block. -/
theorem usedBefore_iff (hhd : 1 ≤ hd) {k : Nat} (hk : k ≤ 2 * halfBlocks hd) (i : Nat) :
    usedBefore hd k i ↔ i < 2 ∨ i = 880 * hd ∨ i = 880 * hd + 1 ∨ ∃ j < k, i = handed hd j := by
  induction k with
  | zero =>
    rw [usedBefore]
    have hnone : ¬ ∃ j < 0, i = handed hd j := by
      rintro ⟨j, hj, -⟩
      exact Nat.not_lt_zero j hj
    simp only [hnone, or_false]
    omega
  | succ k ih =>
    rw [usedBefore_succ hhd hk, ih (by omega)]
    constructor
    · rintro ((hi | hi | hi | ⟨j, hj, rfl⟩) | rfl)
      · exact Or.inl hi
      · exact Or.inr (Or.inl hi)
      · exact Or.inr (Or.inr (Or.inl hi))
      · exact Or.inr (Or.inr (Or.inr ⟨j, by omega, rfl⟩))
      · exact Or.inr (Or.inr (Or.inr ⟨k, Nat.lt_succ_self k, rfl⟩))
    · rintro (hi | hi | hi | ⟨j, hj, rfl⟩)
      · exact Or.inl (Or.inl hi)
      · exact Or.inl (Or.inr (Or.inl hi))
      · exact Or.inl (Or.inr (Or.inr (Or.inl hi)))
      · rcases Nat.lt_succ_iff_lt_or_eq.mp hj with hlt | rfl
        · exact Or.inl (Or.inr (Or.inr (Or.inr ⟨j, hlt, rfl⟩)))
        · exact Or.inr rfl

/-- The root, the bitmap block and the boot block are not handed out. -/
theorem handed_ne (hhd : 1 ≤ hd) {k : Nat} (hk : k < 2 * halfBlocks hd) :
    handed hd k ≠ 880 * hd ∧ handed hd k ≠ 880 * hd + 1 ∧ handed hd k ≠ 0 := by
  have hhalf := halfBlocks_eq hd
  rw [handed]
  split_ifs <;> omega

/-! ### The blocks of a file -/

/-- Which call hands out data block `t` of a file whose header is from call `b`. -/
def dataCall (b t : Nat) : Nat := b + 1 + t + extensionsAt t

/-- Which call hands out extension block `e`, counted from 1. -/
def extCall (b e : Nat) : Nat := b + 1 + 73 * e

/-- Table `j` of the file: the header, and the extension blocks from 1 on. -/
def tableCall (b j : Nat) : Nat := if j = 0 then b else extCall b j

theorem dataCall_lt {b i t : Nat} (h : i < t) : dataCall b i < dataCall b t := by
  have hmono : extensionsAt i ≤ extensionsAt t := Nat.div_le_div_right (by omega)
  rw [dataCall, dataCall]
  omega

theorem dataCall_ne_extCall {b t e : Nat} (he : 0 < e) : dataCall b t ≠ extCall b e := by
  rw [dataCall, extCall, extensionsAt, extensionBlocks]
  omega

theorem extCall_lt {b d e : Nat} (h : d < e) : extCall b d < extCall b e := by
  rw [extCall, extCall]
  omega

/-- A table with its first `c` data blocks, and its pointer to the next table. -/
structure Lists (hd b k c next : Nat) (sector : Block) : Prop where
  entries : ∀ i < c, sector.getLong (entryAt i) = handed hd (dataCall b (72 * k + i))
  next : sector.getLong 504 = next

section

variable {b k c next off : Nat} {sector : Block} {v : Int}

theorem entryAt_bounds {i : Nat} (h : i < 72) : 24 ≤ entryAt i ∧ entryAt i ≤ 308 := by
  rw [entryAt]
  omega

theorem Lists.store (h : Lists hd b k c next sector) (hc : c ≤ 72)
    (hoff : off + 4 ≤ 24 ∨ 312 ≤ off ∧ off + 4 ≤ 504 ∨ 508 ≤ off) :
    Lists hd b k c next (pl sector off v) := by
  refine ⟨fun i hi => ?_, ?_⟩
  · have hat := @entryAt_bounds i (by omega)
    rw [getLong_pl_ne (by omega), h.entries i hi]
  · rw [getLong_pl_ne (by omega), h.next]

theorem Lists.checksum (h : Lists hd b k c next sector) (hc : c ≤ 72) :
    Lists hd b k c next (diskChecksum sector 20) := h.store hc (by omega)

theorem Lists.link (h : Lists hd b k c next sector) (hc : c ≤ 72) {next' : Nat}
    (hnext : next' < 2 ^ 32) : Lists hd b k c next' (pl sector 504 next') := by
  refine ⟨fun i hi => ?_, getLong_pl_nat _ _ hnext⟩
  have hat := @entryAt_bounds i (by omega)
  rw [getLong_pl_ne (by omega), h.entries i hi]

theorem Lists.push (h : Lists hd b k c next sector) (hc : c < 72)
    (hlt : handed hd (dataCall b (72 * k + c)) < 2 ^ 32) :
    Lists hd b k (c + 1) next
      (pl sector (308 - c * 4) (handed hd (dataCall b (72 * k + c)))) := by
  have hat := entryAt_bounds hc
  rw [← entryAt]
  refine ⟨fun i hi => ?_, ?_⟩
  · rcases Nat.lt_succ_iff_lt_or_eq.mp hi with hlt' | rfl
    · rw [getLong_pl_ne (by rw [entryAt, entryAt]; omega), h.entries i hlt']
    · exact getLong_pl_nat _ _ hlt
  · rw [getLong_pl_ne (by omega), h.next]

end

/-- A table that is written, with its count. -/
structure Table (hd b k c next : Nat) (sector : Block) : Prop
    extends Lists hd b k c next sector where
  count : sector.getLong 8 = c

/-- What is written to data block `i` of a file of `n`. -/
def dataSector (hd b n : Nat) (ffs : Bool) (block : Int) (src : List Byte) (i : Nat) : Block :=
  let sector2 := dataBlock ffs block (i + 1)
    ((src.drop (i * payloadSize ffs)).take (payloadSize ffs))
  let next : Nat := if i + 1 < n then handed hd (dataCall b (i + 1)) else 0
  if ffs then sector2 else diskChecksum (pl sector2 16 next) 20

/-- The loop before data block `t`, with what the image has of the file. -/
structure ListedAt (hd b n t e : Nat) (ffs : Bool) (src : List Byte) (block : Int)
    (s : FileLoop) : Prop where
  rest : s.src = src.drop (t * payloadSize ffs)
  datasec : s.datasec = t + 1
  datablock : t < n → s.datablock = handed hd (dataCall b t)
  extensionblock : 0 < e → s.extensionblock = handed hd (extCall b e)
  alloc : s.a = allocAfter hd (b + 1 + max 1 (min (t + 1) n) + e)
  data : ∀ i < t, blockOf s.z (handed hd (dataCall b i)) = dataSector hd b n ffs block src i
  full : ∀ j, 0 < j → j < e → Table hd b j 72 (handed hd (extCall b (j + 1)))
    (blockOf s.z (handed hd (extCall b j)))
  header : Lists hd b 0 (min t 72) (if 0 < e then handed hd (extCall b 1) else 0) s.sector
  size : s.sector.getLong 324 = src.length
  extension : 0 < e → Lists hd b e s.extensioncounter 0 s.sector3

section

variable {b n t e : Nat} {ffs : Bool} {src : List Byte} {block parent : Int} {s : FileLoop}

theorem handed_small (hhd : 1 ≤ hd) (hhd' : hd ≤ 2) {k : Nat} (hk : k < 2 * halfBlocks hd) :
    handed hd k < 2 ^ 32 := by
  have := (handed_bounds hhd hk).2.1
  omega

/-- Blocks of different calls are different. -/
theorem handed_cast_ne {j k : Nat} (hj : j < 2 * halfBlocks hd) (hk : k < 2 * halfBlocks hd)
    (h : j ≠ k) : (handed hd j : Int) ≠ handed hd k :=
  fun heq => h (handed_inj hj hk (Int.ofNat_inj.mp heq))

/-- A round that opens an extension block. -/
theorem listedAt_nextExtension (hhd : 1 ≤ hd) (hhd' : hd ≤ 2)
    (h : LoopAt hd b n t e ffs src.length block parent s) (hl : ListedAt hd b n t e ffs src block s)
    (ht : t < n) (hroom : b + 1 + (t + 1) + e < 2 * halfBlocks hd)
    (hfull : s.extensioncounter = extensionBlocks) :
    ListedAt hd b n t (e + 1) ffs src block (nextExtension block s) := by
  have ht72 : t = 72 * (e + 1) := by
    have hcounter := h.extensioncounter
    rw [hfull, extensionBlocks] at hcounter
    omega
  have hcall : b + 1 + max 1 (min (t + 1) n) + e = extCall b (e + 1) := by
    rw [extCall]
    omega
  have hlast : extCall b (e + 1) < 2 * halfBlocks hd := by
    rw [extCall]
    omega
  have hsmall := handed_small hhd hhd' hlast
  have hnew : getblock s.a =
      (↑(handed hd (extCall b (e + 1))), allocAfter hd (extCall b (e + 1) + 1)) := by
    rw [hl.alloc, hcall, getblock_allocAfter hhd hhd' hlast]
  have halloc : extCall b (e + 1) + 1 = b + 1 + max 1 (min (t + 1) n) + (e + 1) := by omega
  have hempty : Lists hd b (e + 1) 0 0 (pl (pl (pl zeroBlock 0 16) 500 block) 508 (-3)) := by
    refine ⟨fun i hi => absurd hi (Nat.not_lt_zero i), ?_⟩
    rw [getLong_pl_ne (by omega), getLong_pl_ne (by omega), getLong_pl_ne (by omega),
      getLong_zeroBlock]
  simp only [nextExtension, hnew]
  split_ifs with hpos
  · -- the extension block that is full is written
    have he : 0 < e := h.extensionblocks ▸ hpos
    have hext := hl.extension he
    rw [hfull, extensionBlocks] at hext
    have hcur : extCall b e < 2 * halfBlocks hd := by
      have := @extCall_lt b e (e + 1) (Nat.lt_succ_self e)
      omega
    have hkept : ∀ {k : Nat}, k < 2 * halfBlocks hd → extCall b e ≠ k →
        (s.extensionblock ≠ (handed hd k : Int)) := by
      intro k hk hne
      rw [hl.extensionblock he]
      exact handed_cast_ne hcur hk hne
    refine ⟨hl.rest, hl.datasec, hl.datablock, fun _ => rfl, by rw [← halloc], fun i hi => ?_,
      fun j hj hje => ?_, ?_, hl.size, fun _ => hempty⟩
    · have hlt := @dataCall_lt b i t hi
      have hroomi : dataCall b i < 2 * halfBlocks hd := by
        rw [dataCall, extensionsAt, extensionBlocks] at *
        omega
      rw [blockOf_other (hkept hroomi (dataCall_ne_extCall he).symm)]
      exact hl.data i hi
    · rcases Nat.lt_succ_iff_lt_or_eq.mp hje with hlt | rfl
      · have hlt' := @extCall_lt b j e hlt
        rw [blockOf_other (hkept (by omega) (by omega))]
        exact hl.full j hj hlt
      · rw [blockOf_same (hl.extensionblock he)]
        have hlink := (((hext.store le_rfl (v := extensionBlocks) (by omega : 8 + 4 ≤ 24 ∨ _)).link le_rfl
          hsmall).store le_rfl (v := s.extensionblock) (by omega : 4 + 4 ≤ 24 ∨ _)).checksum le_rfl
        refine ⟨hlink, ?_⟩
        rw [getLong_diskChecksum (by omega), getLong_pl_ne (by omega), getLong_pl_ne (by omega),
          getLong_pl_nat _ _ (by decide)]
        rfl
    · rw [if_pos (Nat.succ_pos e)]
      have hheader := hl.header
      rwa [if_pos he] at hheader
  · have he : e = 0 := by
      have := h.extensionblocks
      omega
    subst he
    have hheader := hl.header.link (Nat.min_le_right t 72) hsmall
    refine ⟨hl.rest, hl.datasec, hl.datablock, fun _ => rfl, by rw [← halloc], hl.data,
      fun j hj hje => absurd hje (by omega), ?_, ?_, fun _ => hempty⟩
    · rw [if_pos (Nat.succ_pos 0)]
      exact hheader
    · exact (getLong_pl_ne (by omega)).trans hl.size

/-- A data block is written and listed. -/
theorem listedAt_nextData (hhd : 1 ≤ hd) (hhd' : hd ≤ 2)
    (h : LoopAt hd b n t e ffs src.length block parent s) (hl : ListedAt hd b n t e ffs src block s)
    (hn : n = dataBlocks ffs src.length) (ht : t < n) (he : e = extensionsAt (t + 1))
    (hroom : b + 1 + n + extensionsAt n ≤ 2 * halfBlocks hd)
    (hopen : s.extensioncounter < extensionBlocks) :
    ListedAt hd b n (t + 1) e ffs src block (nextData ffs block s) := by
  have hcur : dataCall b t < 2 * halfBlocks hd := by
    rw [dataCall, extensionsAt, extensionBlocks]
    rw [extensionsAt, extensionBlocks] at hroom
    omega
  have hsrc : s.src.drop (payloadSize ffs) = src.drop ((t + 1) * payloadSize ffs) := by
    rw [hl.rest, List.drop_drop, Nat.add_mul, Nat.one_mul]
  have hmore : (s.src.drop (payloadSize ffs)).length > 0 ↔ t + 1 < n := by
    rw [hsrc, List.length_drop, hn, lt_dataBlocks]
  -- the block for the next round
  obtain ⟨next, a, hnext, hdatablock, halloc, hvalue⟩ : ∃ (next : Nat) (a : Alloc),
      (if (s.src.drop (payloadSize ffs)).length > 0 then getblock s.a else (0, s.a)) =
        ((next : Int), a) ∧ (t + 1 < n → (next : Int) = handed hd (dataCall b (t + 1))) ∧
        a = allocAfter hd (b + 1 + max 1 (min (t + 1 + 1) n) + e) ∧
        next = if t + 1 < n then handed hd (dataCall b (t + 1)) else 0 := by
    by_cases hlt : t + 1 < n
    · have hcall : b + 1 + max 1 (min (t + 1) n) + e = dataCall b (t + 1) := by
        rw [dataCall, ← he]
        omega
      have hlast : dataCall b (t + 1) < 2 * halfBlocks hd := by
        rw [dataCall, extensionsAt, extensionBlocks]
        rw [extensionsAt, extensionBlocks] at hroom
        omega
      refine ⟨handed hd (dataCall b (t + 1)), allocAfter hd (dataCall b (t + 1) + 1), ?_,
        fun _ => rfl, ?_, (if_pos hlt).symm⟩
      · rw [if_pos (hmore.mpr hlt), hl.alloc, hcall, getblock_allocAfter hhd hhd' hlast]
      · have hk : b + 1 + max 1 (min (t + 1 + 1) n) + e = dataCall b (t + 1) + 1 := by omega
        rw [hk]
    · refine ⟨0, s.a, if_neg (mt hmore.mp hlt), fun h => absurd h hlt, ?_, (if_neg hlt).symm⟩
      have hk : min (t + 1 + 1) n = min (t + 1) n := by omega
      rw [hk, hl.alloc]
  have hsector : (if ffs = true then dataBlock ffs block s.datasec (s.src.take (payloadSize ffs))
      else diskChecksum
        (pl (dataBlock ffs block s.datasec (s.src.take (payloadSize ffs))) 16 next) 20) =
      dataSector hd b n ffs block src t := by
    rw [hl.rest, hl.datasec, dataSector, ← hvalue]
  have hdata : ∀ i < t + 1,
      blockOf (s.z ++ [⟨.other, s.datablock, dataSector hd b n ffs block src t⟩])
        (handed hd (dataCall b i)) = dataSector hd b n ffs block src i := by
    intro i hi
    rcases Nat.lt_succ_iff_lt_or_eq.mp hi with hlt | rfl
    · have hlt' := @dataCall_lt b i t hlt
      rw [blockOf_other, hl.data i hlt]
      show s.datablock ≠ _
      rw [hl.datablock ht]
      exact handed_cast_ne hcur (by omega) (by omega)
    · exact blockOf_same (hl.datablock ht)
  have hfull : ∀ j, 0 < j → j < e → Table hd b j 72 (handed hd (extCall b (j + 1)))
      (blockOf (s.z ++ [⟨.other, s.datablock, dataSector hd b n ffs block src t⟩])
        (handed hd (extCall b j))) := by
    intro j hj hje
    have hroomj : extCall b j < 2 * halfBlocks hd := by
      rw [extCall]
      rw [extensionsAt, extensionBlocks] at hroom he
      omega
    rw [blockOf_other]
    · exact hl.full j hj hje
    · show s.datablock ≠ _
      rw [hl.datablock ht]
      exact handed_cast_ne hcur hroomj (dataCall_ne_extCall hj)
  have hcounter := h.extensioncounter
  have hsmall := handed_small hhd hhd' hcur
  simp only [extensionBlocks] at hcounter hopen
  by_cases hzero : s.extensionblocks = 0
  · have he0 : e = 0 := h.extensionblocks.symm.trans hzero
    subst he0
    have hct : s.extensioncounter = t := by omega
    simp only [nextData, hnext, if_pos hzero, hsector]
    have hheader := hl.header
    rw [Nat.min_eq_left (by omega)] at hheader
    have hpush := hheader.push (by omega) (by rwa [Nat.mul_zero, Nat.zero_add])
    rw [Nat.mul_zero, Nat.zero_add] at hpush
    refine ⟨hsrc, by rw [hl.datasec], hdatablock, fun h0 => absurd h0 (Nat.lt_irrefl 0), halloc,
      hdata, hfull, ?_, ?_, fun h0 => absurd h0 (Nat.lt_irrefl 0)⟩
    · rw [hl.datablock ht, hct, Nat.min_eq_left (by omega)]
      exact hpush
    · have hat := @entryAt_bounds s.extensioncounter hopen
      rw [entryAt] at hat
      exact (getLong_pl_ne (by omega)).trans hl.size
  · have hpos : 0 < e := by
      have := h.extensionblocks
      omega
    have hindex : 72 * e + s.extensioncounter = t := by omega
    simp only [nextData, hnext, if_neg hzero, hsector]
    have hpush := (hl.extension hpos).push hopen (by rwa [hindex])
    refine ⟨hsrc, by rw [hl.datasec], hdatablock, hl.extensionblock, halloc, hdata, hfull, ?_,
      hl.size, fun _ => ?_⟩
    · have hmin : min (t + 1) 72 = min t 72 := by omega
      rw [hmin]
      exact hl.header
    · rw [hl.datablock ht]
      rwa [hindex] at hpush

theorem listedAt_fileRound (hhd : 1 ≤ hd) (hhd' : hd ≤ 2) (hblock : IsBlock block)
    (h : LoopAt hd b n t (extensionsAt t) ffs src.length block parent s)
    (hl : ListedAt hd b n t (extensionsAt t) ffs src block s) (hn : n = dataBlocks ffs src.length)
    (ht : t < n) (hroom : b + 1 + max 1 n + extensionsAt n ≤ 2 * halfBlocks hd) :
    ListedAt hd b n (t + 1) (extensionsAt (t + 1)) ffs src block (fileRound ffs block s) := by
  have hcounter := h.extensioncounter
  have hmono : extensionsAt (t + 1) ≤ extensionsAt n := Nat.div_le_div_right (by omega)
  rw [fileRound]
  split_ifs with hfull
  · have hnext : extensionsAt (t + 1) = extensionsAt t + 1 := by
      simp only [extensionsAt, extensionBlocks] at hcounter hfull ⊢
      omega
    rw [hnext] at hmono ⊢
    have hopened := loopAt_nextExtension hhd hhd' hblock h (by omega) hfull
    have hlisted := listedAt_nextExtension hhd hhd' h hl ht (by omega) hfull
    refine listedAt_nextData hhd hhd' hopened hlisted hn ht hnext.symm (by omega) ?_
    simp only [nextExtension]
    split_ifs <;> exact (by decide : 0 < extensionBlocks)
  · have hsame : extensionsAt (t + 1) = extensionsAt t := by
      have := h.inBlock
      simp only [extensionsAt, extensionBlocks] at hcounter hfull this ⊢
      omega
    rw [hsame]
    exact listedAt_nextData hhd hhd' h hl hn ht hsame.symm (by omega)
      (lt_of_le_of_ne h.inBlock hfull)

theorem listedAt_fileLoop (hhd : 1 ≤ hd) (hhd' : hd ≤ 2) (hblock : IsBlock block)
    (hn : n = dataBlocks ffs src.length)
    (hroom : b + 1 + max 1 n + extensionsAt n ≤ 2 * halfBlocks hd) {r : Nat} :
    ∀ {t : Nat} {s : FileLoop}, t + r = n →
      LoopAt hd b n t (extensionsAt t) ffs src.length block parent s →
      ListedAt hd b n t (extensionsAt t) ffs src block s →
      ListedAt hd b n n (extensionsAt n) ffs src block (fileLoop ffs block r s) := by
  induction r with
  | zero =>
    intro t s htr _ hl
    obtain rfl : t = n := by omega
    exact hl
  | succ r ih =>
    intro t s htr h hl
    have ht : t < n := by omega
    have hmore : s.src.length > 0 := by
      rw [h.src]
      exact (lt_dataBlocks ffs src.length t).mp (hn ▸ ht)
    rw [fileLoop, if_pos hmore]
    exact ih (by omega) (loopAt_fileRound hhd hhd' hblock h hn ht hroom)
      (listedAt_fileRound hhd hhd' hblock h hl hn ht hroom)

/-! ### A whole file -/

/-- How many data blocks table `j` of a file of `n` lists. -/
def tableCount (n j : Nat) : Nat := if j < extensionsAt n then 72 else n - 72 * extensionsAt n

/-- The table behind table `j`. -/
def tableNext (hd b n j : Nat) : Nat :=
  if j < extensionsAt n then handed hd (tableCall b (j + 1)) else 0

/-- The image has the blocks of a file whose header is from call `b`. -/
structure FileWritten (hd b n : Nat) (ffs : Bool) (src : List Byte) (block : Int)
    (z : List Write) : Prop where
  tables : ∀ j ≤ extensionsAt n, Table hd b j (tableCount n j) (tableNext hd b n j)
    (blockOf z (handed hd (tableCall b j)))
  data : ∀ i < n, blockOf z (handed hd (dataCall b i)) = dataSector hd b n ffs block src i
  size : (blockOf z (handed hd b)).getLong 324 = src.length

theorem tableCall_lt {j m : Nat} (hn : 0 < n) (hj : j ≤ extensionsAt n)
    (hroom : b + 1 + n + extensionsAt n ≤ m) : tableCall b j < m := by
  simp only [tableCall, extCall, extensionsAt, extensionBlocks] at *
  split_ifs <;> omega

theorem dataCall_room {i m : Nat} (hi : i < n) (hroom : b + 1 + n + extensionsAt n ≤ m) :
    dataCall b i < m := by
  simp only [dataCall, extensionsAt, extensionBlocks] at *
  omega

/-- A write to a block that is not from `getblock`. -/
theorem FileWritten.append {z : List Write} {w : Write}
    (h : FileWritten hd b n ffs src block z) (hn : 0 < n)
    (hroom : b + 1 + n + extensionsAt n ≤ 2 * halfBlocks hd)
    (hw : ∀ k < 2 * halfBlocks hd, w.block ≠ (handed hd k : Int)) :
    FileWritten hd b n ffs src block (z ++ [w]) := by
  refine ⟨fun j hj => ?_, fun i hi => ?_, ?_⟩
  · rw [blockOf_other (hw _ (tableCall_lt hn hj hroom))]
    exact h.tables j hj
  · rw [blockOf_other (hw _ (dataCall_room hi hroom))]
    exact h.data i hi
  · rw [blockOf_other (hw b (by omega))]
    exact h.size

/-- The last extension block and the header complete the file. -/
theorem fileWritten_closeFile
    (h : LoopAt hd b n n (extensionsAt n) ffs src.length (handed hd b) parent s)
    (hl : ListedAt hd b n n (extensionsAt n) ffs src (handed hd b) s) (hn : 0 < n)
    (hroom : b + 1 + n + extensionsAt n ≤ 2 * halfBlocks hd) :
    FileWritten hd b n ffs src (handed hd b) (closeFile (handed hd b) parent s) := by
  have hb : b < 2 * halfBlocks hd := by omega
  have hheader : Table hd b 0 (tableCount n 0) (tableNext hd b n 0) (diskChecksum s.sector 20) := by
    have hlists := hl.header.checksum (Nat.min_le_right n 72)
    have hcount : tableCount n 0 = min n 72 := by
      by_cases hpos : 0 < extensionsAt n
      · rw [tableCount, if_pos hpos]
        rw [extensionsAt, extensionBlocks] at hpos
        omega
      · rw [tableCount, if_neg hpos]
        rw [extensionsAt, extensionBlocks] at hpos ⊢
        omega
    have hnext : tableNext hd b n 0 =
        if 0 < extensionsAt n then handed hd (extCall b 1) else 0 := rfl
    rw [hcount, hnext]
    exact ⟨hlists, (getLong_diskChecksum (by omega)).trans h.header.count⟩
  -- all but the header, which is written last
  obtain ⟨z, hclose, htables, hdata⟩ : ∃ z : List Write,
      closeFile (handed hd b) parent s =
        z ++ [⟨.fileHeader parent, handed hd b, diskChecksum s.sector 20⟩] ∧
      (∀ j, 0 < j → j ≤ extensionsAt n → Table hd b j (tableCount n j) (tableNext hd b n j)
        (blockOf z (handed hd (extCall b j)))) ∧
      ∀ i < n, blockOf z (handed hd (dataCall b i)) =
        dataSector hd b n ffs (handed hd b) src i := by
    refine ⟨_, rfl, ?_⟩
    split_ifs with hpos
    · have he : 0 < extensionsAt n := h.extensionblocks ▸ hpos
      have hcur := tableCall_lt hn (Nat.le_refl (extensionsAt n)) hroom
      rw [tableCall, if_neg (by omega)] at hcur
      constructor
      · intro j hj hje
        rcases Nat.lt_or_eq_of_le hje with hlt | rfl
        · have hlt' := @extCall_lt b j _ hlt
          rw [blockOf_other]
          · rw [tableCount, if_pos hlt, tableNext, if_pos hlt, tableCall,
              if_neg (Nat.succ_ne_zero j)]
            exact hl.full j hj hlt
          · show s.extensionblock ≠ _
            rw [hl.extensionblock he]
            exact handed_cast_ne hcur (by omega) (by omega)
        · have hcounter := h.extensioncounter
          simp only [extensionBlocks] at hcounter
          have hopen := h.inBlock
          simp only [extensionBlocks] at hopen
          have hcount : tableCount n (extensionsAt n) = s.extensioncounter := by
            rw [tableCount, if_neg (Nat.lt_irrefl _)]
            omega
          rw [blockOf_same (hl.extensionblock he), hcount, tableNext, if_neg (Nat.lt_irrefl _)]
          refine ⟨((hl.extension he).store hopen (by omega)).checksum hopen, ?_⟩
          rw [getLong_diskChecksum (by omega), getLong_pl_nat _ _ (by omega)]
      · intro i hi
        rw [blockOf_other]
        · exact hl.data i hi
        · show s.extensionblock ≠ _
          rw [hl.extensionblock he]
          exact handed_cast_ne hcur (dataCall_room hi hroom) (dataCall_ne_extCall he).symm
    · refine ⟨fun j hj hje => ?_, hl.data⟩
      have := h.extensionblocks
      omega
  rw [hclose]
  refine ⟨fun j hj => ?_, fun i hi => ?_, ?_⟩
  · by_cases hj0 : j = 0
    · subst hj0
      rw [blockOf_same rfl]
      exact hheader
    · have hlt := tableCall_lt hn hj hroom
      rw [tableCall, if_neg hj0] at hlt ⊢
      rw [blockOf_other]
      · exact htables j (by omega) hj
      · refine handed_cast_ne hb hlt ?_
        rw [extCall]
        omega
  · rw [blockOf_other]
    · exact hdata i hi
    · refine handed_cast_ne hb (dataCall_room hi hroom) ?_
      rw [dataCall]
      omega
  · rw [blockOf_same rfl]
    exact (getLong_diskChecksum (by omega)).trans hl.size

/-! ### Reading the file back -/

theorem getD_map_range (f : Nat → Nat) (m j : Nat) :
    ((List.range m).map f).getD j 0 = if j < m then f j else 0 := by
  rw [List.getD_eq_getElem?_getD, List.getElem?_map]
  split_ifs with h
  · rw [List.getElem?_range h]
    rfl
  · rw [List.getElem?_eq_none (by rw [List.length_range]; omega)]
    rfl

/-- `m` full tables list the first `72 * m` data blocks. -/
theorem flatMap_tables (f : Nat → Nat) (m : Nat) :
    (List.range m).flatMap (fun j => (List.range 72).map fun i => f (72 * j + i)) =
      (List.range (72 * m)).map f := by
  induction m with
  | zero => rfl
  | succ m ih =>
    rw [@List.range_succ m, List.flatMap_append, ih, Nat.mul_succ, List.range_add, List.map_append,
      List.map_map, List.flatMap_singleton]
    rfl

theorem Table.listedBlocks_eq {k c next : Nat} {sector : Block} (h : Table hd b k c next sector) :
    listedBlocks sector = (List.range c).map fun i => handed hd (dataCall b (72 * k + i)) := by
  rw [listedBlocks, h.count]
  exact List.map_congr_left fun i hi => h.entries i (List.mem_range.mp hi)

theorem extensionsAt_le (n : Nat) : 72 * extensionsAt n ≤ n := by
  rw [extensionsAt, extensionBlocks]
  omega

/-- The tables list all data blocks, in order. -/
theorem FileWritten.lists {z : List Write} (h : FileWritten hd b n ffs src block z) :
    ((List.range (extensionsAt n + 1)).map fun j => handed hd (tableCall b j)).flatMap
      (fun b => listedBlocks (blockOf z b)) =
      (List.range n).map fun i => handed hd (dataCall b i) := by
  have htable : ∀ j ∈ List.range (extensionsAt n + 1),
      listedBlocks (blockOf z (handed hd (tableCall b j))) =
        (List.range (tableCount n j)).map fun i => handed hd (dataCall b (72 * j + i)) :=
    fun j hj => (h.tables j (Nat.le_of_lt_succ (List.mem_range.mp hj))).listedBlocks_eq
  have hfull : ∀ j ∈ List.range (extensionsAt n), ((List.range (tableCount n j)).map fun i =>
      handed hd (dataCall b (72 * j + i))) =
        (List.range 72).map fun i => handed hd (dataCall b (72 * j + i)) := by
    intro j hj
    rw [tableCount, if_pos (List.mem_range.mp hj)]
  have hsplit : n = 72 * extensionsAt n + (n - 72 * extensionsAt n) := by
    have := extensionsAt_le n
    omega
  calc _ = (List.range (extensionsAt n + 1)).flatMap (fun j =>
        (List.range (tableCount n j)).map fun i => handed hd (dataCall b (72 * j + i))) := by
        rw [List.flatMap_map]
        exact List.flatMap_congr htable
    _ = (List.range (extensionsAt n)).flatMap (fun j =>
          (List.range 72).map fun i => handed hd (dataCall b (72 * j + i))) ++
        (List.range (n - 72 * extensionsAt n)).map fun i =>
          handed hd (dataCall b (72 * extensionsAt n + i)) := by
        rw [List.range_succ, List.flatMap_append, List.flatMap_congr hfull, List.flatMap_singleton,
          tableCount, if_neg (Nat.lt_irrefl _)]
    _ = (List.range (72 * extensionsAt n)).map (fun i => handed hd (dataCall b i)) ++
        (List.range (n - 72 * extensionsAt n)).map fun i =>
          handed hd (dataCall b (72 * extensionsAt n + i)) := by
        rw [flatMap_tables fun i => handed hd (dataCall b i)]
    _ = (List.range n).map fun i => handed hd (dataCall b i) := by
        conv_rhs => rw [hsplit, List.range_add, List.map_append, List.map_map]
        rfl

/-- The piece of the source in data block `i`. -/
def piece (ffs : Bool) (src : List Byte) (i : Nat) : List Byte :=
  (src.drop (i * payloadSize ffs)).take (payloadSize ffs)

theorem length_piece_le (ffs : Bool) (src : List Byte) (i : Nat) :
    (piece ffs src i).length ≤ payloadSize ffs := by
  rw [piece, List.length_take]
  exact Nat.min_le_left _ _

theorem slice_blit_front {m : Block} {off len : Nat} {bs : List Byte} (h : bs.length ≤ len) :
    (m.blit off bs).slice off len =
      bs ++ (m.blit off bs).slice (off + bs.length) (len - bs.length) := by
  conv_lhs => rw [← Nat.add_sub_cancel' h, slice_add, slice_blit]

/-- A data block holds its piece of the source, and something behind it where that is short. -/
theorem payload_dataSector (i : Nat) :
    ∃ pad, payload ffs (dataSector hd b n ffs block src i) = piece ffs src i ++ pad := by
  have hle := length_piece_le ffs src i
  cases ffs with
  | true =>
    simp only [payload, dataSector, dataBlock, if_true]
    exact ⟨_, slice_blit_front hle⟩
  | false =>
    simp only [payload, dataSector, dataBlock, Bool.false_eq_true, if_false]
    rw [diskChecksum, pl, pl, Agree.slice (agree_putLong (by omega)),
      Agree.slice (agree_putLong (by omega))]
    exact ⟨_, slice_blit_front hle⟩

/-- A block that is not the last one holds a whole piece. -/
theorem payload_full (i : Nat) (h : (i + 1) * payloadSize ffs ≤ src.length) :
    payload ffs (dataSector hd b n ffs block src i) = piece ffs src i := by
  have hlen : (piece ffs src i).length = payloadSize ffs := by
    rw [piece, List.length_take, List.length_drop]
    rw [Nat.add_mul, Nat.one_mul] at h
    omega
  have hwhole : (payload ffs (dataSector hd b n ffs block src i)).length = payloadSize ffs := by
    rw [payload, payloadSize]
    split_ifs <;> exact length_slice _ _ _
  obtain ⟨pad, hpad⟩ := @payload_dataSector hd b n ffs src block i
  rw [hpad, List.length_append] at hwhole
  have hnil : pad = [] := List.length_eq_zero_iff.mp (by omega)
  rw [hpad, hnil, List.append_nil]

/-- The first `m` blocks hold the front of the source. -/
theorem flatMap_payload {m : Nat} (h : m * payloadSize ffs ≤ src.length) :
    (List.range m).flatMap (fun i => payload ffs (dataSector hd b n ffs block src i)) =
      src.take (m * payloadSize ffs) := by
  induction m with
  | zero =>
    rw [Nat.zero_mul, List.take_zero]
    rfl
  | succ m ih =>
    have hm : m * payloadSize ffs ≤ src.length := by
      rw [Nat.add_mul] at h
      omega
    rw [List.range_succ, List.flatMap_append, ih hm, List.flatMap_singleton, payload_full m h,
      piece, Nat.add_mul, Nat.one_mul, List.take_add]

/-- All blocks hold the source, up to its length. -/
theorem FileWritten.payloads {z : List Write} (h : FileWritten hd b n ffs src block z) (hn : 0 < n)
    (hblocks : n = dataBlocks ffs src.length) :
    (((List.range n).map fun i => handed hd (dataCall b i)).flatMap
      fun b => payload ffs (blockOf z b)).take src.length = src := by
  obtain ⟨m, rfl⟩ := Nat.exists_eq_add_of_lt hn
  rw [Nat.zero_add] at *
  have hpos : 0 < src.length - m * payloadSize ffs :=
    (lt_dataBlocks ffs src.length m).mp (hblocks ▸ Nat.lt_succ_self m)
  have hlast : src.length - (m + 1) * payloadSize ffs = 0 := by
    have := (lt_dataBlocks ffs src.length (m + 1)).not
    rw [← hblocks] at this
    omega
  have hpiece : piece ffs src m = src.drop (m * payloadSize ffs) := by
    refine List.take_of_length_le ?_
    rw [List.length_drop]
    rw [Nat.add_mul, Nat.one_mul] at hlast
    omega
  obtain ⟨pad, hpad⟩ := @payload_dataSector hd b (m + 1) ffs src block m
  have hdata : ∀ i ∈ List.range (m + 1), payload ffs (blockOf z (handed hd (dataCall b i))) =
      payload ffs (dataSector hd b (m + 1) ffs block src i) :=
    fun i hi => by rw [h.data i (List.mem_range.mp hi)]
  rw [List.flatMap_map, List.flatMap_congr hdata, List.range_succ, List.flatMap_append,
    flatMap_payload (by omega), List.flatMap_singleton, hpad, hpiece, ← List.append_assoc,
    List.take_append_drop]
  exact List.take_left

/-- The numbers and pointers of the data blocks of the old file system. -/
theorem sequence_dataSector (hhd : 1 ≤ hd) (hhd' : hd ≤ 2)
    (hroom : b + 1 + n + extensionsAt n ≤ 2 * halfBlocks hd) {i : Nat} (hi : i < n) :
    (dataSector hd b n false block src i).getLong 8 = i + 1 ∧
      (dataSector hd b n false block src i).getLong 16 =
        if i + 1 < n then handed hd (dataCall b (i + 1)) else 0 := by
  have hhalf := halfBlocks_eq hd
  simp only [dataSector, dataBlock, Bool.false_eq_true, if_false]
  constructor
  · rw [getLong_diskChecksum (by omega), getLong_pl_ne (by omega), getLong_blit_ne (by omega),
      getLong_pl_ne (by omega), getLong_pl_nat _ _ (by omega)]
  · rw [getLong_diskChecksum (by omega), getLong_pl_nat]
    split_ifs with hlt
    · exact handed_small hhd hhd' (dataCall_room hlt hroom)
    · decide

/-- The image has the file. -/
theorem FileWritten.holds {z : List Write} (h : FileWritten hd b n ffs src block z) (hhd : 1 ≤ hd)
    (hhd' : hd ≤ 2) (hn : 0 < n) (hblocks : n = dataBlocks ffs src.length)
    (hroom : b + 1 + n + extensionsAt n ≤ 2 * halfBlocks hd) :
    HoldsFile z ffs (handed hd b)
      ((List.range (extensionsAt n + 1)).map fun j => handed hd (tableCall b j))
      ((List.range n).map fun i => handed hd (dataCall b i)) src := by
  refine ⟨?_, fun j hj => ?_, h.lists, h.size, h.payloads hn hblocks, fun hffs i hi => ?_⟩
  · rw [List.range_succ_eq_map]
    rfl
  · rw [List.length_map, List.length_range] at hj
    rw [getD_map_range, getD_map_range, if_pos hj, (h.tables j (Nat.le_of_lt_succ hj)).next,
      tableNext]
    simp only [Nat.succ_lt_succ_iff]
  · rw [List.length_map, List.length_range] at hi
    subst hffs
    rw [getD_map_range, getD_map_range, if_pos hi, h.data i hi]
    exact sequence_dataSector hhd hhd' hroom hi

/-! ### The calls of a file -/

/-- A file that fits is written as a whole, with its blocks from the next calls. -/
theorem fileWritten_createfileheaderblock (ffs : Bool) (z : List Write) (filename date : List Byte)
    (hhd : 1 ≤ hd) (hhd' : hd ≤ 2) (hparent : IsBlock parent) (hz : ∀ w ∈ z, Valid w)
    (hsrc : 0 < src.length) (hn : n = dataBlocks ffs src.length)
    (hroom : b + fileBlocks n ≤ 2 * halfBlocks hd) (hdate : date.length = 12)
    (hname : filename.length ≤ 70) :
    ∃ z', createfileheaderblock z parent filename date src (allocAfter hd b) ffs =
        (↑(handed hd b), z', allocAfter hd (b + fileBlocks n)) ∧
      FileWritten hd b n ffs src (handed hd b) z' := by
  have hpos : 0 < n := by
    rw [hn, lt_dataBlocks]
    omega
  rw [fileBlocks] at hroom ⊢
  have hhalf := halfBlocks_eq hd
  have hsize : src.length ≤ n * 512 := by
    have hrest := (lt_dataBlocks ffs src.length n).not.mp (hn ▸ Nat.lt_irrefl n)
    have hp : payloadSize ffs ≤ 512 := by cases ffs <;> decide
    have := Nat.mul_le_mul_left n hp
    omega
  have hfirst := getblock_allocAfter hhd hhd' (by omega : b < 2 * halfBlocks hd)
  have hsecond := getblock_allocAfter hhd hhd' (by omega : b + 1 < 2 * halfBlocks hd)
  have hblock := isBlock_handed hhd hhd' (by omega : b < 2 * halfBlocks hd)
  have hdata := isBlock_handed hhd hhd' (by omega : b + 1 < 2 * halfBlocks hd)
  have hafter := handed_allocAfter hhd hhd' (by omega : b + 1 + 1 ≤ 2 * halfBlocks hd)
  have hstart := loopAt_start (n := n) ffs filename date src hblock hparent hdata hafter hz
  have hlisted : ListedAt hd b n 0 (extensionsAt 0) ffs src (handed hd b) {
      z := z
      sector := fileHeader (handed hd b) (handed hd (b + 1)) parent n src.length filename date
      sector3 := zeroBlock, a := allocAfter hd (b + 1 + 1), datablock := handed hd (b + 1)
      datasec := 1, extensionblock := 0, extensioncounter := 0, extensionblocks := 0
      src := src } := by
    have h0 : extensionsAt 0 = 0 := rfl
    refine ⟨by rw [Nat.zero_mul, List.drop_zero], rfl, fun _ => rfl,
      fun he => absurd he (Nat.lt_irrefl 0), ?_, fun i hi => absurd hi (Nat.not_lt_zero i),
      fun j hj hje => absurd hje (by omega), ⟨fun i hi => absurd hi (by omega), ?_⟩, ?_,
      fun he => absurd he (Nat.lt_irrefl 0)⟩
    · have hk : b + 1 + max 1 (min (0 + 1) n) + extensionsAt 0 = b + 1 + 1 := by omega
      rw [hk]
    · rw [fileHeader, getLong_pl_ne (by omega), getLong_pl_ne (by omega),
        getLong_putName (by omega), getLong_blit_ne (by omega), getLong_pl_ne (by omega), getLong_pl_ne (by omega),
        getLong_pl_ne (by omega), getLong_pl_ne (by omega), getLong_pl_ne (by omega),
        getLong_zeroBlock]
      rfl
    · rw [fileHeader, getLong_pl_ne (by omega), getLong_pl_ne (by omega),
        getLong_putName (by omega), getLong_blit_ne (by omega), getLong_pl_nat _ _ (by omega)]
  have hroom' : b + 1 + max 1 n + extensionsAt n ≤ 2 * halfBlocks hd := by omega
  have hend := loopAt_fileLoop hhd hhd' hblock hn hroom' (Nat.zero_add n) hstart
  have hall := listedAt_fileLoop hhd hhd' hblock hn hroom' (Nat.zero_add n) hstart hlisted
  have hwritten := fileWritten_closeFile hend hall hpos (by omega)
  refine ⟨_, ?_, hwritten⟩
  simp only [createfileheaderblock, hfirst, hsecond, ← hn]
  rw [hall.alloc]
  have hk : b + 1 + max 1 (min (n + 1) n) + extensionsAt n =
      b + (1 + max 1 n + extensionsAt n) := by omega
  rw [hk]

end

/-! ### The bitmap block -/

section

variable {bitmap : Nat → Byte}

theorem bitmapMask_lt (bitmap : Nat → Byte) (i c : Nat) : bitmapMask bitmap i c < 2 ^ c := by
  induction c with
  | zero => exact Nat.one_pos
  | succ c ih =>
    rw [bitmapMask, Nat.pow_succ]
    split_ifs <;> omega

theorem testBit_bitmapMask (bitmap : Nat → Byte) (i : Nat) {c j : Nat} (hj : j < c) :
    (bitmapMask bitmap i c).testBit j = decide (bitmap (2 + i * 32 + j) = 0) := by
  induction c with
  | zero => exact absurd hj (Nat.not_lt_zero j)
  | succ c ih =>
    rw [bitmapMask, Nat.add_comm]
    have hlt := bitmapMask_lt bitmap i c
    rcases Nat.lt_succ_iff_lt_or_eq.mp hj with hjc | rfl
    · split_ifs
      · rw [Nat.testBit_two_pow_add_gt hjc, ih hjc]
      · rw [Nat.zero_add, ih hjc]
    · split_ifs with hfree
      · rw [Nat.testBit_two_pow_add_eq, Nat.testBit_lt_two_pow hlt, hfree]
        rfl
      · rw [Nat.zero_add, Nat.testBit_lt_two_pow hlt, decide_eq_false hfree]

theorem getLong_foldl_putLong (f : Nat → Nat) (sector : Block) {m w : Nat} (hw : w < m) :
    ((List.range m).foldl (fun sector i => sector.putLong (4 + i * 4) (f i)) sector).getLong
      (4 + w * 4) = f w % 2 ^ 32 := by
  induction m with
  | zero => exact absurd hw (Nat.not_lt_zero w)
  | succ m ih =>
    rw [List.range_succ, List.foldl_append, List.foldl_cons, List.foldl_nil]
    rcases Nat.lt_succ_iff_lt_or_eq.mp hw with hlt | rfl
    · rw [getLong_putLong_of_ne (by omega), ih hlt]
    · exact getLong_putLong _ _ _

/-- The bitmap block has block `q` as free. -/
def freeBit (sector : Block) (q : Nat) : Bool :=
  (sector.getLong (4 + (q - 2) / 32 * 4)).testBit ((q - 2) % 32)

theorem freeBit_createbitmapblock {last q : Nat} (h2 : 2 ≤ q) (hq : q < last) :
    freeBit (createbitmapblock bitmap last) q = decide (bitmap q = 0) := by
  have hword : (q - 2) / 32 < (last - 2) / 32 + 1 := by omega
  have hbit : (q - 2) % 32 < min 32 (last - 2 - (q - 2) / 32 * 32) := by omega
  have hsmall : bitmapMask bitmap ((q - 2) / 32) (min 32 (last - 2 - (q - 2) / 32 * 32)) < 2 ^ 32 :=
    Nat.lt_of_lt_of_le (bitmapMask_lt _ _ _)
      (Nat.pow_le_pow_right (by decide) (Nat.min_le_left _ _))
  have hplace : 2 + (q - 2) / 32 * 32 + (q - 2) % 32 = q := by omega
  rw [freeBit, createbitmapblock, diskChecksum, getLong_pl_ne (by omega),
    getLong_foldl_putLong _ _ hword, Nat.mod_eq_of_lt hsmall, testBit_bitmapMask _ _ hbit, hplace]

end

/-! ### The image -/

/-- The twelve bytes of `disk_date`. -/
def diskDate (days mins ticks : BitVec 32) : List Byte := be32 days ++ be32 mins ++ be32 ticks

/-- What the caller and the clock put into blocks. -/
def clockLabels (diskName : List Byte) (bootblock : Block)
    (clock : Nat → BitVec 32 × BitVec 32 × BitVec 32) : Labels :=
  ⟨diskName, bootblock, fun k => diskDate (clock k).1 (clock k).2.1 (clock k).2.2⟩

/-- The directory, and the executable's file with what was written up to there. -/
def exeFiles (src : List Byte) (hd : Nat) (ffs : Bool) (l : Labels) :
    Int × Int × List Write × Alloc :=
  let (dblock1, sector2, a) := createdirheaderblock (880 * hd) (chars "s") (l.date 0)
    ⟨firstBitmap hd, 880 * hd⟩
  let (fblock1, z, a) := createfileheaderblock [] dblock1 (chars "startup-sequence") (l.date 1)
    (chars "runme.exe") a ffs
  let sector2 := diskChecksum (pl sector2 (24 + dirhash (chars "STARTUP-SEQUENCE") * 4) fblock1) 20
  let z := z ++ [⟨.dirHeader (880 * hd), dblock1, sector2⟩]
  (dblock1, createfileheaderblock z (880 * hd) (chars "runme.exe") (l.date 2) src a ffs)

/-- The root, the bitmap and the boot block are written behind the files. -/
theorem exeImage_eq (src : List Byte) (hd : Nat) (ffs : Bool) (l : Labels) :
    exeImage src hd ffs l =
      (((exeFiles src hd ffs l).2.2.1 ++ [⟨.other, 880 * hd, rootBlock (880 * hd + 1) l.diskName
          (l.date 3) [(dirhash (chars "RUNME.EXE"), (exeFiles src hd ffs l).2.1),
            (dirhash (chars "S"), (exeFiles src hd ffs l).1)]⟩]) ++
        [⟨.other, 880 * hd + 1,
          createbitmapblock (exeFiles src hd ffs l).2.2.2.bitmap (1760 * hd)⟩]) ++
        [⟨.other, 0, l.bootblock⟩] := by
  rw [List.append_assoc, List.append_assoc]
  rfl

/-- All calls for the disk: the directory, the script's header and data, and the executable. -/
def exeCalls (ffs : Bool) (size : Nat) : Nat := 3 + fileBlocks (dataBlocks ffs size)

section

variable {src : List Byte} {ffs : Bool}

theorem exeFiles_spec (l : Labels) (hhd : 1 ≤ hd) (hhd' : hd ≤ 2) (hsrc : 0 < src.length)
    (hroom : exeCalls ffs src.length ≤ 2 * halfBlocks hd) (hdate : ∀ k, (l.date k).length = 12) :
    ∃ z, exeFiles src hd ffs l =
        (↑(handed hd 0), ↑(handed hd 3), z, allocAfter hd (exeCalls ffs src.length)) ∧
      FileWritten hd 3 (dataBlocks ffs src.length) ffs src (handed hd 3) z := by
  have hhalf := halfBlocks_eq hd
  rw [exeCalls] at hroom ⊢
  have hroot : IsBlock (880 * hd) := by
    simp only [IsBlock]
    omega
  have hscript : dataBlocks ffs (chars "runme.exe").length = 1 := by cases ffs <;> decide
  have htwo : fileBlocks 1 = 2 := rfl
  obtain ⟨hdblock, hdir, hdirectory⟩ := createdirheaderblock_spec (chars "s") (l.date 0) hhd hhd'
    (handed_first : Handed hd 0 _) (by omega) hroot
  have hdirblock : (createdirheaderblock (880 * hd) (chars "s") (l.date 0)
      ⟨firstBitmap hd, 880 * hd⟩).1 = handed hd 0 := congrArg Prod.fst
        (getblock_allocAfter hhd hhd' (by omega : 0 < 2 * halfBlocks hd))
  have hdiralloc : (createdirheaderblock (880 * hd) (chars "s") (l.date 0)
      ⟨firstBitmap hd, 880 * hd⟩).2.2 = allocAfter hd 1 := rfl
  rw [exeFiles]
  generalize createdirheaderblock (880 * hd) (chars "s") (l.date 0) ⟨firstBitmap hd, 880 * hd⟩ = d
    at hdblock hdir hdirectory hdirblock hdiralloc ⊢
  obtain ⟨-, -, hfirst⟩ := createfileheaderblock_spec ffs (chars "startup-sequence")
    (l.date 1) (chars "runme.exe") hhd hhd' hdir hdblock
    (fun w hw => absurd hw List.not_mem_nil) (by rw [hscript, htwo]; omega)
  have hscripts := hfirst.mpr (by rw [hscript]; decide)
  obtain ⟨z₁, hfile, -⟩ := fileWritten_createfileheaderblock (b := 1) ffs []
    (chars "startup-sequence") (l.date 1) hhd hhd' hdblock
    (fun w hw => absurd hw List.not_mem_nil) (by decide) hscript.symm (by rw [htwo]; omega)
    (hdate 1) (by decide)
  rw [htwo] at hfile
  simp only [hdiralloc, hfile] at hscripts ⊢
  have hz : ∀ w ∈ z₁ ++ [⟨.dirHeader (880 * hd), d.1, diskChecksum (pl d.2.1
      (24 + dirhash (chars "STARTUP-SEQUENCE") * 4) (handed hd 1)) 20⟩], Valid w := by
    intro w hw
    rcases List.mem_append.mp hw with hw | hw
    · exact hscripts w hw
    · obtain rfl := List.mem_singleton.mp hw
      exact hdirectory _ _ (dirhash_lt _)
  obtain ⟨z₂, hexe, hwritten⟩ := fileWritten_createfileheaderblock (b := 3) ffs _
    (chars "runme.exe") (l.date 2) hhd hhd' hroot hz hsrc rfl hroom (hdate 2) (by decide)
  refine ⟨z₂, ?_, hwritten⟩
  rw [hexe, hdirblock]

/-- The entry of the executable in the root directory. -/
theorem getLong_rootBlock (bmblock : Nat) (diskName date : List Byte) (dblock1 : Int)
    {fblock1 : Nat} (h : fblock1 < 2 ^ 32) :
    (rootBlock bmblock diskName date [(dirhash (chars "RUNME.EXE"), (fblock1 : Int)),
      (dirhash (chars "S"), dblock1)]).getLong (24 + dirhash (chars "RUNME.EXE") * 4) =
        fblock1 := by
  have hexe : dirhash (chars "RUNME.EXE") = 20 := by decide
  have hdir : dirhash (chars "S") = 24 := by decide
  simp only [rootBlock, List.foldl_cons, List.foldl_nil, hexe, hdir]
  rw [getLong_diskChecksum (by omega), getLong_pl_ne (by omega), getLong_pl_nat _ _ h]

/-- The `k`-th call of `getblock` returns the `k`-th of the blocks, which are all different, and
which it finds free inside the disk. -/
structure FreshCalls (hd : Nat) (calls : List Nat) : Prop where
  distinct : calls.Nodup
  fresh : ∀ k < calls.length, (getblock (allocAfter hd k)).1 = calls.getD k 0 ∧
    (allocAfter hd k).bitmap (calls.getD k 0) = 0 ∧ 2 ≤ calls.getD k 0 ∧
      calls.getD k 0 < 1760 * hd

theorem freshCalls_handed (hhd : 1 ≤ hd) (hhd' : hd ≤ 2) {n : Nat} (hn : n ≤ 2 * halfBlocks hd) :
    FreshCalls hd ((List.range n).map (handed hd)) := by
  constructor
  · refine List.Nodup.map_on (fun i hi j hj h => ?_) List.nodup_range
    exact handed_inj (by have := List.mem_range.mp hi; omega)
      (by have := List.mem_range.mp hj; omega) h
  · intro k hk
    rw [List.length_map, List.length_range] at hk
    obtain ⟨h2, hlt, hunused⟩ := handed_bounds hhd (by omega : k < 2 * halfBlocks hd)
    rw [getD_map_range, if_pos hk, getblock_allocAfter hhd hhd' (by omega)]
    exact ⟨rfl, ((handed_allocAfter hhd hhd' (by omega)).used _ hlt).mpr hunused, h2, hlt⟩

/-- **The executable on its disk.** Where it fits, its blocks come from distinct calls of
`getblock`, the file in the image is the executable, and the bitmap block has the root, the bitmap
block and what was handed out as used, and all else as free. -/
theorem createimagefromexe_lossless (ffs : Bool) (diskName : List Byte) (bootblock : Block)
    (clock : Nat → BitVec 32 × BitVec 32 × BitVec 32) (hhd : hd = 1 ∨ hd = 2)
    (hsrc : 0 < src.length)
    (hfits : (createimagefromexe src hd ffs (clockLabels diskName bootblock clock)).1 = 1) :
    ∃ (calls : List Nat) (header : Nat) (tables data : List Nat),
      (exeFiles src hd ffs (clockLabels diskName bootblock clock)).2.2.2 =
        allocAfter hd calls.length ∧
      FreshCalls hd calls ∧
      (blockOf (createimagefromexe src hd ffs (clockLabels diskName bootblock clock)).2
        (880 * hd)).getLong (24 + dirhash (chars "RUNME.EXE") * 4) = header ∧
      HoldsFile (createimagefromexe src hd ffs (clockLabels diskName bootblock clock)).2 ffs header
        tables data src ∧
      (∀ b ∈ tables ++ data, b ∈ calls) ∧
      ∀ q, 2 ≤ q → q < 1760 * hd →
        (freeBit (blockOf (createimagefromexe src hd ffs
          (clockLabels diskName bootblock clock)).2 (880 * hd + 1)) q = false ↔
            q = 880 * hd ∨ q = 880 * hd + 1 ∨ q ∈ calls) := by
  have h1 : 1 ≤ hd := by omega
  have h2 : hd ≤ 2 := by omega
  have hhalf := halfBlocks_eq hd
  have hpos : 0 < dataBlocks ffs src.length := by
    rw [lt_dataBlocks]
    omega
  have hroom : exeCalls ffs src.length ≤ 2 * halfBlocks hd := by
    have hret := (createimagefromexe_ret ..).mp hfits
    rw [exeCalls, fileBlocks, extensionsAt, extensionBlocks]
    omega
  obtain ⟨z, hfiles, hwritten⟩ := exeFiles_spec (clockLabels diskName bootblock clock) h1 h2 hsrc
    hroom fun k => rfl
  rw [image_of_fits hfits, exeImage_eq, hfiles]
  have hcalls := hroom
  rw [exeCalls, fileBlocks] at hroom
  have hroom' : 3 + 1 + dataBlocks ffs src.length + extensionsAt (dataBlocks ffs src.length) ≤
      2 * halfBlocks hd := by omega
  -- none of the last three blocks comes from `getblock`
  have hreserved : ∀ k < 2 * halfBlocks hd, ((880 * hd : Nat) : Int) ≠ handed hd k ∧
      ((880 * hd + 1 : Nat) : Int) ≠ handed hd k ∧ ((0 : Nat) : Int) ≠ handed hd k := by
    intro k hk
    obtain ⟨hroot, hbitmap, hboot⟩ := handed_ne h1 hk
    exact ⟨by omega, by omega, by omega⟩
  have hlast : 3 + 1 + dataBlocks ffs src.length + extensionsAt (dataBlocks ffs src.length) ≤
      exeCalls ffs src.length := by
    rw [exeCalls, fileBlocks]
    omega
  have hheld := (((hwritten.append (w := ⟨.other, 880 * hd, rootBlock (880 * hd + 1) diskName
      ((clockLabels diskName bootblock clock).date 3) [(dirhash (chars "RUNME.EXE"), handed hd 3),
        (dirhash (chars "S"), handed hd 0)]⟩) hpos hroom' fun k hk => (hreserved k hk).1).append
    (w := ⟨.other, 880 * hd + 1,
      createbitmapblock (allocAfter hd (exeCalls ffs src.length)).bitmap (1760 * hd)⟩) hpos hroom'
    fun k hk => (hreserved k hk).2.1).append (w := ⟨.other, 0, bootblock⟩) hpos hroom'
    fun k hk => (hreserved k hk).2.2).holds h1 h2 hpos rfl hroom'
  have hroot : ((880 * hd : Nat) : Int) ≠ ((880 * hd + 1 : Nat) : Int) := by omega
  have hboot : ((0 : Nat) : Int) ≠ ((880 * hd : Nat) : Int) := by omega
  have hboot' : ((0 : Nat) : Int) ≠ ((880 * hd + 1 : Nat) : Int) := by omega
  refine ⟨(List.range (exeCalls ffs src.length)).map (handed hd), handed hd 3, _, _, ?_,
    freshCalls_handed h1 h2 hcalls, ?_, hheld, fun q hq => ?_, fun q hq2 hq => ?_⟩
  · rw [List.length_map, List.length_range]
  · rw [blockOf_other hboot, blockOf_other hroot.symm, blockOf_same rfl]
    exact getLong_rootBlock _ _ _ _ (handed_small h1 h2 (by omega))
  · rcases List.mem_append.mp hq with hq | hq
    · obtain ⟨j, hj, rfl⟩ := List.mem_map.mp hq
      refine List.mem_map.mpr ⟨tableCall 3 j, List.mem_range.mpr ?_, rfl⟩
      exact tableCall_lt hpos (Nat.le_of_lt_succ (List.mem_range.mp hj)) hlast
    · obtain ⟨i, hi, rfl⟩ := List.mem_map.mp hq
      refine List.mem_map.mpr ⟨dataCall 3 i, List.mem_range.mpr ?_, rfl⟩
      exact dataCall_room (List.mem_range.mp hi) hlast
  · have hused := (handed_allocAfter h1 h2 hcalls).used q hq
    rw [blockOf_other hboot', blockOf_same rfl, freeBit_createbitmapblock hq2 hq,
      decide_eq_false_iff_not, hused, not_not, usedBefore_iff h1 hcalls]
    constructor
    · rintro (hlow | hq | hq | ⟨k, hk, rfl⟩)
      · exact absurd hlow (by omega)
      · exact Or.inl hq
      · exact Or.inr (Or.inl hq)
      · exact Or.inr (Or.inr (List.mem_map.mpr ⟨k, List.mem_range.mpr hk, rfl⟩))
    · rintro (hq | hq | hq)
      · exact Or.inr (Or.inl hq)
      · exact Or.inr (Or.inr (Or.inl hq))
      · obtain ⟨k, hk, rfl⟩ := List.mem_map.mp hq
        exact Or.inr (Or.inr (Or.inr ⟨k, List.mem_range.mp hk, rfl⟩))

/-- A file with an extension block. -/
theorem createimagefromexe_lossless_extended : ∃ (header : Nat) (tables data : List Nat),
    HoldsFile (createimagefromexe (zeros (72 * 488 + 1)) 1 false
      (clockLabels [] zeroBlock fun _ => (0, 0, 0))).2 false header tables data
      (zeros (72 * 488 + 1)) := by
  have hlen : (zeros (72 * 488 + 1)).length = 72 * 488 + 1 := List.length_replicate
  obtain ⟨_, header, tables, data, -, -, -, hheld, -⟩ := createimagefromexe_lossless
    false [] zeroBlock (fun _ => (0, 0, 0)) (Or.inl rfl)
    (by rw [hlen]; omega) ((createimagefromexe_ret ..).mpr (by rw [hlen]; decide))
  exact ⟨header, tables, data, hheld⟩

end

end LibretroUae.Disk
