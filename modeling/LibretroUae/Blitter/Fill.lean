import LibretroUae.Blitter.AreaBlits
import LibretroUae.Lib.Words

/-!
# LibretroUae.Blitter.Fill

**Filling by table is filling bit by bit.** A row is filled from its right end: every set bit
of the source turns the carry over, and the bits in between take it. The blitter does a byte at
a time from a table, low byte first, and keeps the carry between words.
-/

namespace LibretroUae.Blitter

open Lib

/-! ### The table -/

-- the numerals of modes
scoped instance neZero_four : NeZero 4 := ⟨by decide⟩

/-- `build_blitfilltable`: the entry of a byte and a mode, whose bits are `blitfc` and `blitife`. -/
def buildBlitfilltable (d : Fin 256) (i : Fin 4) : UInt8 × Bool :=
  blitFilltable (.ofNat d) (i.val.testBit 1) (i.val.testBit 0)

/-- The column of `blit_filltable` for the mode and the carry. -/
def fillMode (ife fc : Bool) : Fin 4 :=
  (if ife then 2 else 0) + (if fc then 1 else 0)

/-- The fill step of `blitter_dofast` and `blitter_doblit`. -/
def blitfillStep (blitFilltable : Fin 256 → Fin 4 → UInt8 × Bool) (ife fc : Bool) (d : UInt16) :
    UInt16 × Bool :=
  let low : Fin 256 := Fin.ofNat 256 (d &&& 255).toNat
  let high : Fin 256 := Fin.ofNat 256 (d >>> 8).toNat
  let fc1 := (blitFilltable low (fillMode ife fc)).2
  ((blitFilltable low (fillMode ife fc)).1.toUInt16 +
      ((blitFilltable high (fillMode ife fc1)).1.toUInt16 <<< 8),
    (blitFilltable high (fillMode ife fc1)).2)

/-- The words of a row, with the carry kept in `blitfc`. -/
def fillRow (ife : Bool) : Bool → List UInt16 → List UInt16 × Bool
  | fc, [] => ([], fc)
  | fc, d :: ds =>
    let word := blitfillStep buildBlitfilltable ife fc d
    let rest := fillRow ife word.2 ds
    (word.1 :: rest.1, rest.2)

/-! ### Bit by bit -/

/-- A bit of the output. -/
def fillBit (ife fc b : Bool) : Bool := if ife then b || fc else b ^^ fc

/-- Bits filled one after the other, and the carry after them. -/
def fillBits (ife : Bool) : Bool → List Bool → List Bool × Bool
  | fc, [] => ([], fc)
  | fc, b :: bs =>
    let rest := fillBits ife (if b then !fc else fc) bs
    (fillBit ife fc b :: rest.1, rest.2)

/-- The bits of a word, the least significant one first. -/
def bitsOf {w : Nat} (v : BitVec w) : List Bool := (List.range w).map v.getLsbD

/-- The bits of a row whose first word is its right end. -/
def rowBits (ds : List UInt16) : List Bool := ds.flatMap fun d => bitsOf d.toBitVec

/-- Is the number of set bits odd. -/
def parity (bs : List Bool) : Bool := bs.foldr xor false

variable {ife fc : Bool}

theorem fillBits_append (as bs : List Bool) :
    fillBits ife fc (as ++ bs) =
      ((fillBits ife fc as).1 ++ (fillBits ife (fillBits ife fc as).2 bs).1,
        (fillBits ife (fillBits ife fc as).2 bs).2) := by
  induction as generalizing fc with
  | nil => rfl
  | cons a as ih => simp only [List.cons_append, fillBits, ih]

/-- The carry that is left over. -/
theorem fillBits_carry (bs : List Bool) : (fillBits ife fc bs).2 = (fc ^^ parity bs) := by
  induction bs generalizing fc with
  | nil => simp [fillBits, parity]
  | cons b bs ih =>
    change (fillBits ife (if b then !fc else fc) bs).2 = (fc ^^ (b ^^ parity bs))
    rw [ih]
    cases b <;> cases fc <;> simp

/-! ### A byte -/

/-- What the table does for one `fillmask`. -/
def fillMask (ife : Bool) (s : UInt8 × Bool) (fillmask : UInt8) : UInt8 × Bool :=
  (if s.2 then (if ife then s.1 ||| fillmask else s.1 ^^^ fillmask) else s.1,
    if s.1 &&& fillmask ≠ 0 then !s.2 else s.2)

/-- The mask of a bit. -/
def maskAt (k : Nat) : UInt8 := ⟨BitVec.twoPow 8 k⟩

theorem blitFilltable_eq (d : UInt8) :
    blitFilltable d ife fc = ((List.range' 0 8).map maskAt).foldl (fillMask ife) (d, fc) := rfl

theorem and_maskAt (d : UInt8) {k : Nat} (hk : k < 8) :
    (d &&& maskAt k ≠ 0) ↔ d.toBitVec.getLsbD k = true := by
  rw [Ne, ← UInt8.toBitVec_inj, UInt8.toBitVec_and, maskAt]
  exact Lib.and_twoPow_ne_zero d.toBitVec hk

/-- One mask fills its bit, turns the carry over when the bit is set, and leaves the others. -/
theorem fillMask_spec (s : UInt8 × Bool) {k : Nat} (hk : k < 8) :
    (∀ j, (fillMask ife s (maskAt k)).1.toBitVec.getLsbD j =
      if j = k then fillBit ife s.2 (s.1.toBitVec.getLsbD k) else s.1.toBitVec.getLsbD j) ∧
    (fillMask ife s (maskAt k)).2 = if s.1.toBitVec.getLsbD k then !s.2 else s.2 := by
  obtain ⟨data, fc⟩ := s
  refine ⟨fun j => ?_, ?_⟩
  · have hbit : (maskAt k).toBitVec.getLsbD j = decide (j = k) := by
      simp only [maskAt, BitVec.getLsbD_twoPow, hk, decide_true, Bool.true_and, eq_comm]
    by_cases hjk : j = k
    · subst hjk
      cases fc <;> cases ife <;>
        simp [-BitVec.getLsbD_eq_getElem, fillMask, fillBit, hbit]
    · cases fc <;> cases ife <;>
        simp [-BitVec.getLsbD_eq_getElem, fillMask, hbit, hjk]
  · simp only [fillMask, and_maskAt data hk]

/-- The masks from bit `k` on, over a byte whose bits below `k` are done. -/
theorem fillMasks_spec (m k : Nat) (hk : k + m = 8) (s : UInt8 × Bool) :
    let r := ((List.range' k m).map maskAt).foldl (fillMask ife) s
    (∀ j < k, r.1.toBitVec.getLsbD j = s.1.toBitVec.getLsbD j) ∧
      ((List.range' k m).map r.1.toBitVec.getLsbD, r.2) =
        fillBits ife s.2 ((List.range' k m).map s.1.toBitVec.getLsbD) := by
  induction m generalizing k s with
  | zero => exact ⟨fun j _ => rfl, rfl⟩
  | succ m ih =>
    obtain ⟨hbits, hcarry⟩ := @fillMask_spec ife s k (by omega)
    obtain ⟨hlow, hrest⟩ := ih (k + 1) (by omega) (fillMask ife s (maskAt k))
    intro r
    refine ⟨fun j hj => ?_, ?_⟩
    · exact (hlow j (by omega)).trans ((hbits j).trans (if_neg (by omega)))
    · -- the source bits above `k` are still those of the byte
      have hsource : (List.range' (k + 1) m).map (fillMask ife s (maskAt k)).1.toBitVec.getLsbD
          = (List.range' (k + 1) m).map s.1.toBitVec.getLsbD := by
        refine List.map_congr_left fun j hj => ?_
        have hle : k + 1 ≤ j := List.left_le_of_mem_range' hj
        exact (hbits j).trans (if_neg (by omega))
      have hfirst : r.1.toBitVec.getLsbD k = fillBit ife s.2 (s.1.toBitVec.getLsbD k) :=
        (hlow k (Nat.lt_succ_self k)).trans ((hbits k).trans (if_pos rfl))
      rw [hsource, hcarry] at hrest
      simp only [List.range'_succ, List.map_cons, fillBits, hfirst, ← hrest]
      rfl

theorem bitsOf_blitFilltable (d : UInt8) :
    (bitsOf (blitFilltable d ife fc).1.toBitVec, (blitFilltable d ife fc).2) =
      fillBits ife fc (bitsOf d.toBitVec) := by
  have h := (@fillMasks_spec ife 8 0 rfl (d, fc)).2
  rw [← blitFilltable_eq] at h
  simpa only [bitsOf, List.range_eq_range'] using h

/-! ### A word -/

theorem buildBlitfilltable_mode (d : Fin 256) :
    buildBlitfilltable d (fillMode ife fc) = blitFilltable (.ofNat d) ife fc := by
  cases ife <;> cases fc <;> rfl

theorem blitfillStep_build (d : UInt16) :
    blitfillStep buildBlitfilltable ife fc d = fillWord ife fc d := by
  have hlow : UInt8.ofNat (Fin.ofNat 256 (d &&& 255).toNat).val = d.toUInt8 := by
    apply UInt8.toNat_inj.mp
    have hand : d.toNat &&& 255 = d.toNat % 256 := Nat.and_two_pow_sub_one_eq_mod d.toNat 8
    simp [hand]
  have hhigh : UInt8.ofNat (Fin.ofNat 256 (d >>> 8).toNat).val = (d >>> 8).toUInt8 := by
    apply UInt8.toNat_inj.mp
    simp
  simp only [blitfillStep, fillWord, buildBlitfilltable_mode, hlow, hhigh]

theorem bitsOf_append {m n : Nat} (x : BitVec m) (y : BitVec n) :
    bitsOf (x ++ y) = bitsOf y ++ bitsOf x := by
  have hrange : List.range (m + n) = List.range n ++ (List.range m).map (n + ·) := by
    rw [Nat.add_comm, List.range_add]
  rw [bitsOf, hrange, List.map_append, List.map_map]
  congr 1
  · refine List.map_congr_left fun i hi => ?_
    rw [BitVec.getLsbD_append, if_pos (List.mem_range.mp hi)]
  · refine List.map_congr_left fun i _ => ?_
    have hge : ¬ n + i < n := by omega
    rw [Function.comp_apply, BitVec.getLsbD_append, if_neg hge, Nat.add_sub_cancel_left]

/-- The two bytes of a word lie side by side. -/
theorem toBitVec_halves (low high : UInt8) :
    (low.toUInt16 + (high.toUInt16 <<< 8)).toBitVec = high.toBitVec ++ low.toBitVec := by
  apply BitVec.eq_of_toNat_eq
  have hlow := low.toNat_lt
  have hhigh := high.toNat_lt
  have happ : (high.toBitVec ++ low.toBitVec).toNat = high.toNat * 2 ^ 8 + low.toNat := by
    rw [BitVec.toNat_append, ← Nat.shiftLeft_add_eq_or_of_lt low.toBitVec.isLt, Nat.shiftLeft_eq]
    rfl
  have hshift : (high.toUInt16 <<< 8).toNat = high.toNat * 2 ^ 8 := by
    rw [UInt16.toNat_shiftLeft, UInt8.toNat_toUInt16, Nat.shiftLeft_eq]
    exact Nat.mod_eq_of_lt (by change _ * 2 ^ 8 < _; omega)
  rw [happ, UInt16.toNat_toBitVec, UInt16.toNat_add, hshift, UInt8.toNat_toUInt16]
  omega

theorem toBitVec_word (d : UInt16) :
    d.toBitVec = (d >>> 8).toUInt8.toBitVec ++ d.toUInt8.toBitVec := by
  have hhalf : d = d.toUInt8.toUInt16 + ((d >>> 8).toUInt8.toUInt16 <<< 8) := by
    apply UInt16.toNat_inj.mp
    have hd := d.toNat_lt
    have hhigh : (d >>> 8).toUInt8.toNat = d.toNat / 256 := by
      simp [Nat.shiftRight_eq_div_pow]
      omega
    rw [UInt16.toNat_add, UInt16.toNat_shiftLeft, UInt8.toNat_toUInt16, UInt8.toNat_toUInt16,
      hhigh, Nat.shiftLeft_eq, UInt16.toNat_toUInt8]
    change _ = (_ + _ * 2 ^ 8 % _) % _
    omega
  rw [← toBitVec_halves, ← hhalf]

theorem bitsOf_fillWord (d : UInt16) :
    (bitsOf (fillWord ife fc d).1.toBitVec, (fillWord ife fc d).2) =
      fillBits ife fc (bitsOf d.toBitVec) := by
  have hlow := @bitsOf_blitFilltable ife fc d.toUInt8
  have hhigh := @bitsOf_blitFilltable ife (blitFilltable d.toUInt8 ife fc).2 (d >>> 8).toUInt8
  rw [toBitVec_word d, bitsOf_append, fillBits_append, ← hlow]
  dsimp only
  rw [← hhigh, fillWord, toBitVec_halves, bitsOf_append]

/-! ### A row -/

/-- The words of a row have the bits of filling bit by bit, and `blitfc` ends as the carry. -/
theorem fillRow_bitSerial (ds : List UInt16) :
    rowBits (fillRow ife fc ds).1 = (fillBits ife fc (rowBits ds)).1 ∧
      (fillRow ife fc ds).2 = (fillBits ife fc (rowBits ds)).2 := by
  induction ds generalizing fc with
  | nil => exact ⟨rfl, rfl⟩
  | cons d ds ih =>
    have hword := @bitsOf_fillWord ife fc d
    have hrow : rowBits (d :: ds) = bitsOf d.toBitVec ++ rowBits ds := rfl
    obtain ⟨hbits, hcarry⟩ := @ih (fillWord ife fc d).2
    rw [hrow, fillBits_append, ← hword, fillRow, blitfillStep_build]
    exact ⟨congrArg (bitsOf (fillWord ife fc d).1.toBitVec ++ ·) hbits, hcarry⟩

/-! ### The rows of a fast blit -/

theorem fillRow_concat (ds : List UInt16) (d : UInt16) :
    fillRow ife fc (ds ++ [d]) =
      let row := fillRow ife fc ds
      let word := fillWord ife row.2 d
      (row.1 ++ [word.1], word.2) := by
  induction ds generalizing fc with
  | nil => simp [fillRow, blitfillStep_build]
  | cons x ds ih => simp only [List.cons_append, fillRow, ih]

namespace Fast

variable {M : Type} (wget : M → UInt32 → UInt16) (wput : M → UInt32 → UInt16 → M)
  (desc : Bool) (c : BltCon)

/-- What a round has before it combines the words. -/
def fetched (i : Nat) (s : Fast M) : Fast M :=
  store wput (fetchC wget desc (fetchB wget desc c (fetchA wget desc c i s)))

/-- The word of a round before it is filled. -/
def unfilled (i : Nat) (s : Fast M) : UInt16 :=
  let s := fetched wget wput desc c i s
  (blitFunc s.blitahold s.blitbhold s.regs.bltcdat.toUInt32 c.mt).toUInt16

/-- The words of the first rounds before they are filled. -/
def source (s : Fast M) (n : Nat) : List UInt16 :=
  (List.range n).map fun k => unfilled wget wput desc c k (loop (word wget wput desc c) k s)

/-- The words that the first rounds leave to be stored. -/
def produced (s : Fast M) (n : Nat) : List UInt16 :=
  (List.range n).map fun k => (loop (word wget wput desc c) (k + 1) s).regs.bltddat

theorem fetched_blitfc (i : Nat) (s : Fast M) :
    (fetched wget wput desc c i s).blitfc = s.blitfc := by
  have hA : (fetchA wget desc c i s).blitfc = s.blitfc := by
    simp only [fetchA]
    split <;> rfl
  have hB : ∀ t : Fast M, (fetchB wget desc c t).blitfc = t.blitfc := by
    intro t
    simp only [fetchB]
    split <;> rfl
  have hC : ∀ t : Fast M, (fetchC wget desc t).blitfc = t.blitfc := by
    intro t
    simp only [fetchC]
    split <;> rfl
  have hstore : ∀ t : Fast M, (store wput t).blitfc = t.blitfc := by
    intro t
    simp only [store]
    split <;> rfl
  rw [fetched, hstore, hC, hB, hA]

/-- A round of a filling blit fills its word with the carry of the rounds before. -/
theorem word_fill (hfill : c.blitfill = true) (i : Nat) (s : Fast M) :
    (word wget wput desc c i s).regs.bltddat
        = (fillWord c.blitife s.blitfc (unfilled wget wput desc c i s)).1 ∧
      (word wget wput desc c i s).blitfc
        = (fillWord c.blitife s.blitfc (unfilled wget wput desc c i s)).2 := by
  have htarget : ∀ t : Fast M, (target desc t).regs = t.regs ∧ (target desc t).blitfc = t.blitfc := by
    intro t
    simp only [target]
    split <;> exact ⟨rfl, rfl⟩
  have hword : word wget wput desc c i s = target desc (combine c (fetched wget wput desc c i s)) :=
    rfl
  have hstep : ∀ d, c.fill s.blitfc d = fillWord c.blitife s.blitfc d := fun d => by
    simp [BltCon.fill, hfill]
  rw [hword, (htarget _).1, (htarget _).2, combine, fetched_blitfc, hstep]
  exact ⟨rfl, rfl⟩

/-- The words that a row of a filling blit produces are those of its source, filled. -/
theorem produced_eq (hfill : c.blitfill = true) (s : Fast M) (n : Nat) :
    (produced wget wput desc c s n, (loop (word wget wput desc c) n s).blitfc) =
      fillRow c.blitife s.blitfc (source wget wput desc c s n) := by
  induction n with
  | zero => rfl
  | succ n ih =>
    have hsource : source wget wput desc c s (n + 1) = source wget wput desc c s n
        ++ [unfilled wget wput desc c n (loop (word wget wput desc c) n s)] := by
      simp [source, List.range_succ]
    obtain ⟨hdat, hcarry⟩ :=
      word_fill wget wput desc c hfill n (loop (word wget wput desc c) n s)
    rw [hsource, fillRow_concat, ← ih]
    simp only [produced, List.range_succ, List.map_append, List.map_cons, List.map_nil, loop_succ,
      hdat, hcarry]

end Fast

/-- Filling a row by table is filling it bit by bit, whatever its width; and a row of a filling
blit, ascending or descending, stores the words of its source filled so, with the carry they
leave. -/
theorem blitter_fill_bitSerial (ife fc : Bool) (ds : List UInt16) :
    rowBits (fillRow ife fc ds).1 = (fillBits ife fc (rowBits ds)).1 ∧
      (fillRow ife fc ds).2 = (fc ^^ parity (rowBits ds)) ∧
      ∀ (M : Type) (wget : M → UInt32 → UInt16) (wput : M → UInt32 → UInt16 → M) (desc : Bool)
        (c : BltCon) (s : Fast M), c.blitfill = true → c.blitife = ife → s.blitfc = fc →
        Fast.source wget wput desc c s ds.length = ds →
          (Fast.produced wget wput desc c s ds.length,
            (loop (Fast.word wget wput desc c) ds.length s).blitfc) = fillRow ife fc ds := by
  obtain ⟨hbits, hcarry⟩ := @fillRow_bitSerial ife fc ds
  refine ⟨hbits, hcarry.trans (fillBits_carry (rowBits ds)), ?_⟩
  intro M wget wput desc c s hfill hife hfc hsource
  rw [Fast.produced_eq wget wput desc c hfill, hife, hfc, hsource]

end LibretroUae.Blitter
