import LibretroUae.Blitter.Area
import Mathlib.Data.UInt
import Mathlib.Tactic.Ring

/-!
# LibretroUae.Blitter.AreaBlits

**Fast blits do what the reference does.** The local pointers of a fast blit are those of the
enabled channels, as long as none of them is null: a null pointer would switch its channel off.
In descending mode the fast blit also overwrites the data register of B with what C fetched.
-/

namespace LibretroUae.Blitter

open Lib
open scoped UInt32.CommRing

/-! ### Pointers -/

/-- Where a channel is before word `i` of row `j`. -/
def ptrAt (desc : Bool) (c : BltCon) (ptr mod : UInt32) (j i : Nat) : UInt32 :=
  advance desc ptr ((.ofNat c.hblitsize * 2 + mod) * .ofNat j + 2 * .ofNat i)

/-- No pointer of a channel is null, for a word or at the end of a row before the last one. -/
def NeverNull (desc : Bool) (c : BltCon) (ptr mod : UInt32) : Prop :=
  ∀ j i, j < c.vblitsize → i < c.hblitsize ∨ i = c.hblitsize ∧ j + 1 < c.vblitsize →
    ptrAt desc c ptr mod j i ≠ 0

section

variable {desc : Bool} {c : BltCon} {ptr mod : UInt32} {j i : Nat}

theorem advance_advance (a b : UInt32) :
    advance desc (advance desc ptr a) b = advance desc ptr (a + b) := by
  cases desc
  · exact add_assoc ptr a b
  · exact sub_sub ptr a b

theorem ptrAt_zero : ptrAt desc c ptr mod 0 0 = ptr := by
  have hzero : (UInt32.ofNat c.hblitsize * 2 + mod) * .ofNat 0 + 2 * .ofNat 0 = 0 := by
    change (UInt32.ofNat c.hblitsize * 2 + mod) * 0 + 2 * 0 = 0
    ring
  rw [ptrAt, hzero]
  cases desc
  · exact add_zero ptr
  · exact sub_zero ptr

theorem ofNat_succ (n : Nat) : UInt32.ofNat (n + 1) = UInt32.ofNat n + 1 := UInt32.ofNat_add n 1

theorem ptrAt_word : advance desc (ptrAt desc c ptr mod j i) 2 = ptrAt desc c ptr mod j (i + 1) := by
  rw [ptrAt, advance_advance, ptrAt, ofNat_succ]
  refine congrArg (advance desc ptr) ?_
  ring

theorem ptrAt_row :
    advance desc (ptrAt desc c ptr mod j c.hblitsize) mod = ptrAt desc c ptr mod (j + 1) 0 := by
  rw [ptrAt, advance_advance, ptrAt, ofNat_succ]
  refine congrArg (advance desc ptr) ?_
  change _ = _ + 2 * 0
  ring

theorem ptrAt_end : ptrAt desc c ptr mod c.vblitsize 0 = advance desc ptr (c.span mod) := by
  rw [ptrAt, BltCon.span]
  refine congrArg (advance desc ptr) ?_
  change _ + 2 * 0 = _
  ring

end

/-! ### Words -/

theorem toUInt16_select {positive : Bool} {a a' : UInt32} (h : a.toUInt16 = a'.toUInt16) :
    (select positive a).toUInt16 = (select positive a').toUInt16 := by
  cases positive
  · change (~~~a).toUInt16 = (~~~a').toUInt16
    rw [UInt32.toUInt16_not, UInt32.toUInt16_not, h]
  · exact h

/-- The low half of a result depends on the low halves of the sources. -/
theorem toUInt16_blitFunc {a b b' c : UInt32} {mt : UInt8} (h : b.toUInt16 = b'.toUInt16) :
    (blitFunc a b c mt).toUInt16 = (blitFunc a b' c mt).toUInt16 := by
  have hfold : ∀ (ks : List Nat) (acc acc' : UInt32), acc.toUInt16 = acc'.toUInt16 →
      (ks.foldl (fun acc k => if mt.toNat.testBit k then
        acc ||| (select (k.testBit 2) a &&& select (k.testBit 1) b &&& select (k.testBit 0) c)
        else acc) acc).toUInt16 =
      (ks.foldl (fun acc k => if mt.toNat.testBit k then
        acc ||| (select (k.testBit 2) a &&& select (k.testBit 1) b' &&& select (k.testBit 0) c)
        else acc) acc').toUInt16 := by
    intro ks
    induction ks with
    | nil => exact fun _ _ hacc => hacc
    | cons k ks ih =>
      intro acc acc' hacc
      rw [List.foldl_cons, List.foldl_cons]
      refine ih _ _ ?_
      split_ifs
      · simp only [UInt32.toUInt16_or, UInt32.toUInt16_and, hacc, toUInt16_select h]
      · exact hacc
  exact hfold _ _ _ rfl

theorem toUInt16_toUInt32 (a : UInt16) : a.toUInt32.toUInt16 = a := UInt16.toUInt16_toUInt32 a

/-! ### What the parts of a word change -/

section

variable {M : Type} (wget : M → UInt32 → UInt16) (wput : M → UInt32 → UInt16 → M)
  (desc : Bool) (c : BltCon)

theorem Fast.fetchA_eq (i : Nat) (s : Fast M) :
    Fast.fetchA wget desc c i s =
      let bltadat := if s.bltadatptr ≠ 0 then wget s.mem s.bltadatptr else s.regs.bltadat
      { s with bltadatptr := if s.bltadatptr ≠ 0 then advance desc s.bltadatptr 2 else s.bltadatptr
               blitahold := shiftIn desc s.regs.bltaold (bltadat &&& blitMasktable c i) c.ashift
               regs := { s.regs with bltadat, bltaold := bltadat &&& blitMasktable c i } } := by
  rw [Fast.fetchA]
  split_ifs <;> rfl

theorem Fast.fetchB_eq (s : Fast M) :
    Fast.fetchB wget desc c s =
      let bltbdat := wget s.mem s.bltbdatptr
      { s with bltbdatptr := if s.bltbdatptr ≠ 0 then advance desc s.bltbdatptr 2 else s.bltbdatptr
               blitbhold := if s.bltbdatptr ≠ 0 then shiftIn desc s.regs.bltbold bltbdat c.bshift
                 else s.blitbhold
               regs := { s.regs with
                 bltbdat := if s.bltbdatptr ≠ 0 then bltbdat else s.regs.bltbdat
                 bltbold := if s.bltbdatptr ≠ 0 then bltbdat else s.regs.bltbold } } := by
  rw [Fast.fetchB]
  split_ifs <;> rfl

theorem Fast.fetchC_eq (s : Fast M) :
    Fast.fetchC wget desc s =
      let bltcdat := wget s.mem s.bltcdatptr
      { s with bltcdatptr := if s.bltcdatptr ≠ 0 then advance desc s.bltcdatptr 2 else s.bltcdatptr
               regs := { s.regs with
                 bltcdat := if s.bltcdatptr ≠ 0 then bltcdat else s.regs.bltcdat
                 bltbdat := if s.bltcdatptr ≠ 0 then if desc then bltcdat else s.regs.bltbdat
                   else s.regs.bltbdat } } := by
  rw [Fast.fetchC]
  split_ifs <;> rfl

theorem Fast.store_eq (s : Fast M) :
    Fast.store wput s =
      { s with mem := if s.dodst then wput s.mem s.dstp s.regs.bltddat else s.mem } := by
  rw [Fast.store]
  split_ifs <;> rfl

theorem Fast.target_eq (s : Fast M) :
    Fast.target desc s =
      { s with dodst := if s.bltddatptr ≠ 0 then true else s.dodst
               dstp := if s.bltddatptr ≠ 0 then s.bltddatptr else s.dstp
               bltddatptr := if s.bltddatptr ≠ 0 then advance desc s.bltddatptr 2
                 else s.bltddatptr } := by
  rw [Fast.target]
  split_ifs <;> rfl

theorem Ref.fetchA_eq (t : Ref M) :
    Ref.fetchA wget desc c t =
      { t with regs := { t.regs with
                 bltadat := if c.blitcha then wget t.mem t.ptrs.bltapt else t.regs.bltadat }
               ptrs := { t.ptrs with
                 bltapt := if c.blitcha then advance desc t.ptrs.bltapt 2 else t.ptrs.bltapt } } := by
  rw [Ref.fetchA]
  split_ifs <;> rfl

theorem Ref.fetchB_eq (t : Ref M) :
    Ref.fetchB wget desc c t =
      let dat := wget t.mem t.ptrs.bltbpt
      { t with regs := { t.regs with
                 bltbdat := if c.blitchb then dat else t.regs.bltbdat
                 bltbold := if c.blitchb then dat else t.regs.bltbold
                 bltbhold := if c.blitchb then (shiftIn desc t.regs.bltbold dat c.bshift).toUInt16
                   else t.regs.bltbhold }
               ptrs := { t.ptrs with
                 bltbpt := if c.blitchb then advance desc t.ptrs.bltbpt 2 else t.ptrs.bltbpt } } := by
  rw [Ref.fetchB]
  split_ifs <;> rfl

theorem Ref.fetchC_eq (t : Ref M) :
    Ref.fetchC wget desc c t =
      { t with regs := { t.regs with
                 bltcdat := if c.blitchc then wget t.mem t.ptrs.bltcpt else t.regs.bltcdat }
               ptrs := { t.ptrs with
                 bltcpt := if c.blitchc then advance desc t.ptrs.bltcpt 2 else t.ptrs.bltcpt } } := by
  rw [Ref.fetchC]
  split_ifs <;> rfl

theorem Ref.target_eq (t : Ref M) :
    Ref.target desc c t =
      { t with pending := if c.blitchd then some t.ptrs.bltdpt else t.pending
               ptrs := { t.ptrs with
                 bltdpt := if c.blitchd then advance desc t.ptrs.bltdpt 2 else t.ptrs.bltdpt } } := by
  rw [Ref.target]
  split_ifs <;> rfl

theorem Ref.store_eq (t : Ref M) {dodst : Bool} {dstp : UInt32}
    (h : t.pending = if dodst then some dstp else none) :
    Ref.store wput t =
      { t with mem := if dodst then wput t.mem dstp t.regs.bltddat else t.mem } := by
  obtain ⟨regs, ptrs, mem, blitfc, pending⟩ := t
  obtain rfl : pending = if dodst then some dstp else none := h
  cases dodst <;> rfl

end

/-! ### The simulation -/

section

variable {M : Type} {wget : M → UInt32 → UInt16} {wput : M → UInt32 → UInt16 → M}
  {desc : Bool} {c : BltCon} {p : BltPtrs} {j i : Nat} {s : Fast M} {t : Ref M}

/-- A channel of the two blits: while there are rows the local pointer is that of the reference when
the channel is enabled, and null when it is not. -/
def Channel (desc : Bool) (c : BltCon) (enabled : Bool) (ptr mod : UInt32) (j i : Nat)
    (fast ref : UInt32) : Prop :=
  (j < c.vblitsize → fast = if enabled then ref else 0) ∧
    ref = if enabled then ptrAt desc c ptr mod j i else ptr

/-- The two blits before word `i` of row `j`. -/
structure Sim (desc : Bool) (c : BltCon) (p : BltPtrs) (j i : Nat) (s : Fast M) (t : Ref M) :
    Prop where
  mem : s.mem = t.mem
  blitfc : s.blitfc = t.blitfc
  bhold : s.blitbhold.toUInt16 = t.regs.bltbhold
  adat : s.regs.bltadat = t.regs.bltadat
  cdat : s.regs.bltcdat = t.regs.bltcdat
  ddat : s.regs.bltddat = t.regs.bltddat
  aold : s.regs.bltaold = t.regs.bltaold
  bold : s.regs.bltbold = t.regs.bltbold
  zero : s.regs.blitzero = t.regs.blitzero
  bdat : (desc && c.blitchc) = false → s.regs.bltbdat = t.regs.bltbdat
  clobbered : (desc && c.blitchc) = true → 0 < j ∨ 0 < i → s.regs.bltbdat = t.regs.bltcdat
  pending : t.pending = if s.dodst then some s.dstp else none
  apt : Channel desc c c.blitcha p.bltapt c.bltamod j i s.bltadatptr t.ptrs.bltapt
  bpt : Channel desc c c.blitchb p.bltbpt c.bltbmod j i s.bltbdatptr t.ptrs.bltbpt
  cpt : Channel desc c c.blitchc p.bltcpt c.bltcmod j i s.bltcdatptr t.ptrs.bltcpt
  dpt : Channel desc c c.blitchd p.bltdpt c.bltdmod j i s.bltddatptr t.ptrs.bltdpt

/-- No enabled channel has a null pointer. -/
structure NoNull (desc : Bool) (c : BltCon) (p : BltPtrs) : Prop where
  chanA : c.blitcha = true → NeverNull desc c p.bltapt c.bltamod
  chanB : c.blitchb = true → NeverNull desc c p.bltbpt c.bltbmod
  chanC : c.blitchc = true → NeverNull desc c p.bltcpt c.bltcmod
  chanD : c.blitchd = true → NeverNull desc c p.bltdpt c.bltdmod

theorem Channel.start {enabled : Bool} {ptr mod : UInt32} :
    Channel desc c enabled ptr mod 0 0 (if enabled then ptr else 0) ptr :=
  ⟨fun _ => rfl, by rw [ptrAt_zero, ite_self]⟩

/-- A channel that is used for a word. -/
theorem Channel.enabled_iff {enabled : Bool} {ptr mod f r : UInt32}
    (h : Channel desc c enabled ptr mod j i f r) (hn : enabled = true → NeverNull desc c ptr mod)
    (hj : j < c.vblitsize) (hi : i < c.hblitsize ∨ i = c.hblitsize ∧ j + 1 < c.vblitsize) :
    f ≠ 0 ↔ enabled = true := by
  obtain ⟨hf, rfl⟩ := h
  rw [hf hj]
  cases enabled with
  | false => simp
  | true => simpa using hn rfl j i hj hi

theorem Channel.congr {α : Type} {enabled : Bool} {ptr mod f r : UInt32}
    (h : Channel desc c enabled ptr mod j i f r) (hj : j < c.vblitsize) (g : UInt32 → α) (x : α) :
    (if enabled = true then g f else x) = if enabled = true then g r else x := by
  cases enabled with
  | false => rfl
  | true => exact congrArg g (h.1 hj)

/-- A channel moves on by the same amount in both blits. -/
theorem Channel.move {enabled : Bool} {ptr mod f r d : UInt32} {j' i' : Nat}
    (h : Channel desc c enabled ptr mod j i f r) (hj : j < c.vblitsize)
    (hat : advance desc (ptrAt desc c ptr mod j i) d = ptrAt desc c ptr mod j' i') :
    Channel desc c enabled ptr mod j' i' (if enabled then advance desc f d else f)
      (if enabled then advance desc r d else r) := by
  obtain ⟨hf, rfl⟩ := h
  rw [hf hj]
  cases enabled with
  | false => exact ⟨fun _ => rfl, rfl⟩
  | true => exact ⟨fun _ => rfl, hat⟩

theorem and_masktable (c : BltCon) (i : Nat) (dat : UInt16) :
    dat &&& blitMasktable c i =
      (if decide (i = c.hblitsize - 1) = true then
        (if decide (i = 0) = true then dat &&& c.bltafwm else dat) &&& c.bltalwm
      else if decide (i = 0) = true then dat &&& c.bltafwm else dat) := by
  have hall : dat &&& 0xffff = dat := UInt16.and_neg_one
  simp only [blitMasktable, decide_eq_true_eq]
  split_ifs
  · exact (UInt16.and_assoc _ _ _).symm
  · rw [← UInt16.and_assoc, hall]
  · rfl
  · exact hall

/-- A word. -/
theorem Sim.word (h : Sim desc c p j i s t) (hn : NoNull desc c p) (hj : j < c.vblitsize)
    (hi : i < c.hblitsize) :
    Sim desc c p j (i + 1) (Fast.word wget wput desc c i s) (Ref.word wget wput desc c i t) := by
  have ha := h.apt.enabled_iff hn.chanA hj (.inl hi)
  have hb := h.bpt.enabled_iff hn.chanB hj (.inl hi)
  have hc := h.cpt.enabled_iff hn.chanC hj (.inl hi)
  have hd := h.dpt.enabled_iff hn.chanD hj (.inl hi)
  have hstore := @Ref.store_eq M wput (Ref.fetchC wget desc c (Ref.fetchB wget desc c
    (Ref.fetchA wget desc c t))) s.dodst s.dstp (by
      rw [Ref.fetchC_eq, Ref.fetchB_eq, Ref.fetchA_eq]; exact h.pending)
  rw [Fast.word, Ref.word, hstore]
  simp only [Fast.fetchA_eq, Fast.fetchB_eq, Fast.fetchC_eq, Fast.store_eq, Fast.combine,
    Fast.target_eq, Ref.fetchA_eq, Ref.fetchB_eq, Ref.fetchC_eq, Ref.doblit, Ref.target_eq,
    ha, hb, hc, hd, ← and_masktable]
  simp only [h.mem, h.blitfc, h.adat, h.cdat, h.ddat, h.aold, h.bold, h.zero,
    h.apt.congr hj (wget t.mem), h.bpt.congr hj (wget t.mem),
    h.cpt.congr hj (wget t.mem), h.bpt.congr hj fun ptr => shiftIn desc t.regs.bltbold (wget t.mem ptr) c.bshift]
  have hbhold : (if c.blitchb = true then
      shiftIn desc t.regs.bltbold (wget t.mem t.ptrs.bltbpt) c.bshift else s.blitbhold).toUInt16 =
      if c.blitchb = true then
        (shiftIn desc t.regs.bltbold (wget t.mem t.ptrs.bltbpt) c.bshift).toUInt16
      else t.regs.bltbhold := by
    rw [apply_ite UInt32.toUInt16, h.bhold]
  rw [toUInt16_blitFunc (hbhold.trans (toUInt16_toUInt32 _).symm)]
  refine ⟨rfl, rfl, hbhold, rfl, rfl, rfl, rfl, rfl, rfl, fun hkept => ?_, fun hlost _ => ?_, ?_,
    h.apt.move hj ptrAt_word, h.bpt.move hj ptrAt_word, h.cpt.move hj ptrAt_word,
    h.dpt.move hj ptrAt_word⟩
  · dsimp only
    rw [h.bdat hkept]
    rcases Bool.and_eq_false_iff.mp hkept with hdesc | hchc
    · rw [hdesc, if_neg Bool.false_ne_true, ite_self]
    · rw [if_neg (by rw [hchc]; exact Bool.false_ne_true)]
  · obtain ⟨hdesc, hchc⟩ := Bool.and_eq_true_iff.mp hlost
    have hword := h.cpt.congr hj (wget t.mem) t.regs.bltcdat
    rw [if_pos hchc, if_pos hchc] at hword
    dsimp only
    rw [if_pos hchc, if_pos hdesc, if_pos hchc, hword]
  · have hsome := h.dpt.congr hj some t.pending
    dsimp only
    rw [← hsome, h.pending]
    cases c.blitchd <;> rfl

/-- A row. -/
theorem Sim.row (h : Sim desc c p j 0 s t) (hn : NoNull desc c p) (hj : j < c.vblitsize)
    (hwidth : 1 ≤ c.hblitsize) :
    Sim desc c p (j + 1) 0 (Fast.row wget wput desc c j s) (Ref.row wget wput desc c j t) := by
  have hstart : Sim desc c p j 0 { s with blitfc := c.fillCarry } { t with blitfc := c.fillCarry } :=
    { h with blitfc := rfl }
  have hrow := @loop_sim _ _ (Fast.word wget wput desc c) (Ref.word wget wput desc c) _ _ _
    (fun i s t => Sim desc c p j i s t) hstart fun i s t hi h => h.word hn hj hi
  rw [Fast.row, Ref.row]
  generalize loop (Fast.word wget wput desc c) c.hblitsize { s with blitfc := c.fillCarry } = s' at *
  generalize loop (Ref.word wget wput desc c) c.hblitsize { t with blitfc := c.fillCarry } = t' at *
  have hchannel : ∀ {enabled : Bool} {ptr mod f r : UInt32},
      Channel desc c enabled ptr mod j c.hblitsize f r →
      (enabled = true → NeverNull desc c ptr mod) →
      Channel desc c enabled ptr mod (j + 1) 0 (Fast.addMod desc f mod)
        (if enabled then advance desc r mod else r) := by
    intro enabled ptr mod f r hch hnull
    obtain ⟨-, href⟩ := hch.move hj ptrAt_row
    refine ⟨fun hnext => ?_, href⟩
    obtain ⟨hsame, -⟩ := hch.move hj ptrAt_row
    rw [Fast.addMod, ← hsame hnext]
    simp only [hch.enabled_iff hnull hj (.inr ⟨rfl, hnext⟩)]
  exact { hrow with
    clobbered := fun hlost _ => hrow.clobbered hlost (.inr hwidth)
    apt := hchannel hrow.apt hn.chanA
    bpt := hchannel hrow.bpt hn.chanB
    cpt := hchannel hrow.cpt hn.chanC
    dpt := hchannel hrow.dpt hn.chanD }

/-! ### Blits -/

variable (wget wput) in
/-- A fast blit leaves what the reference leaves, but for the data register of B in descending mode
with C. -/
theorem dofast_eq (hn : NoNull desc c p) (hwidth : 1 ≤ c.hblitsize) (hheight : 1 ≤ c.vblitsize)
    (regs : BltRegs) (mem : M) :
    dofast wget wput desc c regs p mem =
      let r := reference wget wput desc c regs p mem
      { r with regs := { r.regs with
        bltbdat := if desc && c.blitchc then r.regs.bltcdat else r.regs.bltbdat } } := by
  have hsim := @loop_sim _ _ (Fast.row wget wput desc c) (Ref.row wget wput desc c) c.vblitsize
    ⟨regs, mem, if c.blitcha then p.bltapt else 0,
      if c.blitchb then p.bltbpt else 0, if c.blitchc then p.bltcpt else 0,
      if c.blitchd then p.bltdpt else 0, 0, regs.bltbhold.toUInt32, false, 0, false⟩
    ⟨regs, p, mem, false, none⟩ (fun j s t => Sim desc c p j 0 s t)
    ⟨rfl, rfl, toUInt16_toUInt32 _, rfl, rfl, rfl, rfl, rfl, rfl, fun _ => rfl,
      fun _ h => by omega, rfl, .start, .start, .start, .start⟩
    fun j s t hj h => h.row hn hj hwidth
  rw [dofast, reference]
  dsimp only
  generalize loop (Fast.row wget wput desc c) c.vblitsize _ = s at *
  generalize loop (Ref.row wget wput desc c) c.vblitsize _ = t at *
  rw [Fast.store_eq, Ref.store_eq wput t hsim.pending]
  have hapt := hsim.apt.2
  have hbpt := hsim.bpt.2
  have hcpt := hsim.cpt.2
  have hdpt := hsim.dpt.2
  rw [ptrAt_end] at hapt hbpt hcpt hdpt
  have hbdat : s.regs.bltbdat = if desc && c.blitchc then t.regs.bltcdat else t.regs.bltbdat := by
    split_ifs with hlost
    · exact hsim.clobbered hlost (.inl hheight)
    · exact hsim.bdat (Bool.eq_false_iff.mpr hlost)
  obtain ⟨⟨adat, bdat, cdat, ddat, aold, bold, bhold, zero⟩, mem', aptr, bptr, cptr, dptr,
    ahold, blitbhold, fc, dstp, dodst⟩ := s
  obtain ⟨⟨adat', bdat', cdat', ddat', aold', bold', bhold', zero'⟩, ⟨apt, bpt, cpt, dpt⟩, mem'',
    fc', pending⟩ := t
  obtain ⟨rfl, rfl, rfl, rfl, rfl, rfl, rfl, rfl, rfl, -, -, -, -, -, -, -⟩ := hsim
  dsimp only at *
  rw [hapt, hbpt, hcpt, hdpt, hbdat]

variable (wget wput) in
/-- When no enabled channel has a null pointer, ascending blits agree with the reference, and
descending ones exactly when C is not used or its last word is also what B has. -/
theorem blits_agree_iff (hwidth : 1 ≤ c.hblitsize) (hheight : 1 ≤ c.vblitsize) (regs : BltRegs)
    (mem : M) :
    (NoNull false c p →
      blitterDofast wget wput c regs p mem = reference wget wput false c regs p mem) ∧
    (NoNull true c p →
      (blitterDofastDesc wget wput c regs p mem = reference wget wput true c regs p mem ↔
        (c.blitchc = true → (reference wget wput true c regs p mem).regs.bltcdat =
          (reference wget wput true c regs p mem).regs.bltbdat))) := by
  refine ⟨fun hn => ?_, fun hn => ?_⟩
  · exact dofast_eq wget wput hn hwidth hheight regs mem
  · rw [blitterDofastDesc, dofast_eq wget wput hn hwidth hheight regs mem]
    generalize reference wget wput true c regs p mem = r
    obtain ⟨⟨adat, bdat, cdat, ddat, aold, bold, bhold, zero⟩, ptrs, mem'⟩ := r
    cases c.blitchc <;> simp

end

/-- Whether the pointers of a blit are null is checked for its words and the ends of its rows. -/
theorem neverNull_of_forall {desc : Bool} {c : BltCon} {ptr mod : UInt32}
    (h : ∀ j < c.vblitsize, ∀ i < c.hblitsize + 1, ptrAt desc c ptr mod j i ≠ 0) :
    NeverNull desc c ptr mod := by
  intro j i hj hi
  refine h j hj i ?_
  omega

def clearRegs : BltRegs := ⟨0, 0, 0, 0, 0, 0, 0, true⟩

def chipWget (mem : UInt32 → UInt16) (addr : UInt32) : UInt16 := mem addr

def chipWput (mem : UInt32 → UInt16) (addr : UInt32) (w : UInt16) : UInt32 → UInt16 :=
  fun a => if a = addr then w else mem a

/-- Three rows of two words, in which A chooses between B and C, and D is 0x1000 bytes behind C. -/
def threeRows : BltCon :=
  ⟨0x4fca, 0x2002, 0x0fff, 0xfff0, 4, 8, 8, 2, 2, 3, false, false⟩

def threeRowsPtrs : BltPtrs := ⟨0x1010, 0x2020, 0x3020, 0x4020⟩

theorem threeRows_noNull (desc : Bool) : NoNull desc threeRows threeRowsPtrs where
  chanA _ := neverNull_of_forall (by cases desc <;> decide +kernel)
  chanB _ := neverNull_of_forall (by cases desc <;> decide +kernel)
  chanC _ := neverNull_of_forall (by cases desc <;> decide +kernel)
  chanD _ := neverNull_of_forall (by cases desc <;> decide +kernel)

/-- A memory that repeats every 0x1000 bytes. -/
def repeating (addr : UInt32) : UInt16 := (addr &&& 0xfff).toUInt16 * 0x9d3

theorem blits_agree_threeRows :
    blitterDofast chipWget chipWput threeRows clearRegs threeRowsPtrs repeating =
      reference chipWget chipWput false threeRows clearRegs threeRowsPtrs repeating ∧
    blitterDofastDesc chipWget chipWput threeRows clearRegs threeRowsPtrs repeating =
      reference chipWget chipWput true threeRows clearRegs threeRowsPtrs repeating := by
  obtain ⟨hasc, hdesc⟩ := blits_agree_iff (c := threeRows) (p := threeRowsPtrs) chipWget chipWput
    (by decide) (by decide) clearRegs repeating
  exact ⟨hasc (threeRows_noNull false), (hdesc (threeRows_noNull true)).mpr fun _ => by
    decide +kernel⟩

/-! ### A word of C -/

/-- A blit of one word that only fetches C. -/
def oneWord : BltCon :=
  ⟨0x025a, 2, 0xffff, 0xffff, 0, 0, 0, 0, 1, 1, false, false⟩

/-- The word goes to the data register of B as well. -/
theorem descending_loses_bltbdat :
    blitterDofastDesc chipWget chipWput oneWord clearRegs ⟨0, 0, 0x100, 0⟩ (fun _ => 0x1234) ≠
      reference chipWget chipWput true oneWord clearRegs ⟨0, 0, 0x100, 0⟩ fun _ => 0x1234 := by
  intro heq
  have hbdat := congrArg (fun r => r.regs.bltbdat) heq
  revert hbdat
  decide

end LibretroUae.Blitter
