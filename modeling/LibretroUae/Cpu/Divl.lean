import Mathlib.Logic.Function.Basic
import Mathlib.Tactic.Common
import Mathlib.Tactic.Ring

/-!
# LibretroUae.Cpu.Divl

**The long divisions** of the 68020, `DIVS.L` and `DIVU.L`. The dividend is one register or two,
and the quotient must fit one. `m68kDivl_spec` is the division in numbers, whatever registers the
extension word names.
-/

namespace LibretroUae.Cpu

/-! ### The source -/

/-- The flags that a division sets. -/
structure Ccr where
  v : Bool
  c : Bool
  z : Bool
  n : Bool
  deriving DecidableEq, Repr

/-- The data registers and the flags. -/
structure DivlState where
  dreg : Nat → BitVec 32
  ccr : Ccr

/-- What `m68k_divl` returns, with the exception it raises. -/
inductive DivlResult
  | unimplemented
  | divideByZero
  | done
  deriving DecidableEq, Repr

/-- `cpu_model` and `int_no_unimplemented`. -/
structure DivlConfig where
  cpuModel : Nat
  intNoUnimplemented : Bool

variable (cfg : DivlConfig) (extra : BitVec 16)

/-- `(extra >> 12) & 7`: the register of the quotient. -/
def dqIndex : Nat := ((extra >>> 12) &&& 7).toNat

/-- `extra & 7`: the register of the remainder and of the high long. -/
def drIndex : Nat := (extra &&& 7).toNat

/-- The dividend has 64 bits. -/
def wide : Bool := extra &&& 0x400 ≠ 0

def divslOverflow (a : BitVec 64) (divider : BitVec 32) (f : Ccr) : Ccr :=
  if 68040 ≤ cfg.cpuModel then { f with v := true, c := false }
  else
    let a32 : BitVec 32 := a.setWidth 32
    if wide extra then
      let ahigh : BitVec 32 := (a.sshiftRight 32).setWidth 32
      if ahigh = 0 then { v := true, c := false, z := true, n := false }
      else if ahigh.slt 0 ∧ divider.slt 0 ∧ divider.slt ahigh then
        { v := true, c := false, z := false, n := false }
      else if a32 = 0 then { v := true, c := false, z := true, n := false }
      else { v := true, c := false, z := false, n := a32.msb ^^ a.msb }
    else if a32 = 0 then { v := true, c := false, z := true, n := false }
    else { v := true, c := false, z := false, n := a32.msb }

def divulOverflow (a : BitVec 64) (f : Ccr) : Ccr :=
  if 68040 ≤ cfg.cpuModel then { f with v := true, c := false }
  else
    let a32 : BitVec 32 := a.setWidth 32
    { v := true, c := false, z := decide (a32 = 0), n := a32.msb }

def divslDivbyzero (f : Ccr) : Ccr :=
  if 68040 ≤ cfg.cpuModel then { f with c := false }
  else { f with n := false, z := true, c := false }

def divulDivbyzero (a : BitVec 64) (f : Ccr) : Ccr :=
  if 68040 ≤ cfg.cpuModel then { f with c := false }
  else
    let a32 : BitVec 32 := a.setWidth 32
    { v := true, c := false, z := decide (a32 = 0), n := a32.msb }

/-- The registers and flags of a division that fits. -/
def storeQuotient (s : DivlState) (quot rem : BitVec 64) : DivlState where
  dreg := Function.update (Function.update s.dreg (drIndex extra) (rem.setWidth 32))
    (dqIndex extra) (quot.setWidth 32)
  ccr :=
    let q : BitVec 32 := quot.setWidth 32
    { v := false, c := false, z := decide (q = 0), n := q.msb }

/-- `a &= 0xffffffffu; a |= (uae_s64)m68k_dreg (regs, extra & 7) << 32`. -/
def withHigh (s : DivlState) (a : BitVec 64) : BitVec 64 :=
  if wide extra then (a &&& (0xffffffff : BitVec 64)) ||| ((s.dreg (drIndex extra)).setWidth 64 <<< 32) else a

/-- The signed variant. -/
def divsl (src : BitVec 32) (s : DivlState) : DivlResult × DivlState :=
  let a := withHigh extra s ((s.dreg (dqIndex extra)).signExtend 64)
  if src = 0 then (.divideByZero, { s with ccr := divslDivbyzero cfg s.ccr })
  else if a = 0x8000000000000000 ∧ src = 0xffffffff then
    (.done, { s with ccr := divslOverflow cfg extra a src s.ccr })
  else
    let rem := a.srem (src.signExtend 64)
    let quot := a.sdiv (src.signExtend 64)
    if quot &&& 0xffffffff80000000 ≠ 0 ∧ quot &&& 0xffffffff80000000 ≠ 0xffffffff80000000 then
      (.done, { s with ccr := divslOverflow cfg extra a src s.ccr })
    else
      let rem := if (rem.setWidth 32 : BitVec 32).msb ≠ a.msb then -rem else rem
      (.done, storeQuotient extra s quot rem)

/-- The unsigned variant. -/
def divul (src : BitVec 32) (s : DivlState) : DivlResult × DivlState :=
  let a := withHigh extra s ((s.dreg (dqIndex extra)).setWidth 64)
  if src = 0 then (.divideByZero, { s with ccr := divulDivbyzero cfg a s.ccr })
  else
    let rem := a % src.setWidth 64
    let quot := a / src.setWidth 64
    if 0xffffffff < quot then (.done, { s with ccr := divulOverflow cfg a s.ccr })
    else (.done, storeQuotient extra s quot rem)

/-- `m68k_divl`. -/
def m68kDivl (src : BitVec 32) (s : DivlState) : DivlResult × DivlState :=
  if wide extra ∧ cfg.intNoUnimplemented ∧ cfg.cpuModel = 68060 then (.unimplemented, s)
  else if extra &&& 0x800 ≠ 0 then divsl cfg extra src s
  else divul cfg extra src s

/-! ### The division in numbers -/

/-- A register pair or a register, as a number. -/
def number {w : Nat} (signed : Bool) (v : BitVec w) : Int := if signed then v.toInt else v.toNat

/-- The selected dividend. -/
def dividend (signed : Bool) (s : DivlState) : Int :=
  if wide extra then number signed (s.dreg (drIndex extra) ++ s.dreg (dqIndex extra))
  else number signed (s.dreg (dqIndex extra))

/-- A quotient that a register holds. -/
def Fits (signed : Bool) (q : Int) : Prop :=
  if signed then -2 ^ 31 ≤ q ∧ q < 2 ^ 31 else 0 ≤ q ∧ q < 2 ^ 32

/-- Truncating division: the remainder is smaller than the divisor and has the dividend's sign. -/
structure IsDivision (a b q r : Int) : Prop where
  sum : q * b + r = a
  small : r.natAbs < b.natAbs
  sign : r = 0 ∨ r.sign = a.sign

/-- What is left behind a division with quotient `q` and remainder `r` that fits. -/
structure Stored (s s' : DivlState) (q r : Int) : Prop where
  ccr : s'.ccr = { v := false, c := false, z := decide (q = 0), n := (BitVec.ofInt 32 q).msb }
  quotient : s'.dreg (dqIndex extra) = BitVec.ofInt 32 q
  remainder : drIndex extra ≠ dqIndex extra → s'.dreg (drIndex extra) = BitVec.ofInt 32 r
  other : ∀ i, i ≠ dqIndex extra → i ≠ drIndex extra → s'.dreg i = s.dreg i

variable {cfg extra} {s : DivlState}

theorem isDivision_tdiv (a : Int) {b : Int} (hb : b ≠ 0) : IsDivision a b (a.tdiv b) (a.tmod b) where
  sum := by rw [Int.mul_comm, Int.mul_tdiv_add_tmod]
  small := by
    rw [Int.natAbs_tmod]
    exact Nat.mod_lt _ (Int.natAbs_pos.mpr hb)
  sign := by
    by_cases h : a.tmod b = 0
    · exact Or.inl h
    · refine Or.inr ?_
      by_cases ha : a < 0
      · have hneg := Int.tmod_nonneg b (show 0 ≤ -a by omega)
        rw [Int.neg_tmod] at hneg
        rw [Int.sign_eq_neg_one_of_neg ha, Int.sign_eq_neg_one_of_neg (by omega)]
      · have hge : 0 ≤ a.tmod b := Int.tmod_nonneg b (Int.not_lt.mp ha)
        have hne : a ≠ 0 := by
          rintro rfl
          exact h (Int.zero_tmod b)
        have hpos : 0 < a := by omega
        rw [Int.sign_eq_one_of_pos hpos, Int.sign_eq_one_of_pos (by omega)]

/-- The two registers of a wide dividend. -/
theorem withHigh_wide {a : BitVec 64} (hlow : a.setWidth 32 = s.dreg (dqIndex extra))
    (hw : wide extra = true) :
    withHigh extra s a = s.dreg (drIndex extra) ++ s.dreg (dqIndex extra) := by
  rw [withHigh, if_pos hw, ← hlow]
  apply BitVec.eq_of_getLsbD_eq
  intro i hi
  have hmask : (0xffffffff : BitVec 64).getLsbD i = decide (i < 32) := by
    have hall : ∀ i < 64, (0xffffffff : BitVec 64).getLsbD i = decide (i < 32) := by decide
    exact hall i hi
  rw [BitVec.getLsbD_or, BitVec.getLsbD_and, hmask, BitVec.getLsbD_shiftLeft,
    BitVec.getLsbD_setWidth, BitVec.getLsbD_append, BitVec.getLsbD_setWidth]
  by_cases h : i < 32
  · simp [h]
  · have hsub : i - 32 < 64 := by omega
    simp [h, hi, hsub]

theorem toInt_withHigh (extra : BitVec 16) (s : DivlState) :
    (withHigh extra s ((s.dreg (dqIndex extra)).signExtend 64)).toInt = dividend extra true s := by
  rw [dividend]
  cases hw : wide extra with
  | true =>
    have hlow : ((s.dreg (dqIndex extra)).signExtend 64).setWidth 32 = s.dreg (dqIndex extra) := by
      apply BitVec.eq_of_getLsbD_eq
      intro i hi
      have h64 : i < 64 := by omega
      simp [-BitVec.getLsbD_eq_getElem, BitVec.getLsbD_signExtend, hi, h64]
    rw [withHigh_wide hlow hw]
    rfl
  | false =>
    rw [withHigh, if_neg (by simp [hw]), BitVec.toInt_signExtend_of_le (by decide)]
    rfl

theorem toNat_withHigh (extra : BitVec 16) (s : DivlState) :
    ((withHigh extra s ((s.dreg (dqIndex extra)).setWidth 64)).toNat : Int) =
      dividend extra false s := by
  rw [dividend]
  cases hw : wide extra with
  | true =>
    rw [withHigh_wide (BitVec.setWidth_setWidth_of_le _ (by decide) |>.trans (BitVec.setWidth_eq _)) hw]
    rfl
  | false =>
    rw [withHigh, if_neg (by simp [hw]), BitVec.toNat_setWidth_of_le (by decide)]
    rfl

/-! ### What fits -/

/-- The test of the signed quotient. -/
theorem signed_fits_iff (x : BitVec 64) :
    (x &&& 0xffffffff80000000 ≠ 0 ∧ x &&& 0xffffffff80000000 ≠ 0xffffffff80000000) ↔
      ¬ Fits true x.toInt := by
  have hmask : x &&& (0xffffffff80000000 : BitVec 64) = (x >>> 31) <<< 31 := by
    apply BitVec.eq_of_getLsbD_eq
    intro i hi
    have hbit : ∀ i < 64, (0xffffffff80000000 : BitVec 64).getLsbD i = decide (31 ≤ i) := by decide
    rw [BitVec.getLsbD_and, hbit i hi, BitVec.getLsbD_shiftLeft, BitVec.getLsbD_ushiftRight]
    by_cases h : 31 ≤ i
    · have hsub : 31 + (i - 31) = i := by omega
      have hge : ¬ i < 31 := by omega
      simp [h, hsub, hge, hi]
    · have hlt : i < 31 := by omega
      simp [h, hlt]
  have hlt := x.isLt
  have hnat : ((x >>> 31) <<< 31).toNat = x.toNat / 2 ^ 31 * 2 ^ 31 := by
    rw [BitVec.toNat_shiftLeft, BitVec.toNat_ushiftRight, Nat.shiftRight_eq_div_pow,
      Nat.shiftLeft_eq, Nat.mod_eq_of_lt (by omega)]
  rw [hmask, ne_eq, ne_eq, ← BitVec.toNat_inj, ← BitVec.toNat_inj, hnat, Fits, if_pos rfl,
    BitVec.toInt_eq_toNat_cond]
  change ¬ x.toNat / 2 ^ 31 * 2 ^ 31 = 0 ∧
    ¬ x.toNat / 2 ^ 31 * 2 ^ 31 = 0xffffffff80000000 ↔ _
  split_ifs
  · omega
  · omega

theorem setWidth_eq_ofInt (x : BitVec 64) : (x.setWidth 32 : BitVec 32) = BitVec.ofInt 32 x.toInt := by
  apply BitVec.eq_of_toInt_eq
  rw [BitVec.toInt_setWidth, BitVec.toInt_ofInt, BitVec.toInt_eq_toNat_bmod,
    Int.bmod_bmod_of_dvd (by decide)]

theorem ofInt_eq_zero_iff {signed : Bool} {q : Int} (h : Fits signed q) :
    BitVec.ofInt 32 q = 0 ↔ q = 0 := by
  rw [Fits] at h
  constructor
  · intro h0
    have hnat := congrArg BitVec.toNat h0
    rw [BitVec.toNat_ofInt] at hnat
    cases signed with
    | true =>
      rw [if_pos rfl] at h
      change (q % 2 ^ 32).toNat = 0 at hnat
      omega
    | false =>
      rw [if_neg (by decide)] at h
      change (q % 2 ^ 32).toNat = 0 at hnat
      omega
  · rintro rfl
    rfl

theorem stored_storeQuotient {signed : Bool} {quot rem : BitVec 64} {q r : Int}
    (hfits : Fits signed q) (hq : quot.setWidth 32 = BitVec.ofInt 32 q)
    (hr : rem.setWidth 32 = BitVec.ofInt 32 r) :
    Stored extra s (storeQuotient extra s quot rem) q r where
  ccr := by
    rw [storeQuotient]
    dsimp only
    rw [hq, decide_eq_decide.mpr (ofInt_eq_zero_iff hfits)]
  quotient := (Function.update_self ..).trans hq
  remainder hne := ((Function.update_of_ne hne ..).trans (Function.update_self ..)).trans hr
  other i hi hi' := (Function.update_of_ne hi ..).trans (Function.update_of_ne hi' ..)

/-! ### The two variants -/

/-- The remainder of the processor has the sign already. -/
theorem srem_sign {a b : BitVec 64} (hb : b.toInt ≠ 0) (hsmall : b.toInt.natAbs ≤ 2 ^ 31) :
    (if ((a.srem b).setWidth 32 : BitVec 32).msb ≠ a.msb then -a.srem b else a.srem b) =
      a.srem b := by
  have hdiv := isDivision_tdiv a.toInt hb
  rw [← BitVec.toInt_srem] at hdiv
  have hrem : ((a.srem b).setWidth 32 : BitVec 32).toInt = (a.srem b).toInt := by
    have hlt := hdiv.small
    rw [setWidth_eq_ofInt, BitVec.toInt_ofInt, Int.bmod_eq_of_le (by omega) (by omega)]
  split_ifs with h
  · -- a remainder of the other sign is zero
    have hzero : (a.srem b).toInt = 0 := by
      refine hdiv.sign.resolve_right fun hsign => h ?_
      rw [BitVec.msb_eq_toInt, BitVec.msb_eq_toInt, hrem, decide_eq_decide,
        ← Int.sign_eq_neg_one_iff_neg, ← Int.sign_eq_neg_one_iff_neg, hsign]
    rw [BitVec.eq_of_toInt_eq (hzero.trans BitVec.toInt_zero.symm)]
    rfl
  · rfl

theorem divslOverflow_v (cfg : DivlConfig) (extra : BitVec 16) (a : BitVec 64)
    (divider : BitVec 32) (f : Ccr) : (divslOverflow cfg extra a divider f).v = true := by
  rw [divslOverflow]
  dsimp only
  split_ifs
  all_goals rfl

theorem divulOverflow_v (cfg : DivlConfig) (a : BitVec 64) (f : Ccr) :
    (divulOverflow cfg a f).v = true := by
  rw [divulOverflow]
  dsimp only
  split_ifs
  all_goals rfl

/-- How a division ends: it stores what fits, or sets V and leaves the registers alone. -/
def DivlEnds (extra : BitVec 16) (signed : Bool) (s : DivlState) (res : DivlResult × DivlState)
    (q r : Int) : Prop :=
  res.1 = .done ∧ (Fits signed q → Stored extra s res.2 q r) ∧
    (¬ Fits signed q → res.2.ccr.v = true ∧ res.2.dreg = s.dreg)

theorem divsl_spec (cfg : DivlConfig) (extra : BitVec 16) {src : BitVec 32} (h0 : src ≠ 0)
    (s : DivlState) : DivlEnds extra true s (divsl cfg extra src s)
      ((dividend extra true s).tdiv src.toInt) ((dividend extra true s).tmod src.toInt) := by
  have ha := toInt_withHigh extra s
  rw [divsl]
  dsimp only
  generalize withHigh extra s ((s.dreg (dqIndex extra)).signExtend 64) = a at ha
  have hsrc : (src.signExtend 64).toInt = src.toInt := BitVec.toInt_signExtend_of_le (by decide)
  have hb : (src.signExtend 64).toInt ≠ 0 := by
    rw [hsrc]
    exact fun h => h0 (BitVec.eq_of_toInt_eq (h.trans BitVec.toInt_zero.symm))
  have hsmall : (src.signExtend 64).toInt.natAbs ≤ 2 ^ 31 := by
    have hle := @BitVec.le_two_mul_toInt 32 src
    have hlt := @BitVec.two_mul_toInt_lt 32 src
    rw [hsrc]
    omega
  rw [← ha, if_neg h0]
  by_cases hspecial : a = 0x8000000000000000 ∧ src = 0xffffffff
  · -- the one quotient that 64 bits do not hold either
    rw [if_pos hspecial]
    obtain ⟨rfl, rfl⟩ := hspecial
    refine ⟨rfl, fun hfits => ?_, fun _ => ⟨divslOverflow_v .., rfl⟩⟩
    have hover : ¬ Fits true ((0x8000000000000000 : BitVec 64).toInt.tdiv
        (0xffffffff : BitVec 32).toInt) := by
      rw [Fits, if_pos rfl]
      decide
    exact absurd hfits hover
  · rw [if_neg hspecial]
    have hquot : (a.sdiv (src.signExtend 64)).toInt = a.toInt.tdiv src.toInt := by
      rw [BitVec.toInt_sdiv_of_ne_or_ne, hsrc]
      by_contra h
      rw [not_or, not_not, not_not] at h
      refine hspecial ⟨h.1, BitVec.eq_of_toInt_eq ?_⟩
      rw [← hsrc, h.2]
      rfl
    have hrem : (a.srem (src.signExtend 64)).toInt = a.toInt.tmod src.toInt := by
      rw [BitVec.toInt_srem, hsrc]
    by_cases hfits : Fits true (a.toInt.tdiv src.toInt)
    · rw [if_neg fun h => (signed_fits_iff _).mp h (hquot ▸ hfits), srem_sign hb hsmall]
      refine ⟨rfl, fun _ => stored_storeQuotient hfits ?_ ?_, fun h => absurd hfits h⟩
      · rw [setWidth_eq_ofInt, hquot]
      · rw [setWidth_eq_ofInt, hrem]
    · rw [if_pos ((signed_fits_iff _).mpr (hquot ▸ hfits))]
      exact ⟨rfl, fun h => absurd h hfits, fun _ => ⟨divslOverflow_v .., rfl⟩⟩

theorem divul_spec (cfg : DivlConfig) (extra : BitVec 16) {src : BitVec 32} (h0 : src ≠ 0)
    (s : DivlState) : DivlEnds extra false s (divul cfg extra src s)
      ((dividend extra false s).tdiv src.toNat) ((dividend extra false s).tmod src.toNat) := by
  have ha := toNat_withHigh extra s
  rw [divul]
  dsimp only
  generalize withHigh extra s ((s.dreg (dqIndex extra)).setWidth 64) = a at ha
  have hsrc : (src.setWidth 64).toNat = src.toNat := BitVec.toNat_setWidth_of_le (by decide)
  have hquot : ((a / src.setWidth 64).toNat : Int) = (a.toNat : Int).tdiv src.toNat := by
    rw [BitVec.toNat_udiv, hsrc, Int.ofNat_tdiv]
  have hrem : ((a % src.setWidth 64).toNat : Int) = (a.toNat : Int).tmod src.toNat := by
    rw [BitVec.toNat_umod, hsrc, Int.ofNat_tmod]
  have hlow : ∀ x : BitVec 64, (x.setWidth 32 : BitVec 32) = BitVec.ofInt 32 x.toNat := by
    intro x
    rw [BitVec.ofInt_natCast, BitVec.ofNat_toNat]
  have hover : 0xffffffff < a / src.setWidth 64 ↔ ¬ Fits false ((a.toNat : Int).tdiv src.toNat) := by
    rw [BitVec.lt_def, ← hquot, Fits, if_neg (by decide)]
    change 0xffffffff < (a / src.setWidth 64).toNat ↔ _
    omega
  rw [← ha, if_neg h0]
  by_cases hfits : Fits false ((a.toNat : Int).tdiv src.toNat)
  · rw [if_neg fun h => hover.mp h hfits]
    refine ⟨rfl, fun _ => stored_storeQuotient hfits ?_ ?_, fun h => absurd hfits h⟩
    · rw [hlow, hquot]
    · rw [hlow, hrem]
  · rw [if_pos (hover.mpr hfits)]
    exact ⟨rfl, fun h => absurd h hfits, fun _ => ⟨divulOverflow_v .., rfl⟩⟩

/-- The long divisions divide: the quotient is stored with its remainder if it fits a register, and
otherwise V is set and no register changes. -/
theorem m68kDivl_spec (cfg : DivlConfig) (extra : BitVec 16) {src : BitVec 32} (h0 : src ≠ 0)
    (himpl : ¬ (wide extra ∧ cfg.intNoUnimplemented ∧ cfg.cpuModel = 68060)) (s : DivlState) :
    let signed : Bool := extra &&& 0x800 ≠ 0
    ∃ q r : Int, IsDivision (dividend extra signed s) (number signed src) q r ∧
      DivlEnds extra signed s (m68kDivl cfg extra src s) q r := by
  rw [m68kDivl, if_neg himpl]
  by_cases hsigned : extra &&& 0x800 ≠ 0
  · rw [if_pos hsigned, decide_eq_true hsigned]
    refine ⟨_, _, isDivision_tdiv _ ?_, divsl_spec cfg extra h0 s⟩
    exact fun h => h0 (BitVec.eq_of_toInt_eq (h.trans BitVec.toInt_zero.symm))
  · rw [if_neg hsigned, decide_eq_false hsigned]
    refine ⟨_, _, isDivision_tdiv _ ?_, divul_spec cfg extra h0 s⟩
    exact fun h => h0 (BitVec.eq_of_toNat_eq (Int.ofNat.inj h))

/-- `DIVS.L` of D1:D0 by -3, remainder to D1. -/
theorem m68kDivl_negative :
    let s : DivlState := ⟨fun i => if i = 0 then 100 else 0, ⟨false, false, false, false⟩⟩
    ∃ q r : Int, IsDivision (dividend 0x0c01 true s) (number true (-3 : BitVec 32)) q r ∧
      DivlEnds 0x0c01 true s (m68kDivl ⟨68020, true⟩ 0x0c01 (-3) s) q r :=
  m68kDivl_spec ⟨68020, true⟩ 0x0c01 (by decide) (by decide) _

end LibretroUae.Cpu
