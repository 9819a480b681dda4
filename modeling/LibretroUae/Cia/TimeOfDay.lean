import LibretroUae.Cia.Lazy

/-!
# LibretroUae.Cia.TimeOfDay

**The BCD counter of the 6526.** `getCiaTod` takes the decimal digits of the counter lowest first
and shifts them in from the right, so it returns them in reverse; `setCiaTod` adds up quotients by
16 where the digits are remainders. A number survives the two conversions in one case only, zero
(`setCiaTod_getCiaTod`, `getCiaTod_setCiaTod`), and with it a write to the alarm.
-/

namespace LibretroUae.CiaChips

/-! ### The conversions -/

theorem toNat_zero : (0 : BitVec 32).toNat = 0 := rfl

theorem toNat_ten : (10 : BitVec 32).toNat = 10 := rfl

theorem toNat_sixteen : (16 : BitVec 32).toNat = 16 := rfl

/-- One turn of the loop of `getciatod`. -/
theorem getDigit_toNat (bcd tod : BitVec 32) (hbcd : bcd.toNat < 4096) :
    (bcd * 16 + tod % 10).toNat = bcd.toNat * 16 + tod.toNat % 10 := by
  rw [BitVec.toNat_add, BitVec.toNat_mul, BitVec.toNat_umod, toNat_ten, toNat_sixteen]
  omega

theorem getCiaTod_toNat {env : Env} (henv : env.cia6526 = true) (tod : BitVec 32) :
    (getCiaTod env tod).toNat = tod.toNat % 10 * 4096 + tod.toNat / 10 % 10 * 256 +
      tod.toNat / 100 % 10 * 16 + tod.toNat / 1000 % 10 := by
  have h1 := getDigit_toNat 0 tod (by decide)
  have h2 := getDigit_toNat (0 * 16 + tod % 10) (tod / 10) (by rw [h1, toNat_zero]; omega)
  have h3 := getDigit_toNat ((0 * 16 + tod % 10) * 16 + tod / 10 % 10) (tod / 10 / 10)
    (by rw [h2, h1, toNat_zero]; omega)
  have h4 := getDigit_toNat (((0 * 16 + tod % 10) * 16 + tod / 10 % 10) * 16 + tod / 10 / 10 % 10)
    (tod / 10 / 10 / 10) (by rw [h3, h2, h1, toNat_zero]; omega)
  simp only [getCiaTod, henv, if_true, getCiaTod.digits]
  rw [h4, h3, h2, h1]
  simp only [BitVec.toNat_udiv, toNat_zero, toNat_ten, Nat.div_div_eq_div_mul, Nat.reduceMul]
  omega

/-- One turn of the loop of `setciatod`. -/
theorem setDigit_toNat (bin v : BitVec 32) (hbin : bin.toNat < 65536 * 65536 / 20)
    (hv : v.toNat < 65536) : (bin * 10 + v / 16).toNat = bin.toNat * 10 + v.toNat / 16 := by
  rw [BitVec.toNat_add, BitVec.toNat_mul, BitVec.toNat_udiv, toNat_ten, toNat_sixteen]
  omega

theorem setCiaTod_toNat {env : Env} (henv : env.cia6526 = true) {v : BitVec 32}
    (hv : v.toNat < 65536) :
    (setCiaTod env v).toNat = v.toNat / 16 * 1000 + v.toNat / 256 * 100 + v.toNat / 4096 * 10 := by
  have hdiv (x : BitVec 32) : (x / 16).toNat = x.toNat / 16 := by
    rw [BitVec.toNat_udiv, toNat_sixteen]
  have h1 := setDigit_toNat 0 v (by decide) hv
  have h2 := setDigit_toNat (0 * 10 + v / 16) (v / 16) (by rw [h1, toNat_zero]; omega)
    (by rw [hdiv]; omega)
  have h3 := setDigit_toNat ((0 * 10 + v / 16) * 10 + v / 16 / 16) (v / 16 / 16)
    (by rw [h2, h1, hdiv, toNat_zero]; omega) (by rw [hdiv, hdiv]; omega)
  have h4 := setDigit_toNat (((0 * 10 + v / 16) * 10 + v / 16 / 16) * 10 + v / 16 / 16 / 16)
    (v / 16 / 16 / 16) (by rw [h3, h2, h1, hdiv, hdiv, toNat_zero]; omega)
    (by rw [hdiv, hdiv, hdiv]; omega)
  simp only [setCiaTod, henv, if_true, setCiaTod.digits]
  rw [h4, h3, h2, h1]
  simp only [hdiv, toNat_zero, Nat.div_div_eq_div_mul, Nat.reduceMul]
  omega

theorem getCiaTod_lt {env : Env} (henv : env.cia6526 = true) (tod : BitVec 32) :
    (getCiaTod env tod).toNat < 40000 := by
  rw [getCiaTod_toNat henv]
  omega

theorem getCiaTod_zero (env : Env) : getCiaTod env 0 = 0 := by
  unfold getCiaTod
  split <;> rfl

theorem setCiaTod_zero (env : Env) : setCiaTod env 0 = 0 := by
  unfold setCiaTod
  split <;> rfl

/-- A counter below 10000 survives only when it is zero. -/
theorem setCiaTod_getCiaTod {env : Env} (henv : env.cia6526 = true) {tod : BitVec 32}
    (htod : tod.toNat < 10000) : setCiaTod env (getCiaTod env tod) = tod ↔ tod = 0 := by
  constructor
  · intro h
    have hset := setCiaTod_toNat henv (v := getCiaTod env tod)
      (Nat.lt_trans (getCiaTod_lt henv tod) (by decide))
    rw [h, getCiaTod_toNat henv] at hset
    apply BitVec.eq_of_toNat_eq
    rw [toNat_zero]
    have h100 : tod.toNat / 10 / 10 = tod.toNat / 100 := by rw [Nat.div_div_eq_div_mul]
    have h1000 : tod.toNat / 100 / 10 = tod.toNat / 1000 := by rw [Nat.div_div_eq_div_mul]
    have hword : tod.toNat = 1000 * (tod.toNat / 1000 % 10) + 100 * (tod.toNat / 100 % 10) +
        10 * (tod.toNat / 10 % 10) + tod.toNat % 10 := by omega
    have hd0 : tod.toNat % 10 < 10 := by omega
    have hd1 : tod.toNat / 10 % 10 < 10 := by omega
    have hd2 : tod.toNat / 100 % 10 < 10 := by omega
    have hd3 : tod.toNat / 1000 % 10 < 10 := by omega
    generalize tod.toNat % 10 = d0 at *
    generalize tod.toNat / 10 % 10 = d1 at *
    generalize tod.toNat / 100 % 10 = d2 at *
    generalize tod.toNat / 1000 % 10 = d3 at *
    have h16 : (d0 * 4096 + d1 * 256 + d2 * 16 + d3) / 16 = d0 * 256 + d1 * 16 + d2 := by omega
    have h256 : (d0 * 4096 + d1 * 256 + d2 * 16 + d3) / 256 = d0 * 16 + d1 := by omega
    have h4096 : (d0 * 4096 + d1 * 256 + d2 * 16 + d3) / 4096 = d0 := by omega
    rw [h16, h256, h4096] at hset
    omega
  · rintro rfl
    rw [getCiaTod_zero, setCiaTod_zero]

/-- What is stored reads back only when it is zero. -/
theorem getCiaTod_setCiaTod {env : Env} (henv : env.cia6526 = true) (v : BitVec 32) :
    getCiaTod env (setCiaTod env v) = v ↔ v = 0 := by
  constructor
  · intro h
    have hv := getCiaTod_lt henv (setCiaTod env v)
    rw [h] at hv
    have hset := setCiaTod_toNat henv (v := v) (Nat.lt_trans hv (by decide))
    have hget := getCiaTod_toNat henv (setCiaTod env v)
    rw [h, hset] at hget
    apply BitVec.eq_of_toNat_eq
    rw [toNat_zero]
    -- the digits of the sum, highest nibble first
    have h3 : v.toNat / 4096 = 0 := by omega
    have h2 : v.toNat / 256 = 0 := by omega
    simp only [h3, h2, Nat.zero_mul, Nat.add_zero] at hget
    rw [Nat.mul_div_cancel _ (by decide)] at hget
    have h10 : v.toNat / 16 * 1000 / 10 = v.toNat / 16 * 100 := by omega
    have h100 : v.toNat / 16 * 1000 / 100 = v.toNat / 16 * 10 := by omega
    have hd0 : v.toNat / 16 * 1000 % 10 = 0 := by omega
    have hd1 : v.toNat / 16 * 100 % 10 = 0 := by omega
    have hd2 : v.toNat / 16 * 10 % 10 = 0 := by omega
    rw [h10, h100, hd0, hd1, hd2] at hget
    have hsmall : v.toNat / 16 = 0 := by omega
    rw [hsmall] at hget
    omega
  · rintro rfl
    rw [setCiaTod_zero, getCiaTod_zero]

/-! ### Writes to the alarm -/

theorem setCia_alarm {s : State} (num : Fin 2) {c : Cia} (h : c.alarm = (s.cia num).alarm)
    (n : Fin 2) : ((s.setCia num c).cia n).alarm = (s.cia n).alarm := by
  match num, n with
  | 0, 0 => exact h
  | 0, 1 => rfl
  | 1, 0 => rfl
  | 1, 1 => exact h

theorem rethinkIcr_alarm (c : Cia) : (rethinkIcr c).alarm = c.alarm := by
  unfold rethinkIcr
  split <;> rfl

theorem ciaCheckIcr_alarm (s : State) (n : Fin 2) :
    ((ciaCheckIcr s).cia n).alarm = (s.cia n).alarm := by
  match n with
  | 0 =>
    simp only [ciaCheckIcr, State.cia_zero]
    split
    · exact rethinkIcr_alarm _
    · rfl
  | 1 =>
    simp only [ciaCheckIcr, State.cia_one]
    split
    · exact rethinkIcr_alarm _
    · rfl

theorem ciaSyncInterrupt_alarm (num : Fin 2) (icr : BitVec 8) (s : State) (n : Fin 2) :
    ((ciaSyncInterrupt num icr s).cia n).alarm = (s.cia n).alarm := by
  unfold ciaSyncInterrupt
  dsimp only
  split_ifs
  · refine setCia_alarm num ?_ n
    rfl
  · refine setCia_alarm num ?_ n
    rfl
  · rw [ciaCheckIcr_alarm]
    refine setCia_alarm num ?_ n
    rfl

theorem ciaCheckAlarm_alarm (env : Env) (inc irq : Bool) (num : Fin 2) (s : State) (n : Fin 2) :
    ((ciaCheckAlarm env inc irq num s).cia n).alarm = (s.cia n).alarm := by
  unfold ciaCheckAlarm
  dsimp only
  split
  · exact ciaSyncInterrupt_alarm num icrAlarm s n
  · rfl

theorem ciaTodInc_alarm (env : Env) (irq : Bool) (num : Fin 2) (s : State) (n : Fin 2) :
    ((ciaTodInc env irq num s).cia n).alarm = (s.cia n).alarm := by
  unfold ciaTodInc
  dsimp only
  split
  · refine setCia_alarm num ?_ n
    rfl
  · rw [ciaCheckAlarm_alarm]
    refine setCia_alarm num ?_ n
    rfl

theorem ciaTodCheck_alarm (env : Env) (hpos : Int) (num : Fin 2) (s : State) (n : Fin 2) :
    ((ciaTodCheck env hpos num s).cia n).alarm = (s.cia n).alarm := by
  have hevent : ((ciaTodEventCheck env hpos num s).cia n).alarm = (s.cia n).alarm := by
    unfold ciaTodEventCheck
    dsimp only
    split
    · refine (setCia_alarm num ?_ n).trans (ciaTodInc_alarm env false num s n)
      rfl
    · rfl
  unfold ciaTodCheck
  dsimp only
  split_ifs
  · exact hevent
  · rw [ciaTodInc_alarm, hevent]
  · refine (setCia_alarm num ?_ n).trans hevent
    rfl

/-- A byte written to one of the four registers, with the beam where the write finds it. -/
structure TodWrite where
  /-- Register 8, 9, 10 or 11. -/
  byte : Fin 4
  val : BitVec 8
  hpos : Int

namespace TodWrite

def reg (w : TodWrite) : Fin 16 := ⟨8 + w.byte, by omega⟩

/-- Two decimal digits. -/
def Bcd (w : TodWrite) : Prop := w.val.toNat / 16 ≤ 9 ∧ w.val.toNat % 16 ≤ 9

/-- The write as the chip receives it. -/
def run (env : Env) (num : Fin 2) (w : TodWrite) (s : State) : State :=
  writeCiaReg env w.hpos num w.reg w.val s

end TodWrite

/-- The writes to registers 8 to 11 go to the alarm. -/
def AlarmMode (num : Fin 2) (s : State) : Prop := (s.cia num).t1.cr &&& crAlarm ≠ 0

/-- In alarm mode a write changes the alarm, and the mode stays. -/
theorem run_alarmMode {env : Env} (henv : env.cia6526 = true) {num : Fin 2} {s : State}
    (hmode : AlarmMode num s) (w : TodWrite) :
    AlarmMode num (w.run env num s) ∧
      ((w.run env num s).cia num).alarm =
        putTodByte env (s.cia num).alarm (8 * w.byte) w.val := by
  have hsame := (ciaTodCheck_same env w.hpos num s).t num 1
  have halarm := ciaTodCheck_alarm env w.hpos num s num
  have hwrite : w.run env num s = writeTod env w.hpos num w.reg w.val s := by
    obtain ⟨byte, val, hpos⟩ := w
    match byte with
    | 0 | 1 | 2 | 3 => rfl
  have hmode' : ((ciaTodCheck env w.hpos num s).cia num).t1.cr &&& crAlarm ≠ 0 := by
    rw [Cia.t_one, Cia.t_one] at hsame
    rw [hsame]
    exact hmode
  have hstep : w.run env num s = (ciaTodCheck env w.hpos num s).setCia num
      { (ciaTodCheck env w.hpos num s).cia num with
        alarm := putTodByte env (s.cia num).alarm (8 * w.byte) w.val } := by
    rw [hwrite, writeTod]
    obtain ⟨byte, val, hpos⟩ := w
    dsimp only at hmode' halarm ⊢
    match byte with
    | 0 =>
      have hreg : (⟨0, val, hpos⟩ : TodWrite).reg = 8 := rfl
      rw [hreg, if_pos rfl, if_pos hmode', halarm]
      rfl
    | 1 =>
      have hreg : (⟨1, val, hpos⟩ : TodWrite).reg = 9 := rfl
      rw [hreg, if_neg (by decide), if_pos rfl, if_pos hmode', halarm]
      rfl
    | 2 =>
      have hreg : (⟨2, val, hpos⟩ : TodWrite).reg = 10 := rfl
      rw [hreg, if_neg (by decide), if_neg (by decide), if_pos rfl, if_pos hmode', halarm]
      rfl
    | 3 =>
      have hreg : (⟨3, val, hpos⟩ : TodWrite).reg = 11 := rfl
      rw [hreg, if_neg (by decide), if_neg (by decide), if_neg (by decide), if_pos henv,
        if_pos hmode', halarm]
      rfl
  rw [hstep]
  match num with
  | 0 => exact ⟨hmode', rfl⟩
  | 1 => exact ⟨hmode', rfl⟩

/-! ### Runs of writes -/

/-- A written byte reads back and the other three are as they were. -/
def WritesByte (env : Env) (num : Fin 2) (w : TodWrite) (s : State) : Prop :=
  ∀ p : Fin 4, byteOf (getCiaTod env ((w.run env num s).cia num).alarm) (8 * p) =
    if p = w.byte then w.val else byteOf (getCiaTod env (s.cia num).alarm) (8 * p)

/-- Every write of a run does so. -/
def EveryWrite (env : Env) (num : Fin 2) : List TodWrite → State → Prop
  | [], _ => True
  | w :: ws, s => WritesByte env num w s ∧ EveryWrite env num ws (w.run env num s)

/-- The bytes are zero, those of the alarm but for the first one written too. -/
def AllZero (env : Env) (num : Fin 2) (ws : List TodWrite) (s : State) : Prop :=
  (∀ w ∈ ws, w.val = 0) ∧
    ∀ w ∈ ws.head?, ∀ p : Fin 4, p ≠ w.byte → byteOf (getCiaTod env (s.cia num).alarm) (8 * p) = 0

/-- The value a write converts back. -/
def merged (env : Env) (alarm : BitVec 32) (w : TodWrite) : BitVec 32 :=
  (getCiaTod env alarm &&& ~~~((0xff : BitVec 32) <<< (8 * w.byte.val))) |||
    (w.val.setWidth 32 <<< (8 * w.byte.val))

/-- A 32-bit value is its four bytes. -/
theorem eq_of_byteOf {v w : BitVec 32} (h : ∀ p : Fin 4, byteOf v (8 * p) = byteOf w (8 * p)) :
    v = w := by
  apply BitVec.eq_of_getLsbD_eq
  intro i hi
  have hbyte := congrArg (fun x : BitVec 8 => x.getLsbD (i % 8)) (h ⟨i / 8, by omega⟩)
  have hpos : 8 * (i / 8) + i % 8 = i := by omega
  have hlt : i % 8 < 8 := by omega
  simpa [byteOf, hpos, hlt] using hbyte

theorem byteOf_merged (env : Env) (alarm : BitVec 32) (w : TodWrite) (p : Fin 4) :
    byteOf (merged env alarm w) (8 * p) =
      if p = w.byte then w.val else byteOf (getCiaTod env alarm) (8 * p) := by
  apply BitVec.eq_of_getLsbD_eq
  intro i hi
  have hbit (v : BitVec 32) : (byteOf v (8 * p)).getLsbD i = v.getLsbD (8 * p + i) := by
    simp [byteOf, hi]
  have hones : (0xff : BitVec 32) = (BitVec.allOnes 8).setWidth 32 := by decide
  rw [hbit, merged, hones]
  have hp := p.isLt
  have hw := w.byte.isLt
  simp only [BitVec.getLsbD_or, BitVec.getLsbD_and, BitVec.getLsbD_not, BitVec.getLsbD_shiftLeft,
    BitVec.getLsbD_setWidth, BitVec.getLsbD_allOnes]
  have hj : 8 * p.val + i < 32 := by omega
  by_cases hpw : p = w.byte
  · subst hpw
    have hge : ¬ 8 * w.byte.val + i < 8 * w.byte.val := by omega
    have hback : 8 * w.byte.val + i - 8 * w.byte.val = i := by omega
    have hi' : i < 32 := by omega
    simp [hj, hge, hback, hi, hi']
  · have hne : p.val ≠ w.byte.val := fun h => hpw (Fin.ext h)
    rw [if_neg hpw, hbit]
    by_cases hlow : 8 * p.val + i < 8 * w.byte.val
    · simp [hj, hlow]
    · -- above the byte written: the shifted byte has no bits there
      have hhigh : 8 ≤ 8 * p.val + i - 8 * w.byte.val := by omega
      have hzero := BitVec.getLsbD_of_ge w.val _ hhigh
      have hnot : ¬ 8 * p.val + i - 8 * w.byte.val < 8 := by omega
      simp [hj, hlow, hzero, hnot]

/-- A write goes right when what it converts back is zero, and then the alarm is zero. -/
theorem writesByte_iff {env : Env} (henv : env.cia6526 = true) {num : Fin 2} {s : State}
    (hmode : AlarmMode num s) (w : TodWrite) :
    WritesByte env num w s ↔ merged env (s.cia num).alarm w = 0 := by
  have halarm : ((w.run env num s).cia num).alarm =
      setCiaTod env (merged env (s.cia num).alarm w) := (run_alarmMode henv hmode w).2
  rw [WritesByte, halarm, ← getCiaTod_setCiaTod henv]
  constructor
  · intro h
    refine eq_of_byteOf (fun p => ?_)
    rw [h p, byteOf_merged]
  · intro h p
    rw [h, byteOf_merged]

theorem byteOf_zero (k : Nat) : byteOf 0 k = 0 := by
  apply BitVec.eq_of_getLsbD_eq
  intro i hi
  simp [byteOf]

theorem merged_eq_zero (env : Env) (alarm : BitVec 32) (w : TodWrite) :
    merged env alarm w = 0 ↔
      w.val = 0 ∧ ∀ p : Fin 4, p ≠ w.byte → byteOf (getCiaTod env alarm) (8 * p) = 0 := by
  constructor
  · intro h
    have hbytes (p : Fin 4) := byteOf_merged env alarm w p
    simp only [h, byteOf_zero] at hbytes
    refine ⟨?_, fun p hp => ?_⟩
    · have hw := hbytes w.byte
      rw [if_pos rfl] at hw
      exact hw.symm
    · have hb := hbytes p
      rw [if_neg hp] at hb
      exact hb.symm
  · rintro ⟨hval, hbytes⟩
    refine eq_of_byteOf (fun p => ?_)
    rw [byteOf_merged, byteOf_zero]
    by_cases hp : p = w.byte
    · rw [if_pos hp, hval]
    · rw [if_neg hp, hbytes p hp]

/-- A run from a zero alarm. -/
theorem everyWrite_of_zero {env : Env} (henv : env.cia6526 = true) {num : Fin 2}
    (ws : List TodWrite) {s : State} (hmode : AlarmMode num s) (halarm : (s.cia num).alarm = 0) :
    EveryWrite env num ws s ↔ ∀ w ∈ ws, w.val = 0 := by
  induction ws generalizing s with
  | nil => simp [EveryWrite]
  | cons w ws ih =>
    have hfirst : WritesByte env num w s ↔ w.val = 0 := by
      rw [writesByte_iff henv hmode, merged_eq_zero, halarm, getCiaTod_zero]
      exact ⟨fun h => h.1, fun h => ⟨h, fun p _ => byteOf_zero _⟩⟩
    obtain ⟨hmode', halarm'⟩ := run_alarmMode henv hmode w
    rw [EveryWrite, hfirst, List.forall_mem_cons]
    refine and_congr_right (fun hval => ih hmode' ?_)
    have hmerged : merged env (s.cia num).alarm w = 0 := by
      rw [merged_eq_zero, halarm, getCiaTod_zero]
      exact ⟨hval, fun p _ => byteOf_zero _⟩
    rw [halarm']
    exact (congrArg (setCiaTod env) hmerged).trans (setCiaTod_zero env)

theorem everyWrite_iff {env : Env} (henv : env.cia6526 = true) {num : Fin 2} (ws : List TodWrite)
    {s : State} (hmode : AlarmMode num s) :
    EveryWrite env num ws s ↔ AllZero env num ws s := by
  cases ws with
  | nil => simp [EveryWrite, AllZero]
  | cons w ws =>
    obtain ⟨hmode', halarm'⟩ := run_alarmMode henv hmode w
    have htail : merged env (s.cia num).alarm w = 0 →
        (EveryWrite env num ws (w.run env num s) ↔ ∀ w' ∈ ws, w'.val = 0) := by
      intro hmerged
      refine everyWrite_of_zero henv ws hmode' ?_
      rw [halarm']
      exact (congrArg (setCiaTod env) hmerged).trans (setCiaTod_zero env)
    rw [EveryWrite, writesByte_iff henv hmode, and_congr_right htail, merged_eq_zero, AllZero,
      List.forall_mem_cons]
    simp only [List.head?_cons, Option.mem_def, Option.some.injEq, forall_eq']
    tauto

/-- **The TOD on a 6526.** A counter below 10000 survives the two conversions only when it is
zero, and in a run of BCD writes to the alarm every written byte reads back with the other three
unchanged just when all the bytes are zero. -/
theorem ciaTod_roundTrip (env : Env) (henv : env.cia6526 = true) :
    (∀ tod : BitVec 32, tod.toNat < 10000 →
      (setCiaTod env (getCiaTod env tod) = tod ↔ tod = 0)) ∧
    ∀ (num : Fin 2) (s : State) (ws : List TodWrite), AlarmMode num s → (∀ w ∈ ws, w.Bcd) →
      (EveryWrite env num ws s ↔ AllZero env num ws s) :=
  ⟨fun _ htod => setCiaTod_getCiaTod henv htod, fun _ _ ws hmode _ => everyWrite_iff henv ws hmode⟩

/-! ### A 6526 in alarm mode -/

def bcdEnv : Env := { plainEnv with cia6526 := true }

/-- A chip after reset with `CR_ALARM` set. -/
def alarmState : State :=
  resetState.setCia 0 { resetChip 0 with t1 := { (resetChip 0).t1 with cr := crAlarm } }

theorem ciaTod_roundTrip_zero :
    setCiaTod bcdEnv (getCiaTod bcdEnv 0) = 0 ∧
      EveryWrite bcdEnv 0 [⟨0, 0, 10⟩, ⟨1, 0, 11⟩] alarmState :=
  ⟨((ciaTod_roundTrip bcdEnv rfl).1 0 (by decide)).2 rfl,
    ((ciaTod_roundTrip bcdEnv rfl).2 0 alarmState [⟨0, 0, 10⟩, ⟨1, 0, 11⟩]
      (by unfold AlarmMode; decide) (by simp [TodWrite.Bcd])).2 ⟨by simp, by
        intro w _ p _
        have halarm : (alarmState.cia 0).alarm = 0 := by decide
        rw [halarm, getCiaTod_zero, byteOf_zero]⟩⟩

/-- One second comes back as 257610, and 12 written to the lowest byte as zero. -/
theorem ciaTod_loses :
    setCiaTod bcdEnv (getCiaTod bcdEnv 1) = 257610 ∧
    AlarmMode 0 alarmState ∧ (⟨0, 0x12, 10⟩ : TodWrite).Bcd ∧
      ¬ EveryWrite bcdEnv 0 [⟨0, 0x12, 10⟩] alarmState := by
  have hmode : AlarmMode 0 alarmState := by
    unfold AlarmMode
    decide
  refine ⟨by decide, hmode, ⟨by decide, by decide⟩, ?_⟩
  rw [everyWrite_iff rfl _ hmode]
  rintro ⟨hval, -⟩
  exact absurd (hval _ List.mem_cons_self) (by decide)

end LibretroUae.CiaChips
