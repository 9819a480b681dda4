import LibretroUae.Cia.Lazy
import LibretroUae.Lib.Bytes

/-!
# LibretroUae.Cia.SaveState

The CIA chunk of a savestate: `save_cia` and `restore_cia`, and when one undoes the
other.

The writer is a byte list and the reader consumes a prefix of one, so "consumes
exactly what was written" is part of the round trip: in front of every suffix the
reader leaves the suffix.

The restored latched time of day is taken from the wrong local variable, which at
that point still holds timer B's latch, and the format keeps three of the four bytes
of the time-of-day counter and of the alarm. `restoreCia_saveCia_iff` says that the
round trip holds exactly where none of this shows.
-/

namespace LibretroUae.CiaChips

open LibretroUae.Lib

/-! ### Writing -/

/-- `save_cia_prepare`. -/
def saveCiaPrepare (s : State) : Except CiaFault State := do
  computePassedTime (← ciaCalcTimers (← ciaUpdateCheck s))

/-- `c->t[tn].timer - c->t[tn].passed`, cut to 16 bits. -/
def timerWord (t : CiaTimer) : BitVec 16 :=
  (BitVec.ofNat 32 t.timer - BitVec.ofNat 32 t.passed).setWidth 16

/-- `c->t[tn].latch` as the `uae_u32` it is. -/
def latchWord (t : CiaTimer) : BitVec 32 := BitVec.ofNat 32 t.latch

/-- The flag byte: is TOD latched, does TOD run, is SDR loaded. -/
def flagByte (tlatch todon sdrLoad : Bool) : Byte :=
  (if tlatch then 1 else 0) ||| (if todon then 2 else 0) ||| (if sdrLoad then 4 else 0)

/-- The CIA registers, 16 bytes. -/
def regBytes (c : Cia) : List Byte :=
  c.pra :: c.prb :: c.dra :: c.drb :: (be16 (timerWord c.t0) ++ (be16 (timerWord c.t1) ++
    [byteAt c.tod 0, byteAt c.tod 8, byteAt c.tod 16, 0, c.sdr, c.icr2, c.t0.cr, c.t1.cr]))

/-- The CIA internal data. -/
def internalBytes (c : Cia) : List Byte :=
  [c.imask, byteAt (latchWord c.t0) 0, byteAt (latchWord c.t0) 8, byteAt (latchWord c.t1) 0,
    byteAt (latchWord c.t1) 8, byteAt c.tol 0, byteAt c.tol 8, byteAt c.tol 16,
    byteAt c.alarm 0, byteAt c.alarm 8, byteAt c.alarm 16,
    flagByte c.tlatch c.todon c.sdrLoad, 0, c.sdrCnt, c.sdrBuf]

/-- The tail added in 4.9.2. -/
def extBytes (c : Cia) (eclockphase internaleclockphase : Int) : List Byte :=
  1 :: c.icr1 :: (be16 c.t0.inputpipe ++ (be16 c.t1.inputpipe ++ (be32 c.t0.loaddelay ++
    (be32 c.t1.loaddelay ++ (be16 (BitVec.ofInt 16 eclockphase) ++
      be16 (BitVec.ofInt 16 internaleclockphase))))))

/-- The bytes `save_cia` writes for a chip. -/
def ciaBytes (c : Cia) (eclockphase internaleclockphase : Int) : List Byte :=
  regBytes c ++ (internalBytes c ++ extBytes c eclockphase internaleclockphase)

/-- `save_cia`: the state after `save_cia_prepare` and the bytes. -/
def saveCia (num : Fin 2) (s : State) : Except CiaFault (State × List Byte) := do
  let s ← saveCiaPrepare s
  return (s, ciaBytes (s.cia num) s.eclockphase s.internaleclockphase)

/-! ### Reading -/

/-- `w = restore_u8 (); w |= restore_u8 () << 8`. -/
def le16 (b0 b1 : Byte) : BitVec 16 := b0.setWidth 16 ||| (b1.setWidth 16 <<< 8)

/-- `l = restore_u8 (); l |= restore_u8 () << 8; l |= restore_u8 () << 16`. -/
def le24 (b0 b1 b2 : Byte) : BitVec 32 :=
  b0.setWidth 32 ||| (b1.setWidth 32 <<< 8) ||| (b2.setWidth 32 <<< 16)

/-- What the register part of the chunk holds. -/
structure RegData where
  pra : Byte
  prb : Byte
  dra : Byte
  drb : Byte
  timer0 : BitVec 16
  timer1 : BitVec 16
  tod : BitVec 32
  sdr : Byte
  icr : Byte
  cr0 : Byte
  cr1 : Byte

/-- The register part of `restore_cia`. -/
def restoreRegs : Reader RegData := do
  let pra ← Reader.u8
  let prb ← Reader.u8
  let dra ← Reader.u8
  let drb ← Reader.u8
  let timer0 ← Reader.u16
  let timer1 ← Reader.u16
  let tod0 ← Reader.u8
  let tod1 ← Reader.u8
  let tod2 ← Reader.u8
  let _ ← Reader.u8
  let sdr ← Reader.u8
  let icr ← Reader.u8
  let cr0 ← Reader.u8
  let cr1 ← Reader.u8
  return ⟨pra, prb, dra, drb, timer0, timer1, le24 tod0 tod1 tod2, sdr, icr, cr0, cr1⟩

/-- What the internal part of the chunk holds: `tol` is what `restore_cia` assigns. -/
structure InternalData where
  imask : Byte
  latch0 : BitVec 16
  latch1 : BitVec 16
  tol : BitVec 32
  alarm : BitVec 32
  flags : Byte
  sdrCnt : Byte
  sdrBuf : Byte

/-- The internal part of `restore_cia`. The locals `w` and `l` are numbered by their
assignments. -/
def restoreInternal : Reader InternalData := do
  let imask ← Reader.u8
  let b0 ← Reader.u8
  let b1 ← Reader.u8
  let w1 := le16 b0 b1
  let b0 ← Reader.u8
  let b1 ← Reader.u8
  let w2 := le16 b0 b1
  let b0 ← Reader.u8
  let b1 ← Reader.u8
  let b2 ← Reader.u8
  let _l1 := le24 b0 b1 b2
  -- c->tol = w
  let tol := w2.setWidth 32
  let b0 ← Reader.u8
  let b1 ← Reader.u8
  let b2 ← Reader.u8
  let l2 := le24 b0 b1 b2
  let flags ← Reader.u8
  let _ ← Reader.u8
  let sdrCnt ← Reader.u8
  let sdrBuf ← Reader.u8
  return ⟨imask, w1, w2, tol, l2, flags, sdrCnt, sdrBuf⟩

/-- What the 4.9.2 tail holds. -/
structure ExtData where
  icr1 : Byte
  pipe0 : BitVec 16
  pipe1 : BitVec 16
  load0 : BitVec 32
  load1 : BitVec 32
  eclockphase : BitVec 16
  internaleclockphase : BitVec 16

/-- The fields of the 4.9.2 tail. -/
def restoreExtFields : Reader ExtData := do
  let icr1 ← Reader.u8
  let pipe0 ← Reader.u16
  let pipe1 ← Reader.u16
  let load0 ← Reader.u32
  let load1 ← Reader.u32
  let eclockphase ← Reader.u16
  let internaleclockphase ← Reader.u16
  return ⟨icr1, pipe0, pipe1, load0, load1, eclockphase, internaleclockphase⟩

/-- The 4.9.2 tail of `restore_cia`, behind its flag. -/
def restoreExt : Reader (Option ExtData) := do
  let ext ← Reader.u8
  if ext &&& 1 ≠ 0 then return some (← restoreExtFields) else return none

/-- The pipe of an old savestate: full when the timer is started. -/
def oldPipe (cr : BitVec 8) : BitVec 16 := if cr &&& crStart ≠ 0 then pipeAllMask else 0

/-- The assignments of `restore_cia` without the tail. -/
def restoreChip (c : Cia) (r : RegData) (i : InternalData) : Cia :=
  { c with
    pra := r.pra, prb := r.prb, dra := r.dra, drb := r.drb
    t0 := { c.t0 with
      timer := r.timer0.toNat, latch := i.latch0.toNat, cr := r.cr0, loaddelay := 0
      inputpipe := oldPipe r.cr0 }
    t1 := { c.t1 with
      timer := r.timer1.toNat, latch := i.latch1.toNat, cr := r.cr1, loaddelay := 0
      inputpipe := oldPipe r.cr1 }
    tod := r.tod, sdr := r.sdr, icr1 := r.icr, icr2 := r.icr, imask := i.imask
    tol := i.tol, alarm := i.alarm, tlatch := decide (i.flags &&& 1 ≠ 0)
    todon := decide (i.flags &&& 2 ≠ 0), sdrLoad := decide (i.flags &&& 4 ≠ 0)
    sdrCnt := i.sdrCnt, sdrBuf := i.sdrBuf }

/-- The assignments of the tail. -/
def restoreChipExt (c : Cia) (e : ExtData) : Cia :=
  { c with
    icr1 := e.icr1
    t0 := { c.t0 with inputpipe := e.pipe0, loaddelay := e.load0 }
    t1 := { c.t1 with inputpipe := e.pipe1, loaddelay := e.load1 } }

/-- `restore_cia`. -/
def restoreCia (num : Fin 2) (s : State) : Reader State := do
  let r ← restoreRegs
  let i ← restoreInternal
  let c := restoreChip (s.cia num) r i
  match ← restoreExt with
  | none => return s.setCia num c
  | some e =>
    return { s.setCia num (restoreChipExt c e) with
      eclockphase := e.eclockphase.toNat, internaleclockphase := e.internaleclockphase.toNat }

/-! ### The round trip -/

/-- The register data of a chip as `restore_cia` sees it. -/
def regData (c : Cia) : RegData :=
  ⟨c.pra, c.prb, c.dra, c.drb, timerWord c.t0, timerWord c.t1,
    le24 (byteAt c.tod 0) (byteAt c.tod 8) (byteAt c.tod 16), c.sdr, c.icr2, c.t0.cr, c.t1.cr⟩

/-- The latch of a timer as `restore_cia` sees it. -/
def latchData (t : CiaTimer) : BitVec 16 := le16 (byteAt (latchWord t) 0) (byteAt (latchWord t) 8)

/-- The internal data of a chip as `restore_cia` sees it. -/
def internalData (c : Cia) : InternalData :=
  ⟨c.imask, latchData c.t0, latchData c.t1, (latchData c.t1).setWidth 32,
    le24 (byteAt c.alarm 0) (byteAt c.alarm 8) (byteAt c.alarm 16),
    flagByte c.tlatch c.todon c.sdrLoad, c.sdrCnt, c.sdrBuf⟩

/-- The tail of a chip as `restore_cia` sees it. -/
def extData (c : Cia) (eclockphase internaleclockphase : Int) : ExtData :=
  ⟨c.icr1, c.t0.inputpipe, c.t1.inputpipe, c.t0.loaddelay, c.t1.loaddelay,
    BitVec.ofInt 16 eclockphase, BitVec.ofInt 16 internaleclockphase⟩

theorem restoreRegs_run (c : Cia) (rest : List Byte) :
    restoreRegs.run (regBytes c ++ rest) = some (regData c, rest) := by
  simp only [restoreRegs, regBytes, List.cons_append, List.append_assoc, Reader.u8_bind,
    Reader.u16_bind, List.nil_append, Reader.run_pure, regData]

theorem restoreInternal_run (c : Cia) (rest : List Byte) :
    restoreInternal.run (internalBytes c ++ rest) = some (internalData c, rest) := by
  simp only [restoreInternal, internalBytes, List.cons_append, Reader.u8_bind, List.nil_append,
    Reader.run_pure, internalData, latchData]

theorem restoreExtFields_run (c : Cia) (ph iph : Int) (rest : List Byte) :
    restoreExtFields.run ((extBytes c ph iph).tail ++ rest) = some (extData c ph iph, rest) := by
  simp only [restoreExtFields, extBytes, List.tail_cons, List.cons_append, List.append_assoc,
    Reader.u8_bind, Reader.u16_bind, Reader.u32_bind, Reader.run_pure, extData]

theorem restoreExt_run (c : Cia) (ph iph : Int) (rest : List Byte) :
    restoreExt.run (extBytes c ph iph ++ rest) = some (some (extData c ph iph), rest) := by
  have hbytes : extBytes c ph iph ++ rest = 1 :: ((extBytes c ph iph).tail ++ rest) := rfl
  have hflag : (1 : Byte) &&& 1 ≠ 0 := by decide
  rw [restoreExt, hbytes, Reader.u8_bind, if_pos hflag, Reader.bind_run (restoreExtFields_run ..)]
  rfl

/-- The chip `restore_cia` makes out of the bytes of `c`, in place of `old`. -/
def restored (old c : Cia) (ph iph : Int) : Cia :=
  restoreChipExt (restoreChip old (regData c) (internalData c)) (extData c ph iph)

/-- `restore_cia` reads the bytes of `save_cia` to their end and no further. -/
theorem restoreCia_run (num : Fin 2) (u : State) (c : Cia) (ph iph : Int) (rest : List Byte) :
    ∃ u', (restoreCia num u).run (ciaBytes c ph iph ++ rest) = some (u', rest) ∧
      u'.cia num = restored (u.cia num) c ph iph := by
  rw [restoreCia, ciaBytes, List.append_assoc, List.append_assoc,
    Reader.bind_run (restoreRegs_run ..), Reader.bind_run (restoreInternal_run ..)]
  dsimp only
  rw [Reader.bind_run (restoreExt_run ..)]
  refine ⟨_, rfl, ?_⟩
  match num with
  | 0 => rfl
  | 1 => rfl

/-! ### Where the round trip holds -/

theorem le24_byteAt (v : BitVec 32) :
    le24 (byteAt v 0) (byteAt v 8) (byteAt v 16) = v &&& 0xffffff := by
  have hmask : ∀ i, i < 32 → (0xffffff : BitVec 32).getLsbD i = decide (i < 24) := by
    decide
  apply BitVec.eq_of_getLsbD_eq
  intro i hi
  have h0 := getLsbD_byteAt_shift v 0 i hi
  rw [BitVec.shiftLeft_zero] at h0
  rw [le24, BitVec.getLsbD_or, BitVec.getLsbD_or, h0, getLsbD_byteAt_shift v 8 i hi,
    getLsbD_byteAt_shift v 16 i hi, BitVec.getLsbD_and, hmask i hi]
  cases v.getLsbD i with
  | false => simp
  | true =>
    simp only [Bool.and_true, Bool.true_and, ← Bool.decide_or, decide_eq_decide]
    omega

/-- Three bytes keep a 32-bit value when it has no more. -/
theorem le24_byteAt_eq_iff (v : BitVec 32) :
    v = le24 (byteAt v 0) (byteAt v 8) (byteAt v 16) ↔ v.toNat < 2 ^ 24 := by
  have hmod : (v &&& 0xffffff).toNat = v.toNat % 2 ^ 24 := by
    rw [BitVec.toNat_and]
    exact Nat.and_two_pow_sub_one_eq_mod v.toNat 24
  rw [le24_byteAt]
  constructor
  · intro h
    have := congrArg BitVec.toNat h
    rw [hmod] at this
    omega
  · intro h
    apply BitVec.eq_of_toNat_eq
    rw [hmod]
    omega

theorem byteAt_setWidth (v : BitVec 32) {s : Nat} (hs : s ≤ 8) :
    byteAt (v.setWidth 16) s = byteAt v s := by
  apply BitVec.eq_of_getLsbD_eq
  intro i hi
  have hlt : s + i < 16 := by omega
  simp only [byteAt, BitVec.getLsbD_setWidth, BitVec.getLsbD_ushiftRight, hlt, decide_true,
    Bool.true_and]

theorem latchData_toNat {t : CiaTimer} (h : t.latch < 65536) : (latchData t).toNat = t.latch := by
  have hword : latchData t = (latchWord t).setWidth 16 := by
    rw [← word16_byteAt ((latchWord t).setWidth 16), byteAt_setWidth _ (by decide),
      byteAt_setWidth _ (by decide), latchData, le16, word16, BitVec.or_comm]
  rw [hword, latchWord, BitVec.toNat_setWidth, BitVec.toNat_ofNat]
  omega

theorem timerWord_toNat {t : CiaTimer} (h : t.timer < 65536) (hp : t.passed = 0) :
    (timerWord t).toNat = t.timer := by
  have hsub : BitVec.ofNat 32 t.timer - BitVec.ofNat 32 t.passed = BitVec.ofNat 32 t.timer := by
    rw [hp]
    exact BitVec.sub_zero _
  rw [timerWord, hsub, BitVec.toNat_setWidth, BitVec.toNat_ofNat]
  omega

theorem flagByte_decode (a b c : Bool) :
    decide (flagByte a b c &&& 1 ≠ 0) = a ∧ decide (flagByte a b c &&& 2 ≠ 0) = b ∧
      decide (flagByte a b c &&& 4 ≠ 0) = c := by
  revert a b c
  decide

/-- Two timers agree on what a savestate carries of them. -/
structure SameSavedTimer (t t' : CiaTimer) : Prop where
  timer : t'.timer = t.timer
  latch : t'.latch = t.latch
  cr : t'.cr = t.cr
  inputpipe : t'.inputpipe = t.inputpipe
  loaddelay : t'.loaddelay = t.loaddelay

/-- Two chips agree on what a savestate carries of them. -/
structure SameSaved (c c' : Cia) : Prop where
  pra : c'.pra = c.pra
  prb : c'.prb = c.prb
  dra : c'.dra = c.dra
  drb : c'.drb = c.drb
  t0 : SameSavedTimer c.t0 c'.t0
  t1 : SameSavedTimer c.t1 c'.t1
  tod : c'.tod = c.tod
  tol : c'.tol = c.tol
  alarm : c'.alarm = c.alarm
  tlatch : c'.tlatch = c.tlatch
  todon : c'.todon = c.todon
  imask : c'.imask = c.imask
  icr1 : c'.icr1 = c.icr1
  icr2 : c'.icr2 = c.icr2
  sdr : c'.sdr = c.sdr
  sdrBuf : c'.sdrBuf = c.sdrBuf
  sdrLoad : c'.sdrLoad = c.sdrLoad
  sdrCnt : c'.sdrCnt = c.sdrCnt

/-- A chip whose timers are in range and up to date. -/
structure Prepared (c : Cia) : Prop where
  ok : ChipOk False c
  passed0 : c.t0.passed = 0
  passed1 : c.t1.passed = 0

/-- The round trip of a chip holds exactly when its latched time of day is timer B's
latch, and counter and alarm have no fourth byte. -/
theorem sameSaved_restored_iff {old c : Cia} (h : Prepared c) (ph iph : Int) :
    SameSaved c (restored old c ph iph) ↔
      c.tol.toNat = c.t1.latch ∧ c.tod.toNat < 2 ^ 24 ∧ c.alarm.toNat < 2 ^ 24 := by
  have htol : (restored old c ph iph).tol.toNat = c.t1.latch := by
    have hr : (restored old c ph iph).tol = (latchData c.t1).setWidth 32 := rfl
    have hlatch := h.ok.2.latch
    rw [hr, BitVec.toNat_setWidth, latchData_toNat hlatch]
    omega
  constructor
  · intro hs
    refine ⟨?_, ?_, ?_⟩
    · rw [← hs.tol]
      exact htol
    · exact (le24_byteAt_eq_iff c.tod).mp hs.tod.symm
    · exact (le24_byteAt_eq_iff c.alarm).mp hs.alarm.symm
  · rintro ⟨h1, h2, h3⟩
    obtain ⟨hf1, hf2, hf4⟩ := flagByte_decode c.tlatch c.todon c.sdrLoad
    exact {
      pra := rfl, prb := rfl, dra := rfl, drb := rfl
      t0 := ⟨timerWord_toNat h.ok.1.timer h.passed0, latchData_toNat h.ok.1.latch, rfl, rfl, rfl⟩
      t1 := ⟨timerWord_toNat h.ok.2.timer h.passed1, latchData_toNat h.ok.2.latch, rfl, rfl, rfl⟩
      tod := ((le24_byteAt_eq_iff c.tod).mpr h2).symm
      tol := BitVec.eq_of_toNat_eq (htol.trans h1.symm)
      alarm := ((le24_byteAt_eq_iff c.alarm).mpr h3).symm
      tlatch := hf1, todon := hf2, sdrLoad := hf4
      imask := rfl, icr1 := rfl, icr2 := rfl, sdr := rfl, sdrBuf := rfl, sdrCnt := rfl }

/-! ### `save_cia_prepare` -/

theorem passedTime_zero {tn : Fin 2} {t : CiaTimer} (h : TimerOk False t) :
    passedTime tn t 0 = .ok { t with passed := 0 } := by
  unfold passedTime
  by_cases hc : counting tn t
  · have hlt : (0 : Nat) < 65536 := by decide
    simp only [hc, if_true, h.pipe.bitsToDelay_eq, bind, Except.bind, pure, Except.pure,
      Nat.zero_sub, hlt, not_true_eq_false, if_false]
  · rw [if_neg hc]
    rfl

/-- `save_cia_prepare` goes through in every state of the invariant, and leaves both chips
prepared. -/
theorem saveCiaPrepare_ok {s : State} (h : Inv False s) :
    ∃ s1, saveCiaPrepare s = .ok s1 ∧ ∀ num, Prepared (s1.cia num) := by
  obtain ⟨s', hcheck, hok⟩ := ciaUpdateCheck_ok h
  have hcalc := ciaCalcTimers_eq hok
  have hclocks : ciaclocks { s' with evCia := scheduled s'.cycles s'.evCia s'.nextUse } = 0 := by
    have hold : (scheduled s'.cycles s'.evCia s'.nextUse).oldcycles = s'.cycles := by
      cases s'.nextUse <;> rfl
    simp [ciaclocks, hold]
  refine ⟨{ s' with
      cia0 := s'.cia0.setPassed 0 0, cia1 := s'.cia1.setPassed 0 0
      evCia := scheduled s'.cycles s'.evCia s'.nextUse }, ?_, ?_⟩
  · simp only [saveCiaPrepare, hcheck, hcalc, bind, Except.bind, computePassedTime, hclocks,
      computePassedTimeCia, passedTime_zero hok.chip0.1, passedTime_zero hok.chip0.2,
      passedTime_zero hok.chip1.1, passedTime_zero hok.chip1.2, pure, Except.pure, Cia.setPassed]
  · have hset : ∀ {c : Cia}, ChipOk False c → Prepared (c.setPassed 0 0) := by
      intro c hc
      exact ⟨⟨⟨hc.1.pipe, hc.1.timer, hc.1.latch, hc.1.preovfl⟩,
        ⟨hc.2.pipe, hc.2.timer, hc.2.latch, hc.2.preovfl⟩⟩, rfl, rfl⟩
    intro num
    rcases eq_zero_or_one num with rfl | rfl
    · exact hset hok.chip0
    · exact hset hok.chip1

/-- In every run from reset: `save_cia` goes through, `restore_cia` consumes exactly what it
wrote, and the chip comes back whole if and only if its latched time of day equals timer
B's latch and its time-of-day counter and alarm fit in three bytes. -/
theorem restoreCia_saveCia_iff (env : Env) (cycles : Nat) (acc : Bool) (ev : Ev)
    (eclockphase : Int) {s0 s : State} (h0 : ciaReset cycles acc ev eclockphase = .ok s0)
    (hreach : (machine env).Reachable s0 s) (num : Fin 2) :
    ∃ s1 bytes, saveCia num s = .ok (s1, bytes) ∧
      ∀ (u : State) (rest : List Byte), ∃ u',
        (restoreCia num u).run (bytes ++ rest) = some (u', rest) ∧
        (SameSaved (s1.cia num) (u'.cia num) ↔
          (s1.cia num).tol.toNat = (s1.cia num).t1.latch ∧
            (s1.cia num).tod.toNat < 2 ^ 24 ∧ (s1.cia num).alarm.toNat < 2 ^ 24) := by
  obtain ⟨s0', h0', hInv0⟩ :=
    ciaReset_inv False cycles (fun hf => hf.elim) ev eclockphase
  obtain rfl : s0 = s0' := Except.ok.inj (h0.symm.trans h0')
  have hInv := (inv_invariant env).reachable hreach hInv0
  obtain ⟨s1, hprep, hs1⟩ := saveCiaPrepare_ok hInv
  refine ⟨s1, ciaBytes (s1.cia num) s1.eclockphase s1.internaleclockphase, ?_, ?_⟩
  · simp only [saveCia, hprep, bind, Except.bind, pure, Except.pure]
  · intro u rest
    obtain ⟨u', hrun, hu'⟩ := restoreCia_run num u (s1.cia num) s1.eclockphase
      s1.internaleclockphase rest
    refine ⟨u', hrun, ?_⟩
    rw [hu']
    exact sameSaved_restored_iff (hs1 num) _ _

/-- Latches, alarm and time of day are set, both timers run, a tick is counted, and the time of day
is read. -/
def savedInputs : List Input :=
  [.write 0 4 0 0x34, .write 0 5 0 0x12, .write 0 6 0 0x78, .write 0 7 0 0x56,
    .write 0 15 0 0x80, .write 0 10 0 0x01, .write 0 9 0 0x02, .write 0 8 0 0x04,
    .write 0 15 0 0x01, .write 0 10 0 0x01, .write 0 9 0 0x02, .write 0 8 0 0x02,
    .write 0 14 0 0x01, .advance 2560, .handler, .todHandler 0 0 true, .delayedTod 0,
    .read 0 10 0 0xff]

/-- The round trip of the first chip after that. -/
theorem restoreCia_saveCia_running : ∃ s, (machine plainEnv).exec resetState savedInputs = some s ∧
    (s.cia0.t0.latch = 0x1234 ∧ s.cia0.t1.latch = 0x5678 ∧ s.cia0.tod = 0x10203 ∧
      s.cia0.alarm = 0x10204) ∧
    ∃ s1 bytes, saveCia 0 s = .ok (s1, bytes) ∧
      ∀ (u : State) (rest : List Byte), ∃ u',
        (restoreCia 0 u).run (bytes ++ rest) = some (u', rest) ∧
        (SameSaved (s1.cia 0) (u'.cia 0) ↔
          (s1.cia 0).tol.toNat = (s1.cia 0).t1.latch ∧
            (s1.cia 0).tod.toNat < 2 ^ 24 ∧ (s1.cia 0).alarm.toNat < 2 ^ 24) := by
  have hset : ((machine plainEnv).exec resetState savedInputs).any (fun s =>
      s.cia0.t0.latch = 0x1234 ∧ s.cia0.t1.latch = 0x5678 ∧ s.cia0.tod = 0x10203 ∧
        s.cia0.alarm = 0x10204) = true := by decide +kernel
  obtain ⟨s, hexec, hset⟩ := (Option.any_eq_true _ _).mp hset
  exact ⟨s, hexec, of_decide_eq_true hset,
    restoreCia_saveCia_iff plainEnv 0 true ⟨false, 0, 0⟩ 0
      (by decide : ciaReset 0 true ⟨false, 0, 0⟩ 0 = .ok resetState)
      (Machine.reachable_of_exec hexec) 0⟩

/-- Right after reset the latched time of day is 0, and comes back as timer B's latch,
`0xffff`. -/
theorem restoreCia_saveCia_tol :
    ∃ s1 bytes u', saveCia 0 resetState = .ok (s1, bytes) ∧
      (restoreCia 0 resetState).run bytes = some (u', []) ∧
      ¬ SameSaved (s1.cia 0) (u'.cia 0) := by
  refine ⟨resetState, ciaBytes (resetChip 0) 0 0,
    { resetState with cia0 := { resetChip 0 with tol := 0xffff } },
    by decide, by decide +kernel, ?_⟩
  intro h
  exact absurd h.tol (by decide)

end LibretroUae.CiaChips
