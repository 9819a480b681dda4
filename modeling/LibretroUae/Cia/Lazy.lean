import LibretroUae.Cia.Runs

/-!
# LibretroUae.Cia.Lazy

**Lazy against cycle-by-cycle evaluation** in accurate mode.

`CIA_update_check` may be called once after many E-clocks or once every E-clock.
`batch n` is the first, `singles n` the second with `CIA_calctimers` after each
call, and `LazyAgrees n` says that the two leave the same timers, interrupt bits
and serial port.

* A chip whose timers are all *steady* for `k` E-clocks (counting with a full pipe
  and at least `k` to go, or idle with an empty one) is moved by an update over
  `j ≤ k` E-clocks to what `settle` makes of the chip counted down by `j`
  (`updateChip_steady`). The right side no longer mentions how the `j` clocks were
  cut into updates.
* `CIA_calctimers` puts the event no further away than the timers are steady, with
  one exception: a *stalled* timer, started, with a full pipe and an input other
  than the E-clock. It counts twice while its pipe drains, and `CIA_calctimers` does
  not look at it. Nothing else separates the two evaluations
  (`lazyAgrees_of_not_stalled`).
-/

namespace LibretroUae.CiaChips

open LibretroUae.Lib

/-! ### The two evaluations -/

/-- `n` E-clocks in one `CIA_update_check`. -/
def batch (n : Nat) (s : State) : Except CiaFault State :=
  ciaUpdateCheck { s with cycles := s.cycles + div10 * n }

/-- `n` times one E-clock, `CIA_update_check` and `CIA_calctimers`. -/
def singles : Nat → State → Except CiaFault State
  | 0, s => .ok s
  | n + 1, s => do
    let s ← ciaUpdateCheck { s with cycles := s.cycles + div10 }
    singles n (← ciaCalcTimers s)

/-- The pending event lies at least `n` E-clocks after the last update. -/
def Admissible (n : Nat) (s : State) : Prop :=
  s.evCia.active → s.evCia.oldcycles + div10 * n ≤ s.evCia.evtime

instance (n : Nat) (s : State) : Decidable (Admissible n s) :=
  inferInstanceAs (Decidable (_ → _))

/-- Two timers agree on what the chip does with them. -/
structure SameTimer (t t' : CiaTimer) : Prop where
  timer : t.timer = t'.timer
  latch : t.latch = t'.latch
  cr : t.cr = t'.cr
  inputpipe : t.inputpipe = t'.inputpipe
  loaddelay : t.loaddelay = t'.loaddelay

/-- Two chips agree on timers, interrupt bits and serial port. -/
structure SameChip (c c' : Cia) : Prop where
  t0 : SameTimer c.t0 c'.t0
  t1 : SameTimer c.t1 c'.t1
  icr : c.icr1 ||| c.icr2 = c'.icr1 ||| c'.icr2
  sdrCnt : c.sdrCnt = c'.sdrCnt
  sdrBuf : c.sdrBuf = c'.sdrBuf

theorem SameChip.refl (c : Cia) : SameChip c c :=
  ⟨⟨rfl, rfl, rfl, rfl, rfl⟩, ⟨rfl, rfl, rfl, rfl, rfl⟩, rfl, rfl, rfl⟩

/-- One update over `n` E-clocks does what `n` updates over one do. -/
def LazyAgrees (n : Nat) (s : State) : Prop :=
  ∃ b t, batch n s = .ok b ∧ singles n s = .ok t ∧ ∀ num, SameChip (b.cia num) (t.cia num)

/-- A timer that is started and not counting E-clocks, but whose pipe is still full. -/
def stalled (tn : Fin 2) (t : CiaTimer) : Prop :=
  t.cr &&& crStart ≠ 0 ∧ ¬ counting tn t ∧ t.inputpipe = pipeAllMask

instance (tn : Fin 2) (t : CiaTimer) : Decidable (stalled tn t) :=
  inferInstanceAs (Decidable (_ ∧ _))

/-! ### Steady timers -/

/-- Timer `tn` does nothing but count down for `k` E-clocks. -/
structure Steady (tn : Fin 2) (k : Nat) (t : CiaTimer) : Prop where
  loaddelay : t.loaddelay = 0
  preovfl : t.preovfl = false
  timer : t.timer < 65536
  count : counting tn t → t.inputpipe = pipeAllMask ∧ k ≤ t.timer
  idle : ¬ counting tn t → t.inputpipe = 0

/-- A steady timer `j` E-clocks later. -/
def tick (tn : Fin 2) (j : Nat) (t : CiaTimer) : CiaTimer :=
  if counting tn t then { t with timer := t.timer - j } else t

/-- A chip with steady timers `j` E-clocks later. -/
def ticks (j : Nat) (c : Cia) : Cia :=
  ((foldIcr c).setT 0 (tick 0 j c.t0)).setT 1 (tick 1 j c.t1)

@[simp] theorem counting_tick (tn : Fin 2) (j : Nat) (t : CiaTimer) :
    counting tn (tick tn j t) ↔ counting tn t := by
  unfold tick
  split <;> rfl

theorem tick_zero (tn : Fin 2) (t : CiaTimer) : tick tn 0 t = t := by
  unfold tick
  split <;> rfl

theorem tick_tick (tn : Fin 2) (i j : Nat) (t : CiaTimer) :
    tick tn i (tick tn j t) = tick tn (j + i) t := by
  by_cases hc : counting tn t
  · have hc' : counting tn (tick tn j t) := (counting_tick tn j t).mpr hc
    rw [tick, if_pos hc', tick, if_pos hc, tick, if_pos hc]
    dsimp only
    rw [Nat.sub_sub]
  · have hc' : ¬ counting tn (tick tn j t) := fun h => hc ((counting_tick tn j t).mp h)
    rw [tick, if_neg hc', tick, if_neg hc, tick, if_neg hc]

theorem foldIcr_foldIcr (c : Cia) : foldIcr (foldIcr c) = foldIcr c := by
  simp [foldIcr]

theorem ticks_zero (c : Cia) : ticks 0 c = foldIcr c := by
  rw [ticks, tick_zero, tick_zero]
  rfl

theorem ticks_ticks (i j : Nat) (c : Cia) : ticks i (ticks j c) = ticks (j + i) c := by
  simp [ticks, tick_tick, foldIcr]

theorem Steady.mono {tn : Fin 2} {j k : Nat} {t : CiaTimer} (h : Steady tn k t) (hjk : j ≤ k) :
    Steady tn j t where
  loaddelay := h.loaddelay
  preovfl := h.preovfl
  timer := h.timer
  count hc := ⟨(h.count hc).1, Nat.le_trans hjk (h.count hc).2⟩
  idle := h.idle

theorem Steady.tick {tn : Fin 2} {j k : Nat} {t : CiaTimer} (h : Steady tn (j + k) t) :
    Steady tn k (tick tn j t) := by
  by_cases hc : counting tn t
  · have hcount := h.count hc
    have hlt := h.timer
    rw [CiaChips.tick, if_pos hc]
    refine ⟨h.loaddelay, h.preovfl, ?_, fun _ => ⟨hcount.1, ?_⟩, fun hn => absurd hc hn⟩
    · dsimp only
      omega
    · dsimp only
      omega
  · rw [CiaChips.tick, if_neg hc]
    exact ⟨h.loaddelay, h.preovfl, h.timer, fun hc' => absurd hc' hc, h.idle⟩

/-- Both timers of a chip are steady. -/
def SteadyChip (k : Nat) (c : Cia) : Prop := Steady 0 k c.t0 ∧ Steady 1 k c.t1

/-! ### One update of a steady chip -/

/-- A full pipe lets every clock through, and no early interrupt before zero. -/
theorem processPipe_steady {tn : Fin 2} {j : Nat} {t : CiaTimer} (h : Steady tn j t) (hj : 1 ≤ j)
    (hc : counting tn t) : processPipe true t j (eclockMask tn) 0 false = ⟨t, j, 0⟩ := by
  have hpipe := (h.count hc).1
  have hpos : ¬ t.timer = 0 := by
    have := (h.count hc).2
    omega
  have hin : decide (t.cr &&& eclockMask tn = crStart) = true := decide_eq_true hc
  have hout : ¬ (pipeAllMask &&& pipeOutput = 0) := by decide
  have hshift : shiftPipe true pipeAllMask = pipeAllMask := by decide
  have ht : { t with inputpipe := pipeAllMask } = t := by rw [← hpipe]
  unfold processPipe
  rw [hin, hpipe]
  by_cases h1 : j = 1
  · subst h1
    simp only [and_self, if_true, hout, if_false, hshift, hpos, false_and, ht]
  · have hloop : pipeLoop true j pipeAllMask j = (pipeAllMask, j) := by
      cases j with
      | zero => rfl
      | succ j => rw [pipeLoop, if_pos rfl]
    simp only [h1, false_and, if_false, hloop, ht]

theorem countDown_steady {tn : Fin 2} {j : Nat} {t : CiaTimer} (h : Steady tn j t)
    (hc : counting tn t) : t.countDown j = tick tn j t := by
  rw [CiaTimer.countDown, subTimer_of_le (h.count hc).2 h.timer, tick, if_pos hc]

theorem loadSpecial_steady {tn : Fin 2} {k n : Nat} {t : CiaTimer} (h : Steady tn k t) :
    loadSpecial t n = .ok (t, {}) := by
  rw [loadSpecial, if_pos h.loaddelay]

/-- The timer A part on a steady timer. -/
theorem countA_steady {j : Nat} {c : Cia} (h : Steady 0 j c.t0) (hj : 1 ≤ j) :
    countA true j c {} =
      if counting 0 c.t0 then underflowA 0 (c.setT 0 (tick 0 j c.t0))
      else (c.setT 0 (tick 0 j c.t0), 0, false) := by
  unfold countA
  by_cases hc : counting 0 c.t0
  · have hp := processPipe_steady h hj hc
    rw [if_pos (Or.inl hc), if_pos hc]
    rw [hp]
    dsimp only
    rw [if_pos (Nat.lt_of_succ_le hj), countDown_steady h hc]
    rfl
  · have hidle : ¬ (counting 0 c.t0 ∨ c.t0.inputpipe ≠ 0) := by
      rintro (hc' | hp)
      · exact hc hc'
      · exact hp (h.idle hc)
    rw [if_neg hidle, if_neg hc, tick, if_neg hc]
    rfl

theorem inmode_of_counting {t : CiaTimer} (hc : counting 1 t) :
    t.cr &&& (crInmode ||| crInmode1) = 0 := by
  have hmode : ∀ cr : BitVec 8, cr &&& eclockMask 1 = crStart →
      cr &&& (crInmode ||| crInmode1) = 0 := by
    decide
  exact hmode _ hc

/-- The timer B part on a steady timer. -/
theorem countB_steady {j : Nat} {t : CiaTimer} (h : Steady 1 j t) (hj : 1 ≤ j) :
    countB true j t {} =
      (tick 1 j t, if counting 1 (tick 1 j t) ∧ (tick 1 j t).timer = 0 then 2 else 0) := by
  unfold countB
  simp only [counting_tick]
  by_cases hc : counting 1 t
  · have hp := processPipe_steady h hj hc
    have hmode := inmode_of_counting hc
    rw [if_pos (Or.inl hc), hp]
    dsimp only
    rw [if_pos (Nat.lt_of_succ_le hj), underflowB]
    simp only [hmode, ne_eq, not_true_eq_false, and_false, if_false, not_false_eq_true, and_true,
      countDown_steady h hc, hc, true_and]
  · have hidle : ¬ (counting 1 t ∨ t.inputpipe ≠ 0) := by
      rintro (hc' | hp)
      · exact hc hc'
      · exact hp (h.idle hc)
    rw [if_neg hidle, tick, if_neg hc]
    simp [hc]

/-- A counted-down chip with the underflows of timers that reached zero. -/
def countedOut (d : Cia) : Counted :=
  let a := if counting 0 d.t0 then underflowA 0 d else (d, 0, false)
  { c := a.1, ovflA := a.2.1, ovflB := if counting 1 d.t1 ∧ d.t1.timer = 0 then 2 else 0
    sp := a.2.2 }

/-- What an update leaves of a steady chip that has been counted down. -/
def settle (icr : Bool) (d : Cia) : Cia × Bool :=
  let r := countedOut d
  (latchIcr true (icr || decide (r.icr ≠ 0)) r.icr (r.reload true {} {}),
    icr || decide (r.icr ≠ 0))

theorem nextSerial_setT1 (c : Cia) (t : CiaTimer) :
    nextSerial (c.setT 1 t) = (nextSerial c).setT 1 t := by
  have hload : (c.setT 1 t).sdrLoad = c.sdrLoad := rfl
  rw [nextSerial, nextSerial, hload]
  by_cases h : c.sdrLoad = true
  · rw [if_pos h, if_pos h]
    rfl
  · rw [if_neg h, if_neg h]

theorem shiftSerial_setT1 (c : Cia) (t : CiaTimer) :
    shiftSerial (c.setT 1 t) = ((shiftSerial c).1.setT 1 t, (shiftSerial c).2) := by
  have hcr : (c.setT 1 t).t0.cr = c.t0.cr := rfl
  have hcnt : (c.setT 1 t).sdrCnt = c.sdrCnt := rfl
  have hclock : clockSerial (c.setT 1 t) = (clockSerial c).setT 1 t := rfl
  have hcnt' : ((clockSerial c).setT 1 t).sdrCnt = (clockSerial c).sdrCnt := rfl
  rw [shiftSerial, shiftSerial, hcr, hcnt, hclock, hcnt', nextSerial_setT1]
  by_cases h : c.t0.cr &&& (crSpmode ||| crRunmode) = crSpmode ∧ c.sdrCnt ≠ 0
  · rw [if_pos h, if_pos h]
    by_cases h0 : (clockSerial c).sdrCnt = 0
    · rw [if_pos h0, if_pos h0]
    · rw [if_neg h0, if_neg h0]
  · rw [if_neg h, if_neg h]

theorem underflowA_setT1 (ovfl : Nat) (c : Cia) (t : CiaTimer) :
    underflowA ovfl (c.setT 1 t) = ((underflowA ovfl c).1.setT 1 t, (underflowA ovfl c).2) := by
  have htimer : (c.setT 1 t).t0.timer = c.t0.timer := rfl
  rw [underflowA, underflowA, htimer, shiftSerial_setT1]
  by_cases h : c.t0.timer = 0
  · rw [if_pos h, if_pos h]
  · rw [if_neg h, if_neg h]

theorem countTimers_steady {j : Nat} {c : Cia} (h : SteadyChip j c) (hj : 1 ≤ j) :
    countTimers true j {} {} (foldIcr c) = countedOut (ticks j c) := by
  have hb := countB_steady h.2 hj
  have ht1 : (countA true j (foldIcr c) {}).1.t1 = c.t1 := countA_t1 _ _ _ _
  have hA : counting 0 (ticks j c).t0 ↔ counting 0 c.t0 := counting_tick 0 j c.t0
  have hcount : countTimers true j {} {} (foldIcr c) =
      { c := (countA true j (foldIcr c) {}).1.setT 1 (tick 1 j c.t1)
        ovflA := (countA true j (foldIcr c) {}).2.1
        ovflB := if counting 1 (tick 1 j c.t1) ∧ (tick 1 j c.t1).timer = 0 then 2 else 0
        sp := (countA true j (foldIcr c) {}).2.2 } := by
    rw [countTimers, ht1, hb]
    rfl
  rw [hcount, countedOut]
  by_cases hc : counting 0 c.t0
  · have ha := (countA_steady (c := foldIcr c) h.1 hj).trans (if_pos hc)
    rw [ha, if_pos (hA.mpr hc), ticks, underflowA_setT1]
    rfl
  · have ha := (countA_steady (c := foldIcr c) h.1 hj).trans (if_neg hc)
    rw [ha, if_neg (fun h => hc (hA.mp h)), ticks]
    rfl

theorem countedOut_t0 (d : Cia) : (countedOut d).c.t0 = d.t0 := by
  rw [countedOut]
  dsimp only
  split_ifs
  · exact underflowA_t0 0 d
  · rfl

theorem countedOut_t1 (d : Cia) : (countedOut d).c.t1 = d.t1 := by
  rw [countedOut]
  dsimp only
  split_ifs
  · exact underflowA_t1 0 d
  · rfl

/-- One update of a steady chip: what it leaves depends on the chip counted down, not
on how many updates the clocks came in. -/
theorem updateChip_steady {j : Nat} {c : Cia} (icr : Bool) (h : SteadyChip j c) (hj : 1 ≤ j) :
    updateChip true j icr c = .ok (settle icr (ticks j c)) := by
  have hc : countTimers true j {} {} { foldIcr c with t0 := c.t0, t1 := c.t1 } =
      countedOut (ticks j c) := countTimers_steady h hj
  have h0 : (countedOut (ticks j c)).c.t0.timer < 65536 := by
    rw [countedOut_t0]
    exact (h.1.tick (j := j) (k := 0)).timer
  have h1 : (countedOut (ticks j c)).c.t1.timer < 65536 := by
    rw [countedOut_t1]
    exact (h.2.tick (j := j) (k := 0)).timer
  rw [← hc] at h0 h1
  rw [updateChip_eq true icr (loadSpecial_steady h.1) (loadSpecial_steady h.2) h0 h1, hc]
  rfl

/-- A chip that stays steady for the next E-clock as well only counts down. -/
theorem updateChip_tick {k : Nat} {c : Cia} (h : SteadyChip k c) (hk : 2 ≤ k) :
    updateChip true 1 false c = .ok (ticks 1 c, false) := by
  have h2 : ∀ {tn : Fin 2} {t : CiaTimer}, Steady tn k t → Steady tn 1 (tick tn 1 t) :=
    fun ht => (ht.mono (j := 1 + 1) hk).tick
  have hpos : ∀ {tn : Fin 2} {t : CiaTimer}, Steady tn 1 t → counting tn t → t.timer ≠ 0 := by
    intro tn t ht hc
    have := (ht.count hc).2
    omega
  have h0 : Steady 0 1 (ticks 1 c).t0 := h2 h.1
  have h1 : Steady 1 1 (ticks 1 c).t1 := h2 h.2
  have hA : (if counting 0 (ticks 1 c).t0 then underflowA 0 (ticks 1 c) else (ticks 1 c, 0, false)) =
      (ticks 1 c, 0, false) := by
    by_cases hc : counting 0 (ticks 1 c).t0
    · rw [if_pos hc, underflowA, if_neg (hpos h0 hc)]
    · rw [if_neg hc]
  have hB : ¬ (counting 1 (ticks 1 c).t1 ∧ (ticks 1 c).t1.timer = 0) :=
    fun hz => hpos h1 hz.1 hz.2
  have hcount : countedOut (ticks 1 c) = ⟨ticks 1 c, 0, 0, false⟩ := by
    simp only [countedOut, hA, if_neg hB]
  have hrel : ∀ {tn : Fin 2} {t : CiaTimer}, Steady tn 1 t → reload true 0 {} t = t := by
    intro tn t ht
    simp [reload, ht.preovfl]
  have hfeed : feedB 0 (ticks 1 c).t1 = (ticks 1 c).t1 := by simp [feedB]
  have hreload : Counted.reload true {} {} ⟨ticks 1 c, 0, 0, false⟩ = ticks 1 c := by
    simp only [Counted.reload, hfeed, hrel h0, hrel h1]
  have hicr : Counted.icr ⟨ticks 1 c, 0, 0, false⟩ = 0 := by
    simp [Counted.icr, icrBits]
  rw [updateChip_steady false ⟨h.1.mono (by omega), h.2.mono (by omega)⟩ (Nat.le_refl 1), settle,
    hcount]
  simp only [hreload, hicr]
  simp [latchIcr, CiaChips.ticks, foldIcr]

theorem updateChip_foldIcr (acc : Bool) (n : Nat) (icr : Bool) (c : Cia) :
    updateChip acc n icr (foldIcr c) = updateChip acc n icr c := by
  unfold updateChip
  rw [foldIcr_foldIcr]

/-! ### Both chips -/

/-- The chips that `CIA_update_check` over `n` E-clocks leaves in accurate mode. -/
def updateChips (n : Nat) (c0 c1 : Cia) : Except CiaFault (Cia × Cia) := do
  let (c0, icr) ← updateChip true n false c0
  let (c1, _) ← updateChip true n icr c1
  return (c0, c1)

theorem ciaUpdateCheck_of_updateChips {s : State} {n : Nat} {c0 c1 : Cia}
    (hacc : s.accurate = true) (hn : ciaclocks s = n) (hpos : n ≠ 0)
    (h : updateChips n s.cia0 s.cia1 = .ok (c0, c1)) :
    ciaUpdateCheck s = .ok { s with cia0 := c0, cia1 := c1 } := by
  unfold updateChips at h
  unfold ciaUpdateCheck
  simp only [hn, hacc, hpos, if_false]
  cases h0 : updateChip true n false s.cia0 with
  | error e => simp [h0, bind, Except.bind] at h
  | ok r0 =>
    rw [h0] at h
    cases h1 : updateChip true n r0.2 s.cia1 with
    | error e => simp [h1, bind, Except.bind] at h
    | ok r1 =>
      simp only [h1, bind, Except.bind, pure, Except.pure, Except.ok.injEq, Prod.mk.injEq] at h ⊢
      rw [← h.1, ← h.2]

/-- Both chips settled after being counted down by `j`. -/
def settleChips (j : Nat) (c0 c1 : Cia) : Cia × Cia :=
  let r := settle false (ticks j c0)
  (r.1, (settle r.2 (ticks j c1)).1)

theorem updateChips_steady {j : Nat} {c0 c1 : Cia} (h0 : SteadyChip j c0) (h1 : SteadyChip j c1)
    (hj : 1 ≤ j) : updateChips j c0 c1 = .ok (settleChips j c0 c1) := by
  simp only [updateChips, updateChip_steady _ h0 hj, updateChip_steady _ h1 hj, bind, Except.bind,
    pure, Except.pure]
  rfl

theorem SteadyChip.ticks {j k : Nat} {c : Cia} (h : SteadyChip (j + k) c) :
    SteadyChip k (ticks j c) := ⟨h.1.tick, h.2.tick⟩

theorem SteadyChip.mono {j k : Nat} {c : Cia} (h : SteadyChip k c) (hjk : j ≤ k) :
    SteadyChip j c := ⟨h.1.mono hjk, h.2.mono hjk⟩

/-- The last of `m + 1` clocks, after the chips were counted down by the first `m`. -/
theorem updateChips_last {m : Nat} {c0 c1 : Cia} (h0 : SteadyChip (m + 1) c0)
    (h1 : SteadyChip (m + 1) c1) :
    updateChips 1 (ticks m c0) (ticks m c1) = .ok (settleChips (m + 1) c0 c1) := by
  rw [updateChips_steady h0.ticks h1.ticks (Nat.le_refl 1)]
  simp only [settleChips, ticks_ticks]

/-- A chip with no counting timer is steady for ever, and counting it down does nothing. -/
theorem SteadyChip.idle {k : Nat} {c : Cia} (h : SteadyChip k c) (hA : ¬ counting 0 c.t0)
    (hB : ¬ counting 1 c.t1) (j : Nat) : SteadyChip j c ∧ CiaChips.ticks j c = foldIcr c := by
  have hone : ∀ {tn : Fin 2} {t : CiaTimer}, Steady tn k t → ¬ counting tn t → Steady tn j t :=
    fun ht hc => ⟨ht.loaddelay, ht.preovfl, ht.timer, fun hc' => absurd hc' hc, ht.idle⟩
  refine ⟨⟨hone h.1 hA, hone h.2 hB⟩, ?_⟩
  rw [CiaChips.ticks, tick, if_neg hA, tick, if_neg hB]
  rfl

/-- The clamp of the elapsed time at `MAXINT` only bites when nothing counts. -/
theorem updateChips_clamp {n : Nat} {c0 c1 : Cia} (h0 : SteadyChip n c0) (h1 : SteadyChip n c1)
    (hn : 1 ≤ n) :
    updateChips (min n (maxInt / div10)) c0 c1 = .ok (settleChips n c0 c1) := by
  have hclamp : maxInt / div10 = 838860 := by decide
  by_cases hle : n ≤ 838860
  · rw [hclamp, Nat.min_eq_left hle]
    exact updateChips_steady h0 h1 hn
  · have hbig : ∀ {tn : Fin 2} {t : CiaTimer}, Steady tn n t → ¬ counting tn t := by
      intro tn t ht hc
      have := (ht.count hc).2
      have := ht.timer
      omega
    have hi0 := h0.idle (hbig h0.1) (hbig h0.2)
    have hi1 := h1.idle (hbig h1.1) (hbig h1.2)
    rw [hclamp, updateChips_steady (hi0 _).1 (hi1 _).1 (by omega)]
    simp only [settleChips, (hi0 _).2, (hi1 _).2]

/-! ### Batch and singles -/

/-- A state whose event has just been computed. -/
structure Fresh (s : State) : Prop where
  ok : TimersOk True s
  oldcycles : s.evCia.oldcycles = s.cycles

theorem Fresh.accurate {s : State} (h : Fresh s) : s.accurate = true := h.ok.accurate trivial

theorem Fresh.ciaclocks {s : State} (h : Fresh s) (n : Nat) :
    CiaChips.ciaclocks { s with cycles := s.cycles + div10 * n } = min n (maxInt / div10) := by
  have hsub : s.cycles + div10 * n - s.evCia.oldcycles = div10 * n := by
    rw [h.oldcycles]
    omega
  unfold CiaChips.ciaclocks
  dsimp only
  have hmax : maxInt = 2147483647 := rfl
  rw [hsub, div10_eq, hmax]
  omega

/-- One E-clock after a fresh state: the update and `CIA_calctimers` go through. -/
theorem Fresh.single {s : State} (h : Fresh s) :
    ∃ c0 c1 s', updateChips 1 s.cia0 s.cia1 = .ok (c0, c1) ∧
      ciaUpdateCheck { s with cycles := s.cycles + div10 } =
        .ok { s with cycles := s.cycles + div10, cia0 := c0, cia1 := c1 } ∧
      ciaCalcTimers { s with cycles := s.cycles + div10, cia0 := c0, cia1 := c1 } = .ok s' ∧
      Fresh s' ∧ s'.cia0 = c0 ∧ s'.cia1 = c1 := by
  obtain ⟨c0, icr, h0, hok0⟩ :=
    updateChip_ok (n := 1) true false h.ok.chip0 (fun _ _ => Nat.le_refl 1)
  obtain ⟨c1, icr', h1, hok1⟩ :=
    updateChip_ok (n := 1) true icr h.ok.chip1 (fun _ _ => Nat.le_refl 1)
  have hchips : updateChips 1 s.cia0 s.cia1 = .ok (c0, c1) := by
    simp only [updateChips, h0, h1, bind, Except.bind, pure, Except.pure]
  have hcheck := ciaUpdateCheck_of_updateChips (s := { s with cycles := s.cycles + div10 })
    h.accurate (h.ciaclocks 1) (by decide) hchips
  have hok : TimersOk True { s with cycles := s.cycles + div10, cia0 := c0, cia1 := c1 } :=
    ⟨hok0, hok1, h.ok.accurate⟩
  refine ⟨c0, c1, _, hchips, hcheck, ciaCalcTimers_eq hok, ⟨⟨hok0, hok1, h.ok.accurate⟩, ?_⟩,
    rfl, rfl⟩
  dsimp only
  cases State.nextUse _ <;> rfl

/-- `m + 1` updates over one E-clock each: the chips are counted down by the first `m`,
and the last one updates them. -/
theorem singles_eq (m : Nat) : ∀ {s : State}, Fresh s →
    (m = 0 ∨ SteadyChip (m + 1) s.cia0 ∧ SteadyChip (m + 1) s.cia1) →
    ∃ t c0 c1, singles (m + 1) s = .ok t ∧ t.cia0 = c0 ∧ t.cia1 = c1 ∧
      updateChips 1 (ticks m s.cia0) (ticks m s.cia1) = .ok (c0, c1) := by
  induction m with
  | zero =>
    intro s h _
    obtain ⟨c0, c1, s', hchips, hcheck, hcalc, -, h0, h1⟩ := h.single
    refine ⟨s', c0, c1, ?_, h0, h1, ?_⟩
    · simp only [singles, hcheck, hcalc, bind, Except.bind]
    · rw [ticks_zero, ticks_zero, ← hchips]
      simp only [updateChips, updateChip_foldIcr]
  | succ m ih =>
    intro s h hm
    obtain ⟨hs0, hs1⟩ := hm.resolve_left (Nat.succ_ne_zero m)
    obtain ⟨c0, c1, s', hchips, hcheck, hcalc, hfresh, h0, h1⟩ := h.single
    -- the first E-clock only counts down
    have htick : updateChips 1 s.cia0 s.cia1 = .ok (ticks 1 s.cia0, ticks 1 s.cia1) := by
      simp only [updateChips, updateChip_tick hs0 (by omega), updateChip_tick hs1 (by omega), bind,
        Except.bind, pure, Except.pure]
    rw [htick, Except.ok.injEq, Prod.mk.injEq] at hchips
    rw [← hchips.1] at h0
    rw [← hchips.2] at h1
    have hs0' : SteadyChip (m + 1) (ticks 1 s.cia0) := SteadyChip.ticks (hs0.mono (by omega))
    have hs1' : SteadyChip (m + 1) (ticks 1 s.cia1) := SteadyChip.ticks (hs1.mono (by omega))
    obtain ⟨t, d0, d1, hsingles, hd0, hd1, hlast⟩ :=
      ih hfresh (Or.inr ⟨by rw [h0]; exact hs0', by rw [h1]; exact hs1'⟩)
    refine ⟨t, d0, d1, ?_, hd0, hd1, ?_⟩
    · simp only [singles, hcheck, hcalc, bind, Except.bind]
      exact hsingles
    · rw [← hlast, h0, h1, ticks_ticks, ticks_ticks, Nat.add_comm 1 m]

/-- Batch and singles agree on a fresh state that is steady for all but the last clock. -/
theorem Fresh.lazyAgrees {s : State} (h : Fresh s) {m : Nat}
    (hm : m = 0 ∨ SteadyChip (m + 1) s.cia0 ∧ SteadyChip (m + 1) s.cia1) :
    LazyAgrees (m + 1) s := by
  obtain ⟨t, c0, c1, hsingles, h0, h1, hlast⟩ := singles_eq m h hm
  have hbatch : updateChips (min (m + 1) (maxInt / div10)) s.cia0 s.cia1 = .ok (c0, c1) := by
    rcases hm with rfl | ⟨hs0, hs1⟩
    · rw [← hlast, ticks_zero, ticks_zero]
      simp only [updateChips, updateChip_foldIcr]
      rfl
    · rw [← hlast, updateChips_last hs0 hs1]
      exact updateChips_clamp hs0 hs1 (by omega)
  have hpos : min (m + 1) (maxInt / div10) ≠ 0 := by
    have hclamp : maxInt / div10 = 838860 := by decide
    rw [hclamp]
    omega
  have hcheck := ciaUpdateCheck_of_updateChips
    (s := { s with cycles := s.cycles + div10 * (m + 1) }) h.accurate (h.ciaclocks (m + 1)) hpos
    hbatch
  refine ⟨_, t, hcheck, hsingles, fun num => ?_⟩
  match num with
  | 0 =>
    rw [State.cia_zero, State.cia_zero, h0]
    exact SameChip.refl c0
  | 1 =>
    rw [State.cia_one, State.cia_one, h1]
    exact SameChip.refl c1

/-! ### What the scheduled event says about the timers -/

/-- A counting timer is started. -/
theorem start_of_counting {tn : Fin 2} {t : CiaTimer} (hc : counting tn t) :
    t.cr &&& crStart ≠ 0 := by
  have hstart : ∀ (tn : Fin 2) (cr : BitVec 8), cr &&& eclockMask tn = crStart →
      cr &&& crStart ≠ 0 := by
    decide
  exact hstart tn _ hc

/-- A timer that is not stalled and not needed for `k ≥ 2` E-clocks is steady that long. -/
theorem steady_of_nextUse {tn : Fin 2} {k : Nat} {t : CiaTimer} (h : TimerOk True t)
    (hstall : ¬ stalled tn t) (hnext : ∀ v ∈ nextUse tn t, k ≤ v) (hk : 2 ≤ k) :
    Steady tn k t := by
  have hspecial : timerSpecial tn t = false := by
    cases hs : timerSpecial tn t with
    | false => rfl
    | true =>
      have := hnext 1 (mem_nextUse_special hs)
      omega
  have hload : t.loaddelay = 0 := by
    by_contra hl
    rw [timerSpecial, decide_eq_true hl, Bool.true_or] at hspecial
    exact absurd hspecial (by decide)
  have hbusy : (if t.cr &&& crStart ≠ 0 then
      decide (t.inputpipe ≠ pipeAllMask ∧ (counting tn t ∨ t.inputpipe ≠ 0))
      else decide (t.inputpipe ≠ 0)) = false := by
    rw [timerSpecial, Bool.or_eq_false_iff] at hspecial
    exact hspecial.2
  refine ⟨hload, h.preovfl trivial, h.timer, fun hc => ?_, fun hc => ?_⟩
  · rw [if_pos (start_of_counting hc), decide_eq_false_iff_not] at hbusy
    have hpipe : t.inputpipe = pipeAllMask := by
      by_contra hp
      exact hbusy ⟨hp, Or.inl hc⟩
    refine ⟨hpipe, ?_⟩
    have hmem : max 1 (t.timer + pipeDelay t.inputpipe) ∈ nextUse tn t := by
      rw [nextUse, hspecial, if_pos hc]
      rfl
    have hle := hnext _ hmem
    have hfull : pipeDelay pipeAllMask = 0 := by decide
    rw [hpipe, hfull] at hle
    omega
  · by_cases hstart : t.cr &&& crStart = 0
    · rw [if_neg (not_not.mpr hstart), decide_eq_false_iff_not, not_not] at hbusy
      exact hbusy
    · rw [if_pos hstart, decide_eq_false_iff_not] at hbusy
      by_contra hp
      refine hbusy ⟨fun hfull => hstall ⟨hstart, hc, hfull⟩, Or.inr hp⟩

/-- Every timer needs an update no earlier than the chips do. -/
theorem nextUse_of_state {s : State} {k : Nat} (h : ∀ v ∈ s.nextUse, k ≤ v) (hk : 2 ≤ k)
    (num tn : Fin 2) : ∀ v ∈ nextUse tn ((s.cia num).t tn), k ≤ v := by
  have hchip : ∀ v ∈ (s.cia num).nextUse, k ≤ v := by
    rw [State.nextUse, forall_mem_minTime] at h
    rcases eq_zero_or_one num with rfl | rfl
    · exact h.1
    · exact h.2
  rw [Cia.nextUse, forall_mem_minTime] at hchip
  rcases eq_zero_or_one tn with rfl | rfl
  · cases hi : (s.cia num).icrChange with
    | false => simpa [hi] using hchip.1
    | true =>
      have := hchip.1 1 (by simp [hi])
      omega
  · exact hchip.2

/-- In every run in accurate mode: where the pending event is the one that `CIA_calctimers` sets,
one update over `n` E-clocks that the event allows does what `n` updates over one do, if `n` is one
or no timer is stalled. -/
theorem lazyAgrees_of_not_stalled (env : Env) (cycles : Nat) (ev : Ev) (eclockphase : Int)
    {s0 s : State} (h0 : ciaReset cycles true ev eclockphase = .ok s0)
    (hreach : (accurateMachine env).Reachable s0 s) (hset : ciaCalcTimers s = .ok s)
    {n : Nat} (hn : 1 ≤ n) (hadm : Admissible n s)
    (hstall : n = 1 ∨ ∀ num tn, ¬ stalled tn ((s.cia num).t tn)) : LazyAgrees n s := by
  obtain ⟨s0', h0', hInv0⟩ :=
    ciaReset_inv True cycles (fun _ => rfl) ev eclockphase
  obtain rfl : s0 = s0' := Except.ok.inj (h0.symm.trans h0')
  have hInv := (inv_invariant_accurate env).reachable hreach hInv0
  rw [ciaCalcTimers_eq hInv.timersOk, Except.ok.injEq] at hset
  have hev : s.evCia = scheduled s.cycles s.evCia s.nextUse := by
    conv_lhs => rw [← hset]
  have hold : s.evCia.oldcycles = s.cycles := by
    rw [hev]
    cases s.nextUse <;> rfl
  have hfresh : Fresh s :=
    ⟨⟨hInv.timersOk.chip0, hInv.timersOk.chip1, hInv.accurate⟩, hold⟩
  obtain ⟨m, rfl⟩ : ∃ m, n = m + 1 := ⟨n - 1, by omega⟩
  refine hfresh.lazyAgrees ?_
  by_cases hm : m = 0
  · exact Or.inl hm
  · have hnext : ∀ v ∈ s.nextUse, m + 1 ≤ v := by
      intro v hv
      have hle := hadm
      rw [Admissible, hev] at hle
      simp only [Option.mem_def.mp hv, scheduled, forall_const] at hle
      rw [div10_eq] at hle
      omega
    have hsteady : ∀ num tn, Steady tn (m + 1) ((s.cia num).t tn) := fun num tn =>
      steady_of_nextUse (hInv.timers num tn) (hstall.resolve_left (by omega) num tn)
        (nextUse_of_state hnext (by omega) num tn) (by omega)
    exact Or.inr ⟨⟨hsteady 0 0, hsteady 0 1⟩, hsteady 1 0, hsteady 1 1⟩

/-! ### Runs on fixed inputs -/

/-- An environment for runs on fixed inputs. -/
def plainEnv : Env :=
  { cia6526 := false, ciaTodBug := false, ciaType := fun _ => false, eClockTod := 0, maxhpos := 227 }

/-- The state after reset at cycle 0 in accurate mode. -/
def resetState : State :=
  { cia0 := resetChip 0, cia1 := resetChip 0x8c, cycles := 0
    evCia := { active := false, evtime := 0, oldcycles := 0 }
    accurate := true, eclockphase := 0, internaleclockphase := 0 }

/-- Timer A is started and counts E-clocks until its pipe is full. -/
def startInputs : List Input :=
  [.write 0 14 0 0x01, .advance 2560, .handler, .advance 2560, .handler]

/-- The state those inputs end in. -/
def countingState : State :=
  { resetState with
    cia0 := { resetChip 0 with t0 := { resetTimer with cr := 0x01, inputpipe := 3 } }
    cycles := 5120
    evCia := { active := true, evtime := 5120 + 2560 * 65535, oldcycles := 5120 } }

/-- A thousand E-clocks in one update, while timer A counts. -/
theorem lazyAgrees_counting : LazyAgrees 1000 countingState :=
  lazyAgrees_of_not_stalled plainEnv 0 ⟨false, 0, 0⟩ 0
    (by decide : ciaReset 0 true ⟨false, 0, 0⟩ 0 = .ok resetState)
    (Machine.reachable_of_exec
      (by decide : (accurateMachine plainEnv).exec resetState startInputs =
        some countingState))
    (by decide : ciaCalcTimers countingState = .ok countingState)
    (by decide) (by decide) (Or.inr (by decide +kernel))

/-- The state after timer A is then switched to CNT pulses without being stopped. -/
def stalledState : State :=
  { resetState with
    cia0 := { resetChip 0 with t0 := { resetTimer with cr := 0x21, inputpipe := 3 } }
    cycles := 5120
    evCia := { active := false, evtime := 5120 + 2560 * 65535, oldcycles := 5120 } }

/-- Agreement means in particular the same timer A of the first chip. -/
theorem LazyAgrees.timerA {n : Nat} {s : State} (h : LazyAgrees n s) :
    (batch n s).toOption.map (·.cia0.t0.timer) = (singles n s).toOption.map (·.cia0.t0.timer) := by
  obtain ⟨b, t, hb, ht, hsame⟩ := h
  rw [hb, ht]
  exact congrArg some (hsame 0).t0.timer

/-- A stalled timer counts three times in one update over three E-clocks, and twice in
three updates over one. -/
theorem not_lazyAgrees_stalled :
    ciaReset 0 true ⟨false, 0, 0⟩ 0 = .ok resetState ∧
      (accurateMachine plainEnv).Reachable resetState stalledState ∧
      ciaCalcTimers stalledState = .ok stalledState ∧
      Admissible 3 stalledState ∧ ¬ LazyAgrees 3 stalledState := by
  refine ⟨by decide, ?_, by decide +kernel, by decide +kernel, ?_⟩
  · have hexec : (accurateMachine plainEnv).exec resetState
        (startInputs ++ [.write 0 14 0 0x21]) = some stalledState := by
      decide
    exact Machine.reachable_of_exec hexec
  · intro h
    have hbatch : (batch 3 stalledState).toOption.map (·.cia0.t0.timer) = some 65532 := by
      decide
    have hsingles : (singles 3 stalledState).toOption.map (·.cia0.t0.timer) = some 65533 := by
      decide
    have := h.timerA
    rw [hbatch, hsingles] at this
    exact absurd this (by decide)

end LibretroUae.CiaChips
