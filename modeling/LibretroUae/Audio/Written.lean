import LibretroUae.Audio.Channels

/-!
# LibretroUae.Audio.Written

**Written words are used up.** The mark of a written word goes when the channel has seen it, so
where no word is on its way, no channel has the mark.
-/

namespace LibretroUae.Audio.Paula

/-- Marks are not set, and events are not lost. -/
structure Tame (p q : Paula) : Prop where
  written : ∀ nr, (q.chan nr).datWritten = true → (p.chan nr).datWritten = true
  events : ∀ e ∈ p.events, e ∈ q.events

/-- The word of each marked channel besides `nr` is on its way. -/
def AwaitedBut (nr : Fin 4) (p : Paula) : Prop :=
  ∀ i, i ≠ nr → (p.chan i).datWritten = true → ∃ ena v early, .audxdat i ena v early ∈ p.events

/-- The word of each marked channel is on its way. -/
def Awaited (p : Paula) : Prop :=
  ∀ i, (p.chan i).datWritten = true → ∃ ena v early, .audxdat i ena v early ∈ p.events

section

variable {p q r : Paula} {k : AudioChannel → AudioChannel}

theorem Tame.refl (p : Paula) : Tame p p := ⟨fun _ h => h, fun _ h => h⟩

theorem Tame.trans (h : Tame p q) (h' : Tame q r) : Tame p r :=
  ⟨fun nr hr => h.written nr (h'.written nr hr), fun e he => h'.events e (h.events e he)⟩

theorem Tame.awaitedBut (h : Tame p q) {nr : Fin 4} (hp : p.AwaitedBut nr) : q.AwaitedBut nr := by
  intro i hi hwritten
  obtain ⟨ena, v, early, hin⟩ := hp i hi (h.written i hwritten)
  exact ⟨ena, v, early, h.events _ hin⟩

theorem Tame.awaited (h : Tame p q) (hp : p.Awaited) : q.Awaited := by
  intro i hwritten
  obtain ⟨ena, v, early, hin⟩ := hp i (h.written i hwritten)
  exact ⟨ena, v, early, h.events _ hin⟩

theorem Awaited.but (h : p.Awaited) (nr : Fin 4) : p.AwaitedBut nr := fun i _ => h i

theorem AwaitedBut.onChan {nr : Fin 4} (h : p.AwaitedBut nr) : (p.onChan nr k).AwaitedBut nr := by
  intro i hi hwritten
  change (Function.update p.chan nr _ i).datWritten = true at hwritten
  rw [Function.update_of_ne hi] at hwritten
  exact h i hi hwritten

theorem AwaitedBut.clear {nr : Fin 4} (h : p.AwaitedBut nr) :
    (p.onChan nr fun c => { c with datWritten := false }).Awaited := by
  intro i hwritten
  change (Function.update p.chan nr _ i).datWritten = true at hwritten
  by_cases hi : i = nr
  · rw [hi, Function.update_self] at hwritten
    cases hwritten
  · rw [Function.update_of_ne hi] at hwritten
    exact h i hi hwritten

theorem tame_onChan (nr : Fin 4) (hk : ∀ c, (k c).datWritten = true → c.datWritten = true) :
    Tame p (p.onChan nr k) := by
  refine ⟨fun i hi => ?_, fun _ h => h⟩
  change (Function.update p.chan nr _ i).datWritten = true at hi
  by_cases hnr : i = nr
  · rw [hnr, Function.update_self] at hi
    exact hnr ▸ hk _ hi
  · rwa [Function.update_of_ne hnr] at hi

/-! ### The states -/

theorem tame_post (e : AudioEvent) : Tame p (p.post e) :=
  ⟨fun _ h => h, fun _ h => List.mem_append_left _ h⟩

theorem tame_newsample (nr : Fin 4) (v : Lib.Byte) : Tame p (p.newsample nr v) :=
  ⟨fun _ h => h, fun _ h => h⟩

theorem tame_setirq (prefs : AudioPrefs) (nr : Fin 4) : Tame p (p.setirq prefs nr) := by
  rw [setirq]
  split_ifs
  · exact tame_post _
  · exact ⟨fun _ h => h, fun _ h => h⟩

theorem tame_setdr (prefs : AudioPrefs) (nr : Fin 4) (startup : Bool) :
    Tame p (p.setdr prefs nr startup) := by
  rw [setdr]
  split_ifs
  · exact tame_post _
  · exact tame_onChan nr fun _ h => h
  · exact tame_onChan nr fun _ h => h
  · exact .refl p

theorem tame_loaddat (nr : Fin 4) (modper : Bool) : Tame p (p.loaddat nr modper) := by
  rw [loaddat]
  split_ifs
  · exact tame_onChan _ fun _ h => h
  · exact tame_onChan _ fun _ h => h
  · exact .refl p
  · exact tame_onChan _ fun _ h => h

theorem tame_zerostate (prefs : AudioPrefs) (nr : Fin 4) (reset : Bool) :
    Tame p (p.onChan nr (.zerostate prefs reset)) := tame_onChan nr fun _ h => h

theorem tame_playHigh (nr : Fin 4) : Tame p (p.playHigh nr) :=
  .trans (tame_newsample nr _) (tame_onChan nr fun _ h => h)

theorem loadperm1_datWritten (isirq : Bool) (c : AudioChannel) :
    (c.loadperm1 isirq).datWritten = c.datWritten := by
  rw [AudioChannel.loadperm1]
  split_ifs <;> rfl

theorem tame_playLow (nr : Fin 4) : Tame p (p.playLow nr) := by
  rw [playLow]
  refine .trans (tame_newsample nr (Lib.byteAt (p.chan nr).dat2 0)) ?_
  split_ifs
  · exact tame_onChan nr fun _ h => h
  · exact tame_onChan nr fun c h => (loadperm1_datWritten _ c).symm.trans h

theorem tame_toState (nr : Fin 4) (s : ChannelState) : Tame p (p.toState nr s) :=
  tame_onChan nr fun _ h => h

theorem tame_blockIrq (prefs : AudioPrefs) (nr : Fin 4) (attached : Bool) :
    Tame p (p.blockIrq prefs nr attached) := by
  rw [blockIrq]
  split_ifs
  · exact .trans (tame_setirq prefs nr) (tame_onChan nr fun _ h => h)
  · exact .refl p

theorem tame_stateIdle (prefs : AudioPrefs) (nr : Fin 4) : Tame p (p.stateIdle prefs nr) := by
  rw [stateIdle]
  split_ifs
  · refine .trans ?_ (tame_onChan nr fun _ h => h)
    refine .trans ?_ (tame_setdr prefs nr true)
    exact tame_onChan nr fun _ h => h
  · refine .trans ?_ (tame_playHigh nr)
    refine .trans ?_ (tame_loaddat nr false)
    exact .trans (tame_toState nr .two) (tame_setirq prefs nr)
  · exact tame_zerostate prefs nr false

theorem tame_wait (nr : Fin 4) : Tame p (p.onChan nr fun c => { c with evtime := maxEv }) :=
  tame_onChan nr fun _ h => h

theorem tame_stateOne (prefs : AudioPrefs) (nr : Fin 4) : Tame p (p.stateOne prefs nr) := by
  rw [stateOne]
  have hwait := tame_wait (p := p) nr
  generalize (p.onChan nr fun c => { c with evtime := maxEv }) = p1 at hwait ⊢
  refine hwait.trans ?_
  dsimp only
  split_ifs
  · exact tame_zerostate prefs nr false
  · exact .refl _
  · refine .trans ?_ (tame_onChan nr fun _ h => h)
    refine .trans ?_ (tame_setdr prefs nr false)
    exact tame_setirq prefs nr

theorem tame_wordRequest (prefs : AudioPrefs) (nr : Fin 4) (b : Bool) :
    Tame p (if b then p.setdr prefs nr false else p) := by
  split_ifs
  · exact tame_setdr prefs nr false
  · exact .refl p

theorem tame_stateFive (prefs : AudioPrefs) (nr : Fin 4) : Tame p (p.stateFive prefs nr) := by
  rw [stateFive]
  have hwait := tame_wait (p := p) nr
  generalize (p.onChan nr fun c => { c with evtime := maxEv }) = p1 at hwait ⊢
  refine hwait.trans ?_
  dsimp only
  by_cases hoff : (!p1.chanEna nr) = true
  · rw [if_pos hoff]
    exact tame_zerostate prefs nr false
  rw [if_neg hoff]
  by_cases hnone : (!(p1.chan nr).datWritten) = true
  · rw [if_pos hnone]
    exact .refl _
  rw [if_neg hnone]
  refine .trans ?_ (tame_playHigh nr)
  refine .trans ?_ (tame_onChan nr fun _ h => h)
  refine .trans ?_ (tame_wordRequest prefs nr _)
  exact tame_loaddat nr false

theorem tame_stateTwo (prefs : AudioPrefs) (nr : Fin 4) (perfin : Bool) :
    Tame p (p.stateTwo prefs nr perfin) := by
  cases perfin with
  | false => exact .refl p
  | true =>
    have hload : Tame p (if p.audap nr then p.loaddat nr true else p) := by
      split_ifs
      · exact tame_loaddat nr true
      · exact .refl p
    rw [stateTwo, Bool.not_true, if_neg Bool.false_ne_true]
    generalize (if p.audap nr then p.loaddat nr true else p) = p1 at hload ⊢
    refine hload.trans ?_
    dsimp only
    refine .trans ?_ (tame_playLow nr)
    refine .trans ?_ (tame_onChan nr fun _ h => h)
    by_cases hena : p1.chanEna nr = true
    · rw [if_pos hena]
      refine .trans ?_ (tame_blockIrq prefs nr _)
      exact tame_wordRequest prefs nr _
    · rw [if_neg hena]
      split_ifs
      · exact tame_setirq prefs nr
      · exact .refl p1

theorem tame_stateManual (nr : Fin 4) (perfin : Bool) : Tame p (p.stateManual nr perfin) := by
  rw [stateManual]
  split_ifs
  · exact .refl p
  · exact tame_onChan nr fun _ h => h

theorem tame_stateThree (prefs : AudioPrefs) (nr : Fin 4) (perfin : Bool) :
    Tame p (p.stateThree prefs nr perfin) := by
  cases perfin with
  | false => exact .refl p
  | true =>
    rw [stateThree, Bool.not_true, if_neg Bool.false_ne_true]
    by_cases hena : p.chanEna nr = true
    · rw [if_pos hena]
      dsimp only
      refine .trans ?_ (tame_playHigh nr)
      refine .trans ?_ (tame_toState nr .two)
      refine .trans ?_ (tame_blockIrq prefs nr _)
      refine .trans ?_ (tame_wordRequest prefs nr _)
      exact tame_loaddat nr false
    · rw [if_neg hena]
      have hcheck : Tame p (p.onChan nr fun c =>
          { c with irqcheck := if c.irqcheck = 0 && p.isirq nr then 1 else c.irqcheck }) :=
        tame_onChan nr fun _ h => h
      generalize (p.onChan nr fun c =>
        { c with irqcheck := if c.irqcheck = 0 && p.isirq nr then 1 else c.irqcheck }) = p1
        at hcheck ⊢
      refine hcheck.trans ?_
      dsimp only
      have hirq : Tame p1 (if p1.napnav nr then p1.setirq prefs nr else p1) := by
        split_ifs
        · exact tame_setirq prefs nr
        · exact .refl p1
      generalize (if p1.napnav nr then p1.setirq prefs nr else p1) = p2 at hirq ⊢
      refine hirq.trans ?_
      split_ifs
      · exact tame_zerostate prefs nr false
      · refine .trans ?_ (tame_playHigh nr)
        refine .trans ?_ (tame_toState nr .two)
        exact tame_loaddat nr false

/-! ### Handlers and time -/

theorem tame_audioActivate (prefs : AudioPrefs) : Tame p (p.audioActivate prefs) := by
  rw [audioActivate]
  split_ifs
  · exact ⟨fun _ h => h, fun _ h => h⟩
  · exact ⟨fun _ h => h, fun _ h => h⟩

theorem tame_audioStateChannel2 (prefs : AudioPrefs) (nr : Fin 4) (perfin : Bool) :
    Tame p (p.audioStateChannel2 prefs nr perfin).1 := by
  rw [audioStateChannel2]
  have hmark : Tame p (p.onChan nr fun c => { c with dmaenstore := p.chanEna nr }) :=
    tame_onChan nr fun _ h => h
  generalize (p.onChan nr fun c => { c with dmaenstore := p.chanEna nr }) = p1 at hmark ⊢
  refine hmark.trans ?_
  dsimp only
  by_cases hoff : (!prefs.produceSound) = true
  · rw [if_pos hoff]
    exact tame_zerostate prefs nr true
  rw [if_neg hoff]
  have hactive := @tame_audioActivate p1 prefs
  generalize p1.audioActivate prefs = p2 at hactive ⊢
  refine hactive.trans ?_
  cases (p2.chan nr).state with
  | idle => exact tame_stateIdle prefs nr
  | one => exact tame_stateOne prefs nr
  | five => exact tame_stateFive prefs nr
  | two => exact tame_stateTwo prefs nr perfin
  | three => exact tame_stateThree prefs nr perfin
  | manual => exact tame_stateManual nr perfin

theorem tame_audioStateChannel (prefs : AudioPrefs) (nr : Fin 4) (perfin : Bool) :
    Tame p (p.audioStateChannel prefs nr perfin) := by
  rw [audioStateChannel]
  refine .trans (tame_audioStateChannel2 prefs nr perfin) ?_
  dsimp only
  split_ifs
  · exact tame_onChan nr fun _ h => absurd h Bool.false_ne_true
  · exact .refl _

theorem tame_foldl {α : Type} {f : Paula → α → Paula} (hf : ∀ p a, Tame p (f p a)) (l : List α)
    (p : Paula) : Tame p (l.foldl f p) := by
  induction l generalizing p with
  | nil => exact .refl p
  | cons a l ih => exact (hf p a).trans (ih (f p a))

theorem tame_finishPeriods (prefs : AudioPrefs) : Tame p (p.finishPeriods prefs) := by
  refine tame_foldl (fun p nr => ?_) _ p
  rw [finishPeriod]
  split_ifs
  · exact tame_audioStateChannel prefs nr true
  · exact .refl p

theorem tame_countDown (best : Nat) : Tame p (p.countDown best) := by
  refine ⟨fun nr h => ?_, fun _ h => h⟩
  rw [countDown] at h
  dsimp only at h
  split_ifs at h
  · exact h
  · exact h

theorem tame_updateLoop (prefs : AudioPrefs) (fuel : Nat) (p : Paula) :
    Tame p (p.updateLoop prefs fuel) := by
  induction fuel generalizing p with
  | zero => exact .refl p
  | succ fuel ih =>
    rw [updateLoop]
    split_ifs
    · exact .refl p
    · refine .trans ?_ (ih _)
      exact .trans (tame_countDown _) (tame_finishPeriods prefs)

theorem tame_updateAudio (prefs : AudioPrefs) : Tame p (p.updateAudio prefs) := by
  rw [updateAudio]
  split_ifs
  · exact ⟨fun _ h => h, fun _ h => h⟩
  · exact tame_updateLoop prefs _ p

theorem tame_audioStateMachine (prefs : AudioPrefs) : Tame p (p.audioStateMachine prefs) := by
  refine .trans (tame_updateAudio prefs) ?_
  exact tame_foldl (fun _ nr => tame_audioStateChannel prefs nr false) _ _

/-! ### Operations -/

theorem tame_writeReg (prefs : AudioPrefs) (nr : Fin 4)
    (hk : ∀ c, (k c).datWritten = true → c.datWritten = true) : Tame p (p.writeReg prefs nr k) :=
  (Tame.trans (tame_audioActivate prefs) (tame_updateAudio prefs)).trans (tame_onChan nr hk)

theorem tame_writeDmacon (prefs : AudioPrefs) (v : BitVec 16) : Tame p (p.writeDmacon prefs v) := by
  have hwrite : Tame p { p with dmacon := v } := ⟨fun _ h => h, fun _ h => h⟩
  rw [writeDmacon]
  split_ifs
  · exact hwrite.trans (tame_audioStateMachine prefs)
  · exact hwrite

theorem tame_writeAdkcon (prefs : AudioPrefs) (v : BitVec 16) : Tame p (p.writeAdkcon prefs v) := by
  have hupdate : Tame p (if prefs.produceSound then p.updateAudio prefs else p) := by
    split_ifs
    · exact tame_updateAudio prefs
    · exact .refl p
  rw [writeAdkcon]
  generalize (if prefs.produceSound then p.updateAudio prefs else p) = p1 at hupdate ⊢
  have hwrite : Tame p { p1 with adkcon := v } := hupdate.trans ⟨fun _ h => h, fun _ h => h⟩
  split_ifs
  · exact hwrite.trans (tame_audioActivate prefs)
  · exact hwrite

theorem tame_audioHsync (prefs : AudioPrefs) : Tame p (p.audioHsync prefs) := by
  have hrest : Tame p (if 0 < p.work && prefs.soundAuto then p.audioRest prefs else p) := by
    rw [audioRest]
    split_ifs
    · exact ⟨fun _ h => h, fun _ h => h⟩
    · exact ⟨fun _ h => h, fun _ h => h⟩
    · exact .refl p
  rw [audioHsync]
  by_cases hoff : (!prefs.produceSound) = true
  · rw [if_pos hoff]
    exact .refl p
  · rw [if_neg hoff]
    exact hrest.trans (tame_updateAudio prefs)

/-- A word that comes in is used up. -/
theorem awaited_eventAudxdat (prefs : AudioPrefs) (nr : Fin 4) (ena : Bool) (v : BitVec 16)
    (early : Bool) (h : p.AwaitedBut nr) : (p.eventAudxdat prefs nr ena v early).Awaited := by
  rw [eventAudxdat]
  refine AwaitedBut.clear ?_
  split_ifs
  · exact h.onChan
  · exact h.onChan
  · refine Tame.awaitedBut ?_ (h.onChan (k := fun c => { c with dat := v, datWritten := true }))
    refine .trans ?_ (tame_audioStateChannel prefs nr false)
    exact .trans (tame_audioActivate prefs) (tame_updateAudio prefs)

theorem awaited_audxDat (prefs : AudioPrefs) (nr : Fin 4) (v : BitVec 16) (h : p.Awaited) :
    (p.audxDat prefs nr v).Awaited := by
  have hstored : AwaitedBut nr (if p.chanEna nr then
      p.onChan nr fun c => { c with dat := v, datWritten := true } else p) := by
    split_ifs
    · exact (h.but nr).onChan
    · exact h.but nr
  rw [audxDat]
  generalize (if p.chanEna nr then
    p.onChan nr fun c => { c with dat := v, datWritten := true } else p) = p1 at hstored ⊢
  dsimp only
  split_ifs
  · intro i hwritten
    by_cases hi : i = nr
    · subst hi
      exact ⟨_, _, _, List.mem_append_right _ (List.mem_singleton_self _)⟩
    · exact (tame_post _).awaitedBut hstored.onChan i hi hwritten
  · exact awaited_eventAudxdat prefs nr _ v false hstored

theorem awaited_fire (prefs : AudioPrefs) (i : Nat) (h : p.Awaited) :
    (p.fire prefs i).Awaited := by
  rw [fire]
  cases hevent : p.events[i]? with
  | none => exact h
  | some e =>
    -- The event that goes is the word of its channel, if it is a word.
    have hrest : ∀ ch, (p.chan ch).datWritten = true →
        (∃ ena v early, e = .audxdat ch ena v early) ∨
          ∃ ena v early, .audxdat ch ena v early ∈ p.events.eraseIdx i := by
      intro ch hwritten
      obtain ⟨ena, v, early, hin⟩ := h ch hwritten
      obtain ⟨j, hj⟩ := List.mem_iff_getElem?.mp hin
      by_cases hji : j = i
      · exact .inl ⟨ena, v, early, Option.some.inj (hevent.symm.trans (hji ▸ hj))⟩
      · exact .inr ⟨ena, v, early, List.mem_eraseIdx_iff_getElem?.mpr ⟨j, hji, hj⟩⟩
    dsimp only
    cases e with
    | irq nr =>
      intro ch hwritten
      rcases hrest ch hwritten with ⟨ena, v, early, heq⟩ | hin
      · cases heq
      · exact hin
    | setdsr nr =>
      have hpop : Awaited { p with events := p.events.eraseIdx i } := by
        intro ch hwritten
        rcases hrest ch hwritten with ⟨ena, v, early, heq⟩ | hin
        · cases heq
        · exact hin
      exact Tame.awaited (tame_onChan nr fun _ h => h) hpop
    | audxdat nr ena v early =>
      refine awaited_eventAudxdat prefs nr ena v early fun ch hch hwritten => ?_
      rcases hrest ch hwritten with ⟨ena', v', early', heq⟩ | hin
      · cases heq
        exact absurd rfl hch
      · exact hin

theorem awaited_step (prefs : AudioPrefs) (op : AudioOp) (h : p.Awaited) :
    (p.step prefs op).Awaited := by
  have hsame : ∀ {q : Paula}, q.chan = p.chan → q.events = p.events → q.Awaited := by
    intro q hchan hevents i hwritten
    rw [hchan] at hwritten
    rw [hevents]
    exact h i hwritten
  cases op with
  | lch nr v => exact Tame.awaited (tame_writeReg prefs nr fun _ h => h) h
  | lcl nr v => exact Tame.awaited (tame_writeReg prefs nr fun _ h => h) h
  | len nr v => exact Tame.awaited (tame_writeReg prefs nr fun _ h => h) h
  | per nr v => exact Tame.awaited (tame_writeReg prefs nr fun _ h => h) h
  | vol nr v => exact Tame.awaited (tame_writeReg prefs nr fun _ h => h) h
  | dat nr v => exact awaited_audxDat prefs nr v h
  | dmacon v => exact Tame.awaited (tame_writeDmacon prefs v) h
  | adkcon v => exact Tame.awaited (tame_writeAdkcon prefs v) h
  | intreq v => exact hsame rfl rfl
  | dmal => exact Tame.awaited ⟨fun _ h => h, fun _ h => h⟩ h
  | getpt nr reset =>
    refine Tame.awaited (q := p.audioGetpt nr reset) ?_ h
    refine .trans (tame_onChan nr (k := fun c =>
      { c with pt := if reset then c.lc else c.pt + 2 }) fun _ h => h) ?_
    exact ⟨fun _ h => h, fun _ h => h⟩
  | elapse cycles => exact hsame rfl rfl
  | update => exact Tame.awaited (tame_updateAudio prefs) h
  | hsync => exact Tame.awaited (tame_audioHsync prefs) h
  | fire i => exact awaited_fire prefs i h

/-- Marked channels wait for a word, after every run. -/
theorem awaited_run (prefs : AudioPrefs) (ops : List AudioOp) (h : p.Awaited) :
    (p.run prefs ops).Awaited := by
  induction ops generalizing p with
  | nil => exact h
  | cons op ops ih => exact ih (awaited_step prefs op h)

/-- Where nothing is on its way, no word is left. -/
theorem datWritten_run (prefs : AudioPrefs) (ops : List AudioOp)
    (hevents : (reset.run prefs ops).events = []) (nr : Fin 4) :
    ((reset.run prefs ops).chan nr).datWritten = false := by
  have hreset : reset.Awaited := fun _ hwritten => absurd hwritten Bool.false_ne_true
  by_contra hwritten
  obtain ⟨ena, v, early, hin⟩ :=
    awaited_run prefs ops hreset nr ((Bool.not_eq_false _).mp hwritten)
  rw [hevents] at hin
  cases hin

end

end LibretroUae.Audio.Paula
