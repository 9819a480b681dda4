import LibretroUae.Audio.Channels

/-!
# LibretroUae.Audio.Idle

**Time that no channel waits for.** While no channel has an event time, how long ago the channels
were updated makes no difference.
-/

namespace LibretroUae.Audio.Paula

/-- No channel has an event time. -/
def Idle (p : Paula) : Prop := ∀ nr, (p.chan nr).evtime = maxEv

/-- The same but for the pending time, which counts unless nothing waits. -/
def Late (p q : Paula) : Prop := ∃ n, p = { q with pending := n } ∧ (n = q.pending ∨ q.Idle)

section

variable {p q : Paula}

theorem Late.refl (p : Paula) : Late p p := ⟨p.pending, rfl, .inl rfl⟩

theorem Late.of_eq (h : p = q) : Late p q := h ▸ .refl p

theorem Late.map {f : Paula → Paula} (h : Late p q)
    (hcomm : ∀ p n, f { p with pending := n } = { f p with pending := n })
    (hidle : ∀ p, p.Idle → (f p).Idle) : Late (f p) (f q) := by
  obtain ⟨n, rfl, rfl | hq⟩ := h
  · exact .refl (f q)
  · exact ⟨n, hcomm q n, .inr (hidle q hq)⟩

theorem Idle.onChan {k : AudioChannel → AudioChannel} (h : p.Idle) (nr : Fin 4)
    (hk : ∀ c, (k c).evtime = c.evtime) : (p.onChan nr k).Idle := by
  intro i
  change (Function.update p.chan nr _ i).evtime = maxEv
  by_cases hi : i = nr
  · rw [hi, Function.update_self, hk]
    exact h nr
  · rw [Function.update_of_ne hi]
    exact h i

theorem Late.onChan {k : AudioChannel → AudioChannel} (h : Late p q) (nr : Fin 4)
    (hk : ∀ c, (k c).evtime = c.evtime) : Late (p.onChan nr k) (q.onChan nr k) :=
  h.map (fun _ _ => rfl) fun _ hp => hp.onChan nr hk

/-! ### Updates -/

theorem bestEvtime_idle (h : p.Idle) : p.bestEvtime = p.pending := by
  have hfold : ∀ (l : List (Fin 4)) (best : Nat), l.foldl (fun best nr =>
      if (p.chan nr).evtime = maxEv then best else min best (p.chan nr).evtime.toNat) best =
        best := by
    intro l
    induction l with
    | nil => exact fun _ => rfl
    | cons nr l ih =>
      intro best
      rw [List.foldl_cons, if_pos (h nr)]
      exact ih best
  exact hfold _ _

theorem countDown_idle (h : p.Idle) : p.countDown p.bestEvtime = { p with pending := 0 } := by
  have hchan : (fun nr => if (p.chan nr).evtime = maxEv then p.chan nr
      else { p.chan nr with
        evtime := (p.chan nr).evtime - BitVec.ofNat 32 p.bestEvtime }) = p.chan :=
    funext fun nr => if_pos (h nr)
  rw [countDown, hchan, bestEvtime_idle h, Nat.sub_self]

theorem finishPeriods_idle (prefs : AudioPrefs) (h : p.Idle) : p.finishPeriods prefs = p := by
  have hfold : ∀ l : List (Fin 4), l.foldl (finishPeriod prefs) p = p := by
    intro l
    induction l with
    | nil => rfl
    | cons nr l ih =>
      have hne : (p.chan nr).evtime ≠ 0 := by
        rw [h nr]
        decide
      rw [List.foldl_cons, finishPeriod, if_neg hne, ih]
  exact hfold _

theorem updateAudio_idle (prefs : AudioPrefs) (h : p.Idle) :
    p.updateAudio prefs = { p with pending := 0 } := by
  rw [updateAudio]
  split_ifs
  · rfl
  · rw [updateLoop]
    split_ifs with hpending
    · rw [← hpending]
    · have hnow : Idle { p with pending := 0 } := h
      rw [countDown_idle h, finishPeriods_idle prefs hnow]
      cases p.pending with
      | zero => rfl
      | succ n => rw [updateLoop, if_pos rfl]

theorem Late.update (h : Late p q) (prefs : AudioPrefs) :
    p.updateAudio prefs = q.updateAudio prefs := by
  obtain ⟨n, rfl, rfl | hq⟩ := h
  · rfl
  · have hp : Idle { q with pending := n } := hq
    rw [updateAudio_idle prefs hp, updateAudio_idle prefs hq]

theorem Late.activate (h : Late p q) (prefs : AudioPrefs) :
    Late (p.audioActivate prefs) (q.audioActivate prefs) := by
  obtain ⟨n, rfl, rfl | hq⟩ := h
  · exact .refl _
  · rw [audioActivate, audioActivate]
    by_cases hwork : q.work = 0
    · rw [if_pos hwork, if_pos hwork]
      exact .refl _
    · rw [if_neg hwork, if_neg hwork]
      exact ⟨n, rfl, .inr hq⟩

/-! ### Operations -/

theorem Late.eventAudxdat (h : Late p q) (prefs : AudioPrefs) (nr : Fin 4) (ena : Bool)
    (v : BitVec 16) (early : Bool) :
    Late (p.eventAudxdat prefs nr ena v early) (q.eventAudxdat prefs nr ena v early) := by
  have hplaying : (p.chan nr).playing = (q.chan nr).playing := by
    obtain ⟨n, rfl, -⟩ := h
    rfl
  have hstore : Late (p.onChan nr fun c => { c with dat := v, datWritten := true })
      (q.onChan nr fun c => { c with dat := v, datWritten := true }) := h.onChan nr fun _ => rfl
  rw [Paula.eventAudxdat, Paula.eventAudxdat, hplaying]
  refine Late.onChan ?_ nr fun _ => rfl
  split_ifs
  · refine h.onChan nr fun c => ?_
    rw [countWord]
    split_ifs <;> rfl
  · exact hstore
  · dsimp only
    rw [(hstore.activate prefs).update prefs]
    exact .refl _

theorem Late.audxDat (h : Late p q) (prefs : AudioPrefs) (nr : Fin 4) (v : BitVec 16) :
    Late (p.audxDat prefs nr v) (q.audxDat prefs nr v) := by
  have hena : p.chanEna nr = q.chanEna nr := by
    obtain ⟨n, rfl, -⟩ := h
    rfl
  have hstored : Late (if q.chanEna nr then
      p.onChan nr fun c => { c with dat := v, datWritten := true } else p) (if q.chanEna nr then
      q.onChan nr fun c => { c with dat := v, datWritten := true } else q) := by
    split_ifs
    · exact h.onChan nr fun _ => rfl
    · exact h
  rw [Paula.audxDat, Paula.audxDat, hena]
  generalize (if q.chanEna nr then p.onChan nr fun c => { c with dat := v, datWritten := true }
    else p) = p1 at hstored ⊢
  generalize (if q.chanEna nr then q.onChan nr fun c => { c with dat := v, datWritten := true }
    else q) = q1 at hstored ⊢
  have hdelayed : p1.delayed prefs nr = q1.delayed prefs nr := by
    obtain ⟨n, rfl, -⟩ := hstored
    rfl
  have hplaying : (p1.chan nr).playing = (q1.chan nr).playing := by
    obtain ⟨n, rfl, -⟩ := hstored
    rfl
  dsimp only
  rw [hdelayed, hplaying]
  split_ifs
  · refine Late.map (Late.onChan hstored nr fun _ => rfl) (fun _ _ => rfl) fun _ hp => hp
  · exact hstored.eventAudxdat prefs nr _ v false

theorem Late.writeReg (h : Late p q) (prefs : AudioPrefs) (nr : Fin 4)
    (k : AudioChannel → AudioChannel) : Late (p.writeReg prefs nr k) (q.writeReg prefs nr k) :=
  .of_eq (congrArg (Paula.onChan nr k) ((h.activate prefs).update prefs))

theorem Late.writeDmacon (h : Late p q) (prefs : AudioPrefs) (v : BitVec 16) :
    Late (p.writeDmacon prefs v) (q.writeDmacon prefs v) := by
  have hdmacon : p.dmacon = q.dmacon := by
    obtain ⟨n, rfl, -⟩ := h
    rfl
  have hwrite : Late { p with dmacon := v } { q with dmacon := v } :=
    h.map (f := fun p => { p with dmacon := v }) (fun _ _ => rfl) fun _ hp => hp
  rw [Paula.writeDmacon, Paula.writeDmacon, hdmacon]
  split_ifs
  · rw [audioStateMachine, audioStateMachine, hwrite.update prefs]
    exact .refl _
  · exact hwrite

theorem Late.writeAdkcon (h : Late p q) (prefs : AudioPrefs) (v : BitVec 16) :
    Late (p.writeAdkcon prefs v) (q.writeAdkcon prefs v) := by
  have hadkcon : p.adkcon = q.adkcon := by
    obtain ⟨n, rfl, -⟩ := h
    rfl
  have hupdate : Late (if prefs.produceSound then p.updateAudio prefs else p)
      (if prefs.produceSound then q.updateAudio prefs else q) := by
    split_ifs
    · exact .of_eq (h.update prefs)
    · exact h
  rw [Paula.writeAdkcon, Paula.writeAdkcon, hadkcon]
  generalize (if prefs.produceSound then p.updateAudio prefs else p) = p1 at hupdate ⊢
  generalize (if prefs.produceSound then q.updateAudio prefs else q) = q1 at hupdate ⊢
  have hwrite : Late { p1 with adkcon := v } { q1 with adkcon := v } :=
    hupdate.map (f := fun p => { p with adkcon := v }) (fun _ _ => rfl) fun _ hp => hp
  split_ifs
  · exact hwrite.activate prefs
  · exact hwrite

theorem Late.audioHsync (h : Late p q) (prefs : AudioPrefs) :
    Late (p.audioHsync prefs) (q.audioHsync prefs) := by
  have hwork : p.work = q.work := by
    obtain ⟨n, rfl, -⟩ := h
    rfl
  have hrest : Late (p.audioRest prefs) (q.audioRest prefs) := by
    rw [audioRest, audioRest, hwork]
    split_ifs
    · obtain ⟨n, rfl, -⟩ := h
      exact .refl _
    · obtain ⟨n, rfl, hq⟩ := h
      exact ⟨n, rfl, hq⟩
  have hboth : Late (if 0 < q.work && prefs.soundAuto then p.audioRest prefs else p)
      (if 0 < q.work && prefs.soundAuto then q.audioRest prefs else q) := by
    split_ifs
    · exact hrest
    · exact h
  rw [Paula.audioHsync, Paula.audioHsync, hwork]
  by_cases hoff : (!prefs.produceSound) = true
  · rw [if_pos hoff, if_pos hoff]
    exact h
  · rw [if_neg hoff, if_neg hoff]
    exact .of_eq (hboth.update prefs)

theorem Late.fire (h : Late p q) (prefs : AudioPrefs) (i : Nat) :
    Late (p.fire prefs i) (q.fire prefs i) := by
  have hevents : p.events = q.events := by
    obtain ⟨n, rfl, -⟩ := h
    rfl
  rw [Paula.fire, Paula.fire, hevents]
  cases q.events[i]? with
  | none => exact h
  | some e =>
    have hpop : Late { p with events := q.events.eraseIdx i }
        { q with events := q.events.eraseIdx i } :=
      h.map (f := fun p => { p with events := q.events.eraseIdx i }) (fun _ _ => rfl) fun _ hp => hp
    cases e with
    | irq nr => exact hpop.map (f := raise nr) (fun _ _ => rfl) fun _ hp => hp
    | setdsr nr => exact hpop.onChan nr fun _ => rfl
    | audxdat nr ena v early => exact hpop.eventAudxdat prefs nr ena v early

theorem Late.step (h : Late p q) (prefs : AudioPrefs) (op : AudioOp) :
    Late (p.step prefs op) (q.step prefs op) := by
  cases op with
  | lch nr v => exact h.writeReg prefs nr _
  | lcl nr v => exact h.writeReg prefs nr _
  | len nr v => exact h.writeReg prefs nr _
  | per nr v => exact h.writeReg prefs nr _
  | vol nr v => exact h.writeReg prefs nr _
  | dat nr v => exact h.audxDat prefs nr v
  | dmacon v => exact h.writeDmacon prefs v
  | adkcon v => exact h.writeAdkcon prefs v
  | intreq v => exact h.map (f := fun p => { p with intreq := v }) (fun _ _ => rfl) fun _ hp => hp
  | dmal => exact h.map (f := audioDmal) (fun _ _ => rfl) fun _ hp => hp
  | getpt nr reset =>
    refine h.map (f := audioGetpt nr reset) (fun _ _ => rfl) fun p hp => ?_
    exact hp.onChan nr (k := fun c => { c with pt := if reset then c.lc else c.pt + 2 })
      fun _ => rfl
  | elapse cycles =>
    obtain ⟨n, rfl, hq⟩ := h
    exact ⟨n + cycles, rfl, hq.imp_left (congrArg (· + cycles))⟩
  | update => exact .of_eq (h.update prefs)
  | hsync => exact h.audioHsync prefs
  | fire i => exact h.fire prefs i

theorem Late.run (h : Late p q) (prefs : AudioPrefs) (ops : List AudioOp) :
    Late (p.run prefs ops) (q.run prefs ops) := by
  induction ops generalizing p q with
  | nil => exact h
  | cons op ops ih => exact ih (h.step prefs op)

/-- What was heard does not depend on time that nothing waits for. -/
theorem Late.out (h : Late p q) : p.out = q.out := by
  obtain ⟨n, rfl, -⟩ := h
  rfl

end

end LibretroUae.Audio.Paula
