import LibretroUae.Events.Queue

/-!
# LibretroUae.Events.Schedule

`currcycle` never passes a registered event.

Between top-level calls `eventtab[ev_misc]` is due no later than any event (`Idle`). While
`MISC_handler` runs that is not so, and its handlers may register more events; all that
holds then is that no event is in the past (`Pending`). What one call does in either
situation is one relation (`Within`), which composes; the only place where the
situation changes is `MISC_handler` itself. Its last pass sets no `recheck`, so no event was
registered during it, and the minimum it took is one over all events
(`miscHandler_steady`).
-/

namespace LibretroUae.Events

open LibretroUae.Lib

variable {F : Type} {s s' s'' : State F}

/-! ### Nothing gets lost -/

/-- The log says what became of an event: it left its slot no later than its time, and at
its time if the scan called its handler. -/
def Settled (log : List Item) (e : Ev2 F) : Prop :=
  ∃ x ∈ log, x.id = e.id ∧ x.evtime = e.evtime ∧ x.cycle ≤ e.evtime ∧
    (x.how = .due → x.cycle = e.evtime)

/-- Every event is still there, with its time, or has been settled since. -/
def Keeps (s s' : State F) : Prop :=
  ∃ l, s'.log = l ++ s.log ∧ ∀ i, (s.eventtab2 i).active →
    ((s'.eventtab2 i).active ∧ (s'.eventtab2 i).id = (s.eventtab2 i).id ∧
      (s'.eventtab2 i).evtime = (s.eventtab2 i).evtime) ∨ Settled l (s.eventtab2 i)

theorem Keeps.of_eq (hlog : s'.log = s.log)
    (h : ∀ i, (s.eventtab2 i).active → (s'.eventtab2 i).active ∧
      (s'.eventtab2 i).id = (s.eventtab2 i).id ∧
      (s'.eventtab2 i).evtime = (s.eventtab2 i).evtime) : Keeps s s' :=
  ⟨[], hlog, fun i hi => Or.inl (h i hi)⟩

theorem Keeps.refl (s : State F) : Keeps s s := .of_eq rfl fun _ hi => ⟨hi, rfl, rfl⟩

theorem Settled.append_left {l : List Item} {e : Ev2 F} (h : Settled l e) (l' : List Item) :
    Settled (l' ++ l) e := by
  obtain ⟨x, hx, hrest⟩ := h
  exact ⟨x, List.mem_append_right l' hx, hrest⟩

theorem Keeps.trans (h : Keeps s s') (h' : Keeps s' s'') : Keeps s s'' := by
  obtain ⟨l, hlog, hslot⟩ := h
  obtain ⟨l', hlog', hslot'⟩ := h'
  refine ⟨l' ++ l, by rw [hlog', hlog, List.append_assoc], fun i hi => ?_⟩
  rcases hslot i hi with ⟨ha, hid, het⟩ | hset
  · rcases hslot' i ha with ⟨ha', hid', het'⟩ | ⟨x, hx, hxid, hxet, hcyc, hdue⟩
    · exact Or.inl ⟨ha', hid'.trans hid, het'.trans het⟩
    · rw [het] at hxet hcyc hdue
      exact Or.inr ⟨x, List.mem_append_left l hx, hxid.trans hid, hxet, hcyc, hdue⟩
  · exact Or.inr (hset.append_left l')

/-! ### The invariants -/

/-- No event is in the past, and none at `EVT_MAX`. -/
structure Pending (s : State F) : Prop where
  nonneg : 0 ≤ s.currcycle
  evtime : ∀ i, (s.eventtab2 i).active →
    s.currcycle ≤ (s.eventtab2 i).evtime ∧ (s.eventtab2 i).evtime < evtMax

/-- What holds outside `MISC_handler`. -/
structure Idle (s : State F) : Prop where
  dorecheck : s.dorecheck = false
  others : ∀ i, i ≠ .misc → (s.eventtab i).active = false
  misc : ∀ i, (s.eventtab2 i).active →
    (s.eventtab .misc).active ∧ (s.eventtab .misc).evtime ≤ (s.eventtab2 i).evtime
  ahead : (s.eventtab .misc).active →
    s.currcycle < (s.eventtab .misc).evtime ∧ s.nextevent ≤ (s.eventtab .misc).evtime
  nextevent : s.currcycle ≤ s.nextevent

/-- The invariant, inside and outside `MISC_handler`. -/
structure Live (s : State F) : Prop where
  pending : Pending s
  idle : s.recursive = false → Idle s

/-- What every step at one time keeps. -/
structure Steady (s s' : State F) : Prop where
  currcycle : s'.currcycle = s.currcycle
  pissoff : s'.pissoff = s.pissoff
  recursive : s'.recursive = s.recursive
  keeps : Keeps s s'

theorem Steady.refl (s : State F) : Steady s s := ⟨rfl, rfl, rfl, .refl s⟩

theorem Steady.trans (h : Steady s s') (h' : Steady s' s'') : Steady s s'' where
  currcycle := h'.currcycle.trans h.currcycle
  pissoff := h'.pissoff.trans h.pissoff
  recursive := h'.recursive.trans h.recursive
  keeps := h.keeps.trans h'.keeps

/-- Unless it asks for another pass, a step only removes events. -/
def Quiet (s s' : State F) : Prop :=
  s'.dorecheck = false → s.dorecheck = false ∧ ∀ i, (s'.eventtab2 i).active →
    (s.eventtab2 i).active ∧ (s'.eventtab2 i).evtime = (s.eventtab2 i).evtime

theorem Quiet.trans (h : Quiet s s') (h' : Quiet s' s'') : Quiet s s'' := by
  intro hd
  obtain ⟨hd', hslot'⟩ := h' hd
  obtain ⟨hd'', hslot⟩ := h hd'
  refine ⟨hd'', fun i hi => ?_⟩
  obtain ⟨ha', het'⟩ := hslot' i hi
  obtain ⟨ha, het⟩ := hslot i ha'
  exact ⟨ha, het'.trans het⟩

/-- What a call of the queue, or of a handler, does. -/
structure Within (s s' : State F) : Prop extends Steady s s' where
  live : Live s'
  /-- Inside `MISC_handler` nothing is rescheduled. -/
  frame : s.recursive = true →
    s'.eventtab = s.eventtab ∧ s'.nextevent = s.nextevent ∧ Quiet s s'

theorem Within.refl (h : Live s) : Within s s :=
  ⟨.refl s, h, fun _ => ⟨rfl, rfl, fun hd => ⟨hd, fun _ hi => ⟨hi, rfl⟩⟩⟩⟩

theorem Within.trans (h : Within s s') (h' : Within s' s'') : Within s s'' := by
  refine ⟨h.toSteady.trans h'.toSteady, h'.live, fun hr => ?_⟩
  obtain ⟨htab, hnext, hquiet⟩ := h.frame hr
  obtain ⟨htab', hnext', hquiet'⟩ := h'.frame (h.recursive.trans hr)
  exact ⟨htab'.trans htab, hnext'.trans hnext, hquiet.trans hquiet'⟩

/-! ### Small steps -/

theorem Keeps.retire (h : Pending s) (i : Slot) {how : How}
    (hdue : how = .due → (s.eventtab2 i).evtime = s.currcycle) : Keeps s (s.retire i how) := by
  refine ⟨[⟨(s.eventtab2 i).id, (s.eventtab2 i).evtime, s.currcycle, how, i⟩], rfl, fun j hj => ?_⟩
  by_cases hij : j = i
  · subst hij
    exact Or.inr ⟨_, List.mem_singleton_self _, rfl, rfl, (h.evtime j hj).1,
      fun hd => (hdue hd).symm⟩
  · refine Or.inl ?_
    simp only [State.retire, Function.update_of_ne hij]
    exact ⟨hj, trivial, trivial⟩

/-- Retiring an event leaves the others alone. -/
theorem State.retire_active {i j : Slot} {how : How} (h : ((s.retire i how).eventtab2 j).active) :
    (s.eventtab2 j).active ∧ ((s.retire i how).eventtab2 j).evtime = (s.eventtab2 j).evtime := by
  by_cases hij : j = i
  · subst hij
    simp [State.retire] at h
  · simp only [State.retire, Function.update_of_ne hij] at h ⊢
    exact ⟨h, trivial⟩

/-- A step that only removes events keeps the invariant. -/
theorem Live.of_removes (h : Live s) (hcyc : s'.currcycle = s.currcycle)
    (hrec : s'.recursive = s.recursive) (hdo : s'.dorecheck = s.dorecheck)
    (htab : s'.eventtab = s.eventtab) (hnext : s'.nextevent = s.nextevent)
    (hslot : ∀ i, (s'.eventtab2 i).active →
      (s.eventtab2 i).active ∧ (s'.eventtab2 i).evtime = (s.eventtab2 i).evtime) : Live s' where
  pending := by
    refine ⟨hcyc ▸ h.pending.nonneg, fun i hi => ?_⟩
    obtain ⟨ha, het⟩ := hslot i hi
    rw [hcyc, het]
    exact h.pending.evtime i ha
  idle hr := by
    have hidle := h.idle (hrec ▸ hr)
    refine ⟨hdo.trans hidle.dorecheck, htab ▸ hidle.others, fun i hi => ?_, ?_, ?_⟩
    · obtain ⟨ha, het⟩ := hslot i hi
      rw [htab, het]
      exact hidle.misc i ha
    · rw [htab, hcyc, hnext]
      exact hidle.ahead
    · rw [hcyc, hnext]
      exact hidle.nextevent

theorem Within.retire (h : Live s) (i : Slot) {how : How}
    (hdue : how = .due → (s.eventtab2 i).evtime = s.currcycle) : Within s (s.retire i how) where
  currcycle := rfl
  pissoff := rfl
  recursive := rfl
  keeps := .retire h.pending i hdue
  live := h.of_removes rfl rfl rfl rfl rfl fun _ hj => State.retire_active hj
  frame _ := ⟨rfl, rfl, fun hd => ⟨hd, fun _ hj => State.retire_active hj⟩⟩

theorem State.setNext_slot (s : State F) (i : Slot) (e : Option Slot) (j : Slot) :
    ((s.setNext i e).eventtab2 j).active = (s.eventtab2 j).active ∧
      ((s.setNext i e).eventtab2 j).evtime = (s.eventtab2 j).evtime ∧
      ((s.setNext i e).eventtab2 j).id = (s.eventtab2 j).id := by
  by_cases hij : j = i
  · subst hij
    simp [State.setNext]
  · simp [State.setNext, Function.update_of_ne hij]

theorem Within.setNext (h : Live s) (i : Slot) (e : Option Slot) : Within s (s.setNext i e) := by
  have hslot : ∀ j, ((s.setNext i e).eventtab2 j).active →
      (s.eventtab2 j).active ∧ ((s.setNext i e).eventtab2 j).evtime = (s.eventtab2 j).evtime := by
    intro j hj
    obtain ⟨ha, het, -⟩ := s.setNext_slot i e j
    exact ⟨ha ▸ hj, het⟩
  refine ⟨⟨rfl, rfl, rfl, .of_eq rfl fun j hj => ?_⟩, h.of_removes rfl rfl rfl rfl rfl hslot,
    fun _ => ⟨rfl, rfl, fun hd => ⟨hd, hslot⟩⟩⟩
  obtain ⟨ha, het, hid⟩ := s.setNext_slot i e j
  exact ⟨ha.symm ▸ hj, hid, het⟩

/-! ### A pass of MISC_handler -/

/-- What is assumed of calls through function pointers. -/
def CallSpec (call : CallFunc F) : Prop :=
  ∀ func data s s', Live s → call func data s = some s' → Within s s'

section Calls

variable {call : CallFunc F}

theorem Within.fire (hcall : CallSpec call) {how : How} {i : Slot} (h : Live s)
    (hdue : how = .due → (s.eventtab2 i).evtime = s.currcycle)
    (hfire : fire call how i s = some s') : Within s s' :=
  have hret : Within s (s.retire i how) := .retire h i hdue
  hret.trans (hcall _ _ _ _ hret.live hfire)

theorem Within.chain (hcall : CallSpec call) {i : Slot} (h : Live s)
    (hchain : chain call i s = some s') : Within s s' := by
  unfold Events.chain at hchain
  split at hchain
  · obtain rfl : s = s' := Option.some.inj hchain
    exact .refl h
  · rename_i j _
    have hnext : Within s (s.setNext i none) := .setNext h i none
    dsimp only at hchain
    split_ifs at hchain
    · exact hnext.trans (.fire hcall hnext.live (by simp) hchain)
    · obtain rfl := Option.some.inj hchain
      exact hnext

/-- The slots seen so far in a pass that began in state `s`. -/
structure Scanned (ct : Int) (seen : List Slot) (s : State F) (p : Pass F) : Prop
    extends Steady s p.state where
  live : Live p.state
  running : p.state.recursive = true
  dorecheck : p.state.dorecheck = false
  now : p.state.currcycle = ct
  eventtab : p.state.eventtab = s.eventtab
  nextevent : p.state.nextevent = s.nextevent
  positive : 0 < p.mintime
  seen : p.recheck = false → ∀ i ∈ seen, (p.state.eventtab2 i).active →
    ct + p.mintime ≤ (p.state.eventtab2 i).evtime

theorem Scanned.visit (hcall : CallSpec call) {ct : Int} {seen : List Slot} {i : Slot}
    {p p' : Pass F} (h : Scanned ct seen s p) (hvisit : visit call ct i p = some p') :
    Scanned ct (seen ++ [i]) s p' := by
  unfold Events.visit at hvisit
  split_ifs at hvisit with hactive hdue
  · -- the event is due
    cases hfire : fire call .due i p.state with
    | none => simp [hfire] at hvisit
    | some s1 =>
      cases hchain : chain call i s1 with
      | none => simp [hfire, hchain] at hvisit
      | some s2 =>
        have hw1 : Within p.state s1 := .fire hcall h.live (fun _ => hdue.trans h.now.symm) hfire
        have hw : Within p.state s2 := hw1.trans (.chain hcall hw1.live hchain)
        obtain ⟨htab, hnext, hquiet⟩ := hw.frame h.running
        simp only [hfire, hchain, bind, Option.bind, pure] at hvisit
        split_ifs at hvisit with hagain
        · obtain rfl := Option.some.inj hvisit
          have hrun : s2.recursive = true := hw.recursive.trans h.running
          exact {
            currcycle := hw.currcycle.trans h.currcycle
            pissoff := hw.pissoff.trans h.pissoff
            recursive := hw.recursive.trans h.recursive
            keeps := h.keeps.trans hw.keeps
            live := ⟨⟨hw.live.pending.nonneg, hw.live.pending.evtime⟩,
              fun hr => absurd (hrun.symm.trans hr) (by simp)⟩
            running := hrun
            dorecheck := rfl
            now := hw.currcycle.trans h.now
            eventtab := htab.trans h.eventtab
            nextevent := hnext.trans h.nextevent
            positive := h.positive
            seen := fun hr => absurd hr (by simp) }
        · obtain rfl := Option.some.inj hvisit
          rw [Bool.or_eq_true, not_or, Bool.not_eq_true] at hagain
          obtain ⟨-, hslot⟩ := hquiet hagain.1
          refine { h.toSteady.trans hw.toSteady with
            live := hw.live
            running := hw.recursive.trans h.running
            dorecheck := hagain.1
            now := hw.currcycle.trans h.now
            eventtab := htab.trans h.eventtab
            nextevent := hnext.trans h.nextevent
            positive := h.positive
            seen := fun hr j hj hja => ?_ }
          rcases List.mem_append.mp hj with hj | hj
          · obtain ⟨hja', het⟩ := hslot j hja
            dsimp only at het ⊢
            rw [het]
            exact h.seen hr j hj hja'
          · obtain rfl := List.mem_singleton.mp hj
            exact absurd hja hagain.2
  · -- the event is still to come
    obtain rfl := Option.some.inj hvisit
    have hlate := (h.live.pending.evtime i hactive).1
    rw [h.now] at hlate
    have hpos : 0 < (p.state.eventtab2 i).evtime - ct := by omega
    refine { h with
      positive := ?_
      seen := fun hr j hj hja => ?_ }
    · dsimp only
      split_ifs
      · exact hpos
      · exact h.positive
    · rcases List.mem_append.mp hj with hj | hj
      · have := h.seen hr j hj hja
        dsimp only
        split_ifs <;> omega
      · obtain rfl := List.mem_singleton.mp hj
        dsimp only
        split_ifs <;> omega
  · -- the slot is free
    obtain rfl := Option.some.inj hvisit
    refine { h with seen := fun hr j hj hja => ?_ }
    rcases List.mem_append.mp hj with hj | hj
    · exact h.seen hr j hj hja
    · obtain rfl := List.mem_singleton.mp hj
      exact absurd hja hactive

theorem Scanned.scan (hcall : CallSpec call) {ct : Int} {is : List Slot} :
    ∀ {seen : List Slot} {p p' : Pass F}, Scanned ct seen s p → scan call ct is p = some p' →
      Scanned ct (seen ++ is) s p' := by
  induction is with
  | nil =>
    intro seen p p' h hscan
    obtain rfl : p = p' := Option.some.inj hscan
    rwa [List.append_nil]
  | cons i is ih =>
    intro seen p p' h hscan
    rw [Events.scan] at hscan
    cases hvisit : Events.visit call ct i p with
    | none => simp [hvisit] at hscan
    | some p1 =>
      have := ih (h.visit hcall hvisit) (by simpa [hvisit] using hscan)
      rwa [List.append_assoc] at this

/-- A pass begins. -/
theorem Scanned.start {ct : Int} (hlive : Live s) (hrun : s.recursive = true)
    (hdo : s.dorecheck = false) (hnow : s.currcycle = ct) : Scanned ct [] s ⟨s, evtMax, false⟩ :=
  { Steady.refl s with
    live := hlive, running := hrun, dorecheck := hdo, now := hnow, eventtab := rfl
    nextevent := rfl, positive := show (0 : Int) < evtMax by decide
    seen := fun _ i hi => absurd hi List.not_mem_nil }

/-- A pass that began in a later state, seen from an earlier one. -/
theorem Scanned.rebase {ct : Int} {seen : List Slot} {p p' : Pass F} (h : Scanned ct seen s p)
    (h' : Scanned ct slots p.state p') : Scanned ct slots s p' :=
  { h.toSteady.trans h'.toSteady, h' with
    eventtab := h'.eventtab.trans h.eventtab
    nextevent := h'.nextevent.trans h.nextevent }

/-- The last pass asks for no other, and saw every slot. -/
theorem Scanned.rescan (hcall : CallSpec call) {ct m : Int} {n : Nat} :
    ∀ {s s' : State F}, Live s → s.recursive = true → s.dorecheck = false → s.currcycle = ct →
      rescan call ct n s = some (s', m) →
      ∃ p : Pass F, Scanned ct slots s p ∧ p.recheck = false ∧ p.state = s' ∧ p.mintime = m := by
  induction n with
  | zero => exact fun _ _ _ _ h => absurd h (by simp [Events.rescan])
  | succ n ih =>
    intro s s' hlive hrun hdo hnow hrescan
    have hstart := Scanned.start hlive hrun hdo hnow
    rw [Events.rescan] at hrescan
    cases hscan : Events.scan call ct slots ⟨s, evtMax, false⟩ with
    | none => simp [hscan] at hrescan
    | some p =>
      have hp : Scanned ct slots s p := hstart.scan hcall hscan
      simp only [hscan, bind, Option.bind, pure] at hrescan
      split_ifs at hrescan with hagain
      · obtain ⟨p', hp', hlast⟩ := ih hp.live hp.running hp.dorecheck hp.now hrescan
        exact ⟨p', hp.rebase hp', hlast⟩
      · obtain ⟨rfl, rfl⟩ := Prod.mk.inj (Option.some.inj hrescan)
        exact ⟨p, hp, Bool.not_eq_true _ ▸ hagain, rfl, rfl⟩

/-! ### MISC_handler -/

/-- What `MISC_handler` needs outside itself. -/
structure Ready (s : State F) : Prop where
  pending : Pending s
  recursive : s.recursive = false
  dorecheck : s.dorecheck = false
  others : ∀ i, i ≠ .misc → (s.eventtab i).active = false
  nextevent : s.currcycle ≤ s.nextevent

/-- With only `ev_misc` active, `events_schedule` looks at it alone. -/
theorem eventsSchedule_nextevent (h : ∀ i, i ≠ .misc → (s.eventtab i).active = false) :
    s.eventsSchedule.nextevent =
      if (s.eventtab .misc).active ∧ (s.eventtab .misc).evtime - s.currcycle < evtMax then
        (s.eventtab .misc).evtime
      else evtMax := by
  simp only [State.eventsSchedule, EvId.all, List.foldl_cons, List.foldl_nil,
    h .cia (by decide), h .hsync (by decide), h .hsynch (by decide), h .audio (by decide),
    Bool.false_eq_true, false_and, if_false]
  split_ifs with h1 h2 h2 <;> omega

theorem Ready.enterMisc (h : Ready s) : Live s.enterMisc :=
  ⟨⟨h.pending.nonneg, h.pending.evtime⟩, fun hr => absurd hr (by simp [State.enterMisc])⟩

theorem mem_slots (i : Slot) : i ∈ slots := List.mem_finRange i

/-- Outside itself `MISC_handler` runs what is due and reschedules itself. -/
theorem miscHandler_steady (hcall : CallSpec call) {n : Nat} (h : Ready s)
    (hmisc : miscHandler call n s = some s') : Steady s s' ∧ Live s' := by
  have hlive1 := h.enterMisc
  have hothers1 : ∀ i, (s.enterMisc.eventtab i).active = false := by
    intro i
    by_cases hi : i = .misc
    · subst hi
      simp [State.enterMisc]
    · rw [State.enterMisc]
      exact (congrArg Ev.active (Function.update_of_ne hi _ _)).trans (h.others i hi)
  rw [miscHandler, h.recursive] at hmisc
  simp only [Bool.false_eq_true, if_false] at hmisc
  cases hres : Events.rescan call s.currcycle n s.enterMisc with
  | none => simp [hres] at hmisc
  | some x =>
    obtain ⟨s2, m⟩ := x
    obtain ⟨p, hp, hlast, rfl, rfl⟩ := Scanned.rescan hcall hlive1 rfl h.dorecheck rfl hres
    have hseen : ∀ i, (p.state.eventtab2 i).active →
        s.currcycle + p.mintime ≤ (p.state.eventtab2 i).evtime :=
      fun i => hp.seen hlast i (mem_slots i)
    simp only [hres, bind, Option.bind, pure, Option.some.injEq] at hmisc
    subst hmisc
    have hothers2 : ∀ i, (p.state.eventtab i).active = false := by
      rw [hp.eventtab]
      exact hothers1
    have hnow : p.state.currcycle = s.currcycle := hp.now
    split_ifs with hm
    · -- the first event to come is at `mintime`
      have hothers3 : ∀ i, i ≠ .misc → ((Function.update p.state.eventtab .misc
          ⟨true, p.state.currcycle + p.mintime, p.state.currcycle⟩) i).active = false := by
        intro i hi
        rw [Function.update_of_ne hi]
        exact hothers2 i
      have hnext : (p.state.scheduleMisc p.mintime).nextevent =
          p.state.currcycle + p.mintime := by
        rw [State.scheduleMisc, eventsSchedule_nextevent hothers3]
        simp only [Function.update_self]
        rw [if_pos ⟨trivial, by omega⟩]
      refine ⟨⟨hp.currcycle, hp.pissoff, h.recursive.symm, hp.keeps⟩, ⟨?_, fun _ => ?_⟩⟩
      · exact ⟨hp.live.pending.nonneg, hp.live.pending.evtime⟩
      · have hmisc : (p.state.scheduleMisc p.mintime).eventtab .misc =
            ⟨true, p.state.currcycle + p.mintime, p.state.currcycle⟩ := by
          simp [State.scheduleMisc, State.eventsSchedule]
        have hpos : p.state.currcycle < p.state.currcycle + p.mintime := by
          have := hp.positive
          omega
        refine ⟨hp.dorecheck, hothers3, fun i hi => ?_, fun _ => ?_, ?_⟩
        · dsimp only at hi ⊢
          rw [hmisc, hnow]
          exact ⟨rfl, hseen i hi⟩
        · dsimp only
          rw [hmisc, hnext]
          exact ⟨hpos, Int.le_refl _⟩
        · dsimp only
          rw [hnext]
          exact hpos.le
    · -- no event is left
      have hnone : ∀ i, ¬ (p.state.eventtab2 i).active := by
        intro i hi
        have h1 := hseen i hi
        have h2 := (hp.live.pending.evtime i hi).2
        have h3 := h.pending.nonneg
        omega
      refine ⟨⟨hp.currcycle, hp.pissoff, h.recursive.symm, hp.keeps⟩, ⟨?_, fun _ => ?_⟩⟩
      · exact ⟨hp.live.pending.nonneg, hp.live.pending.evtime⟩
      · refine ⟨hp.dorecheck, fun i _ => hothers2 i, fun i hi => absurd hi (hnone i),
          fun ha => absurd ha (by simp [hothers2]), ?_⟩
        dsimp only
        rw [hp.nextevent, hnow]
        exact h.nextevent

/-- Inside itself `MISC_handler` leaves a note. -/
theorem miscHandler_recursive {n : Nat} (hr : s.recursive = true) :
    miscHandler call n s = some { s with dorecheck := true } := by
  rw [miscHandler, if_pos hr]

/-! ### Registering events -/

theorem State.lastExpiresAt_some {e l : Slot} {et : Int} (h : s.lastExpiresAt e et = some l) :
    (s.eventtab2 l).active ∧ l ≠ e ∧ et = (s.eventtab2 l).evtime := by
  unfold State.lastExpiresAt at h
  split at h
  · simp at h
  · split_ifs at h with hl
    obtain rfl := Option.some.inj h
    exact hl

/-- Filling a free slot. -/
theorem Keeps.fill {e : Slot} (h : (s.eventtab2 e).active = false) (et : Int) (data : BitVec 32)
    (func : F) : Keeps s (s.fill e et data func) := by
  refine .of_eq rfl fun i hi => ?_
  have hie : i ≠ e := by
    rintro rfl
    rw [h] at hi
    exact absurd hi (by simp)
  simp only [State.fill, Function.update_of_ne hie]
  exact ⟨hi, trivial, trivial⟩

theorem Pending.fill (h : Pending s) {e : Slot} {et : Int} (hle : s.currcycle ≤ et)
    (hlt : et < evtMax) (data : BitVec 32) (func : F) : Pending (s.fill e et data func) := by
  refine ⟨h.nonneg, fun i hi => ?_⟩
  by_cases hie : i = e
  · subst hie
    simp only [State.fill, Function.update_self]
    exact ⟨hle, hlt⟩
  · simp only [State.fill, Function.update_of_ne hie] at hi ⊢
    exact h.evtime i hi

/-- Registering an event changes slots and static variables only. -/
structure Registers (s s' : State F) : Prop extends Steady s s' where
  pending : Pending s'
  eventtab : s'.eventtab = s.eventtab
  nextevent : s'.nextevent = s.nextevent
  dorecheck : s'.dorecheck = s.dorecheck

theorem Registers.register (h : Live s) (e : Slot) {et : Int} (hle : s.currcycle ≤ et)
    (hlt : et + 1 < evtMax) (data : BitVec 32) (func : F) :
    Registers s (s.register e et data func) := by
  -- the slot is freed first
  obtain ⟨s1, hs1, hw, hfree, htab, hnext, hdo⟩ : ∃ s1,
      s1 = (if (s.eventtab2 e).active then s.retire e .replaced else s) ∧ Within s s1 ∧
        (s1.eventtab2 e).active = false ∧ s1.eventtab = s.eventtab ∧
        s1.nextevent = s.nextevent ∧ s1.dorecheck = s.dorecheck := by
    refine ⟨_, rfl, ?_⟩
    split_ifs with ha
    · exact ⟨.retire h e (by simp), by simp [State.retire], rfl, rfl, rfl⟩
    · exact ⟨.refl h, Bool.not_eq_true _ ▸ ha, rfl, rfl, rfl⟩
  rw [State.register, ← hs1]
  have hle1 : s1.currcycle ≤ et := hw.currcycle ▸ hle
  cases hlast : s1.lastExpiresAt e et with
  | none =>
    exact {
      currcycle := hw.currcycle, pissoff := hw.pissoff, recursive := hw.recursive
      keeps := hw.keeps.trans (.fill hfree et data func)
      pending := hw.live.pending.fill hle1 (by omega) data func
      eventtab := htab, nextevent := hnext, dorecheck := hdo }
  | some l =>
    have hw2 : Within s1 (s1.setNext l (some e)) := .setNext hw.live l (some e)
    have hfree2 : ((s1.setNext l (some e)).eventtab2 e).active = false :=
      (s1.setNext_slot l (some e) e).1.trans hfree
    exact {
      currcycle := hw.currcycle, pissoff := hw.pissoff, recursive := hw.recursive
      keeps := (hw.keeps.trans hw2.keeps).trans (.fill hfree2 (et + 1) data func)
      pending := hw2.live.pending.fill (show s1.currcycle ≤ et + 1 by omega) hlt data func
      eventtab := htab, nextevent := hnext, dorecheck := hdo }

/-- Outside `MISC_handler`, it may be called after an event was registered. -/
theorem Ready.of_registers {s1 : State F} (h : Live s) (hr : s.recursive = false)
    (hreg : Registers s s1) : Ready s1 := by
  have hidle := h.idle hr
  exact {
    pending := hreg.pending
    recursive := hreg.recursive.trans hr
    dorecheck := hreg.dorecheck.trans hidle.dorecheck
    others := hreg.eventtab ▸ hidle.others
    nextevent := by
      rw [hreg.currcycle, hreg.nextevent]
      exact hidle.nextevent }

/-- Registering an event and calling `MISC_handler`, inside it or outside. -/
theorem Within.registers (hcall : CallSpec call) {n : Nat} {s1 : State F} (h : Live s)
    (hreg : Registers s s1) (hmisc : miscHandler call n s1 = some s') : Within s s' := by
  cases hr : s.recursive with
  | true =>
    have hr1 : s1.recursive = true := hreg.recursive.trans hr
    rw [miscHandler_recursive hr1] at hmisc
    obtain rfl := Option.some.inj hmisc
    exact {
      currcycle := hreg.currcycle, pissoff := hreg.pissoff, recursive := hreg.recursive
      keeps := hreg.keeps
      live := ⟨⟨hreg.pending.nonneg, hreg.pending.evtime⟩,
        fun hf => absurd (hr1.symm.trans hf) (by simp)⟩
      frame := fun _ => ⟨hreg.eventtab, hreg.nextevent, fun hd => absurd hd (by simp)⟩ }
  | false =>
    obtain ⟨hsteady, hlive⟩ := miscHandler_steady hcall (.of_registers h hr hreg) hmisc
    exact ⟨hreg.toSteady.trans hsteady, hlive, fun ht => absurd (hr.symm.trans ht) (by simp)⟩

theorem Within.evict (hcall : CallSpec call) (h : Live s) (hevict : evict call s = some s') :
    Within s s' := by
  unfold Events.evict at hevict
  split at hevict
  · obtain rfl := Option.some.inj hevict
    exact .refl h
  · exact .fire hcall h (by simp) hevict

variable [DecidableEq F]

theorem Within.findSlot (hcall : CallSpec call) {et : Int} {data : BitVec 32} {func : F} {n : Nat} :
    ∀ {no no' : Slot} {s s' : State F}, Live s →
      findSlot call et data func n no s = some (no', s') → Within s s' := by
  induction n with
  | zero => exact fun _ h => absurd h (by simp [Events.findSlot])
  | succ n ih =>
    intro no no' s s' h hfind
    rw [Events.findSlot] at hfind
    split_ifs at hfind with hfree hround
    · obtain ⟨-, rfl⟩ := Prod.mk.inj (Option.some.inj hfind)
      exact .refl h
    · cases hevict : Events.evict call s with
      | none => simp [hevict] at hfind
      | some s1 =>
        have hw : Within s s1 := .evict hcall h hevict
        exact hw.trans (ih hw.live (by simpa [hevict] using hfind))
    · exact ih h hfind

/-- The delays that are meant to occur: not negative, and not reaching `EVT_MAX`. -/
def Call.Ok (ct : Int) : Call F → Prop
  | .newevent _ t _ _ => 0 ≤ t ∧ t + ct + 1 < evtMax
  | .replace t _ _ => t * cycleUnit + ct + 1 < evtMax
  | .remove _ => True
  | .remevent _ => True

theorem Within.newevent (hcall : CallSpec call) {n : Nat} {no : Option Slot} {t : Int}
    {data : BitVec 32} {func : F} (h : Live s) (ht : 0 ≤ t) (hmax : t + s.currcycle + 1 < evtMax)
    (hnew : newevent call n no t data func s = some s') : Within s s' := by
  unfold Events.newevent at hnew
  dsimp only at hnew
  split at hnew
  · exact .registers hcall h (.register h _ (by omega) hmax data func) hnew
  · cases hfind : Events.findSlot call (t + s.currcycle) data func n s.next s with
    | none => simp [hfind] at hnew
    | some x =>
      obtain ⟨no, s1⟩ := x
      have hw : Within s s1 := .findSlot hcall h hfind
      have hw1 : Within s1 { s1 with next := no } := {
        currcycle := rfl, pissoff := rfl, recursive := rfl
        keeps := .of_eq rfl fun _ hi => ⟨hi, rfl, rfl⟩
        live := hw.live.of_removes rfl rfl rfl rfl rfl fun _ hi => ⟨hi, rfl⟩
        frame := fun _ => ⟨rfl, rfl, fun hd => ⟨hd, fun _ hi => ⟨hi, rfl⟩⟩⟩ }
      have hcyc : ({ s1 with next := no } : State F).currcycle = s.currcycle := hw.currcycle
      simp only [hfind, bind, Option.bind] at hnew
      have hw2 := hw.trans hw1
      refine hw2.trans (.registers hcall hw2.live (.register hw2.live no ?_ hmax data func) hnew)
      rw [hcyc]
      omega

omit [DecidableEq F] in
theorem Within.remevent (h : Live s) (no : Slot) : Within s (s.remevent no) := by
  unfold State.remevent
  split_ifs
  · exact .retire h no (by simp)
  · exact .refl h

theorem Within.removeAll (h : Live s) (func : F) : Within s (s.removeAll func) := by
  unfold State.removeAll
  generalize slots = l
  induction l generalizing s with
  | nil => exact .refl h
  | cons i l ih =>
    rw [List.foldl_cons]
    split_ifs
    · have hw : Within s (s.retire i .removed) := .retire h i (by simp)
      exact hw.trans (ih hw.live)
    · exact ih h

theorem Within.exec (hcall : CallSpec call) {n : Nat} {c : Call F} (h : Live s)
    (hok : c.Ok s.currcycle) (hexec : exec call n c s = some s') : Within s s' := by
  cases c with
  | newevent no t data func => exact .newevent hcall h hok.1 hok.2 hexec
  | replace t data func =>
    have hw : Within s (s.removeAll func) := .removeAll h func
    simp only [Events.exec, replace] at hexec
    split_ifs at hexec with ht
    · exact hw.trans (hcall _ _ _ _ hw.live hexec)
    · have hpos : 0 ≤ t * cycleUnit := Int.mul_nonneg (by omega) (by decide)
      exact hw.trans (.newevent hcall hw.live hpos (hw.currcycle ▸ hok) hexec)
  | remove func =>
    obtain rfl := Option.some.inj hexec
    exact .removeAll h func
  | remevent no =>
    obtain rfl := Option.some.inj hexec
    exact .remevent h no

end Calls

/-! ### Handlers -/

/-- A program whose delays are all meant to occur. -/
def Prog.Ok (ct : Int) : Prog F → Prop
  | .done => True
  | .call c rest => c.Ok ct ∧ ∀ s : State F, s.currcycle = ct → (rest s).Ok ct

variable [DecidableEq F]

theorem Within.runProg {call : CallFunc F} (hcall : CallSpec call) {n : Nat} {p : Prog F} :
    ∀ {s s' : State F}, Live s → p.Ok s.currcycle → runProg call n p s = some s' →
      Within s s' := by
  induction p with
  | done =>
    intro s s' h _ hrun
    obtain rfl : s = s' := Option.some.inj hrun
    exact .refl h
  | call c rest ih =>
    intro s s' h hok hrun
    rw [Events.runProg] at hrun
    cases hexec : Events.exec call n c s with
    | none => simp [hexec] at hrun
    | some s1 =>
      have hw : Within s s1 := .exec hcall h hok.1 hexec
      have hrest : (rest s1).Ok s1.currcycle := hw.currcycle.symm ▸ hok.2 s1 hw.currcycle
      exact hw.trans (ih s1 hw.live hrest (by simpa [hexec] using hrun))

/-- Handlers keep the invariant, to any depth. -/
theorem callFunc_spec {bodies : Bodies F}
    (hbodies : ∀ func data s, (bodies func data s).Ok s.currcycle) (n : Nat) :
    CallSpec (callFunc bodies n) := by
  induction n with
  | zero => exact fun _ _ _ _ _ h => absurd h (by simp [callFunc])
  | succ n ih => exact fun func data s s' h hrun => .runProg ih h (hbodies func data s) hrun

/-! ### Time passing -/

section Cycles

variable {call : CallFunc F} {n : Nat}

omit [DecidableEq F]

theorem runEv_inactive {i : EvId} (h : (s.eventtab i).active = false) :
    runEv call n i s = some s := by
  unfold runEv
  rw [if_neg (by simp [h])]

/-- The entries of `eventtab` at the time of the next event: `MISC_handler` runs if it is due. -/
theorem runEvs_steady (hcall : CallSpec call) (h : Ready s)
    (hmisc : ∀ i, (s.eventtab2 i).active →
      (s.eventtab .misc).active ∧ (s.eventtab .misc).evtime ≤ (s.eventtab2 i).evtime)
    (hahead : (s.eventtab .misc).active →
      s.currcycle ≤ (s.eventtab .misc).evtime ∧ s.nextevent ≤ (s.eventtab .misc).evtime)
    (hrun : runEvs call n EvId.all s = some s') : Steady s s' ∧ Live s' := by
  simp only [EvId.all, runEvs, runEv_inactive (h.others .cia (by decide)),
    runEv_inactive (h.others .hsync (by decide)), runEv_inactive (h.others .hsynch (by decide)),
    bind, Option.bind] at hrun
  -- `ev_misc`, and then `ev_audio` in the state it leaves
  have hlast : ∀ {s1 : State F}, Steady s s1 ∧ Live s1 →
      runEv call n .audio s1 = some s' → Steady s s' ∧ Live s' := by
    intro s1 h1 haudio
    have hidle := h1.2.idle (h1.1.recursive.trans h.recursive)
    rw [runEv_inactive (hidle.others .audio (by decide))] at haudio
    obtain rfl := Option.some.inj haudio
    exact h1
  rw [runEv] at hrun
  split_ifs at hrun with hdue
  · cases hm : miscHandler call n s with
    | none => simp [hm] at hrun
    | some s1 =>
      refine hlast (miscHandler_steady hcall h hm) ?_
      cases haudio : runEv call n .audio s1 with
      | none => simp [hm, haudio] at hrun
      | some s2 => simpa [hm, haudio] using hrun
  · have hlive : Live s := by
      refine ⟨h.pending, fun _ => ?_⟩
      refine ⟨h.dorecheck, h.others, hmisc, fun ha => ?_, h.nextevent⟩
      obtain ⟨h1, h2⟩ := hahead ha
      have hne : ¬ (s.eventtab .misc).evtime = s.currcycle := fun heq => hdue ⟨ha, heq⟩
      exact ⟨by omega, h2⟩
    refine hlast ⟨.refl s, hlive⟩ ?_
    cases haudio : runEv call n .audio s with
    | none => simp [haudio] at hrun
    | some s2 => simpa [haudio] using hrun

theorem Live.eventsSchedule (h : Live s) (hr : s.recursive = false) (hmax : s.currcycle < evtMax) :
    Live s.eventsSchedule := by
  have hidle := h.idle hr
  have hnext := eventsSchedule_nextevent hidle.others
  have hnonneg := h.pending.nonneg
  refine ⟨⟨hnonneg, h.pending.evtime⟩, fun _ => ⟨hidle.dorecheck, hidle.others, hidle.misc, ?_, ?_⟩⟩
  · intro ha
    have ha' : (s.eventtab .misc).active = true := ha
    obtain ⟨h1, -⟩ := hidle.ahead ha'
    refine ⟨h1, ?_⟩
    rw [hnext]
    change _ ≤ (s.eventtab .misc).evtime
    split_ifs with hlt
    · exact Int.le_refl _
    · have : ¬ (s.eventtab .misc).evtime - s.currcycle < evtMax := fun hf => hlt ⟨ha', hf⟩
      omega
  · rw [hnext]
    change s.currcycle ≤ _
    split_ifs with hlt
    · exact (hidle.ahead hlt.1).1.le
    · exact hmax.le

/-- The clock is set to the next event, which passes none. -/
theorem Live.readyNext (h : Live s) (hr : s.recursive = false) :
    Ready { s with currcycle := s.nextevent } := by
  have hidle := h.idle hr
  have hle := hidle.nextevent
  refine ⟨⟨h.pending.nonneg.trans hle, fun i hi => ⟨?_, (h.pending.evtime i hi).2⟩⟩, hr,
    hidle.dorecheck, hidle.others, Int.le_refl _⟩
  obtain ⟨ha, hmisc⟩ := hidle.misc i hi
  exact (hidle.ahead ha).2.trans hmisc

/-- One turn of the loop. -/
theorem runEvs_next (hcall : CallSpec call) (h : Live s) (hr : s.recursive = false)
    (hmax : s.nextevent < evtMax)
    (hrun : runEvs call n EvId.all { s with currcycle := s.nextevent } = some s') :
    Steady { s with currcycle := s.nextevent } s' ∧ Live s'.eventsSchedule := by
  have hidle := h.idle hr
  obtain ⟨hsteady, hlive⟩ := runEvs_steady hcall (h.readyNext hr) hidle.misc
    (fun ha => ⟨(hidle.ahead ha).2, (hidle.ahead ha).2⟩) hrun
  have hcyc : s'.currcycle = s.nextevent := hsteady.currcycle
  exact ⟨hsteady, hlive.eventsSchedule (hsteady.recursive.trans hr) (hcyc ▸ hmax)⟩

/-- Time passes up to the given cycle, and through every event on the way. -/
theorem advance_live (hcall : CallSpec call) {k : Nat} :
    ∀ {cycles : Int} {s s' : State F}, Live s → s.recursive = false → 0 ≤ cycles →
      s.currcycle + cycles < evtMax → advance call n k cycles s = some s' →
      Live s' ∧ s'.recursive = false ∧ s'.pissoff = s.pissoff ∧
        s'.currcycle = s.currcycle + cycles ∧ Keeps s s' := by
  induction k with
  | zero => exact fun _ _ _ _ h => absurd h (by simp [advance])
  | succ k ih =>
    intro cycles s s' h hr hpos hmax hadv
    have hidle := h.idle hr
    have hnonneg := h.pending.nonneg
    rw [advance] at hadv
    split_ifs at hadv with hdue
    · cases hrun : runEvs call n EvId.all { s with currcycle := s.nextevent } with
      | none => simp [hrun] at hadv
      | some s1 =>
        have hle := hidle.nextevent
        obtain ⟨hsteady, hlive⟩ := runEvs_next hcall h hr (by omega) hrun
        have hr1 : s1.recursive = false := hsteady.recursive.trans hr
        have hcyc1 : s1.currcycle = s.nextevent := hsteady.currcycle
        simp only [hrun, bind, Option.bind] at hadv
        obtain ⟨hlive', hr', hpis', hcyc', hkeeps'⟩ := ih hlive hr1 (by omega)
          (show s1.currcycle + _ < evtMax by omega) hadv
        have hkeeps : Keeps s s1 := hsteady.keeps
        refine ⟨hlive', hr', hpis'.trans hsteady.pissoff, ?_, hkeeps.trans hkeeps'⟩
        rw [hcyc']
        change s1.currcycle + _ = _
        omega
    · -- no event is due any more
      obtain rfl := Option.some.inj hadv
      have hahead : (s.eventtab .misc).active →
          s.currcycle + cycles < (s.eventtab .misc).evtime := by
        intro ha
        have := (hidle.ahead ha).2
        omega
      refine ⟨⟨⟨show 0 ≤ s.currcycle + cycles by omega, fun i hi => ?_⟩, fun _ => ?_⟩, hr, rfl, rfl,
        .refl s⟩
      · obtain ⟨ha, hle⟩ := hidle.misc i hi
        exact ⟨((hahead ha).trans_le hle).le, (h.pending.evtime i hi).2⟩
      · exact {
          dorecheck := hidle.dorecheck
          others := hidle.others
          misc := hidle.misc
          ahead := fun ha => ⟨hahead ha, (hidle.ahead ha).2⟩
          nextevent := show s.currcycle + cycles ≤ s.nextevent by omega }

end Cycles

/-! ### Runs -/

/-- What is promised of a top-level call: delays and times that stay below `EVT_MAX`. -/
def Op.Ok (s : State F) : Op F → Prop
  | .call c => c.Ok s.currcycle
  | .cycles n => 0 ≤ n ∧ s.currcycle + n < evtMax

/-- The queue as a machine: its inputs are top-level calls that return, with the depth to
which they are followed. -/
def queue (bodies : Bodies F) (cpuThread : Bool) : Machine (State F) (Op F × Nat) Unit where
  legal s i := i.1.Ok s ∧ (topLevel bodies cpuThread i.2 i.1 s).isSome
  step s i :=
    match topLevel bodies cpuThread i.2 i.1 s with
    | some s' => .ok s'
    | none => .error ()

/-- `clear_events` and `event_init`, at a time and with leftovers in the tables. -/
def start (s : State F) : State F := s.clearEvents.eventInit

/-- Static variables as at the start of the program. -/
structure Fresh (s : State F) : Prop where
  currcycle : 0 ≤ s.currcycle ∧ s.currcycle < evtMax
  pissoff : 0 ≤ s.pissoff
  recursive : s.recursive = false
  dorecheck : s.dorecheck = false

/-- The schedule is right: `ev_misc` is due no later than any event and not in the past, and
`nextevent` is no later than any entry of `eventtab`. -/
structure Scheduled (s : State F) : Prop where
  misc : ∀ i, (s.eventtab2 i).active → (s.eventtab .misc).active ∧
    s.currcycle ≤ (s.eventtab .misc).evtime ∧
    (s.eventtab .misc).evtime ≤ (s.eventtab2 i).evtime
  nextevent : ∀ k, (s.eventtab k).active → s.nextevent ≤ (s.eventtab k).evtime

/-- The invariant between top-level calls. -/
structure AtRest (s : State F) : Prop where
  live : Live s
  recursive : s.recursive = false
  pissoff : 0 ≤ s.pissoff

omit [DecidableEq F] in
theorem AtRest.scheduled (h : AtRest s) : Scheduled s := by
  have hidle := h.live.idle h.recursive
  refine ⟨fun i hi => ?_, fun k hk => ?_⟩
  · obtain ⟨ha, hle⟩ := hidle.misc i hi
    exact ⟨ha, (hidle.ahead ha).1.le, hle⟩
  · by_cases hk' : k = .misc
    · subst hk'
      exact (hidle.ahead hk).2
    · exact absurd hk (by simp [hidle.others k hk'])

omit [DecidableEq F] in
theorem Fresh.atRest (h : Fresh s) : AtRest (start s) where
  live := by
    refine ⟨⟨h.currcycle.1, fun i hi => absurd hi (by simp [start, State.eventInit,
      State.clearEvents])⟩, fun _ => ?_⟩
    exact {
      dorecheck := h.dorecheck
      others := fun _ _ => rfl
      misc := fun i hi => absurd hi (by simp [start, State.eventInit, State.clearEvents])
      ahead := fun hi => absurd hi (by simp [start, State.eventInit, State.clearEvents])
      nextevent := h.currcycle.2.le }
  recursive := h.recursive
  pissoff := h.pissoff

omit [DecidableEq F] in
/-- `pissoff` is of no account to the schedule. -/
theorem Live.setPissoff (h : Live s) (v : Int) : Live { s with pissoff := v } :=
  h.of_removes rfl rfl rfl rfl rfl fun _ hi => ⟨hi, rfl⟩

/-- A top-level call: time does not go back, and no event is lost. -/
theorem AtRest.topLevel {bodies : Bodies F} {cpuThread : Bool} {n : Nat} {op : Op F}
    (hbodies : ∀ func data s, (bodies func data s).Ok s.currcycle) (h : AtRest s) (hok : op.Ok s)
    (htop : topLevel bodies cpuThread n op s = some s') :
    AtRest s' ∧ s.currcycle ≤ s'.currcycle ∧ Keeps s s' := by
  have hcall := callFunc_spec hbodies n
  cases op with
  | call c =>
    have hw : Within s s' := .exec hcall h.live hok htop
    exact ⟨⟨hw.live, hw.recursive.trans h.recursive, hw.pissoff.symm ▸ h.pissoff⟩,
      hw.currcycle.ge, hw.keeps⟩
  | cycles cycles =>
    obtain ⟨hpos, hmax⟩ := hok
    have hpis := h.pissoff
    simp only [Events.topLevel, doCyclesSlow] at htop
    have hset : ∀ v, Live { s with pissoff := v } := fun v => h.live.setPissoff v
    have hkeep : ∀ v, Keeps s { s with pissoff := v } := fun v =>
      .of_eq rfl fun _ hi => ⟨hi, rfl, rfl⟩
    split_ifs at htop with hthread hidle
    · obtain ⟨hlive, hr, hp, hcyc, hk⟩ := advance_live hcall (hset 0x40000000) h.recursive hpos hmax htop
      exact ⟨⟨hlive, hr, hp.symm ▸ show (0 : Int) ≤ 0x40000000 by decide⟩,
        show s.currcycle ≤ _ by rw [hcyc]; exact show s.currcycle ≤ s.currcycle + cycles by omega,
        (hkeep _).trans hk⟩
    · obtain rfl := Option.some.inj htop
      exact ⟨⟨hset _, h.recursive, hidle⟩, Int.le_refl _, hkeep _⟩
    · have hpos' : 0 ≤ cycles - s.pissoff := by omega
      have hmax' : s.currcycle + (cycles - s.pissoff) < evtMax := by omega
      obtain ⟨hlive, hr, hp, hcyc, hk⟩ :=
        advance_live hcall (hset 0) h.recursive hpos' hmax' htop
      exact ⟨⟨hlive, hr, hp.symm ▸ Int.le_refl _⟩,
        show s.currcycle ≤ _ by
          rw [hcyc]
          exact show s.currcycle ≤ s.currcycle + (cycles - s.pissoff) by omega,
        (hkeep _).trans hk⟩

theorem AtRest.of_reachable {bodies : Bodies F} {cpuThread : Bool}
    (hbodies : ∀ func data s, (bodies func data s).Ok s.currcycle) {s₀ : State F} (h₀ : Fresh s₀)
    (h : (queue bodies cpuThread).Reachable (start s₀) s) : AtRest s := by
  have hinv : (queue bodies cpuThread).Invariant AtRest := by
    intro s i hs hlegal
    obtain ⟨hok, hret⟩ := hlegal
    obtain ⟨s', hs'⟩ := Option.isSome_iff_exists.mp hret
    exact ⟨s', by simp only [queue, hs'], (hs.topLevel hbodies hok hs').1⟩
  exact hinv.reachable h h₀.atRest

/-- The queue never misses an event: after every top-level call of every run the schedule
is right, and from one to the next `currcycle` does not decrease and passes no event that has
not been settled, which the scan of `MISC_handler` does at its time and nothing does
later. -/
theorem queue_never_misses (bodies : Bodies F) (cpuThread : Bool)
    (hbodies : ∀ func data s, (bodies func data s).Ok s.currcycle) {s₀ : State F} (h₀ : Fresh s₀)
    (h : (queue bodies cpuThread).Reachable (start s₀) s) :
    Scheduled s ∧ ∀ op n s', op.Ok s → topLevel bodies cpuThread n op s = some s' →
      Scheduled s' ∧ s.currcycle ≤ s'.currcycle ∧ ∃ l, s'.log = l ++ s.log ∧
        ∀ i, (s.eventtab2 i).active → (s.eventtab2 i).evtime ≤ s'.currcycle →
          Settled l (s.eventtab2 i) := by
  have hrest := AtRest.of_reachable hbodies h₀ h
  refine ⟨hrest.scheduled, fun op n s' hok htop => ?_⟩
  obtain ⟨hrest', hcyc, l, hlog, hslot⟩ := hrest.topLevel hbodies hok htop
  refine ⟨hrest'.scheduled, hcyc, l, hlog, fun i hi hpast => ?_⟩
  rcases hslot i hi with ⟨ha, -, het⟩ | hset
  · -- an event that is still there is in the future
    have hidle := hrest'.live.idle hrest'.recursive
    obtain ⟨hmisc, hle⟩ := hidle.misc i ha
    have := (hidle.ahead hmisc).1
    omega
  · exact hset

/-- A program's first state: empty tables, time 0. -/
def initial : State Nat where
  currcycle := 0
  nextevent := 0
  pissoff := 0
  eventtab _ := ⟨false, 0, 0⟩
  eventtab2 _ := ⟨false, 0, 0, 0, none, 0⟩
  lastEvent2 := none
  next := ev2Misc
  dorecheck := false
  recursive := false
  serial := 0
  log := []

/-- An event at `EVT_MAX`, registered at time 0, is never scheduled. -/
theorem not_scheduled_evtMax : ∃ s,
    topLevel (fun _ _ _ => .done) false 20 (.call (.newevent none evtMax 0 0)) (start initial) =
      some s ∧ ¬ Scheduled s := by
  refine ⟨_, rfl, fun h => ?_⟩
  exact absurd (h.misc ev2Misc rfl).1 (by decide)

end LibretroUae.Events
