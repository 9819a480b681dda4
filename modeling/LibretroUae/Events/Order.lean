import LibretroUae.Events.Schedule

/-!
# LibretroUae.Events.Order

The order of two events that are registered one after the other for the same time, when
handlers leave the queue alone.

With such handlers everything the queue does is a sequence of small changes to its
slots: an event leaves its slot, a `next` pointer is set, a free slot is filled. A property
that these keep holds in every run (`Kept.topLevel`). The property here is where the two
events are (`Phase`): both waiting, the second one chained to the first; the first one
run and the second one waiting; both run in order; or one of them dropped.
-/

namespace LibretroUae.Events

open LibretroUae.Lib

variable {F : Type} {s s' : State F}

/-! ### Small changes -/

/-- A property that running events keeps. -/
structure KeptByRuns (P : State F → Prop) : Prop where
  due : ∀ {s : State F} {i : Slot}, Pending s → P s → (s.eventtab2 i).active →
    (s.eventtab2 i).evtime = s.currcycle → P (s.retire i .due)
  chained : ∀ {s : State F} {i j : Slot}, P s → (s.eventtab2 i).active = false →
    (s.eventtab2 i).next = some j → (s.eventtab2 j).active →
    (s.eventtab2 j).evtime = s.currcycle + 1 → P ((s.setNext i none).retire j .chained)
  unchain : ∀ {s : State F} {i : Slot}, P s → P (s.setNext i none)
  vars : ∀ {s s' : State F}, P s → s'.eventtab2 = s.eventtab2 → s'.lastEvent2 = s.lastEvent2 →
    s'.log = s.log → s'.serial = s.serial → s.currcycle ≤ s'.currcycle →
    (s.next ≠ ev2Blitter → s'.next ≠ ev2Blitter) → P s'

/-- A property of slots and log that every change keeps. -/
structure Kept (P : State F → Prop) : Prop extends KeptByRuns P where
  dropped : ∀ {s : State F} {i : Slot} {how : How}, P s → (s.eventtab2 i).active →
    how = .removed ∨ how = .replaced → P (s.retire i how)
  link : ∀ {s : State F} {l e : Slot}, P s → (s.eventtab2 e).active = false →
    P (s.setNext l (some e))
  fill : ∀ {s : State F} {e : Slot} {et : Int} {data : BitVec 32} {func : F}, P s →
    (s.eventtab2 e).active = false → P (s.fill e et data func)

/-- Calls of handlers that leave the queue alone. -/
def Inert (call : CallFunc F) : Prop := ∀ func data s s', call func data s = some s' → s' = s

theorem Inert.callSpec {call : CallFunc F} (h : Inert call) : CallSpec call := by
  intro func data s s' hlive hcall
  obtain rfl := h func data s s' hcall
  exact .refl hlive

/-- Handlers that neither register nor remove events. -/
def inertBodies : Bodies F := fun _ _ _ => .done

theorem inertBodies_ok (func : F) (data : BitVec 32) (s : State F) :
    (inertBodies func data s).Ok s.currcycle := trivial

theorem inert_done [DecidableEq F] (n : Nat) : Inert (callFunc (inertBodies : Bodies F) n) := by
  intro func data s s' h
  cases n with
  | zero => simp [callFunc] at h
  | succ n => exact (Option.some.inj h).symm

section Kept

variable {P : State F → Prop} {call : CallFunc F}

theorem KeptByRuns.chain (hP : KeptByRuns P) (hcall : Inert call) {i : Slot} (h : P s)
    (hi : (s.eventtab2 i).active = false) (het : (s.eventtab2 i).evtime = s.currcycle)
    (hchain : chain call i s = some s') : P s' := by
  unfold Events.chain at hchain
  split at hchain
  · obtain rfl := Option.some.inj hchain
    exact h
  · rename_i j hnext
    obtain ⟨hactive, htime, -⟩ := s.setNext_slot i none j
    obtain ⟨-, htime', -⟩ := s.setNext_slot i none i
    dsimp only at hchain
    rw [hactive, htime, htime', het] at hchain
    split_ifs at hchain with hj
    · obtain rfl := hcall _ _ _ _ hchain
      exact hP.chained h hi hnext hj.1 hj.2
    · obtain rfl := Option.some.inj hchain
      exact hP.unchain h

theorem KeptByRuns.visit (hP : KeptByRuns P) (hcall : Inert call) {ct : Int} {i : Slot} {p p' : Pass F}
    (hlive : Live p.state) (hnow : p.state.currcycle = ct) (h : P p.state)
    (hvisit : visit call ct i p = some p') : P p'.state := by
  unfold Events.visit at hvisit
  split_ifs at hvisit with hactive hdue
  · cases hfire : fire call .due i p.state with
    | none => simp [hfire] at hvisit
    | some s1 =>
      obtain rfl := hcall _ _ _ _ hfire
      have h1 : P (p.state.retire i .due) :=
        hP.due hlive.pending h hactive (hdue.trans hnow.symm)
      have hfree : ((p.state.retire i .due).eventtab2 i).active = false := by
        simp [State.retire]
      have htime : ((p.state.retire i .due).eventtab2 i).evtime =
          (p.state.retire i .due).currcycle := by
        simpa [State.retire] using hdue.trans hnow.symm
      cases hchain : Events.chain call i (p.state.retire i .due) with
      | none => simp [hfire, hchain] at hvisit
      | some s2 =>
        have h2 : P s2 := hP.chain hcall h1 hfree htime hchain
        simp only [hfire, hchain, bind, Option.bind, pure] at hvisit
        split_ifs at hvisit
        · obtain rfl := Option.some.inj hvisit
          exact hP.vars h2 rfl rfl rfl rfl (Int.le_refl _) id
        · obtain rfl := Option.some.inj hvisit
          exact h2
  · obtain rfl := Option.some.inj hvisit
    exact h
  · obtain rfl := Option.some.inj hvisit
    exact h

theorem KeptByRuns.scan (hP : KeptByRuns P) (hcall : Inert call) {ct : Int} {is : List Slot} :
    ∀ {seen : List Slot} {p p' : Pass F}, Scanned ct seen s p → P p.state →
      scan call ct is p = some p' → P p'.state := by
  induction is with
  | nil =>
    intro seen p p' _ h hscan
    obtain rfl := Option.some.inj hscan
    exact h
  | cons i is ih =>
    intro seen p p' hp h hscan
    rw [Events.scan] at hscan
    cases hvisit : Events.visit call ct i p with
    | none => simp [hvisit] at hscan
    | some p1 =>
      exact ih (hp.visit hcall.callSpec hvisit) (hP.visit hcall hp.live hp.now h hvisit)
        (by simpa [hvisit] using hscan)

theorem KeptByRuns.rescan (hP : KeptByRuns P) (hcall : Inert call) {ct m : Int} {n : Nat} :
    ∀ {s s' : State F}, Live s → s.recursive = true → s.dorecheck = false → s.currcycle = ct →
      P s → rescan call ct n s = some (s', m) → P s' := by
  induction n with
  | zero => exact fun _ _ _ _ _ h => absurd h (by simp [Events.rescan])
  | succ n ih =>
    intro s s' hlive hrun hdo hnow h hrescan
    have hstart := Scanned.start hlive hrun hdo hnow
    rw [Events.rescan] at hrescan
    cases hscan : Events.scan call ct slots ⟨s, evtMax, false⟩ with
    | none => simp [hscan] at hrescan
    | some p =>
      have hp : Scanned ct slots s p := hstart.scan hcall.callSpec hscan
      have hPp : P p.state := hP.scan hcall hstart h hscan
      simp only [hscan, bind, Option.bind, pure] at hrescan
      split_ifs at hrescan
      · exact ih hp.live hp.running hp.dorecheck hp.now hPp hrescan
      · obtain ⟨rfl, -⟩ := Prod.mk.inj (Option.some.inj hrescan)
        exact hPp

theorem KeptByRuns.miscHandler (hP : KeptByRuns P) (hcall : Inert call) {n : Nat} (hready : Ready s) (h : P s)
    (hmisc : miscHandler call n s = some s') : P s' := by
  have hlive := hready.enterMisc
  have h1 : P s.enterMisc := hP.vars h rfl rfl rfl rfl (Int.le_refl _) id
  rw [Events.miscHandler, hready.recursive] at hmisc
  simp only [Bool.false_eq_true, if_false] at hmisc
  cases hres : Events.rescan call s.currcycle n s.enterMisc with
  | none => simp [hres] at hmisc
  | some x =>
    obtain ⟨s2, m⟩ := x
    have h2 : P s2 := hP.rescan hcall hlive rfl hready.dorecheck rfl h1 hres
    simp only [hres, bind, Option.bind, pure, Option.some.injEq] at hmisc
    subst hmisc
    split_ifs
    · exact hP.vars h2 rfl rfl rfl rfl (Int.le_refl _) id
    · exact hP.vars h2 rfl rfl rfl rfl (Int.le_refl _) id

theorem Kept.register (hP : Kept P) (e : Slot) (et : Int) (data : BitVec 32) (func : F) (h : P s) :
    P (s.register e et data func) := by
  obtain ⟨s1, hs1, h1, hfree⟩ : ∃ s1,
      s1 = (if (s.eventtab2 e).active then s.retire e .replaced else s) ∧ P s1 ∧
        (s1.eventtab2 e).active = false := by
    refine ⟨_, rfl, ?_⟩
    split_ifs with ha
    · exact ⟨hP.dropped h ha (Or.inr rfl), by simp [State.retire]⟩
    · exact ⟨h, Bool.not_eq_true _ ▸ ha⟩
  rw [State.register, ← hs1]
  cases s1.lastExpiresAt e et with
  | none => exact hP.fill h1 hfree
  | some l => exact hP.fill (hP.link h1 hfree) ((s1.setNext_slot l (some e) e).1.trans hfree)

theorem Kept.next : Kept fun s : State F => s.next ≠ ev2Blitter where
  due _ h _ _ := h
  chained h _ _ _ _ := h
  unchain h := h
  dropped h _ _ := h
  link h _ := h
  fill h _ := h
  vars h _ _ _ _ _ hnext := hnext h

/-! ### Slots that are not exhausted -/

/-- A free slot is met before the search has come round. -/
theorem exists_succSlot {next f : Slot} (hnext : next ≠ ev2Blitter) (hf : f ≠ ev2Blitter) :
    ∃ k < 11, succSlot^[k] next = f ∧ ∀ j < k, succSlot^[j + 1] next ≠ next := by
  have hall : ∀ next f : Slot, next ≠ ev2Blitter → f ≠ ev2Blitter →
      ∃ k < 11, succSlot^[k] next = f ∧ ∀ j < k, succSlot^[j + 1] next ≠ next := by
    decide
  exact hall next f hnext hf

theorem succSlot_ne (no : Slot) : succSlot no ≠ ev2Blitter := by
  have hall : ∀ no : Slot, succSlot no ≠ ev2Blitter := by decide
  exact hall no

/-- Whether a slot is free for an event, or holds it already. -/
def Fits (s : State F) (et : Int) (func : F) (no : Slot) : Prop :=
  ¬ (s.eventtab2 no).active ∨
    ((s.eventtab2 no).evtime = et ∧ (s.eventtab2 no).handler = func)

variable [DecidableEq F]

/-- The search for a slot, as long as it does not come round. -/
def searchSlot (s : State F) (et : Int) (data : BitVec 32) (func : F) : Nat → Slot → Slot
  | 0, no => no
  | n + 1, no =>
    if ¬ (s.eventtab2 no).active ∨ ((s.eventtab2 no).evtime = et ∧
        (s.eventtab2 no).handler = func ∧ (s.eventtab2 no).data = data) then no
    else searchSlot s et data func n (succSlot no)

/-- The slot that an event is given if there is one to hand out. -/
def slotFor (s : State F) (et : Int) (data : BitVec 32) (func : F) : Slot :=
  searchSlot s et data func 12 s.next

/-- With a slot ahead that is free, or holds this very event, the search changes nothing. -/
theorem findSlot_free {et : Int} {data : BitVec 32} {func : F} {f : Slot}
    (hf : ¬ (s.eventtab2 f).active ∨ ((s.eventtab2 f).evtime = et ∧
      (s.eventtab2 f).handler = func ∧ (s.eventtab2 f).data = data)) {k : Nat} :
    ∀ {l n : Nat} {no no' : Slot}, k < l → succSlot^[k] no = f →
      (∀ j < k, succSlot^[j + 1] no ≠ s.next) → no ≠ ev2Blitter →
      findSlot call et data func n no s = some (no', s') →
      s' = s ∧ no' = searchSlot s et data func l no ∧ no' ≠ ev2Blitter ∧ Fits s et func no' := by
  induction k with
  | zero =>
    intro l n no no' hl hk _ hno hfind
    obtain rfl : no = f := hk
    obtain ⟨l, rfl⟩ : ∃ l', l = l' + 1 := ⟨l - 1, by omega⟩
    cases n with
    | zero => simp [findSlot] at hfind
    | succ n =>
      rw [findSlot, if_pos hf] at hfind
      obtain ⟨rfl, rfl⟩ := Prod.mk.inj (Option.some.inj hfind)
      exact ⟨rfl, by rw [searchSlot, if_pos hf], hno, hf.imp_right fun h => ⟨h.1, h.2.1⟩⟩
  | succ k ih =>
    intro l n no no' hl hk hround hno hfind
    obtain ⟨l, rfl⟩ : ∃ l', l = l' + 1 := ⟨l - 1, by omega⟩
    cases n with
    | zero => simp [findSlot] at hfind
    | succ n =>
      have hnext : ¬ succSlot no = s.next := hround 0 (Nat.succ_pos k)
      rw [findSlot] at hfind
      rw [searchSlot]
      split_ifs at hfind with hfits
      · obtain ⟨rfl, rfl⟩ := Prod.mk.inj (Option.some.inj hfind)
        exact ⟨rfl, by rw [if_pos hfits], hno, hfits.imp_right fun h => ⟨h.1, h.2.1⟩⟩
      · rw [if_neg hfits]
        exact ih (by omega) hk (fun j hj => hround (j + 1) (by omega)) (succSlot_ne no) hfind

/-- There is a slot to hand out. -/
def Room (s : State F) : Prop := ∃ f, f ≠ ev2Blitter ∧ ¬ (s.eventtab2 f).active

theorem findSlot_room {et : Int} {data : BitVec 32} {func : F} {n : Nat} {no' : Slot}
    (hroom : Room s) (hnext : s.next ≠ ev2Blitter)
    (hfind : findSlot call et data func n s.next s = some (no', s')) :
    s' = s ∧ no' = slotFor s et data func ∧ no' ≠ ev2Blitter ∧ Fits s et func no' := by
  obtain ⟨f, hf, hfree⟩ := hroom
  obtain ⟨k, hlt, hk, hround⟩ := exists_succSlot hnext hf
  exact findSlot_free (.inl hfree) (by omega) hk hround hnext hfind

theorem removeAll_eventtab2 (s : State F) (func : F) (i : Slot) :
    ((s.removeAll func).eventtab2 i).active → (s.eventtab2 i).active := by
  unfold State.removeAll
  generalize slots = l
  induction l generalizing s with
  | nil => exact id
  | cons j l ih =>
    rw [List.foldl_cons]
    intro h
    split_ifs at h
    · exact (State.retire_active (ih _ h)).1
    · exact ih _ h

/-! ### Top-level calls -/

theorem Kept.removeAll (hP : Kept P) (func : F) (h : P s) : P (s.removeAll func) := by
  unfold State.removeAll
  generalize slots = l
  induction l generalizing s with
  | nil => exact h
  | cons i l ih =>
    rw [List.foldl_cons]
    split_ifs with hi
    · exact ih (hP.dropped h hi.1 (Or.inl rfl))
    · exact ih h

/-- What is promised of the call that registers an event. -/
def Op.Roomy (s : State F) : Op F → Prop
  | .call (.newevent none _ _ _) => Room s
  | .call (.replace _ _ _) => Room s
  | _ => True

/-- Registering an event, seen from inside: the slot it takes, and the state in which
`MISC_handler` is called. -/
theorem newevent_cases {n : Nat} {no : Option Slot} {t : Int} {data : BitVec 32} {func : F}
    (hnew : newevent call n no t data func s = some s') (hroom : no = none → Room s)
    (hnext : s.next ≠ ev2Blitter) :
    ∃ e s1, (s1 = s ∧ no = some e ∨ s1 = { s with next := e } ∧ no = none ∧ e ≠ ev2Blitter ∧
        e = slotFor s (t + s.currcycle) data func ∧ Fits s (t + s.currcycle) func e) ∧
      miscHandler call n (s1.register e (t + s.currcycle) data func) = some s' := by
  unfold newevent at hnew
  dsimp only at hnew
  split at hnew
  · rename_i e
    exact ⟨e, s, Or.inl ⟨rfl, rfl⟩, hnew⟩
  · cases hfind : findSlot call (t + s.currcycle) data func n s.next s with
    | none => simp [hfind] at hnew
    | some x =>
      obtain ⟨e, s1⟩ := x
      obtain ⟨rfl, hslot, he, hfits⟩ := findSlot_room (hroom rfl) hnext hfind
      refine ⟨e, { s1 with next := e }, Or.inr ⟨rfl, rfl, he, hslot, hfits⟩, ?_⟩
      simpa [hfind] using hnew

omit [DecidableEq F] in
/-- Another value of a variable that the invariant does not mention. -/
theorem AtRest.setNextSlot (h : AtRest s) (e : Slot) : AtRest { s with next := e } :=
  ⟨h.live.of_removes rfl rfl rfl rfl rfl fun _ hi => ⟨hi, rfl⟩, h.recursive, h.pissoff⟩

theorem Kept.newevent (hP : Kept P) (hcall : Inert call) {n : Nat} {no : Option Slot} {t : Int}
    {data : BitVec 32} {func : F} (hrest : AtRest s) (ht : 0 ≤ t)
    (hmax : t + s.currcycle + 1 < evtMax) (hroom : no = none → Room s)
    (hnext : s.next ≠ ev2Blitter) (h : P s) (hnew : newevent call n no t data func s = some s') :
    P s' := by
  obtain ⟨e, s1, hs1, hmisc⟩ := newevent_cases hnew hroom hnext
  obtain ⟨hcyc, hrest1, h1⟩ : s1.currcycle = s.currcycle ∧ AtRest s1 ∧ P s1 := by
    rcases hs1 with ⟨rfl, -⟩ | ⟨rfl, -, he, -⟩
    · exact ⟨rfl, hrest, h⟩
    · exact ⟨rfl, hrest.setNextSlot e, hP.vars h rfl rfl rfl rfl (Int.le_refl _) fun _ => he⟩
  have hreg : Registers s1 (s1.register e (t + s.currcycle) data func) :=
    .register hrest1.live e (by omega) hmax data func
  exact hP.miscHandler hcall (.of_registers hrest1.live hrest1.recursive hreg) (hP.register e _ data func h1) hmisc

theorem Kept.exec (hP : Kept P) (hcall : Inert call) {n : Nat} {c : Call F} (hrest : AtRest s)
    (hok : c.Ok s.currcycle) (hroom : (Op.call c).Roomy s) (hnext : s.next ≠ ev2Blitter) (h : P s)
    (hexec : exec call n c s = some s') : P s' := by
  cases c with
  | newevent no t data func =>
    refine hP.newevent hcall hrest hok.1 hok.2 (fun hno => ?_) hnext h hexec
    subst hno
    exact hroom
  | replace t data func =>
    have hw : Within s (s.removeAll func) := .removeAll hrest.live func
    have h1 := hP.removeAll func h
    simp only [Events.exec, replace] at hexec
    split_ifs at hexec with ht
    · obtain rfl := hcall _ _ _ _ hexec
      exact h1
    · have hpos : 0 ≤ t * cycleUnit := Int.mul_nonneg (by omega) (by decide)
      have hrest1 : AtRest (s.removeAll func) :=
        ⟨hw.live, hw.recursive.trans hrest.recursive, hw.pissoff.symm ▸ hrest.pissoff⟩
      obtain ⟨f, hf, hfree⟩ := hroom
      have hroom1 : Room (s.removeAll func) :=
        ⟨f, hf, fun ha => hfree (removeAll_eventtab2 s func f ha)⟩
      have hnext1 : (s.removeAll func).next ≠ ev2Blitter :=
        Kept.removeAll Kept.next func hnext
      exact hP.newevent hcall hrest1 hpos (hw.currcycle ▸ hok) (fun _ => hroom1) hnext1 h1 hexec
  | remove func =>
    obtain rfl := Option.some.inj hexec
    exact hP.removeAll func h
  | remevent no =>
    obtain rfl := Option.some.inj hexec
    unfold State.remevent
    split_ifs with ha
    · exact hP.dropped h ha (Or.inl rfl)
    · exact h

omit [DecidableEq F] in
theorem KeptByRuns.runEvs (hP : KeptByRuns P) (hcall : Inert call) {n : Nat} (hready : Ready s) (h : P s)
    (hrun : runEvs call n EvId.all s = some s') : P s' := by
  simp only [EvId.all, Events.runEvs, runEv_inactive (hready.others .cia (by decide)),
    runEv_inactive (hready.others .hsync (by decide)),
    runEv_inactive (hready.others .hsynch (by decide)), bind, Option.bind] at hrun
  have hlast : ∀ {s1 : State F}, P s1 → runEv call n .audio s1 = some s' →
      (s1.eventtab .audio).active = false → P s' := by
    intro s1 h1 haudio hinactive
    rw [runEv_inactive hinactive] at haudio
    obtain rfl := Option.some.inj haudio
    exact h1
  rw [runEv] at hrun
  split_ifs at hrun
  · cases hm : Events.miscHandler call n s with
    | none => simp [hm] at hrun
    | some s1 =>
      obtain ⟨hsteady, hlive⟩ := miscHandler_steady hcall.callSpec hready hm
      have hidle := hlive.idle (hsteady.recursive.trans hready.recursive)
      refine hlast (hP.miscHandler hcall hready h hm) ?_ (hidle.others .audio (by decide))
      cases haudio : runEv call n .audio s1 with
      | none => simp [hm, haudio] at hrun
      | some s2 => simpa [hm, haudio] using hrun
  · refine hlast h ?_ (hready.others .audio (by decide))
    cases haudio : runEv call n .audio s with
    | none => simp [haudio] at hrun
    | some s2 => simpa [haudio] using hrun

omit [DecidableEq F] in
theorem KeptByRuns.advance (hP : KeptByRuns P) (hcall : Inert call) {n k : Nat} :
    ∀ {cycles : Int} {s s' : State F}, Live s → s.recursive = false → 0 ≤ cycles →
      s.currcycle + cycles < evtMax → P s → advance call n k cycles s = some s' → P s' := by
  induction k with
  | zero => exact fun _ _ _ _ _ h => absurd h (by simp [Events.advance])
  | succ k ih =>
    intro cycles s s' hlive hr hpos hmax h hadv
    have hle := (hlive.idle hr).nextevent
    rw [Events.advance] at hadv
    split_ifs at hadv with hdue
    · cases hrun : Events.runEvs call n EvId.all { s with currcycle := s.nextevent } with
      | none => simp [hrun] at hadv
      | some s1 =>
        obtain ⟨hsteady, hlive1⟩ := runEvs_next hcall.callSpec hlive hr (by omega) hrun
        have hcyc1 : s1.currcycle = s.nextevent := hsteady.currcycle
        have h1 : P s1 := by
          refine hP.runEvs hcall (hlive.readyNext hr) ?_ hrun
          exact hP.vars h rfl rfl rfl rfl hle id
        have h2 : P s1.eventsSchedule := hP.vars h1 rfl rfl rfl rfl (Int.le_refl _) id
        simp only [hrun, bind, Option.bind] at hadv
        exact ih hlive1 (hsteady.recursive.trans hr) (by omega)
          (show s1.currcycle + _ < evtMax by omega) h2 hadv
    · obtain rfl := Option.some.inj hadv
      exact hP.vars h rfl rfl rfl rfl (show s.currcycle ≤ s.currcycle + cycles by omega) id

/-- A property that small changes keep holds after every top-level call. -/
theorem Kept.topLevel (hP : Kept P) {bodies : Bodies F} {n : Nat}
    (hcall : Inert (callFunc bodies n)) {cpuThread : Bool} {op : Op F} (hrest : AtRest s)
    (hok : op.Ok s) (hroom : op.Roomy s) (hnext : s.next ≠ ev2Blitter) (h : P s)
    (htop : topLevel bodies cpuThread n op s = some s') : P s' := by
  cases op with
  | call c => exact hP.exec hcall hrest hok hroom hnext h htop
  | cycles cycles =>
    obtain ⟨hpos, hmax⟩ := hok
    have hpis := hrest.pissoff
    have hset : ∀ v, P { s with pissoff := v } := fun v =>
      hP.vars h rfl rfl rfl rfl (Int.le_refl _) id
    simp only [Events.topLevel, doCyclesSlow] at htop
    split_ifs at htop
    · exact hP.advance hcall (hrest.live.setPissoff 0x40000000) hrest.recursive hpos hmax (hset 0x40000000)
        htop
    · obtain rfl := Option.some.inj htop
      exact hset _
    · exact hP.advance hcall (hrest.live.setPissoff 0) hrest.recursive (by omega)
        (show s.currcycle + _ < evtMax by omega) (hset 0) htop

end Kept

/-! ### Numbers of registrations -/

/-- Registrations are numbered apart, and an event is logged once, when it has left its slot. -/
structure Numbered (s : State F) : Prop where
  slot : ∀ i, (s.eventtab2 i).active → (s.eventtab2 i).id < s.serial
  log : ∀ x ∈ s.log, x.id < s.serial
  inj : ∀ i j, (s.eventtab2 i).active → (s.eventtab2 j).active →
    (s.eventtab2 i).id = (s.eventtab2 j).id → i = j
  gone : ∀ i, (s.eventtab2 i).active → ∀ x ∈ s.log, x.id ≠ (s.eventtab2 i).id
  nodup : (s.log.map Item.id).Nodup

/-- Where an active event is after another one has left its slot. -/
theorem State.retire_other {i j : Slot} {how : How}
    (h : ((s.retire i how).eventtab2 j).active) : j ≠ i ∧ (s.retire i how).eventtab2 j =
      s.eventtab2 j := by
  have hij : j ≠ i := by
    rintro rfl
    simp [State.retire] at h
  exact ⟨hij, by simp [State.retire, Function.update_of_ne hij]⟩

theorem Numbered.retire (h : Numbered s) {i : Slot} (hi : (s.eventtab2 i).active) (how : How) :
    Numbered (s.retire i how) where
  slot j hj := by
    obtain ⟨-, heq⟩ := State.retire_other hj
    rw [heq] at hj ⊢
    exact h.slot j hj
  log x hx := by
    rcases List.mem_cons.mp hx with rfl | hx
    · exact h.slot i hi
    · exact h.log x hx
  inj j k hj hk := by
    obtain ⟨-, heqj⟩ := State.retire_other hj
    obtain ⟨-, heqk⟩ := State.retire_other hk
    rw [heqj] at hj ⊢
    rw [heqk] at hk ⊢
    exact h.inj j k hj hk
  gone j hj x hx := by
    obtain ⟨hij, heq⟩ := State.retire_other hj
    rw [heq] at hj ⊢
    rcases List.mem_cons.mp hx with rfl | hx
    · exact fun hid => hij (h.inj j i hj hi hid.symm)
    · exact h.gone j hj x hx
  nodup := by
    refine List.nodup_cons.mpr ⟨fun hmem => ?_, h.nodup⟩
    obtain ⟨x, hx, hid⟩ := List.mem_map.mp hmem
    exact h.gone i hi x hx hid

theorem Numbered.of_slots (h : Numbered s) (hlog : s'.log = s.log) (hser : s'.serial = s.serial)
    (hslot : ∀ i, (s'.eventtab2 i).active = (s.eventtab2 i).active ∧
      (s'.eventtab2 i).id = (s.eventtab2 i).id) : Numbered s' where
  slot i hi := by
    rw [(hslot i).2, hser]
    exact h.slot i ((hslot i).1 ▸ hi)
  log x hx := by
    rw [hser]
    exact h.log x (hlog ▸ hx)
  inj i j hi hj hid := by
    rw [(hslot i).2, (hslot j).2] at hid
    exact h.inj i j ((hslot i).1 ▸ hi) ((hslot j).1 ▸ hj) hid
  gone i hi x hx := by
    rw [(hslot i).2]
    exact h.gone i ((hslot i).1 ▸ hi) x (hlog ▸ hx)
  nodup := hlog ▸ h.nodup

theorem Numbered.setNext (h : Numbered s) (i : Slot) (e : Option Slot) :
    Numbered (s.setNext i e) :=
  h.of_slots rfl rfl fun j => ⟨(s.setNext_slot i e j).1, (s.setNext_slot i e j).2.2⟩

theorem Numbered.fill (h : Numbered s) (e : Slot) (et : Int) (data : BitVec 32) (func : F) :
    Numbered (s.fill e et data func) := by
  have hslot : ∀ i, i = e ∧ ((s.fill e et data func).eventtab2 i).id = s.serial ∨
      i ≠ e ∧ (s.fill e et data func).eventtab2 i = s.eventtab2 i := by
    intro i
    by_cases hie : i = e
    · subst hie
      exact Or.inl ⟨rfl, by simp [State.fill]⟩
    · exact Or.inr ⟨hie, by simp [State.fill, Function.update_of_ne hie]⟩
  refine ⟨fun i hi => ?_, fun x hx => Nat.lt_succ_of_lt (h.log x hx), fun i j hi hj hid => ?_,
    fun i hi x hx => ?_, h.nodup⟩
  · rcases hslot i with ⟨-, hid⟩ | ⟨-, heq⟩
    · exact hid ▸ Nat.lt_succ_self _
    · rw [heq] at hi ⊢
      exact Nat.lt_succ_of_lt (h.slot i hi)
  · rcases hslot i with ⟨rfl, hi'⟩ | ⟨-, heqi⟩ <;> rcases hslot j with ⟨rfl, hj'⟩ | ⟨-, heqj⟩
    · rfl
    · rw [heqj] at hj hid
      exact absurd (hi'.symm.trans hid) (h.slot j hj).ne'
    · rw [heqi] at hi hid
      exact absurd (hid.trans hj') (h.slot i hi).ne
    · rw [heqi] at hi hid
      rw [heqj] at hj hid
      exact h.inj i j hi hj hid
  · rcases hslot i with ⟨-, hid⟩ | ⟨-, heq⟩
    · rw [hid]
      exact (h.log x hx).ne
    · rw [heq] at hi ⊢
      exact h.gone i hi x hx

theorem Kept.numbered : Kept (Numbered : State F → Prop) where
  due _ h hi _ := h.retire hi _
  chained {s i j} h _ _ hj _ :=
    (h.setNext i none).retire ((s.setNext_slot i none j).1.symm ▸ hj) _
  unchain h := h.setNext _ none
  dropped h hi _ := h.retire hi _
  link h _ := h.setNext _ _
  fill h _ := h.fill _ _ _ _
  vars h hslot _ hlog hser _ _ := h.of_slots hlog hser fun i => by rw [hslot]; exact ⟨rfl, rfl⟩

/-! ### One event -/

/-- The item of an event whose handler was called. -/
def Item.Ran (x : Item) (id : Nat) : Prop := x.id = id ∧ x.how ≠ .removed ∧ x.how ≠ .replaced

/-- The event was removed, or its slot registered anew. -/
def Dropped (log : List Item) (id : Nat) : Prop :=
  ∃ x ∈ log, x.id = id ∧ (x.how = .removed ∨ x.how = .replaced)

instance (log : List Item) (id : Nat) : Decidable (Dropped log id) := by
  unfold Dropped
  infer_instance

theorem Dropped.cons {log : List Item} {id : Nat} (h : Dropped log id) (x : Item) :
    Dropped (x :: log) id := by
  obtain ⟨y, hy, hrest⟩ := h
  exact ⟨y, List.mem_cons_of_mem x hy, hrest⟩

theorem dropped_retire {i : Slot} {how : How} (h : how = .removed ∨ how = .replaced) :
    Dropped (s.retire i how).log (s.eventtab2 i).id :=
  ⟨_, List.mem_cons_self, rfl, h⟩

/-- An event sits in its slot. -/
structure Sits (s : State F) (a : Slot) (id : Nat) (et : Int) : Prop where
  active : (s.eventtab2 a).active
  id : (s.eventtab2 a).id = id
  evtime : (s.eventtab2 a).evtime = et

variable {a b i j l e : Slot} {ida idb : Nat} {T : Int}

theorem Sits.retire (h : Sits s a ida T) (hi : i ≠ a) (how : How) :
    Sits (s.retire i how) a ida T := by
  have heq : (s.retire i how).eventtab2 a = s.eventtab2 a := by
    simp [State.retire, Function.update_of_ne hi.symm]
  exact ⟨heq ▸ h.active, heq ▸ h.id, heq ▸ h.evtime⟩

theorem Sits.setNext (h : Sits s a ida T) (i : Slot) (e : Option Slot) :
    Sits (s.setNext i e) a ida T := by
  obtain ⟨ha, het, hid⟩ := s.setNext_slot i e a
  exact ⟨ha.symm ▸ h.active, hid.trans h.id, het.trans h.evtime⟩

theorem Sits.fill (h : Sits s a ida T) (he : (s.eventtab2 e).active = false) (et : Int)
    (data : BitVec 32) (func : F) : Sits (s.fill e et data func) a ida T := by
  have hae : a ≠ e := by
    rintro rfl
    exact absurd h.active (by simp [he])
  have heq : (s.fill e et data func).eventtab2 a = s.eventtab2 a := by
    simp [State.fill, Function.update_of_ne hae]
  exact ⟨heq ▸ h.active, heq ▸ h.id, heq ▸ h.evtime⟩

theorem Sits.vars (h : Sits s a ida T) (heq : s'.eventtab2 = s.eventtab2) : Sits s' a ida T :=
  ⟨heq ▸ h.active, heq ▸ h.id, heq ▸ h.evtime⟩

theorem Sits.ne (h : Sits s a ida T) (hi : (s.eventtab2 i).active = false) : i ≠ a := by
  rintro rfl
  exact absurd h.active (by simp [hi])

/-- No slot but `except` has its `next` pointer at slot `a`. -/
def NoLink (s : State F) (a : Slot) (except : Option Slot) : Prop :=
  ∀ i, some i ≠ except → (s.eventtab2 i).next ≠ some a

instance (s : State F) (a : Slot) (x : Option Slot) : Decidable (NoLink s a x) := by
  unfold NoLink
  infer_instance

theorem NoLink.retire {x : Option Slot} (h : NoLink s a x) (i : Slot) (how : How) :
    NoLink (s.retire i how) a x := by
  intro j hj
  by_cases hij : j = i
  · subst hij
    simpa [State.retire] using h j hj
  · simpa [State.retire, Function.update_of_ne hij] using h j hj

theorem NoLink.setNext {x o : Option Slot} (h : NoLink s a x) (i : Slot) (ho : o ≠ some a) :
    NoLink (s.setNext i o) a x := by
  intro j hj
  by_cases hij : j = i
  · subst hij
    simpa [State.setNext] using ho
  · simpa [State.setNext, Function.update_of_ne hij] using h j hj

theorem NoLink.fill {x : Option Slot} (h : NoLink s a x) (e : Slot) (et : Int) (data : BitVec 32)
    (func : F) : NoLink (s.fill e et data func) a x := by
  intro j hj
  by_cases hij : j = e
  · subst hij
    simpa [State.fill] using h j hj
  · simpa [State.fill, Function.update_of_ne hij] using h j hj

/-- Where an event with expiry time `T` is: in its slot, out of reach of `next` pointers
until it is due; run at `T`; or dropped. -/
inductive Single (a : Slot) (ida : Nat) (T : Int) (s : State F) : Prop
  | waiting (sits : Sits s a ida T) (link : T ≤ s.currcycle ∨ NoLink s a none)
  | ran (x : Item) (mem : x ∈ s.log) (ran : x.Ran ida) (cycle : x.cycle = T)
      (now : T ≤ s.currcycle)
  | dropped (h : Dropped s.log ida)

theorem Kept.single (a : Slot) (ida : Nat) (T : Int) :
    Kept (Single a ida T : State F → Prop) where
  due {s i} _ h hi hdue := by
    cases h with
    | waiting sits link =>
      by_cases hia : i = a
      · subst hia
        exact .ran _ List.mem_cons_self ⟨sits.id, by simp, by simp⟩ (hdue.symm.trans sits.evtime)
          (sits.evtime.symm.trans hdue).le
      · exact .waiting (sits.retire hia _) (link.imp_right fun hl => hl.retire i _)
    | ran x mem ran cycle now => exact .ran x (List.mem_cons_of_mem _ mem) ran cycle now
    | dropped hd => exact .dropped (hd.cons _)
  chained {s i j} h hi hnext hj hdue := by
    cases h with
    | waiting sits link =>
      have hja : j ≠ a := by
        rintro rfl
        rcases link with hle | hl
        · have := sits.evtime
          omega
        · exact hl i (by simp) hnext
      exact .waiting ((sits.setNext i none).retire hja _)
        (link.imp_right fun hl => (hl.setNext i (by simp)).retire j _)
    | ran x mem ran cycle now => exact .ran x (List.mem_cons_of_mem _ mem) ran cycle now
    | dropped hd => exact .dropped (hd.cons _)
  unchain {s i} h := by
    cases h with
    | waiting sits link =>
      exact .waiting (sits.setNext i none) (link.imp_right fun hl => hl.setNext i (by simp))
    | ran x mem ran cycle now => exact .ran x mem ran cycle now
    | dropped hd => exact .dropped hd
  dropped {s i how} h hi hhow := by
    cases h with
    | waiting sits link =>
      by_cases hia : i = a
      · subst hia
        exact .dropped (sits.id ▸ dropped_retire hhow)
      · exact .waiting (sits.retire hia _) (link.imp_right fun hl => hl.retire i _)
    | ran x mem ran cycle now => exact .ran x (List.mem_cons_of_mem _ mem) ran cycle now
    | dropped hd => exact .dropped (hd.cons _)
  link {s l e} h he := by
    cases h with
    | waiting sits link =>
      have hea : some e ≠ some a := fun heq => sits.ne he (Option.some.inj heq)
      exact .waiting (sits.setNext l _) (link.imp_right fun hl => hl.setNext l hea)
    | ran x mem ran cycle now => exact .ran x mem ran cycle now
    | dropped hd => exact .dropped hd
  fill {s e et data func} h he := by
    cases h with
    | waiting sits link =>
      exact .waiting (sits.fill he et data func)
        (link.imp_right fun hl => hl.fill e et data func)
    | ran x mem ran cycle now => exact .ran x mem ran cycle now
    | dropped hd => exact .dropped hd
  vars {s s'} h hslot _ hlog _ hcyc _ := by
    cases h with
    | waiting sits link =>
      refine .waiting (sits.vars hslot) (link.imp (fun hle => hle.trans hcyc) fun hl i hi => ?_)
      rw [hslot]
      exact hl i hi
    | ran x mem ran cycle now => exact .ran x (hlog ▸ mem) ran cycle (now.trans hcyc)
    | dropped hd => exact .dropped (hlog ▸ hd)

/-! ### Two events -/

/-- The handler of the first event was called before that of the second one, each at the
requested time or one cycle later. -/
def Ordered (log : List Item) (ida idb : Nat) (T : Int) : Prop :=
  ∃ l₁ l₂, log = l₁ ++ l₂ ∧
    (∃ x ∈ l₁, x.Ran idb ∧ (x.cycle = T ∨ x.cycle = T + 1)) ∧
    ∃ x ∈ l₂, x.Ran ida ∧ (x.cycle = T ∨ x.cycle = T + 1)

theorem Ordered.cons {log : List Item} (h : Ordered log ida idb T) (y : Item) :
    Ordered (y :: log) ida idb T := by
  obtain ⟨l₁, l₂, rfl, ⟨x, hx, hrest⟩, hfirst⟩ := h
  exact ⟨y :: l₁, l₂, rfl, ⟨x, List.mem_cons_of_mem y hx, hrest⟩, hfirst⟩

/-- Where two events requested for `T` are: the first at `T` and the second chained to it;
the first run and the second waiting; both run in order; or one of them dropped. -/
inductive Phase (a b : Slot) (ida idb : Nat) (T : Int) (s : State F) : Prop
  | waiting (first : Sits s a ida T) (second : Sits s b idb (T + 1)) (link : NoLink s a none)
      (link' : NoLink s b (some a))
  | half (x : Item) (mem : x ∈ s.log) (ran : x.Ran ida) (cycle : x.cycle = T)
      (now : T ≤ s.currcycle) {et : Int} (second : Sits s b idb et) (time : et = T ∨ et = T + 1)
  | ordered (h : Ordered s.log ida idb T)
  | dropped (h : Dropped s.log ida ∨ Dropped s.log idb)

/-- The second event runs behind the first one. -/
theorem Phase.second {x : Item} (mem : x ∈ s.log) (ran : x.Ran ida) (cycle : x.cycle = T)
    {how : How} (hhow : how ≠ .removed ∧ how ≠ .replaced) (hid : (s.eventtab2 b).id = idb)
    (hcyc : s.currcycle = T ∨ s.currcycle = T + 1) : Ordered (s.retire b how).log ida idb T :=
  ⟨[_], s.log, rfl, ⟨_, List.mem_singleton_self _, ⟨hid, hhow⟩, hcyc⟩, x, mem, ran, Or.inl cycle⟩

theorem Kept.phase (a b : Slot) (ida idb : Nat) (T : Int) :
    Kept (Phase a b ida idb T : State F → Prop) where
  due {s i} hpend h hi hdue := by
    cases h with
    | waiting first second link link' =>
      have hpast := (hpend.evtime a first.active).1
      have htime := first.evtime
      have htime' := second.evtime
      have hib : i ≠ b := by
        rintro rfl
        omega
      by_cases hia : i = a
      · subst hia
        exact .half _ List.mem_cons_self ⟨first.id, by simp, by simp⟩
          (hdue.symm.trans htime) (htime.symm.trans hdue).le (second.retire hib _) (Or.inr rfl)
      · exact .waiting (first.retire hia _) (second.retire hib _) (link.retire i _)
          (link'.retire i _)
    | half x mem ran cycle now second time =>
      by_cases hib : i = b
      · subst hib
        refine .ordered (Phase.second mem ran cycle (by simp) second.id ?_)
        have := second.evtime
        omega
      · exact .half x (List.mem_cons_of_mem _ mem) ran cycle now (second.retire hib _) time
    | ordered ho => exact .ordered (ho.cons _)
    | dropped hd => exact .dropped (hd.imp (·.cons _) (·.cons _))
  chained {s i j} h hi hnext hj hdue := by
    cases h with
    | waiting first second link link' =>
      have hja : j ≠ a := by
        rintro rfl
        exact link i (by simp) hnext
      have hjb : j ≠ b := by
        rintro rfl
        exact link' i (fun heq => first.ne hi (Option.some.inj heq)) hnext
      exact .waiting ((first.setNext i none).retire hja _) ((second.setNext i none).retire hjb _)
        ((link.setNext i (by simp)).retire j _) ((link'.setNext i (by simp)).retire j _)
    | half x mem ran cycle now second time =>
      have hsecond := second.setNext i none
      by_cases hjb : j = b
      · subst hjb
        have hcyc : (s.setNext i none).currcycle = T ∨ (s.setNext i none).currcycle = T + 1 := by
          change s.currcycle = T ∨ s.currcycle = T + 1
          have := second.evtime
          omega
        have hmem : x ∈ (s.setNext i none).log := mem
        exact .ordered (Phase.second hmem ran cycle (by simp) hsecond.id hcyc)
      · exact .half x (List.mem_cons_of_mem _ mem) ran cycle now (hsecond.retire hjb _) time
    | ordered ho => exact .ordered (ho.cons _)
    | dropped hd => exact .dropped (hd.imp (·.cons _) (·.cons _))
  unchain {s i} h := by
    cases h with
    | waiting first second link link' =>
      exact .waiting (first.setNext i none) (second.setNext i none) (link.setNext i (by simp))
        (link'.setNext i (by simp))
    | half x mem ran cycle now second time =>
      exact .half x mem ran cycle now (second.setNext i none) time
    | ordered ho => exact .ordered ho
    | dropped hd => exact .dropped hd
  dropped {s i how} h hi hhow := by
    cases h with
    | waiting first second link link' =>
      by_cases hia : i = a
      · subst hia
        exact .dropped (Or.inl (first.id ▸ dropped_retire hhow))
      · by_cases hib : i = b
        · subst hib
          exact .dropped (Or.inr (second.id ▸ dropped_retire hhow))
        · exact .waiting (first.retire hia _) (second.retire hib _) (link.retire i _)
            (link'.retire i _)
    | half x mem ran cycle now second time =>
      by_cases hib : i = b
      · subst hib
        exact .dropped (Or.inr (second.id ▸ dropped_retire hhow))
      · exact .half x (List.mem_cons_of_mem _ mem) ran cycle now (second.retire hib _) time
    | ordered ho => exact .ordered (ho.cons _)
    | dropped hd => exact .dropped (hd.imp (·.cons _) (·.cons _))
  link {s l e} h he := by
    cases h with
    | waiting first second link link' =>
      have hea : some e ≠ some a := fun heq => first.ne he (Option.some.inj heq)
      have heb : some e ≠ some b := fun heq => second.ne he (Option.some.inj heq)
      exact .waiting (first.setNext l _) (second.setNext l _) (link.setNext l hea)
        (link'.setNext l heb)
    | half x mem ran cycle now second time =>
      exact .half x mem ran cycle now (second.setNext l _) time
    | ordered ho => exact .ordered ho
    | dropped hd => exact .dropped hd
  fill {s e et data func} h he := by
    cases h with
    | waiting first second link link' =>
      exact .waiting (first.fill he et data func) (second.fill he et data func)
        (link.fill e et data func) (link'.fill e et data func)
    | half x mem ran cycle now second time =>
      exact .half x mem ran cycle now (second.fill he et data func) time
    | ordered ho => exact .ordered ho
    | dropped hd => exact .dropped hd
  vars {s s'} h hslot _ hlog _ hcyc _ := by
    cases h with
    | waiting first second link link' =>
      refine .waiting (first.vars hslot) (second.vars hslot) (fun i hi => ?_) fun i hi => ?_
      · rw [hslot]
        exact link i hi
      · rw [hslot]
        exact link' i hi
    | half x mem ran cycle now second time =>
      exact .half x (hlog ▸ mem) ran cycle (now.trans hcyc) (second.vars hslot) time
    | ordered ho => exact .ordered (hlog ▸ ho)
    | dropped hd => exact .dropped (hlog ▸ hd)

/-! ### Registering the pair -/

theorem State.lastExpiresAt_retire (s : State F) (e : Slot) (how : How) (et : Int) :
    (s.retire e how).lastExpiresAt e et = s.lastExpiresAt e et := by
  unfold State.lastExpiresAt
  have hlast : (s.retire e how).lastEvent2 = s.lastEvent2 := rfl
  rw [hlast]
  cases s.lastEvent2 with
  | none => rfl
  | some l =>
    dsimp only
    by_cases hle : l = e
    · simp [hle]
    · have heq : (s.retire e how).eventtab2 l = s.eventtab2 l := by
        simp [State.retire, Function.update_of_ne hle]
      rw [heq]

/-- Registering takes the slot from the event that is in it, and fills it. -/
theorem State.register_cases (s : State F) (e : Slot) (et : Int) (data : BitVec 32) (func : F) :
    ∃ s1, (s1 = s ∨ s1 = s.retire e .replaced) ∧ (s1.eventtab2 e).active = false ∧
      s.register e et data func =
        match s.lastExpiresAt e et with
        | some l => (s1.setNext l (some e)).fill e (et + 1) data func
        | none => s1.fill e et data func := by
  by_cases ha : (s.eventtab2 e).active
  · refine ⟨s.retire e .replaced, Or.inr rfl, by simp [State.retire], ?_⟩
    cases hlast : s.lastExpiresAt e et <;>
      simp only [State.register, ha, if_true, State.lastExpiresAt_retire, hlast]
  · refine ⟨s, Or.inl rfl, Bool.not_eq_true _ ▸ ha, ?_⟩
    cases hlast : s.lastExpiresAt e et <;> simp only [State.register, if_neg ha, hlast]

theorem sits_fill (s : State F) (e : Slot) (et : Int) (data : BitVec 32) (func : F) :
    Sits (s.fill e et data func) e s.serial et :=
  ⟨by simp [State.fill], by simp [State.fill], by simp [State.fill]⟩

/-- The slot and the handler of the event registered last. -/
def LastIs (a : Slot) (func : F) (s : State F) : Prop :=
  s.lastEvent2 = some a ∧ (s.eventtab2 a).handler = func

theorem KeptByRuns.lastIs (a : Slot) (func : F) : KeptByRuns (LastIs a func) := by
  have hretire : ∀ {s : State F} {i : Slot} {how : How}, LastIs a func s →
      LastIs a func (s.retire i how) := by
    intro s i how h
    refine ⟨h.1, ?_⟩
    by_cases hia : a = i
    · subst hia
      simpa [State.retire] using h.2
    · simpa [State.retire, Function.update_of_ne hia] using h.2
  have hnext : ∀ {s : State F} {i : Slot}, LastIs a func s →
      LastIs a func (s.setNext i none) := by
    intro s i h
    refine ⟨h.1, ?_⟩
    by_cases hia : a = i
    · subst hia
      simpa [State.setNext] using h.2
    · simpa [State.setNext, Function.update_of_ne hia] using h.2
  exact {
    due := fun _ h _ _ => hretire h
    chained := fun h _ _ _ _ => hretire (hnext h)
    unchain := hnext
    vars := fun h hslot hlast _ _ _ _ => ⟨hlast.trans h.1, hslot ▸ h.2⟩ }

theorem AtRest.lt_evtime (h : AtRest s) {i : Slot} (hi : (s.eventtab2 i).active) :
    s.currcycle < (s.eventtab2 i).evtime := by
  have hidle := h.live.idle h.recursive
  obtain ⟨ha, hle⟩ := hidle.misc i hi
  exact (hidle.ahead ha).1.trans_le hle

/-- What the slots must look like for the second event to be chained to the first one, which
goes to slot `a` in state `s`; the second one goes to slot `b` in state `s₁`. -/
structure Unlinked (s s₁ : State F) (a b : Slot) (T : Int) : Prop where
  /-- The first event is not itself moved behind another one. -/
  unmoved : s.lastExpiresAt a T = none
  first : NoLink s a none
  second : NoLink s₁ b (some a)

/-- After the first event's registration. -/
theorem Single.of_register {t : Int} (ht : 0 ≤ t) (hrest : AtRest s)
    (hcond : 0 < t → s.lastExpiresAt a (t + s.currcycle) = none ∧ NoLink s a none)
    (data : BitVec 32) (func : F) :
    Single a s.serial (t + s.currcycle) (s.register a (t + s.currcycle) data func) ∧
      LastIs a func (s.register a (t + s.currcycle) data func) := by
  -- at its own time no event is still in its slot
  have hunmoved : s.lastExpiresAt a (t + s.currcycle) = none := by
    rcases ht.lt_or_eq with hpos | rfl
    · exact (hcond hpos).1
    · cases hlast : s.lastExpiresAt a (0 + s.currcycle) with
      | none => rfl
      | some l =>
        obtain ⟨hl, -, heq⟩ := State.lastExpiresAt_some hlast
        have := hrest.lt_evtime hl
        omega
  obtain ⟨s1, hs1, hfree, heq⟩ := s.register_cases a (t + s.currcycle) data func
  rw [heq, hunmoved]
  have hser : s1.serial = s.serial := by rcases hs1 with rfl | rfl <;> rfl
  have hcyc : s1.currcycle = s.currcycle := by rcases hs1 with rfl | rfl <;> rfl
  refine ⟨.waiting (hser ▸ sits_fill s1 a _ data func) ?_, rfl, by simp [State.fill]⟩
  rcases ht.lt_or_eq with hpos | rfl
  · have hlink := (hcond hpos).2
    refine Or.inr (NoLink.fill ?_ a _ data func)
    rcases hs1 with rfl | rfl
    · exact hlink
    · exact hlink.retire a _
  · exact Or.inl (show 0 + s.currcycle ≤ s1.currcycle by omega)

/-- After the second event's registration. -/
theorem Phase.of_register {t : Int} {data : BitVec 32} {func func' : F} (hfunc : func' ≠ func)
    (hrest : AtRest s) (hfirst : Single a ida (t + s.currcycle) s) (hlast : LastIs a func s)
    (hfits : Fits s (t + s.currcycle) func' b) (hcond : 0 < t → NoLink s b (some a)) :
    Phase a b ida s.serial (t + s.currcycle)
      (State.register { s with next := b } b (t + s.currcycle) data func') := by
  obtain ⟨s1, hs1, hfree, heq⟩ :=
    State.register_cases { s with next := b } b (t + s.currcycle) data func'
  have hser : s1.serial = s.serial := by rcases hs1 with rfl | rfl <;> rfl
  have hcyc : s1.currcycle = s.currcycle := by rcases hs1 with rfl | rfl <;> rfl
  have hlog : ∀ x ∈ s.log, x ∈ s1.log := by
    rcases hs1 with rfl | rfl
    · exact fun x hx => hx
    · exact fun x hx => List.mem_cons_of_mem _ hx
  cases hfirst with
  | waiting sits link =>
    have hnow := sits.evtime ▸ hrest.lt_evtime sits.active
    have hlink : NoLink s a none := link.resolve_left (by omega)
    have hlink' : NoLink s b (some a) := hcond (by omega)
    have hba : b ≠ a := by
      rintro rfl
      rcases hfits with hf | hf
      · exact hf sits.active
      · exact hfunc (hf.2.symm.trans hlast.2)
    have hmoved : State.lastExpiresAt { s with next := b } b (t + s.currcycle) = some a := by
      simp [State.lastExpiresAt, hlast.1, sits.active, sits.evtime, hba.symm]
    rw [heq, hmoved]
    have hsits1 : Sits s1 a ida (t + s.currcycle) := by
      have hsits : Sits { s with next := b } a ida (t + s.currcycle) := sits.vars rfl
      rcases hs1 with rfl | rfl
      · exact hsits
      · exact hsits.retire hba _
    have hfree1 : ((s1.setNext a (some b)).eventtab2 b).active = false :=
      (s1.setNext_slot a (some b) b).1.trans hfree
    have hother : ∀ {c : Slot} {x : Option Slot}, NoLink s c x → NoLink s1 c x := by
      intro c x h
      rcases hs1 with rfl | rfl
      · exact h
      · exact NoLink.retire (s := { s with next := b }) h b _
    refine .waiting ((hsits1.setNext a _).fill hfree1 _ data func')
      (hser ▸ sits_fill (s1.setNext a (some b)) b _ data func') ?_ ?_
    · exact NoLink.fill ((hother hlink).setNext a (by simpa using hba)) b _ data func'
    · refine NoLink.fill (fun i hi => ?_) b _ data func'
      have hia : i ≠ a := fun h => hi (h ▸ rfl)
      simpa [State.setNext, Function.update_of_ne hia] using hother hlink' i hi
  | ran x mem ran cycle now =>
    have hx := hlog x mem
    have hnow1 : t + s.currcycle ≤ s1.currcycle := hcyc.symm ▸ now
    rw [heq]
    cases State.lastExpiresAt { s with next := b } b (t + s.currcycle) with
    | none => exact .half x hx ran cycle hnow1 (hser ▸ sits_fill s1 b _ data func') (Or.inl rfl)
    | some l =>
      exact .half x hx ran cycle hnow1 (hser ▸ sits_fill (s1.setNext l (some b)) b _ data func')
        (Or.inr rfl)
  | dropped hd =>
    have hd1 : Dropped s1.log ida := by
      obtain ⟨x, hx, hrest⟩ := hd
      exact ⟨x, hlog x hx, hrest⟩
    rw [heq]
    refine .dropped (Or.inl ?_)
    cases State.lastExpiresAt { s with next := b } b (t + s.currcycle) with
    | none => exact hd1
    | some l => exact hd1

/-! ### Runs with handlers that leave the queue alone -/

section Runs

variable [DecidableEq F]

/-- The queue with handlers that neither register nor remove events, and with slots that are
not exhausted. -/
def inertQueue (cpuThread : Bool) : Machine (State F) (Op F × Nat) Unit where
  legal s i := i.1.Ok s ∧ i.1.Roomy s ∧
    (topLevel inertBodies cpuThread i.2 i.1 s).isSome
  step s i :=
    match topLevel inertBodies cpuThread i.2 i.1 s with
    | some s' => .ok s'
    | none => .error ()

/-- The invariant between top-level calls, with a property that small changes keep. -/
structure Holds (P : State F → Prop) (s : State F) : Prop where
  rest : AtRest s
  numbered : Numbered s
  next : s.next ≠ ev2Blitter
  holds : P s

variable {P : State F → Prop} {cpuThread : Bool}

theorem Kept.holds (hP : Kept P) {n : Nat} {op : Op F} (h : Holds P s) (hok : op.Ok s)
    (hroom : op.Roomy s) (htop : Events.topLevel inertBodies cpuThread n op s = some s') :
    Holds P s' where
  rest := (h.rest.topLevel inertBodies_ok hok htop).1
  numbered := Kept.numbered.topLevel (inert_done n) h.rest hok hroom h.next h.numbered htop
  next := Kept.next.topLevel (inert_done n) h.rest hok hroom h.next h.next htop
  holds := hP.topLevel (inert_done n) h.rest hok hroom h.next h.holds htop

theorem Kept.reachable (hP : Kept P) (h : Holds P s)
    (hreach : (inertQueue cpuThread).Reachable s s') : Holds P s' := by
  have hinv : (inertQueue cpuThread).Invariant (Holds P) := by
    intro s i hs hlegal
    obtain ⟨hok, hroom, hret⟩ := hlegal
    obtain ⟨s1, hs1⟩ := Option.isSome_iff_exists.mp hret
    exact ⟨s1, by simp only [inertQueue, hs1], hP.holds hs hok hroom hs1⟩
  exact hinv.reachable hreach h

omit [DecidableEq F] in
theorem Fresh.holds (h : Fresh s) (hlog : s.log = []) (hnext : s.next ≠ ev2Blitter) :
    Holds (fun _ => True) (start s) where
  rest := h.atRest
  numbered := by
    have hfree : ∀ i, ¬ ((start s).eventtab2 i).active := by
      simp [start, State.eventInit, State.clearEvents]
    have hlog' : (start s).log = [] := hlog
    refine ⟨fun i hi => absurd hi (hfree i), ?_, fun i _ hi => absurd hi (hfree i),
      fun i hi => absurd hi (hfree i), ?_⟩
    · simp [hlog']
    · simp [hlog']
  next := hnext
  holds := trivial

/-- Registering an event without a slot number, from the invariant's point of view. -/
theorem register_holds {Q : State F → Prop} (hQ : KeptByRuns Q) {n : Nat} {t : Int}
    {data : BitVec 32} {func : F} (h : Holds P s)
    (hok : (Op.call (.newevent none t data func)).Ok s)
    (hroom : (Op.call (.newevent none t data func)).Roomy s)
    (htop : topLevel inertBodies cpuThread n (.call (.newevent none t data func)) s =
      some s')
    (hreg : Fits s (t + s.currcycle) func (slotFor s (t + s.currcycle) data func) →
      Q (State.register { s with next := slotFor s (t + s.currcycle) data func }
        (slotFor s (t + s.currcycle) data func) (t + s.currcycle) data func)) :
    Q s' := by
  obtain ⟨ht, hmax⟩ := hok
  have hnew : newevent (callFunc inertBodies n) n none t data func s = some s' := htop
  obtain ⟨e, s1, hs1, hmisc⟩ := newevent_cases hnew (fun _ => hroom) h.next
  obtain ⟨rfl, -, -, rfl, hfits⟩ := hs1.resolve_left (by simp)
  have hrest1 := h.rest.setNextSlot (slotFor s (t + s.currcycle) data func)
  have hregs : Registers _ (State.register
      { s with next := slotFor s (t + s.currcycle) data func }
      (slotFor s (t + s.currcycle) data func) (t + s.currcycle) data func) :=
    .register hrest1.live _ (show s.currcycle ≤ t + s.currcycle by omega) hmax data func
  exact hQ.miscHandler (inert_done n) (.of_registers hrest1.live hrest1.recursive hregs) (hreg hfits) hmisc

omit [DecidableEq F] in
theorem Kept.true : Kept (fun _ : State F => True) where
  due _ _ _ _ := trivial
  chained _ _ _ _ _ := trivial
  unchain _ := trivial
  vars _ _ _ _ _ _ _ := trivial
  dropped _ _ _ := trivial
  link _ _ := trivial
  fill _ _ := trivial

/-- A run of one call. -/
theorem legal_of_run {op : Op F} {n : Nat}
    (h : (inertQueue cpuThread).Run s [(op, n)] (.ok s')) :
    op.Ok s ∧ op.Roomy s ∧ topLevel inertBodies cpuThread n op s = some s' := by
  cases h with
  | cons hlegal hstep hrest =>
    cases hrest
    refine ⟨hlegal.1, hlegal.2.1, ?_⟩
    obtain ⟨s1, hs1⟩ := Option.isSome_iff_exists.mp hlegal.2.2
    simp only [inertQueue, hs1] at hstep
    rw [hs1, Except.ok.inj hstep]

end Runs

/-! ### Short runs -/

/-- The state after some top-level calls, to a depth that is enough for short runs. -/
def afterOps (ops : List (Op Nat)) : State Nat :=
  ops.foldl (fun s op => (topLevel inertBodies false 20 op s).getD s) (start initial)

/-- One more call is a run if it returns. -/
theorem run_afterOps {ops : List (Op Nat)} {op : Op Nat} (hok : op.Ok (afterOps ops))
    (hroom : op.Roomy (afterOps ops))
    (hsome : (topLevel inertBodies false 20 op (afterOps ops)).isSome = true) :
    (inertQueue false).Run (afterOps ops) [(op, 20)] (.ok (afterOps (ops ++ [op]))) := by
  obtain ⟨s', htop⟩ := Option.isSome_iff_exists.mp hsome
  have hs' : afterOps (ops ++ [op]) = s' := by
    rw [afterOps, List.foldl_append]
    exact congrArg (Option.getD · (afterOps ops)) htop
  rw [hs']
  refine .cons ⟨hok, hroom, hsome⟩ ?_ (.nil s')
  simp only [inertQueue, htop]

/-- An event after ten cycles, for handler `func`. -/
def inTen (func : Nat) : Op Nat := .call (.newevent none 10 0 func)

/-- The three events of `pair_not_in_order`, the first of them removed. -/
def threeThenRemove : List (Op Nat) := [inTen 0, inTen 1, inTen 2, .call (.remove 0)]

end LibretroUae.Events
