import LibretroUae.Events.Order

/-!
# LibretroUae.Events.OnTime

**Handlers are called at the time of their events.** After it has called the handler of a slot,
`MISC_handler` reads the slot's `next` and `evtime`. If the slot was registered anew meanwhile, for
a later time and with another event chained to it, the handler of that one is called at once.

Handlers are arbitrary here, and each of their calls is looked at in the state in which it is made
(`Call.Timely`). Runs whose calls are all timely are runs of the queue
(`topTimely_eq`), and no handler is called at a wrong time in them.
-/

namespace LibretroUae.Events

open LibretroUae.Lib

variable {F : Type} {s s' s'' : State F}

/-! ### Timely calls -/

/-- An event left its slot at its time: one that was chained a cycle before, and one that was
dropped no later. -/
def Item.OnTime (x : Item) : Prop :=
  match x.how with
  | .due => x.cycle = x.evtime
  | .chained => x.cycle + 1 = x.evtime
  | .evicted => False
  | .removed => x.cycle ≤ x.evtime
  | .replaced => x.cycle ≤ x.evtime

/-- Whether the scan of `MISC_handler` called the handler of an event, or of the one chained to
it. -/
def Item.scanned (x : Item) : Bool :=
  match x.how with
  | .due => true
  | .chained => true
  | _ => false

namespace State

/-- The slot whose handler was called last by the scan of `MISC_handler`; what is chained to it
will be looked at. -/
def running (s : State F) : Option Slot :=
  if s.recursive then
    -- behind an event that was chained itself nothing is looked at
    (s.log.find? Item.scanned).bind fun x => if x.how = .due then some x.slot else none
  else none

/-- The time that an event registered in slot `e` for `et` gets. -/
def registeredTime (s : State F) (e : Slot) (et : Int) : Int :=
  if (s.lastExpiresAt e et).isSome then et + 1 else et

/-- An event for a later time does not take the slot whose handler runs when an event is chained
to it, and is not chained to an event for a later time that took that slot. -/
def Clear (s : State F) (e : Slot) (et : Int) : Prop :=
  ∀ i, s.running = some i →
    (e = i → (s.eventtab2 i).next = none ∨ s.registeredTime e et = s.currcycle) ∧
      (s.lastExpiresAt e et = some i → et = s.currcycle)

instance (s : State F) (e : Slot) (et : Int) : Decidable (s.Clear e et) :=
  inferInstanceAs (Decidable (∀ _, _))

variable [DecidableEq F]

/-- An event that is registered without a slot number: it stays below `EVT_MAX`, some slot is free
or holds this very event, and the slot that it is given is clear. -/
def Admits (s : State F) (t : Int) (data : BitVec 32) (func : F) : Prop :=
  (0 ≤ t ∧ t + s.currcycle + 1 < evtMax) ∧
    (∃ f, f ≠ ev2Blitter ∧ (¬ (s.eventtab2 f).active ∨ ((s.eventtab2 f).evtime = t + s.currcycle ∧
      (s.eventtab2 f).handler = func ∧ (s.eventtab2 f).data = data))) ∧
    s.Clear (slotFor s (t + s.currcycle) data func) (t + s.currcycle)

instance (s : State F) (t : Int) (data : BitVec 32) (func : F) : Decidable (s.Admits t data func) :=
  inferInstanceAs (Decidable (_ ∧ _ ∧ _))

end State

section Calls

variable [DecidableEq F]

/-- A call that leaves every event to its time. -/
def Call.Timely (s : State F) : Call F → Prop
  | .newevent none t data func => s.Admits t data func
  | .newevent (some no) t _ _ =>
    (0 ≤ t ∧ t + s.currcycle + 1 < evtMax) ∧ s.Clear no (t + s.currcycle)
  | .replace t data func => t ≤ 0 ∨ (s.removeAll func).Admits (t * cycleUnit) data func
  | .remove _ => True
  | .remevent _ => True

instance (s : State F) (c : Call F) : Decidable (c.Timely s) :=
  match c with
  | .newevent none _ _ _ => inferInstanceAs (Decidable (s.Admits _ _ _))
  | .newevent (some _) _ _ _ => inferInstanceAs (Decidable (_ ∧ _))
  | .replace _ _ _ => inferInstanceAs (Decidable (_ ∨ _))
  | .remove _ => isTrue trivial
  | .remevent _ => isTrue trivial

/-- The calls of a handler, as long as they are timely. -/
def runTimely (call : CallFunc F) (n : Nat) : Prog F → State F → Option (State F)
  | .done, s => some s
  | .call c rest, s =>
    if c.Timely s then do
      let s' ← exec call n c s
      runTimely call n (rest s') s'
    else none

/-- Calling a handler whose calls are timely, as those of the handlers that it calls are. -/
def callTimely (bodies : Bodies F) : Nat → CallFunc F
  | 0, _, _, _ => none
  | n + 1, func, data, s => runTimely (callTimely bodies n) n (bodies func data s) s

/-- What is asked of a top-level call: that it is timely itself, or a time below `EVT_MAX`. -/
def Op.Timely (s : State F) : Op F → Prop
  | .call c => c.Timely s
  | .cycles n => 0 ≤ n ∧ s.currcycle + n < evtMax

instance (s : State F) (op : Op F) : Decidable (op.Timely s) :=
  match op with
  | .call _ => inferInstanceAs (Decidable (Call.Timely _ _))
  | .cycles _ => inferInstanceAs (Decidable (_ ∧ _))

/-- A top-level call during which every call of the queue is timely. -/
def topTimely (bodies : Bodies F) (cpuThread : Bool) (n : Nat) (op : Op F) (s : State F) :
    Option (State F) :=
  if op.Timely s then
    match op with
    | .call c => exec (callTimely bodies n) n c s
    | .cycles cycles => doCyclesSlow (callTimely bodies n) n cpuThread cycles s
  else none

/-- The queue in runs whose calls are all timely. -/
def timelyQueue (bodies : Bodies F) (cpuThread : Bool) : Machine (State F) (Op F × Nat) Unit where
  legal s i := (topTimely bodies cpuThread i.2 i.1 s).isSome
  step s i :=
    match topLevel bodies cpuThread i.2 i.1 s with
    | some s' => .ok s'
    | none => .error ()

end Calls

/-! ### Calls that return more often -/

/-- Where the one returns the other returns the same. -/
def Follows (call call' : CallFunc F) : Prop :=
  ∀ func data s s', call func data s = some s' → call' func data s = some s'

section Follows

variable {call call' : CallFunc F}

theorem Follows.chain (h : Follows call call') {i : Slot} (hchain : chain call i s = some s') :
    Events.chain call' i s = some s' := by
  unfold Events.chain at hchain ⊢
  split at hchain
  · exact hchain
  · dsimp only at hchain ⊢
    split_ifs at hchain ⊢
    · exact h _ _ _ _ hchain
    · exact hchain

theorem Follows.visit (h : Follows call call') {ct : Int} {i : Slot} {p p' : Pass F}
    (hvisit : visit call ct i p = some p') : Events.visit call' ct i p = some p' := by
  unfold Events.visit at hvisit ⊢
  split_ifs at hvisit ⊢
  · obtain ⟨s1, hfire, hvisit⟩ := Option.bind_eq_some_iff.mp hvisit
    obtain ⟨s2, hchain, hvisit⟩ := Option.bind_eq_some_iff.mp hvisit
    exact Option.bind_eq_some_iff.mpr ⟨s1, h _ _ _ _ hfire,
      Option.bind_eq_some_iff.mpr ⟨s2, h.chain hchain, hvisit⟩⟩
  · exact hvisit
  · exact hvisit

theorem Follows.scan (h : Follows call call') {ct : Int} {is : List Slot} :
    ∀ {p p' : Pass F}, scan call ct is p = some p' → Events.scan call' ct is p = some p' := by
  induction is with
  | nil => exact id
  | cons i is ih =>
    intro p p' hscan
    obtain ⟨p1, hvisit, hscan⟩ := Option.bind_eq_some_iff.mp hscan
    exact Option.bind_eq_some_iff.mpr ⟨p1, h.visit hvisit, ih hscan⟩

theorem Follows.rescan (h : Follows call call') {ct : Int} {n : Nat} :
    ∀ {s : State F} {r : State F × Int}, rescan call ct n s = some r →
      Events.rescan call' ct n s = some r := by
  induction n with
  | zero => exact id
  | succ n ih =>
    intro s r hrescan
    obtain ⟨p, hscan, hrescan⟩ := Option.bind_eq_some_iff.mp hrescan
    refine Option.bind_eq_some_iff.mpr ⟨p, h.scan hscan, ?_⟩
    split_ifs at hrescan ⊢
    · exact ih hrescan
    · exact hrescan

theorem Follows.miscHandler (h : Follows call call') {n : Nat}
    (hmisc : miscHandler call n s = some s') : Events.miscHandler call' n s = some s' := by
  unfold Events.miscHandler at hmisc ⊢
  split_ifs at hmisc ⊢
  · exact hmisc
  · obtain ⟨r, hrescan, hmisc⟩ := Option.bind_eq_some_iff.mp hmisc
    exact Option.bind_eq_some_iff.mpr ⟨r, h.rescan hrescan, hmisc⟩

theorem Follows.evict (h : Follows call call') (hevict : evict call s = some s') :
    Events.evict call' s = some s' := by
  unfold Events.evict at hevict ⊢
  split at hevict
  · exact hevict
  · exact h _ _ _ _ hevict

variable [DecidableEq F]

theorem Follows.findSlot (h : Follows call call') {et : Int} {data : BitVec 32} {func : F}
    {n : Nat} : ∀ {no : Slot} {s : State F} {r : Slot × State F},
      findSlot call et data func n no s = some r →
        Events.findSlot call' et data func n no s = some r := by
  induction n with
  | zero => exact id
  | succ n ih =>
    intro no s r hfind
    rw [Events.findSlot] at hfind ⊢
    split_ifs at hfind ⊢
    · exact hfind
    · obtain ⟨s1, hevict, hfind⟩ := Option.bind_eq_some_iff.mp hfind
      exact Option.bind_eq_some_iff.mpr ⟨s1, h.evict hevict, ih hfind⟩
    · exact ih hfind

theorem Follows.newevent (h : Follows call call') {n : Nat} {no : Option Slot} {t : Int}
    {data : BitVec 32} {func : F} (hnew : newevent call n no t data func s = some s') :
    Events.newevent call' n no t data func s = some s' := by
  cases no with
  | some no => exact h.miscHandler hnew
  | none =>
    obtain ⟨r, hfind, hnew⟩ := Option.bind_eq_some_iff.mp hnew
    exact Option.bind_eq_some_iff.mpr ⟨r, h.findSlot hfind, h.miscHandler hnew⟩

theorem Follows.exec (h : Follows call call') {n : Nat} {c : Call F}
    (hexec : exec call n c s = some s') : Events.exec call' n c s = some s' := by
  cases c with
  | newevent no t data func => exact h.newevent hexec
  | replace t data func =>
    simp only [Events.exec, replace] at hexec ⊢
    split_ifs at hexec ⊢
    · exact h _ _ _ _ hexec
    · exact h.newevent hexec
  | remove func => exact hexec
  | remevent no => exact hexec

theorem Follows.runProg (h : Follows call call') {n : Nat} {p : Prog F} :
    ∀ {s : State F}, runTimely call n p s = some s' → runProg call' n p s = some s' := by
  induction p with
  | done => exact id
  | call c rest ih =>
    intro s hrun
    rw [runTimely] at hrun
    split_ifs at hrun
    obtain ⟨s1, hexec, hrun⟩ := Option.bind_eq_some_iff.mp hrun
    exact Option.bind_eq_some_iff.mpr ⟨s1, h.exec hexec, ih s1 hrun⟩

/-- Where all calls are timely a handler does what it does. -/
theorem follows_callTimely (bodies : Bodies F) (n : Nat) :
    Follows (callTimely bodies n) (callFunc bodies n) := by
  induction n with
  | zero => exact fun _ _ _ _ h => h
  | succ n ih => exact fun func data s s' h => ih.runProg h

omit [DecidableEq F] in
theorem Follows.runEvs (h : Follows call call') {n : Nat} {is : List EvId} :
    ∀ {s : State F}, runEvs call n is s = some s' → Events.runEvs call' n is s = some s' := by
  have hev : ∀ {i : EvId} {s s' : State F}, runEv call n i s = some s' →
      runEv call' n i s = some s' := by
    intro i s s' hrun
    unfold runEv at hrun ⊢
    split_ifs at hrun ⊢
    · cases i with
      | misc => exact h.miscHandler hrun
      | cia => exact hrun
      | hsync => exact hrun
      | hsynch => exact hrun
      | audio => exact hrun
    · exact hrun
  induction is with
  | nil => exact id
  | cons i is ih =>
    intro s hrun
    obtain ⟨s1, hfirst, hrun⟩ := Option.bind_eq_some_iff.mp hrun
    exact Option.bind_eq_some_iff.mpr ⟨s1, hev hfirst, ih hrun⟩

omit [DecidableEq F] in
theorem Follows.advance (h : Follows call call') {n k : Nat} :
    ∀ {cycles : Int} {s : State F}, advance call n k cycles s = some s' →
      Events.advance call' n k cycles s = some s' := by
  induction k with
  | zero => exact id
  | succ k ih =>
    intro cycles s hadv
    rw [Events.advance] at hadv ⊢
    split_ifs at hadv ⊢
    · obtain ⟨s1, hrun, hadv⟩ := Option.bind_eq_some_iff.mp hadv
      exact Option.bind_eq_some_iff.mpr ⟨s1, h.runEvs hrun, ih hadv⟩
    · exact hadv

/-- A top-level call whose calls are all timely is one of the queue. -/
theorem topTimely_eq {bodies : Bodies F} {cpuThread : Bool} {n : Nat} {op : Op F}
    (htop : topTimely bodies cpuThread n op s = some s') :
    op.Timely s ∧ topLevel bodies cpuThread n op s = some s' := by
  have hfollows := follows_callTimely bodies n
  unfold topTimely at htop
  split_ifs at htop with hok
  refine ⟨hok, ?_⟩
  cases op with
  | call c => exact hfollows.exec htop
  | cycles cycles =>
    simp only [topLevel, doCyclesSlow] at htop ⊢
    split_ifs at htop ⊢
    · exact hfollows.advance htop
    · exact htop
    · exact hfollows.advance htop

end Follows

/-! ### What a step does to the log -/

/-- Every event registered since number `b` is in a slot or in the log. -/
def State.Accounted (b : Nat) (s : State F) : Prop :=
  ∀ id, b ≤ id → id < s.serial →
    (∃ i, (s.eventtab2 i).active ∧ (s.eventtab2 i).id = id) ∨ ∃ x ∈ s.log, x.id = id

/-- Events left their slots at their time, and none is forgotten. -/
structure Prompt (s s' : State F) : Prop where
  next : s.next ≠ ev2Blitter → s'.next ≠ ev2Blitter
  log : ∃ l, s'.log = l ++ s.log ∧ ∀ x ∈ l, x.OnTime
  accounted : ∀ b, s.Accounted b → s'.Accounted b

/-- Where the log is the same, and the events are. -/
theorem Prompt.of_slots (hnext : s'.next = s.next) (hlog : s'.log = s.log)
    (hserial : s'.serial = s.serial) (hslot : ∀ i, (s.eventtab2 i).active →
      (s'.eventtab2 i).active ∧ (s'.eventtab2 i).id = (s.eventtab2 i).id) : Prompt s s' := by
  refine ⟨fun h => hnext ▸ h, ⟨[], hlog, fun _ hx => absurd hx List.not_mem_nil⟩,
    fun b h id hb hid => ?_⟩
  rcases h id hb (hserial ▸ hid) with ⟨i, hi, heq⟩ | hx
  · obtain ⟨hi', heq'⟩ := hslot i hi
    exact .inl ⟨i, hi', heq'.trans heq⟩
  · exact .inr (hlog ▸ hx)

theorem Prompt.of_eq (hnext : s'.next = s.next) (hlog : s'.log = s.log)
    (hserial : s'.serial = s.serial) (hslot : s'.eventtab2 = s.eventtab2) : Prompt s s' :=
  .of_slots hnext hlog hserial fun _ hi => ⟨hslot ▸ hi, hslot ▸ rfl⟩

/-- An event leaves its slot at its time. -/
theorem Prompt.retire {i : Slot} {how : How}
    (htime : Item.OnTime ⟨(s.eventtab2 i).id, (s.eventtab2 i).evtime, s.currcycle, how, i⟩) :
    Prompt s (s.retire i how) := by
  refine ⟨id, ⟨[⟨(s.eventtab2 i).id, (s.eventtab2 i).evtime, s.currcycle, how, i⟩], rfl,
    fun x hx => ?_⟩, fun b h id hb hid => ?_⟩
  · obtain rfl := List.mem_singleton.mp hx
    exact htime
  · rcases h id hb hid with ⟨j, hj, heq⟩ | ⟨x, hx, heq⟩
    · by_cases hij : j = i
      · exact .inr ⟨_, List.mem_cons_self, hij ▸ heq⟩
      · refine .inl ⟨j, ?_⟩
        simp only [State.retire, Function.update_of_ne hij]
        exact ⟨hj, heq⟩
    · exact .inr ⟨x, List.mem_cons_of_mem _ hx, heq⟩

/-- An event is put into a free slot. -/
theorem Prompt.fill {e : Slot} (hfree : (s.eventtab2 e).active = false) (et : Int)
    (data : BitVec 32) (func : F) : Prompt s (s.fill e et data func) := by
  refine ⟨id, ⟨[], rfl, fun _ hx => absurd hx List.not_mem_nil⟩, fun b h id hb hid => ?_⟩
  by_cases hnew : id = s.serial
  · refine .inl ⟨e, ?_⟩
    simp only [State.fill, Function.update_self]
    exact ⟨trivial, hnew.symm⟩
  · have hold : id < s.serial + 1 := hid
    rcases h id hb (by omega) with ⟨j, hj, heq⟩ | hx
    · have hne : j ≠ e := by
        rintro rfl
        exact absurd (hj.symm.trans hfree) (by simp)
      refine .inl ⟨j, ?_⟩
      simp only [State.fill, Function.update_of_ne hne]
      exact ⟨hj, heq⟩
    · exact .inr hx

theorem Prompt.setNext (s : State F) (i : Slot) (e : Option Slot) : Prompt s (s.setNext i e) := by
  refine .of_slots rfl rfl rfl fun j hj => ?_
  obtain ⟨hactive, -, hid⟩ := s.setNext_slot i e j
  exact ⟨hactive.symm ▸ hj, hid⟩

theorem Prompt.trans (h : Prompt s s') (h' : Prompt s' s'') : Prompt s s'' := by
  obtain ⟨l, hlog, htime⟩ := h.log
  obtain ⟨l', hlog', htime'⟩ := h'.log
  refine ⟨h'.next ∘ h.next, ⟨l' ++ l, by rw [hlog', hlog, List.append_assoc], fun x hx => ?_⟩,
    fun b => h'.accounted b ∘ h.accounted b⟩
  rcases List.mem_append.mp hx with hx | hx
  · exact htime' x hx
  · exact htime x hx

/-- Nothing behind slot `i` will be called too early. -/
def State.Safe (s : State F) (i : Slot) : Prop :=
  (s.eventtab2 i).next = none ∨ (s.eventtab2 i).evtime = s.currcycle

/-- What a call does while the scan of `MISC_handler` waits for the handler of a slot. -/
structure Fair (s s' : State F) : Prop extends Prompt s s' where
  recursive : s'.recursive = s.recursive
  running : s.recursive = true → s'.running = s.running
  safe : s.recursive = true → ∀ i, s.running = some i → s.Safe i → s'.Safe i

theorem Fair.trans (h : Fair s s') (h' : Fair s' s'') : Fair s s'' where
  toPrompt := h.toPrompt.trans h'.toPrompt
  recursive := h'.recursive.trans h.recursive
  running hr := (h'.running (h.recursive.trans hr)).trans (h.running hr)
  safe hr i hi hsafe := h'.safe (h.recursive.trans hr) i ((h.running hr).trans hi)
    (h.safe hr i hi hsafe)

/-- Where the slots and the log are the same. -/
theorem Fair.of_eq (hnext : s'.next = s.next) (hlog : s'.log = s.log)
    (hserial : s'.serial = s.serial) (hrec : s'.recursive = s.recursive)
    (hcyc : s'.currcycle = s.currcycle) (hslot : s'.eventtab2 = s.eventtab2) : Fair s s' where
  toPrompt := .of_eq hnext hlog hserial hslot
  recursive := hrec
  running _ := by rw [State.running, State.running, hrec, hlog]
  safe _ i _ hsafe := by
    rw [State.Safe, hslot, hcyc]
    exact hsafe

theorem State.retire_kept (s : State F) (i j : Slot) (how : How) :
    ((s.retire i how).eventtab2 j).next = (s.eventtab2 j).next ∧
      ((s.retire i how).eventtab2 j).evtime = (s.eventtab2 j).evtime := by
  by_cases hij : j = i
  · subst hij
    simp [State.retire]
  · simp [State.retire, Function.update_of_ne hij]

/-- Dropping an event. -/
theorem Fair.dropped (h : Pending s) {i : Slot} (hi : (s.eventtab2 i).active) {how : How}
    (hhow : how = .removed ∨ how = .replaced) : Fair s (s.retire i how) where
  toPrompt := by
    refine .retire ?_
    have hle := (h.evtime i hi).1
    rcases hhow with rfl | rfl
    · exact hle
    · exact hle
  recursive := rfl
  running _ := by
    have hskip : Item.scanned ⟨(s.eventtab2 i).id, (s.eventtab2 i).evtime, s.currcycle, how, i⟩ =
        false := by
      rcases hhow with rfl | rfl
      · rfl
      · rfl
    rw [State.running, State.running]
    -- the handler that the scan called last is further down the log
    change (if s.recursive then ((_ :: s.log).find? Item.scanned).bind _ else none) = _
    rw [List.find?_cons_of_neg (Bool.eq_false_iff.mp hskip)]
  safe _ j _ hsafe := by
    obtain ⟨hnext, htime⟩ := s.retire_kept i j how
    rw [State.Safe, hnext, htime]
    exact hsafe

/-- Filling a clear slot. -/
theorem Fair.place {e : Slot} {et : Int} (hfree : (s.eventtab2 e).active = false)
    (hclear : s.Clear e et) (data : BitVec 32) (func : F) :
    Fair s (match s.lastExpiresAt e et with
      | some l => (s.setNext l (some e)).fill e (et + 1) data func
      | none => s.fill e et data func) := by
  cases hlast : s.lastExpiresAt e et with
  | none =>
    refine ⟨.fill hfree et data func, rfl, fun _ => rfl, fun _ i hi hsafe => ?_⟩
    obtain ⟨hslot, -⟩ := hclear i hi
    rw [State.registeredTime, hlast] at hslot
    by_cases hie : i = e
    · subst hie
      simp only [State.Safe, State.fill, Function.update_self]
      exact hslot rfl
    · simp only [State.Safe, State.fill, Function.update_of_ne hie]
      exact hsafe
  | some l =>
    have hfree' : ((s.setNext l (some e)).eventtab2 e).active = false :=
      (s.setNext_slot l (some e) e).1.trans hfree
    refine ⟨(Prompt.setNext s l (some e)).trans (.fill hfree' (et + 1) data func), rfl,
      fun _ => rfl, fun _ i hi hsafe => ?_⟩
    obtain ⟨hslot, hchain⟩ := hclear i hi
    obtain ⟨-, hle, htime⟩ := State.lastExpiresAt_some hlast
    rw [State.registeredTime, hlast] at hslot
    by_cases hie : i = e
    · subst hie
      simp only [State.Safe, State.fill, Function.update_self, State.setNext,
        Function.update_of_ne (Ne.symm hle)]
      exact hslot rfl
    · by_cases hil : i = l
      · -- the event is chained to the one in this slot
        subst hil
        simp only [State.Safe, State.fill, Function.update_of_ne hie, State.setNext,
          Function.update_self]
        exact .inr (htime.symm.trans (hchain hlast))
      · simp only [State.Safe, State.fill, Function.update_of_ne hie, State.setNext,
          Function.update_of_ne hil]
        exact hsafe

theorem Fair.register (h : Live s) {e : Slot} {et : Int} (hclear : s.Clear e et)
    (data : BitVec 32) (func : F) : Fair s (s.register e et data func) := by
  rw [State.register]
  by_cases ha : (s.eventtab2 e).active = true
  · rw [if_pos ha]
    have hdrop : Fair s (s.retire e .replaced) := .dropped h.pending ha (.inr rfl)
    refine hdrop.trans (.place (by simp [State.retire]) (fun i hi => ?_) data func)
    have hsame : (s.retire e .replaced).running = s.running := by
      by_cases hr : s.recursive = true
      · exact hdrop.running hr
      · rw [State.running, if_neg (show ¬ (s.retire e .replaced).recursive = true from hr),
          State.running, if_neg hr]
    obtain ⟨hslot, hchain⟩ := hclear i (hsame ▸ hi)
    rw [State.registeredTime, State.lastExpiresAt_retire, (s.retire_kept e i .replaced).1]
    exact ⟨hslot, hchain⟩
  · rw [if_neg ha]
    exact .place (Bool.not_eq_true _ ▸ ha) hclear data func

theorem Fair.removeAll [DecidableEq F] (h : Live s) (func : F) : Fair s (s.removeAll func) := by
  unfold State.removeAll
  generalize slots = l
  induction l generalizing s with
  | nil => exact .of_eq rfl rfl rfl rfl rfl rfl
  | cons i l ih =>
    rw [List.foldl_cons]
    split_ifs with hi
    · have hw : Within s (s.retire i .removed) := .retire h i (by simp)
      exact (Fair.dropped h.pending hi.1 (.inl rfl)).trans (ih hw.live)
    · exact ih h

theorem Fair.remevent (h : Live s) (no : Slot) : Fair s (s.remevent no) := by
  unfold State.remevent
  split_ifs with hi
  · exact .dropped h.pending hi (.inl rfl)
  · exact .of_eq rfl rfl rfl rfl rfl rfl

/-! ### MISC_handler -/

/-- What is assumed of calls through function pointers, besides `CallSpec`. -/
def FairCalls (call : CallFunc F) : Prop :=
  ∀ func data s s', Live s → s.next ≠ ev2Blitter → call func data s = some s' → Fair s s'

section Scan

variable {call : CallFunc F}

/-- An event whose handler the scan calls. -/
theorem Prompt.fire (hfair : FairCalls call) {how : How} {i : Slot} (h : Live s)
    (hnext : s.next ≠ ev2Blitter) (hdue : how = .due → (s.eventtab2 i).evtime = s.currcycle)
    (htime : Item.OnTime ⟨(s.eventtab2 i).id, (s.eventtab2 i).evtime, s.currcycle, how, i⟩)
    (hfire : fire call how i s = some s') : Prompt s s' := by
  have hret : Prompt s (s.retire i how) := .retire htime
  exact hret.trans (hfair _ _ _ _ (Within.retire h i hdue).live hnext hfire).toPrompt

/-- The event behind slot `i` is called at the time of that slot, if at all. -/
theorem Prompt.chain (hfair : FairCalls call) {i : Slot} (h : Live s) (hnext : s.next ≠ ev2Blitter)
    (hsafe : s.Safe i) (hchain : chain call i s = some s') : Prompt s s' := by
  unfold Events.chain at hchain
  split at hchain
  · obtain rfl := Option.some.inj hchain
    exact .of_eq rfl rfl rfl rfl
  · rename_i j hlink
    -- the chained event is due a cycle after the one in slot `i`, and that one is due now
    have hunlink : Prompt s (s.setNext i none) := .setNext s i none
    obtain ⟨hactive, htime, -⟩ := s.setNext_slot i none j
    obtain ⟨-, htime', -⟩ := s.setNext_slot i none i
    have hnow : (s.eventtab2 i).evtime = s.currcycle :=
      hsafe.resolve_left fun hnone => by rw [hlink] at hnone; cases hnone
    dsimp only at hchain
    split_ifs at hchain with hj
    · refine hunlink.trans (.fire hfair (Within.setNext h i none).live hnext (by simp) ?_ hchain)
      have hbehind := hj.2
      rw [htime', hnow] at hbehind
      exact hbehind.symm
    · obtain rfl := Option.some.inj hchain
      exact hunlink

theorem Prompt.visit (hcall : CallSpec call) (hfair : FairCalls call) {ct : Int} {i : Slot}
    {p p' : Pass F} (hlive : Live p.state) (hrun : p.state.recursive = true)
    (hnow : p.state.currcycle = ct) (hnext : p.state.next ≠ ev2Blitter)
    (hvisit : visit call ct i p = some p') : Prompt p.state p'.state := by
  unfold Events.visit at hvisit
  split_ifs at hvisit with hactive hdue
  · obtain ⟨s1, hfire, hvisit⟩ := Option.bind_eq_some_iff.mp hvisit
    obtain ⟨s2, hchain, hvisit⟩ := Option.bind_eq_some_iff.mp hvisit
    have htime : (p.state.eventtab2 i).evtime = p.state.currcycle := hdue.trans hnow.symm
    have h1 : Prompt p.state s1 := by
      refine .fire hfair hlive hnext (fun _ => htime) ?_ hfire
      exact htime.symm
    have hw : Within p.state s1 := .fire hcall hlive (fun _ => htime) hfire
    -- while its handler runs, the slot is the one that is waited for
    have hsafe : s1.Safe i := by
      have hret : Within p.state (p.state.retire i .due) := .retire hlive i fun _ => htime
      refine (hfair _ _ _ _ hret.live hnext hfire).safe hrun i ?_ (.inr ?_)
      · rw [State.running, if_pos (show (p.state.retire i .due).recursive = true from hrun)]
        rfl
      · exact (p.state.retire_kept i i .due).2.trans htime
    have h2 : Prompt p.state s2 := h1.trans (.chain hfair hw.live (h1.next hnext) hsafe hchain)
    split_ifs at hvisit
    · obtain rfl := Option.some.inj hvisit
      exact h2.trans (.of_eq rfl rfl rfl rfl)
    · obtain rfl := Option.some.inj hvisit
      exact h2
  · obtain rfl := Option.some.inj hvisit
    exact .of_eq rfl rfl rfl rfl
  · obtain rfl := Option.some.inj hvisit
    exact .of_eq rfl rfl rfl rfl

theorem Prompt.scan (hcall : CallSpec call) (hfair : FairCalls call) {ct : Int} {is : List Slot} :
    ∀ {seen : List Slot} {p p' : Pass F}, Scanned ct seen s p → p.state.next ≠ ev2Blitter →
      scan call ct is p = some p' → Prompt p.state p'.state := by
  induction is with
  | nil =>
    intro seen p p' _ _ hscan
    obtain rfl := Option.some.inj hscan
    exact .of_eq rfl rfl rfl rfl
  | cons i is ih =>
    intro seen p p' hp hnext hscan
    obtain ⟨p1, hvisit, hscan⟩ := Option.bind_eq_some_iff.mp hscan
    have h1 := Prompt.visit hcall hfair hp.live hp.running hp.now hnext hvisit
    exact h1.trans (ih (hp.visit hcall hvisit) (h1.next hnext) hscan)

theorem Prompt.rescan (hcall : CallSpec call) (hfair : FairCalls call) {ct m : Int} {n : Nat} :
    ∀ {s s' : State F}, Live s → s.recursive = true → s.dorecheck = false → s.currcycle = ct →
      s.next ≠ ev2Blitter → rescan call ct n s = some (s', m) → Prompt s s' := by
  induction n with
  | zero => exact fun _ _ _ _ _ h => absurd h (by simp [Events.rescan])
  | succ n ih =>
    intro s s' hlive hrun hdo hnow hnext hrescan
    have hstart := Scanned.start hlive hrun hdo hnow
    obtain ⟨p, hscan, hrescan⟩ := Option.bind_eq_some_iff.mp hrescan
    have hp : Scanned ct slots s p := hstart.scan hcall hscan
    have h1 : Prompt s p.state := .scan hcall hfair hstart hnext hscan
    split_ifs at hrescan
    · exact h1.trans (ih hp.live hp.running hp.dorecheck hp.now (h1.next hnext) hrescan)
    · obtain ⟨rfl, -⟩ := Prod.mk.inj (Option.some.inj hrescan)
      exact h1

theorem Prompt.miscHandler (hcall : CallSpec call) (hfair : FairCalls call) {n : Nat}
    (hready : Ready s) (hnext : s.next ≠ ev2Blitter) (hmisc : miscHandler call n s = some s') :
    Prompt s s' := by
  rw [Events.miscHandler, if_neg (by simp [hready.recursive])] at hmisc
  obtain ⟨⟨s2, m⟩, hrescan, hmisc⟩ := Option.bind_eq_some_iff.mp hmisc
  have h2 : Prompt s.enterMisc s2 :=
    .rescan hcall hfair hready.enterMisc rfl hready.dorecheck rfl hnext hrescan
  have h1 : Prompt s s.enterMisc := .of_eq rfl rfl rfl rfl
  obtain rfl := Option.some.inj hmisc
  refine (h1.trans h2).trans ?_
  split_ifs
  · exact .of_eq rfl rfl rfl rfl
  · exact .of_eq rfl rfl rfl rfl

/-- Registering an event and calling `MISC_handler`, inside it or outside. -/
theorem Fair.registers (hcall : CallSpec call) (hfair : FairCalls call) {n : Nat} {e : Slot}
    {et : Int} {data : BitVec 32} {func : F} (h : Live s) (hnext : s.next ≠ ev2Blitter)
    (hle : s.currcycle ≤ et) (hlt : et + 1 < evtMax) (hclear : s.Clear e et)
    (hmisc : miscHandler call n (s.register e et data func) = some s') : Fair s s' := by
  have hplace : Fair s (s.register e et data func) := .register h hclear data func
  have hreg : Registers s (s.register e et data func) := .register h e hle hlt data func
  cases hr : s.recursive with
  | true =>
    -- inside `MISC_handler` the scan is only asked to look again
    rw [miscHandler_recursive (hreg.recursive.trans hr)] at hmisc
    obtain rfl := Option.some.inj hmisc
    exact hplace.trans (.of_eq rfl rfl rfl rfl rfl rfl)
  | false =>
    -- outside it no handler waits for the call to return
    have hready := Ready.of_registers h hr hreg
    obtain ⟨hsteady, -⟩ := miscHandler_steady hcall hready hmisc
    have hprompt := Prompt.miscHandler hcall hfair hready (hplace.next hnext) hmisc
    exact {
      toPrompt := hplace.toPrompt.trans hprompt
      recursive := hsteady.recursive.trans hreg.recursive
      running := fun ht => absurd (hr.symm.trans ht) Bool.false_ne_true
      safe := fun ht => absurd (hr.symm.trans ht) Bool.false_ne_true }

end Scan

/-! ### Calls of the queue -/

section Calls

variable {call : CallFunc F} [DecidableEq F]

/-- With a slot to hand out no event has to make room. -/
theorem findSlot_admitted {et : Int} {data : BitVec 32} {func : F} {n : Nat} {no' : Slot}
    (hroom : ∃ f, f ≠ ev2Blitter ∧ (¬ (s.eventtab2 f).active ∨ ((s.eventtab2 f).evtime = et ∧
      (s.eventtab2 f).handler = func ∧ (s.eventtab2 f).data = data)))
    (hnext : s.next ≠ ev2Blitter)
    (hfind : findSlot call et data func n s.next s = some (no', s')) :
    s' = s ∧ no' = slotFor s et data func ∧ no' ≠ ev2Blitter := by
  obtain ⟨f, hf, hfits⟩ := hroom
  obtain ⟨k, hlt, hk, hround⟩ := exists_succSlot hnext hf
  have hle : k < 12 := by omega
  obtain ⟨hsame, hslot, hne, -⟩ := findSlot_free hfits hle hk hround hnext hfind
  exact ⟨hsame, hslot, hne⟩

theorem Fair.admitted (hcall : CallSpec call) (hfair : FairCalls call) {n : Nat} {t : Int}
    {data : BitVec 32} {func : F} (h : Live s) (hnext : s.next ≠ ev2Blitter)
    (hok : s.Admits t data func) (hnew : newevent call n none t data func s = some s') :
    Fair s s' := by
  obtain ⟨⟨hpos, hmax⟩, hroom, hclear⟩ := hok
  obtain ⟨⟨no, s1⟩, hfind, hnew⟩ := Option.bind_eq_some_iff.mp hnew
  obtain ⟨rfl, rfl, hne⟩ := findSlot_admitted hroom hnext hfind
  have hset : Live { s1 with next := slotFor s1 (t + s1.currcycle) data func } :=
    h.of_removes rfl rfl rfl rfl rfl fun _ hi => ⟨hi, rfl⟩
  have hmove : Fair s1 { s1 with next := slotFor s1 (t + s1.currcycle) data func } := {
    next := fun _ => hne
    log := ⟨[], rfl, fun _ hx => absurd hx List.not_mem_nil⟩
    accounted := fun _ h => h
    recursive := rfl
    running := fun _ => rfl
    safe := fun _ _ _ hsafe => hsafe }
  exact hmove.trans (.registers hcall hfair hset hne
    (show s1.currcycle ≤ t + s1.currcycle by omega) hmax hclear hnew)

theorem Fair.exec (hcall : CallSpec call) (hfair : FairCalls call) {n : Nat} {c : Call F}
    (h : Live s) (hnext : s.next ≠ ev2Blitter) (hok : c.Timely s)
    (hexec : exec call n c s = some s') : Fair s s' := by
  cases c with
  | newevent no t data func =>
    cases no with
    | none => exact .admitted hcall hfair h hnext hok hexec
    | some no =>
      obtain ⟨⟨hpos, hmax⟩, hclear⟩ := hok
      exact .registers hcall hfair h hnext (by omega) hmax hclear hexec
  | replace t data func =>
    have hremove : Fair s (s.removeAll func) := .removeAll h func
    have hlive : Live (s.removeAll func) := (Within.removeAll h func).live
    simp only [Events.exec, replace] at hexec
    split_ifs at hexec with ht
    · exact hremove.trans (hfair _ _ _ _ hlive (hremove.next hnext) hexec)
    · exact hremove.trans (.admitted hcall hfair hlive (hremove.next hnext)
        (hok.resolve_left ht) hexec)
  | remove func =>
    obtain rfl := Option.some.inj hexec
    exact .removeAll h func
  | remevent no =>
    obtain rfl := Option.some.inj hexec
    exact .remevent h no

/-- A timely call keeps the invariant. -/
theorem Within.timely (hcall : CallSpec call) {n : Nat} {c : Call F} (h : Live s)
    (hok : c.Timely s) (hexec : Events.exec call n c s = some s') : Within s s' := by
  cases c with
  | newevent no t data func =>
    have hdelay : 0 ≤ t ∧ t + s.currcycle + 1 < evtMax := by
      cases no with
      | none => exact hok.1
      | some no => exact hok.1
    have hnew : Events.newevent call n no t data func s = some s' := hexec
    exact .newevent hcall h hdelay.1 hdelay.2 hnew
  | replace t data func =>
    have hw : Within s (s.removeAll func) := .removeAll h func
    simp only [Events.exec, replace] at hexec
    split_ifs at hexec with ht
    · exact hw.trans (hcall _ _ _ _ hw.live hexec)
    · obtain ⟨hpos, hmax⟩ := (hok.resolve_left ht).1
      exact hw.trans (.newevent hcall hw.live hpos hmax hexec)
  | remove func =>
    obtain rfl := Option.some.inj hexec
    exact .removeAll h func
  | remevent no =>
    obtain rfl := Option.some.inj hexec
    exact .remevent h no

theorem Within.runTimely (hcall : CallSpec call) {n : Nat} {p : Prog F} :
    ∀ {s s' : State F}, Live s → runTimely call n p s = some s' → Within s s' := by
  induction p with
  | done =>
    intro s s' h hrun
    obtain rfl := Option.some.inj hrun
    exact .refl h
  | call c rest ih =>
    intro s s' h hrun
    rw [Events.runTimely] at hrun
    split_ifs at hrun with hok
    obtain ⟨s1, hexec, hrun⟩ := Option.bind_eq_some_iff.mp hrun
    have hw : Within s s1 := .timely hcall h hok hexec
    exact hw.trans (ih s1 hw.live hrun)

theorem Fair.runTimely (hcall : CallSpec call) (hfair : FairCalls call) {n : Nat} {p : Prog F} :
    ∀ {s s' : State F}, Live s → s.next ≠ ev2Blitter → Events.runTimely call n p s = some s' →
      Fair s s' := by
  induction p with
  | done =>
    intro s s' _ _ hrun
    obtain rfl := Option.some.inj hrun
    exact .of_eq rfl rfl rfl rfl rfl rfl
  | call c rest ih =>
    intro s s' h hnext hrun
    rw [Events.runTimely] at hrun
    split_ifs at hrun with hok
    obtain ⟨s1, hexec, hrun⟩ := Option.bind_eq_some_iff.mp hrun
    have hfirst : Fair s s1 := .exec hcall hfair h hnext hok hexec
    exact hfirst.trans (ih s1 (Within.timely hcall h hok hexec).live (hfirst.next hnext) hrun)

/-- Handlers whose calls are timely keep the invariant, to any depth. -/
theorem callTimely_spec (bodies : Bodies F) (n : Nat) : CallSpec (callTimely bodies n) := by
  induction n with
  | zero => exact fun _ _ _ _ _ h => absurd h (by simp [callTimely])
  | succ n ih => exact fun func data s s' h hrun => .runTimely ih h hrun

theorem callTimely_fair (bodies : Bodies F) (n : Nat) : FairCalls (callTimely bodies n) := by
  induction n with
  | zero => exact fun _ _ _ _ _ _ h => absurd h (by simp [callTimely])
  | succ n ih =>
    exact fun func data s s' h hnext hrun => .runTimely (callTimely_spec bodies n) ih h hnext hrun

end Calls

/-! ### Time passing -/

section Cycles

variable {call : CallFunc F}

theorem Prompt.runEvs (hcall : CallSpec call) (hfair : FairCalls call) {n : Nat} (hready : Ready s)
    (hnext : s.next ≠ ev2Blitter) (hrun : runEvs call n EvId.all s = some s') : Prompt s s' := by
  simp only [EvId.all, Events.runEvs, runEv_inactive (hready.others .cia (by decide)),
    runEv_inactive (hready.others .hsync (by decide)),
    runEv_inactive (hready.others .hsynch (by decide)), bind, Option.bind_some] at hrun
  obtain ⟨s1, hmisc, hrun⟩ := Option.bind_eq_some_iff.mp hrun
  obtain ⟨s2, haudio, hrun⟩ := Option.bind_eq_some_iff.mp hrun
  obtain rfl := Option.some.inj hrun
  rw [runEv] at hmisc
  split_ifs at hmisc
  · obtain ⟨hsteady, hlive⟩ := miscHandler_steady hcall hready hmisc
    have hidle := hlive.idle (hsteady.recursive.trans hready.recursive)
    rw [runEv_inactive (hidle.others .audio (by decide))] at haudio
    obtain rfl := Option.some.inj haudio
    exact .miscHandler hcall hfair hready hnext hmisc
  · obtain rfl := Option.some.inj hmisc
    rw [runEv_inactive (hready.others .audio (by decide))] at haudio
    obtain rfl := Option.some.inj haudio
    exact .of_eq rfl rfl rfl rfl

theorem Prompt.advance (hcall : CallSpec call) (hfair : FairCalls call) {n k : Nat} :
    ∀ {cycles : Int} {s s' : State F}, Live s → s.recursive = false → 0 ≤ cycles →
      s.currcycle + cycles < evtMax → s.next ≠ ev2Blitter → advance call n k cycles s = some s' →
      Prompt s s' := by
  induction k with
  | zero => exact fun _ _ _ _ _ h => absurd h (by simp [Events.advance])
  | succ k ih =>
    intro cycles s s' hlive hr hpos hmax hnext hadv
    have hle := (hlive.idle hr).nextevent
    rw [Events.advance] at hadv
    split_ifs at hadv with hdue
    · obtain ⟨s1, hrun, hadv⟩ := Option.bind_eq_some_iff.mp hadv
      obtain ⟨hsteady, hlive1⟩ := runEvs_next hcall hlive hr (by omega) hrun
      have hcyc1 : s1.currcycle = s.nextevent := hsteady.currcycle
      have htick : Prompt s { s with currcycle := s.nextevent } := .of_eq rfl rfl rfl rfl
      have h1 : Prompt s s1 := htick.trans (.runEvs hcall hfair (hlive.readyNext hr) hnext hrun)
      have h2 : Prompt s s1.eventsSchedule := h1.trans (.of_eq rfl rfl rfl rfl)
      exact h2.trans (ih hlive1 (hsteady.recursive.trans hr) (by omega)
        (show s1.currcycle + _ < evtMax by omega) (h2.next hnext) hadv)
    · obtain rfl := Option.some.inj hadv
      exact .of_eq rfl rfl rfl rfl

variable [DecidableEq F]

/-- A top-level call whose calls are timely: time does not go back, no event is lost, and those
that left their slots did so at their time. -/
theorem AtRest.topTimely {bodies : Bodies F} {cpuThread : Bool} {n : Nat} {op : Op F}
    (h : AtRest s) (hnext : s.next ≠ ev2Blitter)
    (htop : topTimely bodies cpuThread n op s = some s') :
    AtRest s' ∧ s.currcycle ≤ s'.currcycle ∧ Keeps s s' ∧ Prompt s s' := by
  have hcall := callTimely_spec bodies n
  have hfair := callTimely_fair bodies n
  unfold Events.topTimely at htop
  split_ifs at htop with hok
  cases op with
  | call c =>
    have hw : Within s s' := .timely hcall h.live hok htop
    exact ⟨⟨hw.live, hw.recursive.trans h.recursive, hw.pissoff.symm ▸ h.pissoff⟩,
      hw.currcycle.ge, hw.keeps, (Fair.exec hcall hfair h.live hnext hok htop).toPrompt⟩
  | cycles cycles =>
    obtain ⟨hpos, hmax⟩ := hok
    have hpis := h.pissoff
    have hset : ∀ v, Live { s with pissoff := v } := fun v => h.live.setPissoff v
    have hkeep : ∀ v, Keeps s { s with pissoff := v } := fun v =>
      .of_eq rfl fun _ hi => ⟨hi, rfl, rfl⟩
    have hprompt : ∀ v, Prompt s { s with pissoff := v } := fun v => .of_eq rfl rfl rfl rfl
    -- what the loop does, from a state that differs in `pissoff` only
    have hloop : ∀ v c, 0 ≤ v → 0 ≤ c → s.currcycle + c < evtMax →
        advance (callTimely bodies n) n n c { s with pissoff := v } = some s' →
        AtRest s' ∧ s.currcycle ≤ s'.currcycle ∧ Keeps s s' ∧ Prompt s s' := by
      intro v c hv hc hbelow hadv
      obtain ⟨hlive, hr, hp, hcyc, hk⟩ := advance_live hcall (hset v) h.recursive hc hbelow hadv
      have hcyc' : s'.currcycle = s.currcycle + c := hcyc
      exact ⟨⟨hlive, hr, hp.symm ▸ hv⟩, by omega, (hkeep v).trans hk,
        (hprompt v).trans (.advance hcall hfair (hset v) h.recursive hc hbelow hnext hadv)⟩
    simp only [doCyclesSlow] at htop
    split_ifs at htop with hthread hidle
    · exact hloop _ _ (by decide) hpos hmax htop
    · obtain rfl := Option.some.inj htop
      exact ⟨⟨hset _, h.recursive, hidle⟩, Int.le_refl _, hkeep _, hprompt _⟩
    · exact hloop 0 (cycles - s.pissoff) (Int.le_refl 0) (by omega) (by omega) htop

end Cycles

/-! ### Runs -/

section Runs

variable [DecidableEq F]

/-- The invariant of runs whose calls are timely. -/
structure Punctual (b : Nat) (s : State F) : Prop where
  rest : AtRest s
  next : s.next ≠ ev2Blitter
  onTime : ∀ x ∈ s.log, x.OnTime
  accounted : s.Accounted b

theorem punctual_invariant (bodies : Bodies F) (cpuThread : Bool) (b : Nat) :
    (timelyQueue bodies cpuThread).Invariant (Punctual b) := by
  intro s i hs hlegal
  obtain ⟨s', htop⟩ := Option.isSome_iff_exists.mp hlegal
  obtain ⟨hrest, -, -, hprompt⟩ := hs.rest.topTimely hs.next htop
  refine ⟨s', by simp only [timelyQueue, (topTimely_eq htop).2], hrest, hprompt.next hs.next, ?_,
    hprompt.accounted b hs.accounted⟩
  obtain ⟨l, hlog, htime⟩ := hprompt.log
  intro x hx
  rw [hlog] at hx
  rcases List.mem_append.mp hx with hx | hx
  · exact htime x hx
  · exact hs.onTime x hx

omit [DecidableEq F] in
theorem Fresh.punctual (h : Fresh s) (hlog : s.log = []) (hnext : s.next ≠ ev2Blitter) :
    Punctual s.serial (start s) := by
  refine ⟨h.atRest, hnext, fun x hx => ?_, fun id hle hlt => absurd hlt (Nat.not_lt_of_le hle)⟩
  have hnone : x ∈ s.log := hx
  rw [hlog] at hnone
  exact absurd hnone List.not_mem_nil

/-- In runs whose calls are timely the schedule is right after every top-level call, every event
that was registered is in its slot or left it at its time, `currcycle` does not decrease, and it
comes to the time of no event that has not left its slot. -/
theorem events_on_time (bodies : Bodies F) (cpuThread : Bool) {s₀ : State F} (h₀ : Fresh s₀)
    (hlog₀ : s₀.log = []) (hnext : s₀.next ≠ ev2Blitter)
    (h : (timelyQueue bodies cpuThread).Reachable (start s₀) s) :
    Scheduled s ∧ (∀ x ∈ s.log, x.OnTime) ∧ s.Accounted s₀.serial ∧
      ∀ op n s', topTimely bodies cpuThread n op s = some s' →
        topLevel bodies cpuThread n op s = some s' ∧ Scheduled s' ∧ s.currcycle ≤ s'.currcycle ∧
        ∃ l, s'.log = l ++ s.log ∧ (∀ x ∈ l, x.OnTime) ∧
          ∀ i, (s.eventtab2 i).active → (s.eventtab2 i).evtime ≤ s'.currcycle →
            ∃ x ∈ l, x.id = (s.eventtab2 i).id ∧ x.evtime = (s.eventtab2 i).evtime := by
  have hs := (punctual_invariant bodies cpuThread _).reachable h (h₀.punctual hlog₀ hnext)
  refine ⟨hs.rest.scheduled, hs.onTime, hs.accounted, fun op n s' htop => ?_⟩
  obtain ⟨hrest, hcyc, ⟨l, hlog, hslot⟩, hprompt⟩ := hs.rest.topTimely hs.next htop
  obtain ⟨l', hlog', htime⟩ := hprompt.log
  obtain rfl : l' = l := List.append_cancel_right (hlog'.symm.trans hlog)
  refine ⟨(topTimely_eq htop).2, hrest.scheduled, hcyc, l', hlog, htime, fun i hi hpast => ?_⟩
  rcases hslot i hi with ⟨ha, -, het⟩ | ⟨x, hx, hid, het, -⟩
  · -- an event that is still there is in the future
    have hlate := hrest.lt_evtime ha
    omega
  · exact ⟨x, hx, hid, het⟩

instance (bodies : Bodies F) (cpuThread : Bool) (s : State F) (i : Op F × Nat) :
    Decidable ((timelyQueue bodies cpuThread).legal s i) := inferInstanceAs (Decidable (_ = true))

instance (s : State F) (op : Op F) : Decidable (op.Ok s) :=
  match op with
  | .call (.newevent _ _ _ _) => inferInstanceAs (Decidable (_ ∧ _))
  | .call (.replace _ _ _) => inferInstanceAs (Decidable (_ < _))
  | .call (.remove _) => isTrue trivial
  | .call (.remevent _) => isTrue trivial
  | .cycles _ => inferInstanceAs (Decidable (_ ∧ _))

instance (bodies : Bodies F) (cpuThread : Bool) (s : State F) (i : Op F × Nat) :
    Decidable ((queue bodies cpuThread).legal s i) := inferInstanceAs (Decidable (_ ∧ _))

end Runs

/-- Handler 1 registers an event for handler 2. -/
def bookingBodies : Bodies Nat := fun func _ _ =>
  if func = 1 then .call (.newevent none 5 0 2) fun _ => .done else .done

/-- Two events for the same time, of which the second one is chained to the first one. -/
def chainedPair : List (Op Nat × Nat) := [(inTen 1, 20), (inTen 2, 20)]

/-- The second one is called a cycle before its time, and the event of the handler at its time. -/
theorem events_on_time_chained : ∃ s s',
    (timelyQueue bookingBodies false).Reachable (start initial) s ∧
    topLevel bookingBodies false 20 (.cycles 20) s = some s' ∧ Scheduled s' ∧
    s'.log = [⟨2, 15, 15, .due, 3⟩, ⟨1, 11, 10, .chained, 2⟩, ⟨0, 10, 10, .due, 1⟩] := by
  have hlog : (((timelyQueue bookingBodies false).exec (start initial) chainedPair).bind
      (topTimely bookingBodies false 20 (.cycles 20))).map State.log =
        some [⟨2, 15, 15, .due, 3⟩, ⟨1, 11, 10, .chained, 2⟩, ⟨0, 10, 10, .due, 1⟩] := by
    decide +kernel
  obtain ⟨s', hboth, hlog'⟩ := Option.map_eq_some_iff.mp hlog
  obtain ⟨s, hexec, htop⟩ := Option.bind_eq_some_iff.mp hboth
  have hreach := Machine.reachable_of_exec hexec
  have hfresh : Fresh initial := ⟨by decide, by decide, rfl, rfl⟩
  obtain ⟨-, -, -, hnext⟩ := events_on_time bookingBodies false hfresh rfl (by decide) hreach
  obtain ⟨hrun, hscheduled, -⟩ := hnext (.cycles 20) 20 s' htop
  exact ⟨s, s', hreach, hrun, hscheduled, hlog'⟩

/-- Handler 0 registers two events for the same time. -/
def rebookingBodies : Bodies Nat := fun func _ _ =>
  if func = 0 then
    .call (.newevent none 100 0 1) fun _ => .call (.newevent none 100 0 2) fun _ => .done
  else .done

/-- The first of them takes the slot of the handler, and the second one is chained to it: it is
called at once. -/
theorem chained_event_too_early : ∃ s,
    (queue rebookingBodies false).Reachable (start initial) s ∧
    s.log = [⟨2, 111, 10, .chained, 2⟩, ⟨0, 10, 10, .due, 1⟩] ∧ ¬ ∀ x ∈ s.log, x.OnTime := by
  have hlog : ((queue rebookingBodies false).exec (start initial)
      [(inTen 0, 20), (.cycles 20, 20)]).map State.log =
        some [⟨2, 111, 10, .chained, 2⟩, ⟨0, 10, 10, .due, 1⟩] := by
    decide +kernel
  obtain ⟨s, hexec, hlog'⟩ := Option.map_eq_some_iff.mp hlog
  refine ⟨s, Machine.reachable_of_exec hexec, hlog', fun htime => ?_⟩
  have hearly := htime ⟨2, 111, 10, .chained, 2⟩ (hlog' ▸ List.mem_cons_self)
  exact absurd (show (10 : Int) + 1 = 111 from hearly) (by decide)

end LibretroUae.Events
