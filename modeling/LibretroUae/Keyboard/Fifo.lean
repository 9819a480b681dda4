import LibretroUae.Keyboard.Buffer
import LibretroUae.Lib.Machine

/-!
# LibretroUae.Keyboard.Fifo

**Delivery in order.** Every code that goes into the ring comes out of it in order, whatever the
steps are. `keys_available` may say that a key is there because text is waiting while the ring is
still empty. Then `get_next_key` depends on what the text puts into the ring, and
`keybuf_ignore_next_release` takes the release of an unqualified text key away before it gets there.
-/

namespace LibretroUae.Keyboard

open LibretroUae.Lib

variable {p : Prefs} {s s' : KeyBuf} {kc : Code} {direct : Bool}

/-! ### Key codes -/

/-- A code that says release. -/
def isRelease (kc : Code) : Bool := decide (scanCode kc &&& 0x80 ≠ 0)

theorem keyswap_release (k1 k2 : Code) (h1 : k1 &&& 0x80 = 0) (h2 : k2 &&& 0x80 = 0)
    (c : Code × Code) : (keyswap k1 k2 c).1 &&& 0x80 = c.1 &&& 0x80 := by
  have hkeep : ∀ k kcd : Code, k &&& 0x80 = 0 → (k ||| (kcd &&& 0x80)) &&& 0x80 = kcd &&& 0x80 := by
    intro k kcd hk
    rw [BitVec.and_or_distrib_right, hk, BitVec.and_assoc, BitVec.and_self]
    exact BitVec.zero_or
  unfold keyswap
  dsimp only
  split_ifs
  · exact hkeep _ _ h2
  · exact hkeep _ _ h1
  · rfl

/-- A swapped key is still down, or up. -/
theorem swapKeys_release (p : Prefs) (kc : Code) :
    (swapKeys p kc).1 &&& 0x80 = scanCode kc &&& 0x80 := by
  unfold swapKeys
  have h1 := keyswap_release 0x0d 0x0c (by decide) (by decide)
  have h2 := keyswap_release 0x2b 0x0d (by decide) (by decide)
  dsimp only
  split_ifs
  · rw [h2, h1]
  · rw [h2]
  · rw [h1]
  · rfl

theorem asked_eq (s : KeyBuf) (kc : Code) :
    s.asked kc false = (s.ignoreNextRelease && isRelease kc) := by
  rw [KeyBuf.asked, isRelease, Bool.not_false, Bool.true_and]

theorem kbLookup_mem (key : BitVec 8) : kbLookup key ∈ ⟨0, 0x40, 0x00⟩ :: kbtable := by
  unfold kbLookup
  cases hfind : kbtable.find? (fun k => k.ascii == key) with
  | none => exact List.mem_cons_self
  | some k => exact List.mem_cons_of_mem _ (List.mem_of_find?_eq_some hfind)

/-- The shape of a key event: all its codes are releases or none is, and it has a code of its own
and one more if it has a qualifier. -/
def KbTab.wellFormed (k : KbTab) (release : Bool) : Bool :=
  (k.scanCodes release).all (fun kc => isRelease kc == release) &&
    (k.scanCodes release).length == if k.qualified then 2 else 1

theorem kbLookup_wellFormed (key : BitVec 8) (release : Bool) :
    (kbLookup key).wellFormed release = true := by
  have htable : ((⟨0, 0x40, 0x00⟩ :: kbtable).all fun k =>
      k.wellFormed true && k.wellFormed false) = true := by
    decide
  have hrow := List.all_eq_true.mp htable _ (kbLookup_mem key)
  rw [Bool.and_eq_true] at hrow
  cases release with
  | true => exact hrow.1
  | false => exact hrow.2

theorem scanCodes_release (key : BitVec 8) (release : Bool) :
    ∀ kc ∈ (kbLookup key).scanCodes release, isRelease kc = release := by
  have hform := kbLookup_wellFormed key release
  rw [KbTab.wellFormed, Bool.and_eq_true, List.all_eq_true] at hform
  exact fun kc hkc => beq_iff_eq.mp (hform.1 kc hkc)

theorem scanCodes_length (key : BitVec 8) (release : Bool) :
    ((kbLookup key).scanCodes release).length = if (kbLookup key).qualified then 2 else 1 := by
  have hform := kbLookup_wellFormed key release
  rw [KbTab.wellFormed, Bool.and_eq_true] at hform
  exact beq_iff_eq.mp hform.2

/-! ### One call of `record_key` -/

@[simp] theorem accepted_nil : accepted [] = [] := rfl

@[simp] theorem accepted_append (xs ys : List Offer) :
    accepted (xs ++ ys) = accepted xs ++ accepted ys := List.filterMap_append

@[simp] theorem accepted_cons (x : Offer) (xs : List Offer) :
    accepted (x :: xs) = x.stored.toList ++ accepted xs := by
  cases h : x.stored <;> simp [accepted, h]

theorem store_contents (kc : Code) (s : KeyBuf) :
    (store kc s).buf.keybuf.contents = s.keybuf.contents ++ (store kc s).stored.toList := by
  unfold store
  split_ifs with hfull
  · exact (List.append_nil _).symm
  · exact Ring.contents_push kc (Bool.eq_false_iff.mpr hfull)

/-- What `record_key` stores goes behind what the ring holds. -/
theorem recordKey_contents (p : Prefs) (kc : Code) (direct : Bool) (s : KeyBuf) :
    (recordKey p kc direct s).buf.keybuf.contents =
      s.keybuf.contents ++ (recordKey p kc direct s).stored.toList := by
  unfold recordKey recordKeyDirect
  dsimp only
  split_ifs
  · exact (List.append_nil _).symm
  · exact (List.append_nil _).symm
  · exact store_contents _ s
  · exact (List.append_nil _).symm
  · exact store_contents _ { s with ignoreNextRelease := false }
  · exact store_contents _ s

theorem recordAll_contents (p : Prefs) (kcs : List Code) :
    ∀ s : KeyBuf, (recordAll p kcs s).1.keybuf.contents =
      s.keybuf.contents ++ accepted (recordAll p kcs s).2 := by
  induction kcs with
  | nil => intro s; exact (List.append_nil _).symm
  | cons kc kcs ih =>
    intro s
    rw [recordAll, accepted_cons, ih, recordKey_contents, offer, List.append_assoc]

/-- The machine has an unplugged keyboard, and neither a full ring nor a release to drop can be
given as the reason for losing the code. -/
def Loses (p : Prefs) (kc : Code) (direct : Bool) (s : KeyBuf) : Prop :=
  p.unplugged = true ∧ s.keybuf.isFull = false ∧ s.asked kc direct = false

instance (p : Prefs) (kc : Code) (direct : Bool) (s : KeyBuf) : Decidable (Loses p kc direct s) :=
  inferInstanceAs (Decidable (_ ∧ _ ∧ _))

/-- A code is rejected only for one of the two reasons. -/
def Offer.Fair (o : Offer) : Prop := o.stored = none → o.full = true ∨ o.asked = true

instance (o : Offer) : Decidable o.Fair := inferInstanceAs (Decidable (_ → _))

theorem store_stored (kc : Code) (s : KeyBuf) :
    (store kc s).stored = none ↔ s.keybuf.isFull = true := by
  unfold store
  split_ifs with hfull <;> simp [hfull]

theorem recordKey_unplugged (hpause : p.pauseEmulation = false) (h : p.unplugged = true) :
    recordKey p kc direct s = ⟨s, 1, none⟩ := by
  rw [recordKey, if_neg (by simp [hpause]), recordKeyDirect, if_pos h]

/-- With a keyboard plugged in there are just the two reasons. -/
theorem recordKey_stored (hpause : p.pauseEmulation = false) (h : p.unplugged = false) :
    (recordKey p kc direct s).stored = none ↔
      s.keybuf.isFull = true ∨ s.asked kc direct = true := by
  rw [recordKey, if_neg (by simp [hpause]), recordKeyDirect, if_neg (by simp [h])]
  unfold KeyBuf.asked
  rw [← swapKeys_release p kc]
  dsimp only
  split_ifs with hdirect hignore hrelease
  · simp [hdirect, store_stored]
  · refine iff_of_true rfl (Or.inr ?_)
    rw [Bool.and_eq_true, Bool.and_eq_true, Bool.not_eq_true', decide_eq_true_eq]
    exact ⟨⟨Bool.eq_false_iff.mpr hdirect, hignore⟩, hrelease⟩
  · rw [decide_eq_false hrelease, Bool.and_false]
    simp [store_stored]
  · simp [hignore, store_stored]

theorem offer_fair (hpause : p.pauseEmulation = false) :
    (offer p kc direct s).Fair ↔ ¬ Loses p kc direct s := by
  unfold Offer.Fair Loses offer
  cases h : p.unplugged with
  | true => simp [recordKey_unplugged hpause h, or_iff_not_imp_left]
  | false => simp [recordKey_stored hpause h]

theorem recordAll_fair (hpause : p.pauseEmulation = false) (kcs : List Code) :
    ∀ s : KeyBuf, (∀ o ∈ (recordAll p kcs s).2, o.Fair) ↔ ∀ kc ∈ kcs, ¬ Loses p kc false s := by
  cases h : p.unplugged with
  | true =>
    induction kcs with
    | nil => simp [recordAll]
    | cons kc kcs ih =>
      intro s
      rw [recordAll, recordKey_unplugged hpause h, List.forall_mem_cons, List.forall_mem_cons,
        offer_fair hpause, ih]
  | false =>
    have hnot : ∀ (kc : Code) (s : KeyBuf), ¬ Loses p kc false s := by
      intro kc s hloses
      exact absurd hloses.1 (by simp [h])
    induction kcs with
    | nil => simp [recordAll]
    | cons kc kcs ih =>
      intro s
      rw [recordAll, List.forall_mem_cons, offer_fair hpause, ih]
      simp [hnot]

/-! ### Key events of the text -/

theorem recordAll_unplugged (hpause : p.pauseEmulation = false) (h : p.unplugged = true)
    (kcs : List Code) (s : KeyBuf) : accepted (recordAll p kcs s).2 = [] := by
  induction kcs with
  | nil => rfl
  | cons kc kcs ih => rw [recordAll, accepted_cons, offer, recordKey_unplugged hpause h, ih]; rfl

/-- The order to drop a release stands for one code that is not direct. -/
theorem recordKey_ignore (hpause : p.pauseEmulation = false) (h : p.unplugged = false) :
    (recordKey p kc false s).buf.ignoreNextRelease = false := by
  rw [recordKey, if_neg (by simp [hpause]), recordKeyDirect, if_neg (by simp [h]), if_neg (by simp)]
  dsimp only [store]
  split_ifs with hignore
  · rfl
  · rfl
  · rfl
  · exact Bool.eq_false_iff.mpr hignore
  · exact Bool.eq_false_iff.mpr hignore

theorem not_isFull_of_empty (h : s.keybuf.contents = []) : s.keybuf.isFull = false := by
  refine Bool.eq_false_iff.mpr (fun hfull => ?_)
  have hcount := Ring.isFull_iff.mp hfull
  rw [← Ring.length_contents, h] at hcount
  exact absurd hcount (by decide)

/-- A key event leaves an empty ring empty when it is the release of an unqualified key and the
next release is to be dropped. A qualified key has a second code that is no longer dropped. -/
theorem keytoscancode_stuck (hpause : p.pauseEmulation = false) (h : p.unplugged = false)
    (hempty : s.keybuf.contents = []) (key : BitVec 8) (release : Bool) :
    accepted (keytoscancode p key release s).2 = [] ↔
      release = true ∧ s.ignoreNextRelease = true ∧ (kbLookup key).qualified = false := by
  have hrelease := scanCodes_release key release
  have hlength := scanCodes_length key release
  have hfull := not_isFull_of_empty hempty
  unfold keytoscancode
  generalize (kbLookup key).scanCodes release = kcs at hrelease hlength
  cases hqual : (kbLookup key).qualified with
  | false =>
    rw [hqual] at hlength
    obtain ⟨c, rfl⟩ := List.length_eq_one_iff.mp hlength
    have hc := hrelease c (by simp)
    have hstored := @recordKey_stored p s c false hpause h
    rw [hfull, asked_eq, hc] at hstored
    simp only [recordAll, accepted_cons, accepted_nil, List.append_nil, offer,
      Option.toList_eq_nil_iff, hstored]
    simp [and_comm]
  | true =>
    rw [hqual] at hlength
    obtain ⟨c, d, rfl⟩ := List.length_eq_two.mp hlength
    simp only [recordAll, accepted_cons, accepted_nil, List.append_nil, offer,
      List.append_eq_nil_iff, Option.toList_eq_nil_iff]
    refine iff_of_false (fun hnone => ?_) (by simp)
    -- the second code meets an empty ring and no order to drop it
    have hcontents := recordKey_contents p c false s
    rw [hnone.1, hempty] at hcontents
    have hsecond := (recordKey_stored hpause h).mp hnone.2
    rw [not_isFull_of_empty hcontents, asked_eq, recordKey_ignore hpause h] at hsecond
    simp at hsecond

/-! ### `get_next_key` -/

/-- The codes of the key event that `get_next_key` is about to record. -/
def KeyBuf.injection (s : KeyBuf) : List Code :=
  if s.keyinjectDo then
    if s.keyinjectState then (kbLookup s.keyinjectPrevious).scanCodes true
    else
      match s.keyinject with
      | [] => []
      | key :: _ => (kbLookup key).scanCodes false
  else []

theorem injectKey_contents (p : Prefs) (s : KeyBuf) :
    (injectKey p s).1.keybuf.contents = s.keybuf.contents ++ accepted (injectKey p s).2 := by
  unfold injectKey keytoscancode
  split_ifs
  · rw [recordAll_contents]
  · cases s.keyinject with
    | nil => exact (List.append_nil _).symm
    | cons key rest => exact recordAll_contents _ _ _
  · exact (List.append_nil _).symm

theorem injectKey_fair (hpause : p.pauseEmulation = false) :
    (∀ o ∈ (injectKey p s).2, o.Fair) ↔ ∀ kc ∈ s.injection, ¬ Loses p kc false s := by
  unfold injectKey keytoscancode KeyBuf.injection
  split_ifs
  · exact recordAll_fair hpause _ _
  · cases s.keyinject with
    | nil => simp
    | cons key rest => exact recordAll_fair hpause _ _
  · simp

/-- What has to hold of the buffer for the injected key event to leave a code in an empty ring. -/
structure Feeds (p : Prefs) (s : KeyBuf) : Prop where
  plugged : p.unplugged = false
  kept : ¬ (s.keyinjectState = true ∧ s.ignoreNextRelease = true ∧
    (kbLookup s.keyinjectPrevious).qualified = false)

theorem injectKey_feeds (hpause : p.pauseEmulation = false) (hempty : s.keybuf.contents = [])
    (hdo : s.keyinjectDo = true) (htext : s.injecting = true) :
    accepted (injectKey p s).2 ≠ [] ↔ Feeds p s := by
  cases h : p.unplugged with
  | true =>
    refine iff_of_false (fun hne => hne ?_) (fun hfeeds => by simpa [h] using hfeeds.plugged)
    unfold injectKey keytoscancode
    split_ifs
    · exact recordAll_unplugged hpause h _ _
    · cases s.keyinject with
      | nil => rfl
      | cons key rest => exact recordAll_unplugged hpause h _ _
  | false =>
    rw [injectKey, if_pos hdo]
    cases hstate : s.keyinjectState with
    | true =>
      rw [if_pos rfl, ne_eq, keytoscancode_stuck hpause h (by exact hempty)]
      exact ⟨fun hnot => ⟨h, by rw [hstate]; exact hnot⟩,
        fun hfeeds => by have hkept := hfeeds.kept; rwa [hstate] at hkept⟩
    | false =>
      cases hkeys : s.keyinject with
      | nil => simp [KeyBuf.injecting, hstate, hkeys] at htext
      | cons key rest =>
        rw [if_neg (by simp), ne_eq, keytoscancode_stuck hpause h (by exact hempty)]
        exact iff_of_true (by simp) ⟨h, by simp [hstate]⟩

@[simp] theorem canInject_keybuf (vpos : Int) (s : KeyBuf) :
    (canInject vpos s).1.keybuf = s.keybuf := by
  unfold canInject
  split_ifs <;> rfl

theorem canInject_injecting (vpos : Int) (s : KeyBuf) :
    (canInject vpos s).1.injecting = s.injecting := by
  unfold canInject
  split_ifs <;> rfl

theorem canInject_do {vpos : Int} (h : (canInject vpos s).2 = true) :
    (canInject vpos s).1.keyinjectDo = true := by
  unfold canInject at h ⊢
  split_ifs at h ⊢
  rfl

@[simp] theorem keysAvailable_keybuf (vpos : Int) (s : KeyBuf) :
    (keysAvailable vpos s).1.keybuf = s.keybuf := canInject_keybuf vpos s

/-- A key that is there while the ring is empty is to come from the text. -/
theorem keysAvailable_text {vpos : Int} (h : (keysAvailable vpos s).2 = true)
    (hempty : s.keybuf.contents = []) :
    (keysAvailable vpos s).1.keyinjectDo = true ∧ (keysAvailable vpos s).1.injecting = true := by
  unfold keysAvailable at h ⊢
  dsimp only at h ⊢
  rw [Ring.isEmpty_iff.mpr hempty] at h
  split_ifs at h with htext
  · rw [Bool.and_eq_true] at htext
    exact ⟨canInject_do htext.1, htext.2⟩
  · simp at h

@[simp] theorem delayRelease_keybuf (p : Prefs) (vpos : Int) (key : Code) (s : KeyBuf) :
    (delayRelease p vpos key s).keybuf = s.keybuf := by
  unfold delayRelease
  dsimp only
  split_ifs
  · exact keysAvailable_keybuf vpos _
  · exact keysAvailable_keybuf vpos _
  · rfl

/-- The assertion holds exactly when the ring or the injected event has a code. -/
theorem getNextKey_ok (p : Prefs) (vpos : Int) (s : KeyBuf) :
    (∃ r, getNextKey p vpos s = .ok r) ↔
      (s.keybuf.contents = [] → accepted (injectKey p s).2 ≠ []) := by
  unfold getNextKey
  dsimp only
  have hcontents := injectKey_contents p s
  split_ifs with hempty
  · rw [Ring.isEmpty_iff, hcontents, List.append_eq_nil_iff] at hempty
    simp [hempty]
  · rw [Ring.isEmpty_iff, hcontents, List.append_eq_nil_iff] at hempty
    exact iff_of_true ⟨_, rfl⟩ (fun h h' => hempty ⟨h, h'⟩)

/-- The key that comes out is the oldest code. -/
theorem getNextKey_eq {vpos : Int} {key : Code} {offers : List Offer}
    (h : getNextKey p vpos s = .ok (key, s', offers)) :
    offers = (injectKey p s).2 ∧
      s.keybuf.contents ++ accepted offers = key :: s'.keybuf.contents := by
  unfold getNextKey at h
  dsimp only at h
  split_ifs at h with hempty
  rw [Except.ok.injEq, Prod.mk.injEq, Prod.mk.injEq] at h
  obtain ⟨rfl, rfl, rfl⟩ := h
  refine ⟨rfl, ?_⟩
  rw [← injectKey_contents, delayRelease_keybuf, Ring.contents_pop (Bool.eq_false_iff.mpr hempty)]

/-! ### Runs -/

/-- The condition on a step, in the state before it. For `get_next_key` this is the state that
`keys_available` leaves. -/
def Meets (s : KeyBuf) : Prefs × Input → Prop
  | (p, .record kc direct) => ¬ Loses p kc direct s
  | (p, .vsync) => s.delayedReleasedTime = 1 → ¬ Loses p s.delayedReleasedCode false s
  | (p, .consume vpos) =>
    (keysAvailable vpos s).2 = true →
      (s.keybuf.contents = [] → Feeds p (keysAvailable vpos s).1) ∧
        ∀ kc ∈ (keysAvailable vpos s).1.injection, ¬ Loses p kc false (keysAvailable vpos s).1
  | _ => True

/-- The delivered codes and the ring together are the accepted codes. -/
def Session.Fifo (t : Session) : Prop :=
  accepted t.offers = t.delivered ++ t.buf.keybuf.contents

theorem keybufVsync_contents (p : Prefs) (s : KeyBuf) :
    (keybufVsync p s).1.keybuf.contents =
      s.keybuf.contents ++ accepted (keybufVsync p s).2 := by
  unfold keybufVsync
  dsimp only
  split_ifs
  · rw [recordKey_contents, accepted_cons, accepted_nil, List.append_nil, offer]
  · exact (List.append_nil _).symm
  · exact (List.append_nil _).symm

theorem keybufVsync_fair (hpause : p.pauseEmulation = false) :
    (∀ o ∈ (keybufVsync p s).2, o.Fair) ↔
      (s.delayedReleasedTime = 1 → ¬ Loses p s.delayedReleasedCode false s) := by
  unfold keybufVsync
  dsimp only
  split_ifs with hpos hend
  · have htime : s.delayedReleasedTime = 1 := by omega
    rw [List.forall_mem_singleton, offer_fair hpause]
    exact ⟨fun h _ => h, fun h => h htime⟩
  · exact iff_of_true (by simp) (fun htime => absurd htime (by omega))
  · exact iff_of_true (by simp) (fun htime => absurd htime (by omega))

theorem keybufInject_keybuf (txt : List (BitVec 8)) (s : KeyBuf) :
    (keybufInject txt s).keybuf = s.keybuf := by
  unfold keybufInject
  dsimp only
  split_ifs <;> rfl

/-- Every step keeps the order, whether it meets the condition or not. -/
theorem step_fifo {t t' : Session} {i : Prefs × Input} (ht : t.Fifo)
    (h : step t i = .ok t') : t'.Fifo := by
  obtain ⟨p, input⟩ := i
  unfold Session.Fifo at ht ⊢
  cases input with
  | record kc direct =>
    obtain rfl := Except.ok.inj h
    rw [accepted_append, ht, accepted_cons, accepted_nil, List.append_nil, recordKey_contents,
      List.append_assoc, offer]
  | inject txt =>
    obtain rfl := Except.ok.inj h
    rw [ht, keybufInject_keybuf]
  | ignoreNextRelease =>
    obtain rfl := Except.ok.inj h
    exact ht
  | vsync =>
    simp only [step] at h
    obtain rfl := Except.ok.inj h
    rw [accepted_append, ht, keybufVsync_contents, List.append_assoc]
  | poll vpos =>
    obtain rfl := Except.ok.inj h
    rw [ht, keysAvailable_keybuf]
  | consume vpos =>
    simp only [step] at h
    split_ifs at h
    · cases hkey : getNextKey p vpos (keysAvailable vpos t.buf).1 with
      | error e => rw [hkey] at h; cases h
      | ok r =>
        obtain ⟨key, s, offers⟩ := r
        rw [hkey] at h
        obtain rfl := Except.ok.inj h
        have hout := (getNextKey_eq hkey).2
        rw [keysAvailable_keybuf] at hout
        rw [accepted_append, ht, List.append_assoc, hout, List.append_assoc, List.singleton_append]
    · obtain rfl := Except.ok.inj h
      rw [ht, keysAvailable_keybuf]

/-- A step goes through and gives no unfair rejection exactly when it meets the condition. -/
theorem step_iff {t : Session} {i : Prefs × Input} (hpause : i.1.pauseEmulation = false) :
    (∃ t', step t i = .ok t' ∧ ∀ o ∈ t'.offers, o.Fair) ↔
      (∀ o ∈ t.offers, o.Fair) ∧ Meets t.buf i := by
  obtain ⟨p, input⟩ := i
  change p.pauseEmulation = false at hpause
  have hok : ∀ u : Session, (∃ t', (.ok u : Except Fault Session) = .ok t' ∧
      ∀ o ∈ t'.offers, o.Fair) ↔ ∀ o ∈ u.offers, o.Fair := by
    intro u
    exact ⟨fun ⟨_, hu, h⟩ => Except.ok.inj hu ▸ h, fun h => ⟨u, rfl, h⟩⟩
  cases input with
  | record kc direct =>
    rw [step, hok, List.forall_mem_append, List.forall_mem_singleton, offer_fair hpause]
    rfl
  | inject txt => simp [step, Meets]
  | ignoreNextRelease => simp [step, Meets]
  | vsync =>
    rw [step, hok, List.forall_mem_append, keybufVsync_fair hpause]
    rfl
  | poll vpos => simp [step, Meets]
  | consume vpos =>
    simp only [step, Meets]
    split_ifs with hval
    · have hready := getNextKey_ok p vpos (keysAvailable vpos t.buf).1
      rw [keysAvailable_keybuf] at hready
      have hfeeds : (t.buf.keybuf.contents = [] →
          accepted (injectKey p (keysAvailable vpos t.buf).1).2 ≠ []) ↔
          (t.buf.keybuf.contents = [] → Feeds p (keysAvailable vpos t.buf).1) := by
        refine forall_congr' (fun hempty => ?_)
        obtain ⟨hdo, htext⟩ := keysAvailable_text hval hempty
        exact injectKey_feeds hpause (by rw [keysAvailable_keybuf, hempty]) hdo htext
      rw [← injectKey_fair hpause, ← hfeeds, ← hready]
      simp only [hval, true_imp_iff]
      cases hkey : getNextKey p vpos (keysAvailable vpos t.buf).1 with
      | error e =>
        refine iff_of_false ?_ ?_
        · rintro ⟨t', h, -⟩
          cases h
        · rintro ⟨-, ⟨r, hr⟩, -⟩
          cases hr
      | ok r =>
        obtain ⟨key, s, offers⟩ := r
        have hoffers := (getNextKey_eq hkey).1
        subst hoffers
        change (∃ t', Except.ok _ = Except.ok t' ∧ _) ↔ _
        rw [hok, List.forall_mem_append]
        simp
    · rw [hok]
      simp [hval]

/-- All steps of a run meet the condition. -/
def RunMeets : Session → List (Prefs × Input) → Prop
  | _, [] => True
  | t, i :: is => Meets t.buf i ∧ ∀ t', step t i = .ok t' → RunMeets t' is

theorem run_cons (t : Session) (i : Prefs × Input) (is : List (Prefs × Input)) :
    run t (i :: is) = step t i >>= fun t' => run t' is := List.foldlM_cons

/-- A fair history was fair all along. -/
theorem run_fair {is : List (Prefs × Input)} : ∀ {t t' : Session},
    (∀ i ∈ is, i.1.pauseEmulation = false) → run t is = .ok t' →
    (∀ o ∈ t'.offers, o.Fair) → ∀ o ∈ t.offers, o.Fair := by
  induction is with
  | nil =>
    intro t t' _ h hfair
    obtain rfl := Except.ok.inj h
    exact hfair
  | cons i is ih =>
    intro t t' hpause h hfair
    rw [List.forall_mem_cons] at hpause
    rw [run_cons] at h
    cases hstep : step t i with
    | error e => rw [hstep] at h; cases h
    | ok t1 =>
      rw [hstep] at h
      exact ((step_iff hpause.1).mp ⟨t1, hstep, ih hpause.2 h hfair⟩).1

theorem run_iff {is : List (Prefs × Input)} : ∀ {t : Session},
    (∀ i ∈ is, i.1.pauseEmulation = false) → (∀ o ∈ t.offers, o.Fair) → t.Fifo →
    ((∃ t', run t is = .ok t' ∧ (∀ o ∈ t'.offers, o.Fair) ∧ t'.Fifo) ↔ RunMeets t is) := by
  induction is with
  | nil =>
    intro t _ hfair hfifo
    exact iff_of_true ⟨t, rfl, hfair, hfifo⟩ trivial
  | cons i is ih =>
    intro t hpause hfair hfifo
    rw [List.forall_mem_cons] at hpause
    have hone := step_iff (t := t) hpause.1
    rw [run_cons, RunMeets]
    constructor
    · rintro ⟨t', hrun, hfair', hfifo'⟩
      cases hstep : step t i with
      | error e => rw [hstep] at hrun; cases hrun
      | ok t1 =>
        rw [hstep] at hrun
        have hfair1 := run_fair hpause.2 hrun hfair'
        refine ⟨(hone.mp ⟨t1, hstep, hfair1⟩).2, ?_⟩
        rintro t2 heq
        obtain rfl := Except.ok.inj heq
        exact (ih hpause.2 hfair1 (step_fifo hfifo hstep)).mp ⟨t', hrun, hfair', hfifo'⟩
    · rintro ⟨hmeets, hrest⟩
      obtain ⟨t1, hstep, hfair1⟩ := hone.mpr ⟨hfair, hmeets⟩
      rw [hstep]
      exact (ih hpause.2 hfair1 (step_fifo hfifo hstep)).mpr (hrest t1 hstep)

/-- From any initialisation on, no run fails its assertion or loses a code, and the codes come out
in order, exactly when every step meets its condition. -/
theorem keyboard_fifo_iff (s : KeyBuf) (is : List (Prefs × Input))
    (hpause : ∀ i ∈ is, i.1.pauseEmulation = false) :
    (∃ t, run (.start s) is = .ok t ∧ (∀ o ∈ t.offers, o.Fair) ∧
      accepted t.offers = t.delivered ++ t.buf.keybuf.contents) ↔ RunMeets (.start s) is :=
  run_iff hpause (by simp [Session.start]) rfl

/-! ### With a keyboard plugged in -/

theorem store_ignoreNextRelease (kc : Code) (s : KeyBuf) :
    (store kc s).buf.ignoreNextRelease = s.ignoreNextRelease := by
  unfold store
  split_ifs <;> rfl

theorem recordKey_ignoreNextRelease (h : s.ignoreNextRelease = false) :
    (recordKey p kc direct s).buf.ignoreNextRelease = false := by
  unfold recordKey recordKeyDirect
  simp only [h, Bool.false_eq_true, if_false]
  split_ifs
  · exact h
  · exact h
  · exact (store_ignoreNextRelease kc s).trans h
  · exact (store_ignoreNextRelease _ s).trans h

theorem recordAll_ignoreNextRelease (kcs : List Code) (h : s.ignoreNextRelease = false) :
    (recordAll p kcs s).1.ignoreNextRelease = false := by
  induction kcs generalizing s with
  | nil => exact h
  | cons kc kcs ih => exact ih (recordKey_ignoreNextRelease h)

theorem keysAvailable_ignoreNextRelease (vpos : Int) (s : KeyBuf) :
    (keysAvailable vpos s).1.ignoreNextRelease = s.ignoreNextRelease := by
  unfold keysAvailable canInject
  split_ifs <;> rfl

theorem injectKey_ignoreNextRelease (h : s.ignoreNextRelease = false) :
    (injectKey p s).1.ignoreNextRelease = false := by
  unfold injectKey keytoscancode
  split_ifs
  · exact recordAll_ignoreNextRelease _ h
  · cases s.keyinject with
    | nil => exact h
    | cons key rest => exact recordAll_ignoreNextRelease _ h
  · exact h

theorem delayRelease_ignoreNextRelease (p : Prefs) (vpos : Int) (key : Code) (s : KeyBuf) :
    (delayRelease p vpos key s).ignoreNextRelease = s.ignoreNextRelease := by
  unfold delayRelease
  dsimp only
  split_ifs <;> first | exact keysAvailable_ignoreNextRelease vpos _ | rfl

theorem keybufVsync_ignoreNextRelease (h : s.ignoreNextRelease = false) :
    (keybufVsync p s).1.ignoreNextRelease = false := by
  unfold keybufVsync
  dsimp only
  split_ifs <;> first | exact recordKey_ignoreNextRelease h | exact h

theorem getNextKey_ignoreNextRelease {vpos : Int} {key : Code} {s' : KeyBuf} {offers : List Offer}
    (h : s.ignoreNextRelease = false) (hkey : getNextKey p vpos s = .ok (key, s', offers)) :
    s'.ignoreNextRelease = false := by
  unfold getNextKey at hkey
  dsimp only at hkey
  split_ifs at hkey
  obtain ⟨-, rfl, -⟩ := by simpa using hkey
  rw [delayRelease_ignoreNextRelease]
  exact injectKey_ignoreNextRelease h

/-- Only the debugger asks for a release to be dropped. -/
theorem step_ignoreNextRelease {t t' : Session} {i : Prefs × Input}
    (h : t.buf.ignoreNextRelease = false) (hi : i.2 ≠ .ignoreNextRelease)
    (hstep : step t i = .ok t') : t'.buf.ignoreNextRelease = false := by
  obtain ⟨p, input⟩ := i
  cases input with
  | record kc direct =>
    obtain rfl := Except.ok.inj hstep
    exact recordKey_ignoreNextRelease h
  | inject txt =>
    obtain rfl := Except.ok.inj hstep
    change (keybufInject txt t.buf).ignoreNextRelease = false
    unfold keybufInject
    dsimp only
    split_ifs <;> exact h
  | ignoreNextRelease => exact absurd rfl hi
  | vsync =>
    obtain rfl := Except.ok.inj hstep
    exact keybufVsync_ignoreNextRelease h
  | poll vpos =>
    obtain rfl := Except.ok.inj hstep
    exact (keysAvailable_ignoreNextRelease vpos _).trans h
  | consume vpos =>
    have havail := (keysAvailable_ignoreNextRelease vpos t.buf).trans h
    unfold step at hstep
    dsimp only at hstep
    split_ifs at hstep
    · obtain ⟨⟨key, s', offers⟩, hkey, hret⟩ := ok_of_bind hstep
      obtain rfl := Except.ok.inj hret
      exact getNextKey_ignoreNextRelease havail hkey
    · obtain rfl := Except.ok.inj hstep
      exact havail

theorem meets_of_plugged {i : Prefs × Input} (hplugged : i.1.unplugged = false)
    (h : s.ignoreNextRelease = false) : Meets s i := by
  have hkept : ∀ {kc direct s'}, ¬ Loses i.1 kc direct s' := by
    intro kc direct s' hloses
    rw [Loses, hplugged] at hloses
    exact Bool.false_ne_true hloses.1
  obtain ⟨p, input⟩ := i
  cases input with
  | record kc direct => exact hkept
  | inject txt => trivial
  | ignoreNextRelease => trivial
  | vsync => exact fun _ => hkept
  | poll vpos => trivial
  | consume vpos =>
    refine fun _ => ⟨fun _ => ⟨hplugged, fun hignored => ?_⟩, fun _ _ => hkept⟩
    rw [keysAvailable_ignoreNextRelease, h] at hignored
    exact Bool.false_ne_true hignored.2.1

/-- With a keyboard plugged in and no release to be dropped every step meets its condition. -/
theorem runMeets_of_plugged {t : Session} {is : List (Prefs × Input)}
    (hplugged : ∀ i ∈ is, i.1.unplugged = false) (hinput : ∀ i ∈ is, i.2 ≠ .ignoreNextRelease)
    (h : t.buf.ignoreNextRelease = false) : RunMeets t is := by
  induction is generalizing t with
  | nil => trivial
  | cons i is ih =>
    rw [List.forall_mem_cons] at hplugged hinput
    exact ⟨meets_of_plugged hplugged.1 h, fun t' hstep =>
      ih hplugged.2 hinput.2 (step_ignoreNextRelease h hinput.1 hstep)⟩

/-- The static variables before `keybuf_init`. -/
def boot : KeyBuf where
  keybuf := .empty (fun _ => 0) keybufSize_pos
  keyinject := []
  keyinjectPrevious := 0
  keyinjectState := false
  keyinjectDo := false
  ignoreNextRelease := false
  delayedReleasedCode := 0
  delayedReleasedTime := 0
  ovpos := 0
  cnt := 0

/-- Keys go down and up, and a text is typed between them. -/
def typedKeys : List (Prefs × Input) :=
  [.record 0x40 false, .record 0x42 false, .inject [0x61, 0x62], .consume 1, .record 0x41 false,
    .consume 2, .consume 3, .consume 4, .vsync, .consume 5, .consume 6, .consume 7,
    .consume 8].map fun input => ({}, input)

theorem keyboard_fifo_typed :
    ∃ t, run (.start boot) typedKeys = .ok t ∧ (∀ o ∈ t.offers, o.Fair) ∧
      accepted t.offers = t.delivered ++ t.buf.keybuf.contents :=
  (keyboard_fifo_iff boot typedKeys (by simp [typedKeys])).mpr
    (runMeets_of_plugged (by simp [typedKeys, Prefs.unplugged]) (by simp [typedKeys]) rfl)

/-- The text "a" is taken as far as the press, the debugger asks for the next release to be
dropped, and four scanlines later `keys_available` promises a key that is not there. -/
theorem keyboard_fifo_stalls :
    ¬ ∀ (s : KeyBuf) (is : List (Prefs × Input)), (∀ i ∈ is, i.1.pauseEmulation = false) →
      ∃ t, run (.start s) is = .ok t ∧ (∀ o ∈ t.offers, o.Fair) ∧
        accepted t.offers = t.delivered ++ t.buf.keybuf.contents := by
  intro h
  obtain ⟨t, hrun, -⟩ := h boot
    [({}, .inject [0x61]), ({}, .consume 1), ({}, .consume 2), ({}, .consume 3), ({}, .consume 4),
      ({}, .ignoreNextRelease), ({}, .consume 5), ({}, .consume 6), ({}, .consume 7),
      ({}, .consume 8)] (by simp)
  cases hrun

end LibretroUae.Keyboard
