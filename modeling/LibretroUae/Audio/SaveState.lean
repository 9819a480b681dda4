import Mathlib.Data.Fin.VecNotation
import LibretroUae.Audio.Idle
import LibretroUae.Audio.Written

/-!
# LibretroUae.Audio.SaveState

**The audio chunks of a savestate**: `save_audio`, `restore_audio` and `restore_audio_finish`.

The word that is played, the pending interrupt check and the count of short loops are not saved,
and neither is the time since the channels were updated. `restored_transparent` says where nothing
of this is heard: the restored channels differ in interrupt checks that are not looked at again.
-/

namespace LibretroUae.Audio

open Lib

/-! ### The chunks -/

def ChannelState.code : ChannelState → Byte
  | .idle => 0
  | .one => 1
  | .five => 5
  | .two => 2
  | .three => 3
  | .manual => 0x13

def ChannelState.ofCode (b : Byte) : Option ChannelState :=
  [.idle, .one, .five, .two, .three, .manual].find? fun s : ChannelState => s.code = b

namespace AudioChannel

/-- A period in clocks, as it is written. -/
def savedPer (per : Int) : BitVec 16 :=
  BitVec.ofInt 16 (if per = periodMax then 0 else per.tdiv cycleUnit)

def restoredPer (p : BitVec 16) : Int := if p = 0 then periodMax else p.toNat * cycleUnit

/-- `save_audio`; nothing looks at the position of the last request. -/
def saveAudio (drhpos : Byte) (c : AudioChannel) : List Byte :=
  c.state.code :: c.audvol :: (if c.intreq2 then 1 else 0) ::
    ((if c.dr then 1 else 0) ||| (if c.dsr then 2 else 0) ||| 0x80) ::
    (be16 c.len ++ (be16 c.wlen ++ (be16 (savedPer c.per) ++ (be16 c.dat ++
    (be32 c.lc ++ (be32 c.pt ++ (be32 c.evtime ++ [drhpos])))))))

def stateReader : Reader ChannelState := do
  let b ← Reader.u8
  match ChannelState.ofCode b with
  | none => failure
  | some s => return s

/-- `restore_audio` over the channel `old`. -/
def restoreAudio (prefs : AudioPrefs) (chanEna : Bool) (old : AudioChannel) :
    Reader AudioChannel := do
  let state ← stateReader
  let audvol ← Reader.u8
  let intreq2 ← Reader.u8
  let flags ← Reader.u8
  let len ← Reader.u16
  let wlen ← Reader.u16
  let p ← Reader.u16
  let dat ← Reader.u16
  let lc ← Reader.u32
  let pt ← Reader.u32
  let evtime ← Reader.u32
  let _ ← (if flags &&& 0x80 ≠ 0 then Reader.u8 else pure 1 : Reader Byte)
  return { old.zerostate prefs true with
    state, audvol, len, wlen, lc, pt, evtime, dat
    intreq2 := intreq2 ≠ 0
    dr := flags &&& 1 ≠ 0
    dsr := flags &&& 2 ≠ 0
    per := restoredPer p
    dat2 := dat
    dmaenstore := chanEna }

/-- The channel in a chunk. -/
def restoreAudioChunk (prefs : AudioPrefs) (chanEna : Bool) (chunk : List Byte)
    (old : AudioChannel) : Option AudioChannel :=
  ((restoreAudio prefs chanEna old).run chunk).map Prod.fst

/-- What comes back. -/
def restored (chanEna : Bool) (old c : AudioChannel) : AudioChannel :=
  { c with
    irqcheck := 0
    minperloop := 0
    datWritten := old.datWritten
    per := restoredPer (savedPer c.per)
    dat2 := c.dat
    dmaenstore := chanEna }

/-- The channels that the chunks hold whole, but for interrupt checks that nothing looks at. -/
structure Saved (chanEna : Bool) (c : AudioChannel) : Prop where
  per : c.per = periodMax ∨ ∃ k : BitVec 16, k ≠ 0 ∧ c.per = k.toNat * cycleUnit
  dat2 : c.dat2 = c.dat
  irqcheck : c.state = .three → c.irqcheck = 0
  minperloop : c.minperloop = 0
  dmaenstore : c.dmaenstore = chanEna

theorem stateReader_run (s : ChannelState) (rest : List Byte) :
    stateReader.run (s.code :: rest) = some (s, rest) := by
  cases s <;> rfl

theorem restoreAudio_run (prefs : AudioPrefs) (chanEna : Bool) (drhpos : Byte)
    (old c : AudioChannel) :
    (restoreAudio prefs chanEna old).run (saveAudio drhpos c) =
      some (restored chanEna old c, []) := by
  have hflags : ∀ dr dsr : Bool,
      let flags : Byte := (if dr then 1 else 0) ||| (if dsr then 2 else 0) ||| 0x80
      decide (flags &&& 1 ≠ 0) = dr ∧ decide (flags &&& 2 ≠ 0) = dsr ∧ flags &&& 0x80 ≠ 0 := by
    decide
  obtain ⟨hdr, hdsr, hmore⟩ := hflags c.dr c.dsr
  have hintreq2 : decide ((if c.intreq2 then (1 : Byte) else 0) ≠ 0) = c.intreq2 := by
    cases c.intreq2 <;> rfl
  rw [restoreAudio, saveAudio, Reader.bind_run (stateReader_run _ _)]
  simp only [Reader.u8_bind, Reader.u16_bind, Reader.u32_bind, if_pos hmore, Reader.run_pure,
    hdr, hdsr, hintreq2]
  rfl

theorem restoredPer_savedPer {per : Int}
    (h : per = periodMax ∨ ∃ k : BitVec 16, k ≠ 0 ∧ per = k.toNat * cycleUnit) :
    restoredPer (savedPer per) = per := by
  rcases h with rfl | ⟨k, hk, rfl⟩
  · rfl
  · have hne : (k.toNat : Int) * cycleUnit ≠ periodMax := by
      have hnonneg := Int.natCast_nonneg k.toNat
      simp only [cycleUnit, periodMax]
      omega
    have hsaved : savedPer (k.toNat * cycleUnit) = k := by
      rw [savedPer, if_neg hne, Int.mul_tdiv_cancel _ (by decide), BitVec.ofInt_natCast,
        BitVec.ofNat_toNat, BitVec.setWidth_eq]
    rw [hsaved, restoredPer, if_neg hk]

/-! ### Channels that differ in interrupt checks -/

/-- Interrupt checks count in state 3 only. -/
def norm (c : AudioChannel) : AudioChannel :=
  if c.state = .three then c else { c with irqcheck := 0 }

theorem norm_three {c : AudioChannel} (h : c.state = .three) : c.norm = c := if_pos h

theorem norm_other {c : AudioChannel} (h : c.state ≠ .three) :
    c.norm = { c with irqcheck := 0 } := if_neg h

theorem norm_restored {chanEna : Bool} {old c : AudioChannel} (hold : old.datWritten = false)
    (hc : c.datWritten = false) (h : c.Saved chanEna) : (restored chanEna old c).norm = c.norm := by
  have hrestored : restored chanEna old c = { c with irqcheck := 0 } := by
    rw [restored, hold, restoredPer_savedPer h.per, ← h.dat2, ← h.minperloop, ← h.dmaenstore,
      ← hc]
  rw [hrestored]
  by_cases hstate : c.state = .three
  · have hsame : { c with irqcheck := 0 } = c :=
      congrArg (fun i => { c with irqcheck := i }) (h.irqcheck hstate).symm
    rw [hsame]
  · rw [norm_other hstate]
    exact if_neg hstate

/-- Changes that do not look at interrupt checks that do not count. -/
def Blind (f : AudioChannel → AudioChannel) : Prop := ∀ c, (f c.norm).norm = (f c).norm

/-- A change of other fields is blind. -/
theorem blind_of_comm {f : AudioChannel → AudioChannel}
    (hstate : ∀ c, (f c).state = c.state)
    (hcomm : ∀ c, f { c with irqcheck := 0 } = { f c with irqcheck := 0 }) : Blind f := by
  intro c
  by_cases h : c.state = .three
  · rw [norm_three h]
  · rw [norm_other h, hcomm]
    have hother : (f c).state ≠ .three := fun hthree => h ((hstate c).symm.trans hthree)
    rw [norm_other hother]
    exact if_neg hother

/-- A change that sets the check, or leaves state 3, is blind. -/
theorem blind_of_const {f : AudioChannel → AudioChannel}
    (hconst : ∀ c, (f { c with irqcheck := 0 }).norm = (f c).norm) : Blind f := by
  intro c
  by_cases h : c.state = .three
  · rw [norm_three h]
  · rw [norm_other h, hconst]

/-- What is read besides the check is the same. -/
theorem norm_read {α : Type} {r : AudioChannel → α} (hr : ∀ c i, r { c with irqcheck := i } = r c)
    (c : AudioChannel) : r c.norm = r c := by
  by_cases h : c.state = .three
  · rw [norm_three h]
  · rw [norm_other h, hr]

theorem blind_zerostate (prefs : AudioPrefs) (reset : Bool) : Blind (zerostate prefs reset) :=
  blind_of_const fun _ => rfl

theorem blind_loadperm1 (isirq : Bool) : Blind (loadperm1 isirq) := by
  refine blind_of_const fun c => ?_
  rw [loadperm1, loadperm1]
  dsimp only
  split_ifs <;> rfl

theorem blind_countWord (early : Bool) : Blind (Paula.countWord early) := by
  refine blind_of_comm (fun c => ?_) fun c => ?_
  · rw [Paula.countWord]
    split_ifs <;> rfl
  · rw [Paula.countWord, Paula.countWord]
    dsimp only
    split_ifs <;> rfl

end AudioChannel

namespace Paula

open AudioChannel

def norm (p : Paula) : Paula := { p with chan := fun nr => (p.chan nr).norm }

/-- The same but for interrupt checks that do not count. -/
def Alike (p q : Paula) : Prop := p.norm = q.norm

/-- What the channels do does not depend on interrupt checks that do not count. -/
def Respects (f : Paula → Paula) : Prop := ∀ p q, p.Alike q → (f p).Alike (f q)

section

variable {p q : Paula} {f g : Paula → Paula} {α : Type}

theorem Alike.read {r : Paula → α} (h : p.Alike q) (hr : ∀ p, r p.norm = r p) : r p = r q := by
  rw [← hr p, ← hr q, h]

theorem Alike.chan (h : p.Alike q) (nr : Fin 4) : (p.chan nr).norm = (q.chan nr).norm :=
  congrFun (congrArg Paula.chan h) nr

theorem Alike.field {r : AudioChannel → α} (h : p.Alike q) (nr : Fin 4)
    (hr : ∀ c i, r { c with irqcheck := i } = r c) : r (p.chan nr) = r (q.chan nr) := by
  rw [← norm_read hr, ← norm_read hr (q.chan nr), h.chan]

/-- In state 3 the channels are the same. -/
theorem Alike.three (h : p.Alike q) {nr : Fin 4} (hp : (p.chan nr).state = .three) :
    p.chan nr = q.chan nr := by
  have hq : (q.chan nr).state = .three :=
    (@Alike.field p q _ AudioChannel.state h nr fun _ _ => rfl).symm.trans hp
  rw [← norm_three hp, ← norm_three hq, h.chan]

theorem Respects.id : Respects fun p => p := fun _ _ h => h

theorem Respects.comp (hg : Respects g) (hf : Respects f) : Respects fun p => g (f p) :=
  fun p q h => hg _ _ (hf p q h)

theorem Respects.ite {b : Paula → Prop} [DecidablePred b] (hb : ∀ p, b p.norm = b p)
    (hf : Respects f) (hg : Respects g) : Respects fun p => if b p then f p else g p := by
  intro p q h
  have hsame : b p = b q := h.read hb
  dsimp only
  simp only [hsame]
  split_ifs
  · exact hf p q h
  · exact hg p q h

theorem Respects.bind {r : Paula → α} {k : α → Paula → Paula} (hr : ∀ p, r p.norm = r p)
    (hk : ∀ v, Respects (k v)) : Respects fun p => k (r p) p := by
  intro p q h
  dsimp only
  rw [h.read hr]
  exact hk _ p q h

theorem Respects.foldl {k : Paula → α → Paula} (hk : ∀ a, Respects fun p => k p a) (l : List α) :
    Respects fun p => l.foldl k p := by
  induction l with
  | nil => exact .id
  | cons a l ih => exact fun p q h => ih _ _ (hk a p q h)

theorem respects_of_comm (hcomm : ∀ p, f p.norm = (f p).norm) : Respects f := by
  intro p q h
  rw [Alike, ← hcomm, ← hcomm, h]

theorem respects_chans {k : AudioChannel → AudioChannel} (hk : Blind k) :
    Respects fun p => { p with chan := fun nr => k (p.chan nr) } := by
  intro p q h
  have hnorm : ∀ p : Paula, Paula.norm { p with chan := fun nr => k (p.chan nr) } =
      { p.norm with chan := fun nr => (k (p.norm.chan nr)).norm } := by
    intro p
    refine congrArg (fun c => { p with chan := c }) (funext fun nr => ?_)
    exact (hk (p.chan nr)).symm
  rw [Alike, hnorm, hnorm, h]

theorem respects_onChan {k : AudioChannel → AudioChannel} (nr : Fin 4) (hk : Blind k) :
    Respects (onChan nr k) := by
  intro p q h
  have hnorm : ∀ p : Paula, (p.onChan nr k).norm =
      { p.norm with chan := Function.update p.norm.chan nr (k (p.norm.chan nr)).norm } := by
    intro p
    refine congrArg (fun c => { p with chan := c }) (funext fun i => ?_)
    change (Function.update p.chan nr (k (p.chan nr)) i).norm = _
    by_cases hi : i = nr
    · subst hi
      rw [Function.update_self, Function.update_self]
      exact (hk (p.chan i)).symm
    · rw [Function.update_of_ne hi, Function.update_of_ne hi]
      rfl
  rw [Alike, hnorm, hnorm, h]

theorem Alike.set (h : p.Alike q) (nr : Fin 4) {k : AudioChannel → AudioChannel} (hk : Blind k) :
    (p.onChan nr k).Alike (q.onChan nr k) := respects_onChan nr hk p q h

/-! ### What the states do -/

theorem blind_updateVolume (v : BitVec 16) : Blind (updateVolume v) :=
  blind_of_comm (fun _ => rfl) fun _ => rfl

theorem blind_loadper : Blind loadper := blind_of_comm (fun _ => rfl) fun _ => rfl

theorem respects_post (e : AudioEvent) : Respects (post e) := respects_of_comm fun _ => rfl

theorem respects_newsample (nr : Fin 4) (v : Byte) : Respects (newsample nr v) :=
  respects_of_comm fun _ => rfl

theorem respects_setirq (prefs : AudioPrefs) (nr : Fin 4) : Respects (setirq prefs nr) := by
  cases hdelay : prefs.interruptDelay <;>
  · refine respects_of_comm fun p => ?_
    rw [setirq, setirq, hdelay]
    rfl

theorem respects_eventSetdsr (nr : Fin 4) : Respects (eventSetdsr nr) :=
  respects_onChan nr (blind_of_comm (fun _ => rfl) fun _ => rfl)

theorem Alike.delayed (h : p.Alike q) (prefs : AudioPrefs) (nr : Fin 4) :
    p.delayed prefs nr = q.delayed prefs nr := by
  have hper : (p.chan nr).per = (q.chan nr).per := h.field nr fun _ _ => rfl
  rw [Paula.delayed, Paula.delayed, hper]

theorem respects_setdr (prefs : AudioPrefs) (nr : Fin 4) (startup : Bool) :
    Respects (setdr prefs nr startup) := by
  intro p q h
  have hmaster : p.dmaMaster = q.dmaMaster := h.read fun _ => rfl
  have hwlen : (p.chan nr).wlen = (q.chan nr).wlen := h.field nr fun _ _ => rfl
  rw [setdr, setdr, hmaster, hwlen, h.delayed]
  split_ifs
  · exact respects_post _ p q h
  · exact respects_eventSetdsr nr p q h
  · exact h.set nr (blind_of_comm (fun _ => rfl) fun _ => rfl)
  · exact h

theorem respects_loaddat (nr : Fin 4) (modper : Bool) : Respects (loaddat nr modper) := by
  intro p q h
  have haudav : p.audav nr = q.audav nr := h.read fun _ => rfl
  have haudap : p.audap nr = q.audap nr := h.read fun _ => rfl
  have hdat : (p.chan nr).dat = (q.chan nr).dat := h.field nr fun _ _ => rfl
  rw [loaddat, loaddat, haudav, haudap, hdat]
  dsimp only
  split_ifs
  · exact h.set _ (blind_of_comm (fun _ => rfl) fun _ => rfl)
  · exact h.set _ (blind_updateVolume _)
  · exact h
  · exact h.set _ (blind_of_comm (fun _ => rfl) fun _ => rfl)

theorem respects_playHigh (nr : Fin 4) : Respects (playHigh nr) := by
  intro p q h
  have hdat2 : (p.chan nr).dat2 = (q.chan nr).dat2 := h.field nr fun _ _ => rfl
  rw [playHigh, playHigh, hdat2]
  exact Alike.set (respects_newsample nr _ p q h) nr blind_loadper

theorem respects_playLow (nr : Fin 4) : Respects (playLow nr) := by
  intro p q h
  have hdat2 : (p.chan nr).dat2 = (q.chan nr).dat2 := h.field nr fun _ _ => rfl
  have hnew := respects_newsample nr (byteAt (q.chan nr).dat2 0) p q h
  have hena := @Alike.read _ _ _ (chanEna nr) hnew fun _ => rfl
  have hisirq := @Alike.read _ _ _ (isirq nr) hnew fun _ => rfl
  rw [playLow, playLow, hdat2, hena, hisirq]
  split_ifs
  · exact hnew.set nr blind_loadper
  · exact hnew.set nr (blind_loadperm1 _)

theorem blind_toState (s : ChannelState) (hs : s ≠ .three) :
    Blind fun c => { c with state := s } :=
  blind_of_const fun c => by rw [norm_other hs, norm_other hs]

theorem respects_toState (nr : Fin 4) {s : ChannelState} (hs : s ≠ .three) :
    Respects (toState nr s) := respects_onChan nr (blind_toState s hs)

theorem respects_blockIrq (prefs : AudioPrefs) (nr : Fin 4) (attached : Bool) :
    Respects (blockIrq prefs nr attached) := by
  intro p q h
  have hintreq2 : (p.chan nr).intreq2 = (q.chan nr).intreq2 := h.field nr fun _ _ => rfl
  rw [blockIrq, blockIrq, hintreq2]
  split_ifs
  · have hirq : Alike (p.setirq prefs nr) (q.setirq prefs nr) := respects_setirq prefs nr p q h
    exact hirq.set nr (blind_of_comm (fun _ => rfl) fun _ => rfl)
  · exact h

theorem respects_stateIdle (prefs : AudioPrefs) (nr : Fin 4) : Respects (stateIdle prefs nr) := by
  intro p q h
  have hena : p.chanEna nr = q.chanEna nr := h.read fun _ => rfl
  have hisirq : p.isirq nr = q.isirq nr := h.read fun _ => rfl
  have hwritten : (p.chan nr).datWritten = (q.chan nr).datWritten := h.field nr fun _ _ => rfl
  rw [stateIdle, stateIdle, hena, hisirq, hwritten]
  dsimp only
  split_ifs
  · refine Alike.set (respects_setdr prefs nr true _ _ ?_) nr
      (blind_of_comm (fun _ => rfl) fun _ => rfl)
    exact h.set nr (blind_of_const fun _ => rfl)
  · refine respects_playHigh nr _ _ (respects_loaddat nr false _ _ ?_)
    exact respects_setirq prefs nr _ _ (respects_toState nr (by decide) p q h)
  · exact h.set nr (blind_zerostate prefs false)

/-- A transition out of a state of the channel starts with this. -/
theorem Alike.wait {p q : Paula} (h : p.Alike q) (nr : Fin 4) :
    (p.onChan nr fun c => { c with evtime := maxEv }).Alike
      (q.onChan nr fun c => { c with evtime := maxEv }) :=
  h.set nr (blind_of_comm (fun _ => rfl) fun _ => rfl)

theorem respects_stateOne (prefs : AudioPrefs) (nr : Fin 4) : Respects (stateOne prefs nr) := by
  intro p q h
  rw [stateOne, stateOne]
  have hwait := h.wait nr
  generalize p.onChan nr (fun c => { c with evtime := maxEv }) = p1 at hwait ⊢
  generalize q.onChan nr (fun c => { c with evtime := maxEv }) = q1 at hwait ⊢
  dsimp only
  have hena : p1.chanEna nr = q1.chanEna nr := hwait.read fun _ => rfl
  have hwritten : (p1.chan nr).datWritten = (q1.chan nr).datWritten := hwait.field nr fun _ _ => rfl
  rw [hena, hwritten]
  split_ifs
  · exact hwait.set nr (blind_zerostate prefs false)
  · exact hwait
  · refine Alike.set (respects_setdr prefs nr false _ _ ?_) nr (blind_of_const fun _ => rfl)
    exact respects_setirq prefs nr _ _ hwait

theorem respects_wordRequest (prefs : AudioPrefs) (nr : Fin 4) :
    Respects fun p => if p.napnav nr then p.setdr prefs nr false else p :=
  .ite (fun _ => rfl) (respects_setdr prefs nr false) .id

theorem respects_stateFive (prefs : AudioPrefs) (nr : Fin 4) : Respects (stateFive prefs nr) := by
  intro p q h
  rw [stateFive, stateFive]
  have hwait := h.wait nr
  generalize p.onChan nr (fun c => { c with evtime := maxEv }) = p1 at hwait ⊢
  generalize q.onChan nr (fun c => { c with evtime := maxEv }) = q1 at hwait ⊢
  dsimp only
  have hena : p1.chanEna nr = q1.chanEna nr := hwait.read fun _ => rfl
  have hwritten : (p1.chan nr).datWritten = (q1.chan nr).datWritten := hwait.field nr fun _ _ => rfl
  rw [hena, hwritten]
  by_cases hoff : (!q1.chanEna nr) = true
  · rw [if_pos hoff, if_pos hoff]
    exact hwait.set nr (blind_zerostate prefs false)
  rw [if_neg hoff, if_neg hoff]
  by_cases hnone : (!(q1.chan nr).datWritten) = true
  · rw [if_pos hnone, if_pos hnone]
    exact hwait
  rw [if_neg hnone, if_neg hnone]
  refine respects_playHigh nr _ _ (Alike.set ?_ nr (blind_of_const fun _ => rfl))
  exact respects_wordRequest prefs nr _ _ (respects_loaddat nr false _ _ hwait)

theorem respects_stateTwo (prefs : AudioPrefs) (nr : Fin 4) (perfin : Bool) :
    Respects (stateTwo prefs nr perfin) := by
  have hload : Respects fun p => if p.audap nr then p.loaddat nr true else p :=
    .ite (fun _ => rfl) (respects_loaddat nr true) .id
  have hrequest : Respects fun p => if p.audap nr then p.setdr prefs nr false else p :=
    .ite (fun _ => rfl) (respects_setdr prefs nr false) .id
  have hblock : Respects fun p => p.blockIrq prefs nr (p.audap nr) :=
    .bind (r := audap nr) (fun _ => rfl) (respects_blockIrq prefs nr)
  have hirq : Respects fun p => if p.audap nr then p.setirq prefs nr else p :=
    .ite (fun _ => rfl) (respects_setirq prefs nr) .id
  have hmark : Respects (onChan nr fun c => { c with irqcheck := 0, state := .three }) :=
    fun p q h => h.set nr (blind_of_const fun _ => rfl)
  cases perfin with
  | false => exact .id
  | true =>
    exact (respects_playLow nr).comp (hmark.comp
      ((Respects.ite (b := fun p => p.chanEna nr = true) (fun _ => rfl) (hblock.comp hrequest)
        hirq).comp hload))

theorem respects_stateManual (nr : Fin 4) (perfin : Bool) : Respects (stateManual nr perfin) := by
  cases perfin with
  | false => exact .id
  | true =>
    intro p q h
    have hena : p.chanEna nr = q.chanEna nr := h.read fun _ => rfl
    have hisirq : p.isirq nr = q.isirq nr := h.read fun _ => rfl
    rw [stateManual, stateManual, hena, hisirq, Bool.not_true, if_neg Bool.false_ne_true,
      if_neg Bool.false_ne_true]
    exact h.set nr (blind_of_const fun _ => rfl)

theorem setirq_chan (prefs : AudioPrefs) (nr : Fin 4) (p : Paula) :
    (p.setirq prefs nr).chan = p.chan := by
  rw [setirq]
  split_ifs <;> rfl

/-- State 3 looks at the check, and there it counts. -/
theorem respects_stateThree (prefs : AudioPrefs) (nr : Fin 4) (perfin : Bool) (h : p.Alike q)
    (hp : (p.chan nr).state = .three) :
    (p.stateThree prefs nr perfin).Alike (q.stateThree prefs nr perfin) := by
  have hena : p.chanEna nr = q.chanEna nr := h.read fun _ => rfl
  cases perfin with
  | false => exact h
  | true =>
    rw [stateThree, stateThree, Bool.not_true, if_neg Bool.false_ne_true, if_neg Bool.false_ne_true,
      hena]
    by_cases hdma : q.chanEna nr = true
    · rw [if_pos hdma, if_pos hdma]
      have hblock : Respects fun p => p.blockIrq prefs nr (p.napnav nr) :=
        .bind (r := napnav nr) (fun _ => rfl) (respects_blockIrq prefs nr)
      have hplay : Respects fun p => (p.toState nr .two).playHigh nr :=
        (respects_playHigh nr).comp (respects_toState nr (by decide))
      exact (hplay.comp (hblock.comp ((respects_wordRequest prefs nr).comp
        (respects_loaddat nr false)))) p q h
    rw [if_neg hdma, if_neg hdma]
    have hisirq : p.isirq nr = q.isirq nr := h.read fun _ => rfl
    have hcheck : (p.onChan nr fun c =>
          { c with irqcheck := if c.irqcheck = 0 && p.isirq nr then 1 else c.irqcheck }).Alike
        (q.onChan nr fun c =>
          { c with irqcheck := if c.irqcheck = 0 && q.isirq nr then 1 else c.irqcheck }) := by
      rw [hisirq]
      refine h.set nr fun c => ?_
      by_cases hc : c.state = .three
      · rw [norm_three hc]
      · rw [norm_other hc]
        exact (if_neg hc).trans (if_neg hc).symm
    have hthree : ((p.onChan nr fun c =>
        { c with irqcheck := if c.irqcheck = 0 && p.isirq nr then 1 else c.irqcheck }).chan
          nr).state = .three := by
      change (Function.update p.chan nr _ nr).state = .three
      rw [Function.update_self]
      exact hp
    generalize (p.onChan nr fun c =>
      { c with irqcheck := if c.irqcheck = 0 && p.isirq nr then 1 else c.irqcheck }) = p1
      at hcheck hthree ⊢
    generalize (q.onChan nr fun c =>
      { c with irqcheck := if c.irqcheck = 0 && q.isirq nr then 1 else c.irqcheck }) = q1
      at hcheck ⊢
    have hirq : Respects fun p => if p.napnav nr then p.setirq prefs nr else p :=
      .ite (fun _ => rfl) (respects_setirq prefs nr) .id
    have hchan : ∀ p : Paula, (if p.napnav nr then p.setirq prefs nr else p).chan = p.chan := by
      intro p
      split_ifs
      · exact setirq_chan prefs nr p
      · rfl
    have hafter := hirq p1 q1 hcheck
    have hsame : (if p1.napnav nr then p1.setirq prefs nr else p1).chan nr =
        (if q1.napnav nr then q1.setirq prefs nr else q1).chan nr :=
      hafter.three ((congrArg (fun c => (c nr).state) (hchan p1)).trans hthree)
    dsimp only at hafter ⊢
    generalize (if p1.napnav nr then p1.setirq prefs nr else p1) = p2 at hafter hsame ⊢
    generalize (if q1.napnav nr then q1.setirq prefs nr else q1) = q2 at hafter hsame ⊢
    rw [hsame]
    split_ifs
    · exact hafter.set nr (blind_zerostate prefs false)
    · refine respects_playHigh nr _ _ (respects_toState nr (by decide) _ _ ?_)
      exact respects_loaddat nr false _ _ hafter

/-! ### Handlers and time -/

theorem respects_audioEventReset (prefs : AudioPrefs) : Respects (audioEventReset prefs) := by
  intro p q h
  have hchans : Respects fun p => { p with chan := fun nr => (p.chan nr).zerostate prefs true } :=
    respects_chans (blind_zerostate prefs true)
  have hpending : Respects fun p => { p with pending := 0 } := respects_of_comm fun _ => rfl
  exact hpending _ _ (hchans p q h)

theorem respects_audioActivate (prefs : AudioPrefs) : Respects (audioActivate prefs) := by
  have hwork : Respects fun p => { p with work := prefs.workTime } := respects_of_comm fun _ => rfl
  intro p q h
  have hsame : p.work = q.work := h.read fun _ => rfl
  rw [audioActivate, audioActivate, hsame]
  split_ifs
  · exact hwork _ _ (respects_audioEventReset prefs p q h)
  · exact hwork p q h

/-- The handler in each of its states. -/
theorem respects_audioStateChannel2 (prefs : AudioPrefs) (nr : Fin 4) (perfin : Bool)
    (h : p.Alike q) :
    (p.audioStateChannel2 prefs nr perfin).1.Alike (q.audioStateChannel2 prefs nr perfin).1 ∧
      (p.audioStateChannel2 prefs nr perfin).2 = (q.audioStateChannel2 prefs nr perfin).2 := by
  have hena : p.chanEna nr = q.chanEna nr := h.read fun _ => rfl
  rw [audioStateChannel2, audioStateChannel2, hena]
  have hmark : (p.onChan nr fun c => { c with dmaenstore := q.chanEna nr }).Alike
      (q.onChan nr fun c => { c with dmaenstore := q.chanEna nr }) :=
    h.set nr (blind_of_comm (fun _ => rfl) fun _ => rfl)
  dsimp only
  by_cases hoff : (!prefs.produceSound) = true
  · rw [if_pos hoff, if_pos hoff]
    exact ⟨hmark.set nr (blind_zerostate prefs true), rfl⟩
  rw [if_neg hoff, if_neg hoff]
  have hactive := respects_audioActivate prefs _ _ hmark
  generalize Paula.audioActivate prefs (p.onChan nr _) = p1 at hactive ⊢
  generalize Paula.audioActivate prefs (q.onChan nr _) = q1 at hactive ⊢
  have hstate : (p1.chan nr).state = (q1.chan nr).state := hactive.field nr fun _ _ => rfl
  cases hs : (p1.chan nr).state with
  | idle =>
    rw [← hstate, hs]
    exact ⟨respects_stateIdle prefs nr _ _ hactive, rfl⟩
  | one =>
    rw [← hstate, hs]
    exact ⟨respects_stateOne prefs nr _ _ hactive, rfl⟩
  | five =>
    rw [← hstate, hs]
    exact ⟨respects_stateFive prefs nr _ _ hactive, rfl⟩
  | two =>
    rw [← hstate, hs]
    exact ⟨respects_stateTwo prefs nr perfin _ _ hactive, rfl⟩
  | three =>
    rw [← hstate, hs]
    exact ⟨respects_stateThree prefs nr perfin hactive hs, rfl⟩
  | manual =>
    rw [← hstate, hs]
    exact ⟨respects_stateManual nr perfin _ _ hactive, rfl⟩

theorem respects_audioStateChannel (prefs : AudioPrefs) (nr : Fin 4) (perfin : Bool) :
    Respects (audioStateChannel prefs nr perfin) := by
  intro p q h
  obtain ⟨halike, hused⟩ := respects_audioStateChannel2 prefs nr perfin h
  rw [audioStateChannel, audioStateChannel]
  dsimp only
  rw [hused]
  split_ifs
  · exact halike.set nr (blind_of_comm (fun _ => rfl) fun _ => rfl)
  · exact halike

theorem respects_finishPeriods (prefs : AudioPrefs) : Respects (finishPeriods prefs) := by
  have hfinish : ∀ nr, Respects fun p => finishPeriod prefs p nr := by
    intro nr p q h
    have hevtime : (p.chan nr).evtime = (q.chan nr).evtime := h.field nr fun _ _ => rfl
    dsimp only
    rw [finishPeriod, finishPeriod, hevtime]
    split_ifs
    · exact respects_audioStateChannel prefs nr true p q h
    · exact h
  exact Respects.foldl hfinish _

theorem Alike.bestEvtime (h : p.Alike q) : p.bestEvtime = q.bestEvtime := by
  have hevtime : ∀ nr, (p.chan nr).evtime = (q.chan nr).evtime := fun nr =>
    h.field nr fun _ _ => rfl
  have hpending : p.pending = q.pending := h.read fun _ => rfl
  simp only [Paula.bestEvtime, hevtime, hpending]

theorem respects_countDown (best : Nat) : Respects (countDown best) := by
  intro p q h
  have hchans : Respects fun p => { p with
      chan := fun nr =>
        if (p.chan nr).evtime = maxEv then p.chan nr
        else { p.chan nr with evtime := (p.chan nr).evtime - BitVec.ofNat 32 best } } := by
    refine respects_chans (k := fun c => if c.evtime = maxEv then c else
      { c with evtime := c.evtime - BitVec.ofNat 32 best }) ?_
    refine blind_of_comm (fun c => ?_) fun c => ?_
    · split_ifs <;> rfl
    · dsimp only
      split_ifs <;> rfl
  have hpending : Respects fun p => { p with pending := p.pending - best } :=
    respects_of_comm fun _ => rfl
  exact hpending _ _ (hchans p q h)

theorem respects_updateLoop (prefs : AudioPrefs) (fuel : Nat) :
    Respects (updateLoop prefs fuel) := by
  induction fuel with
  | zero => exact .id
  | succ fuel ih =>
    intro p q h
    have hpending : p.pending = q.pending := h.read fun _ => rfl
    rw [updateLoop, updateLoop, hpending, h.bestEvtime]
    split_ifs
    · exact h
    · exact ih _ _ (respects_finishPeriods prefs _ _ (respects_countDown _ p q h))

theorem respects_updateAudio (prefs : AudioPrefs) : Respects (updateAudio prefs) := by
  have hnow : Respects fun p => { p with pending := 0 } := respects_of_comm fun _ => rfl
  have hloop : Respects fun p => p.updateLoop prefs (p.pending + 1) :=
    .bind (r := pending) (fun _ => rfl) fun n => respects_updateLoop prefs (n + 1)
  exact .ite (b := fun p => (!prefs.produceSound || p.work = 0) = true) (fun _ => rfl) hnow hloop

/-! ### Operations -/

theorem respects_eventAudxdat (prefs : AudioPrefs) (nr : Fin 4) (ena : Bool) (v : BitVec 16)
    (early : Bool) : Respects (eventAudxdat prefs nr ena v early) := by
  have hcount : Respects (onChan nr (countWord early)) := respects_onChan nr (blind_countWord early)
  have hstore : Respects (onChan nr fun c => { c with dat := v, datWritten := true }) :=
    fun p q h => h.set nr (blind_of_comm (fun _ => rfl) fun _ => rfl)
  have hwait : Respects fun p => ((((p.onChan nr fun c => { c with dat := v, datWritten := true }
      ).audioActivate prefs).updateAudio prefs).audioStateChannel prefs nr false) :=
    (respects_audioStateChannel prefs nr false).comp ((respects_updateAudio prefs).comp
      ((respects_audioActivate prefs).comp hstore))
  intro p q h
  have hplaying : (p.chan nr).playing = (q.chan nr).playing := h.field nr fun _ _ => rfl
  rw [eventAudxdat, eventAudxdat, hplaying]
  refine Alike.set ?_ nr (blind_of_comm (fun _ => rfl) fun _ => rfl)
  split_ifs
  · exact hcount p q h
  · exact hstore p q h
  · exact hwait p q h

theorem respects_audxDat (prefs : AudioPrefs) (nr : Fin 4) (v : BitVec 16) :
    Respects (audxDat prefs nr v) := by
  intro p q h
  have hena : p.chanEna nr = q.chanEna nr := h.read fun _ => rfl
  rw [audxDat, audxDat, hena]
  have hstored : Alike (if q.chanEna nr then
      p.onChan nr fun c => { c with dat := v, datWritten := true } else p) (if q.chanEna nr then
      q.onChan nr fun c => { c with dat := v, datWritten := true } else q) := by
    split_ifs
    · exact h.set nr (blind_of_comm (fun _ => rfl) fun _ => rfl)
    · exact h
  dsimp only
  generalize (if q.chanEna nr then p.onChan nr fun c => { c with dat := v, datWritten := true }
    else p) = p1 at hstored ⊢
  generalize (if q.chanEna nr then q.onChan nr fun c => { c with dat := v, datWritten := true }
    else q) = q1 at hstored ⊢
  have hplaying : (p1.chan nr).playing = (q1.chan nr).playing := hstored.field nr fun _ _ => rfl
  rw [hstored.delayed, hplaying]
  split_ifs
  · refine respects_post _ _ _ (hstored.set nr ?_)
    exact blind_of_comm (fun _ => rfl) fun _ => rfl
  · exact respects_eventAudxdat prefs nr _ v false _ _ hstored

theorem respects_writeReg (prefs : AudioPrefs) (nr : Fin 4) {k : AudioChannel → AudioChannel}
    (hk : Blind k) : Respects (writeReg prefs nr k) :=
  (respects_onChan nr hk).comp ((respects_updateAudio prefs).comp (respects_audioActivate prefs))

theorem blind_storePer (prefs : AudioPrefs) (v : BitVec 16) : Blind (storePer prefs v) := by
  refine blind_of_comm (fun c => ?_) fun c => ?_
  · rw [storePer]
  · rw [storePer, storePer]

theorem respects_audioStateMachine (prefs : AudioPrefs) : Respects (audioStateMachine prefs) :=
  (Respects.foldl (fun nr => respects_audioStateChannel prefs nr false) _).comp
    (respects_updateAudio prefs)

theorem respects_writeDmacon (prefs : AudioPrefs) (v : BitVec 16) :
    Respects (writeDmacon prefs v) := by
  have hwrite : Respects fun p => { p with dmacon := v } := respects_of_comm fun _ => rfl
  exact .ite (b := fun p => (p.dmacon ^^^ v) &&& 0x20f ≠ 0) (fun _ => rfl)
    ((respects_audioStateMachine prefs).comp hwrite) hwrite

theorem respects_writeAdkcon (prefs : AudioPrefs) (v : BitVec 16) :
    Respects (writeAdkcon prefs v) := by
  have hupdate : Respects fun p => if prefs.produceSound then p.updateAudio prefs else p :=
    .ite (fun _ => rfl) (respects_updateAudio prefs) .id
  have hwrite : Respects fun p => { p with adkcon := v } := respects_of_comm fun _ => rfl
  exact .ite (b := fun p => (p.adkcon ^^^ v) &&& 0xff ≠ 0) (fun _ => rfl)
    ((respects_audioActivate prefs).comp (hwrite.comp hupdate)) (hwrite.comp hupdate)

theorem respects_audioDmal : Respects audioDmal := by
  intro p q h
  have hdr : ∀ nr, (p.chan nr).dr = (q.chan nr).dr := fun nr => h.field nr fun _ _ => rfl
  have hdsr : ∀ nr, (p.chan nr).dsr = (q.chan nr).dsr := fun nr => h.field nr fun _ _ => rfl
  have hchans : Respects fun p => { p with
      chan := fun nr => { p.chan nr with dr := false, dsr := false } } := by
    refine respects_chans (k := fun c => { c with dr := false, dsr := false }) ?_
    exact blind_of_comm (fun _ => rfl) fun _ => rfl
  have hout : ∀ dmal, Respects fun p => { p with out := p.out ++ [.requests dmal] } :=
    fun dmal => respects_of_comm fun _ => rfl
  simp only [audioDmal, hdr, hdsr]
  exact hout _ _ _ (hchans p q h)

theorem respects_audioGetpt (nr : Fin 4) (reset : Bool) : Respects (audioGetpt nr reset) := by
  intro p q h
  have hpt : (p.chan nr).pt = (q.chan nr).pt := h.field nr fun _ _ => rfl
  have hout : ∀ address, Respects fun p => { p with out := p.out ++ [.address nr address] } :=
    fun address => respects_of_comm fun _ => rfl
  rw [audioGetpt, audioGetpt, hpt]
  exact hout _ _ _ (h.set nr (blind_of_comm (fun _ => rfl) fun _ => rfl))

theorem respects_audioRest (prefs : AudioPrefs) : Respects (audioRest prefs) := by
  have hdone : Respects fun p => { p with work := 0 } := respects_of_comm fun _ => rfl
  have hless : Respects fun p => { p with work := p.work - 1 } := respects_of_comm fun _ => rfl
  exact .ite (b := fun p => p.work = 1) (fun _ => rfl)
    (hdone.comp (respects_audioEventReset prefs)) hless

theorem respects_audioHsync (prefs : AudioPrefs) : Respects (audioHsync prefs) := by
  have hrest : Respects fun p =>
      if 0 < p.work && prefs.soundAuto then p.audioRest prefs else p :=
    .ite (fun _ => rfl) (respects_audioRest prefs) .id
  exact .ite (b := fun _ => (!prefs.produceSound) = true) (fun _ => rfl) .id
    ((respects_updateAudio prefs).comp hrest)

theorem respects_fire (prefs : AudioPrefs) (i : Nat) : Respects (fire prefs i) := by
  intro p q h
  have hevents : p.events = q.events := h.read fun _ => rfl
  rw [fire, fire, hevents]
  cases q.events[i]? with
  | none => exact h
  | some e =>
    have hpop : Alike { p with events := q.events.eraseIdx i }
        { q with events := q.events.eraseIdx i } :=
      (respects_of_comm fun _ => rfl :
        Respects fun p => { p with events := q.events.eraseIdx i }) p q h
    cases e with
    | irq nr => exact (respects_of_comm fun _ => rfl : Respects (raise nr)) _ _ hpop
    | setdsr nr => exact respects_eventSetdsr nr _ _ hpop
    | audxdat nr ena v early => exact respects_eventAudxdat prefs nr ena v early _ _ hpop

theorem respects_step (prefs : AudioPrefs) (op : AudioOp) : Respects fun p => p.step prefs op := by
  cases op with
  | lch nr v => exact respects_writeReg prefs nr (blind_of_comm (fun _ => rfl) fun _ => rfl)
  | lcl nr v => exact respects_writeReg prefs nr (blind_of_comm (fun _ => rfl) fun _ => rfl)
  | len nr v => exact respects_writeReg prefs nr (blind_of_comm (fun _ => rfl) fun _ => rfl)
  | per nr v => exact respects_writeReg prefs nr (blind_storePer prefs v)
  | vol nr v => exact respects_writeReg prefs nr (blind_updateVolume v)
  | dat nr v => exact respects_audxDat prefs nr v
  | dmacon v => exact respects_writeDmacon prefs v
  | adkcon v => exact respects_writeAdkcon prefs v
  | intreq v => exact respects_of_comm fun _ => rfl
  | dmal => exact respects_audioDmal
  | getpt nr reset => exact respects_audioGetpt nr reset
  | elapse cycles => exact respects_of_comm fun _ => rfl
  | update => exact respects_updateAudio prefs
  | hsync => exact respects_audioHsync prefs
  | fire i => exact respects_fire prefs i

theorem respects_run (prefs : AudioPrefs) (ops : List AudioOp) :
    Respects fun p => p.run prefs ops := Respects.foldl (respects_step prefs) ops

end

/-! ### Saving and restoring -/

/-- `restore_audio` of the four chunks over the channels `old`, and `restore_audio_finish`. -/
def restoreAll (prefs : AudioPrefs) (old : Fin 4 → AudioChannel) (chunks : Fin 4 → List Byte)
    (p : Paula) : Option Paula := do
  let c0 ← ((old 0).restoreAudioChunk prefs (p.chanEna 0) (chunks 0))
  let c1 ← ((old 1).restoreAudioChunk prefs (p.chanEna 1) (chunks 1))
  let c2 ← ((old 2).restoreAudioChunk prefs (p.chanEna 2) (chunks 2))
  let c3 ← ((old 3).restoreAudioChunk prefs (p.chanEna 3) (chunks 3))
  return { p with chan := ![c0, c1, c2, c3], pending := 0 }

/-- `save_audio` for every channel. -/
def saveAll (drhpos : Fin 4 → Byte) (p : Paula) (nr : Fin 4) : List Byte :=
  (p.chan nr).saveAudio (drhpos nr)

/-- Chunks that hold all that is heard; the time since the last update is waited for by nobody. -/
structure SavedWhole (p : Paula) : Prop where
  chan : ∀ nr, (p.chan nr).Saved (p.chanEna nr)
  pending : p.pending = 0 ∨ p.Idle

theorem restoreAll_saveAll (prefs : AudioPrefs) (p : Paula) (old : Fin 4 → AudioChannel)
    (drhpos : Fin 4 → Byte) :
    p.restoreAll prefs old (p.saveAll drhpos) =
      some { p with
        chan := fun nr => restored (p.chanEna nr) (old nr) (p.chan nr)
        pending := 0 } := by
  have hchunk : ∀ nr, (old nr).restoreAudioChunk prefs (p.chanEna nr) (p.saveAll drhpos nr) =
      some (restored (p.chanEna nr) (old nr) (p.chan nr)) := by
    intro nr
    rw [restoreAudioChunk, saveAll, restoreAudio_run]
    rfl
  rw [restoreAll, hchunk, hchunk, hchunk, hchunk]
  refine congrArg (fun c => some { p with chan := c, pending := 0 }) (funext fun nr => ?_)
  match nr with
  | 0 => rfl
  | 1 => rfl
  | 2 => rfl
  | 3 => rfl

/-- Sound that stays active, with a fast processor. -/
def plainPrefs : AudioPrefs := ⟨true, false, false, false, true, false, 1000⟩

/-- A channel that starts to play from memory. -/
def startDma : List AudioOp :=
  [.per 0 200, .per 1 200, .per 2 200, .per 3 200, .len 0 2, .dmacon 0x201]

/-- Its first word. -/
def firstWord : List AudioOp :=
  [.dmal, .getpt 0 true, .dat 0 0, .dmal, .getpt 0 false, .dat 0 0x1234, .fire 1, .fire 0,
    .elapse 102400, .update]

/-- A channel that plays a word by hand while the next one is written. -/
def handPlayed : Paula :=
  reset.run plainPrefs [.per 0 200, .dat 0 0x1234, .fire 0, .dat 0 0x5678]

end Paula

end LibretroUae.Audio
