import LibretroUae.Flash.I2cFraming

/-!
# LibretroUae.Flash.I2cPersistence

**What a STOP writes out.** Only the first address that was written is remembered, and a STOP
writes the 16 bytes from there. A write wraps at the end of its page, so what it stores below
its first address is not among them.
-/

namespace LibretroUae.Flash

open Lib Lib.Image BitbangI2c

/-- The backing file holds the memory. -/
def Backed (i : BitbangI2c) : Prop := ∃ f, i.zf = some f ∧ ∀ a < i.size, f a = i.memory a

/-- The change is a STOP. -/
def IsStop (i : BitbangI2c) (c : Change) : Prop :=
  c = ⟨.sda, some true⟩ ∧ i.lastData = false ∧ i.lastClock = true

/-- The change lets a data byte be stored, with another value than is there, below the first
address that was written since the last STOP. -/
def StoresBelow (i : BitbangI2c) (c : Change) : Prop :=
  c = ⟨.scl, some true⟩ ∧ i.lastClock = false ∧ i.state = .waitingForAck ∧ i.estate = .data ∧
    i.currentAddr % 2 = 0 ∧ i.eepromAddr < i.writeOffset.getD 0 ∧
    i.memory i.eepromAddr ≠ i.buffer

instance (i : BitbangI2c) (c : Change) : Decidable (StoresBelow i c) :=
  inferInstanceAs (Decidable (_ ∧ _))

/-- No change of a run stores below the first address. -/
def NeverBelow : BitbangI2c → List Change → Prop
  | _, [] => True
  | i, c :: cs => ¬ StoresBelow i c ∧ NeverBelow (eepromI2cSet i c).2 cs

instance decidableNeverBelow : (i : BitbangI2c) → (cs : List Change) → Decidable (NeverBelow i cs)
  | _, [] => isTrue trivial
  | i, c :: cs =>
    have := decidableNeverBelow (eepromI2cSet i c).2 cs
    inferInstanceAs (Decidable (¬ StoresBelow i c ∧ NeverBelow (eepromI2cSet i c).2 cs))

/-- What is not in the file yet is in the 16 bytes from the first address that was written. -/
structure Tracked (k : Nat) (i : BitbangI2c) : Prop where
  kind : Eeprom k i
  file : ∃ f, i.zf = some f ∧ ∀ a < 2 ^ (8 + k), f a ≠ i.memory a →
    ∃ w, i.writeOffset = some w ∧ w ≤ a ∧ a < w + 16
  written : ∀ w, i.writeOffset = some w → i.estate = .data ∧ w < 2 ^ (8 + k) ∧
    (i.currentAddr % 2 = 0 → i.eepromAddr / 16 = w / 16)
  reading : Reads i → i.currentAddr % 2 = 1

variable {k : Nat} {i : BitbangI2c}

/-- A STOP writes out what is not in the file. -/
theorem backed_flush (h : Tracked k i) : Backed i.flush := by
  obtain ⟨f, hf, hfile⟩ := h.file
  cases hw : i.writeOffset with
  | none =>
    have hflush : i.flush = i := by simp [flush, hw]
    rw [hflush]
    refine ⟨f, hf, fun a ha => ?_⟩
    by_contra hne
    obtain ⟨w, hsome, -⟩ := hfile a (h.kind.size ▸ ha) hne
    exact absurd (hw.symm.trans hsome) (by simp)
  | some w =>
    obtain ⟨-, hlt, -⟩ := h.written w hw
    have hsize := h.kind.size
    have hpos : min (i.size - w) 16 > 0 := by omega
    have hcover : ∀ a < i.size, ¬ (w ≤ a ∧ a < w + min (i.size - w) 16) → f a = i.memory a := by
      intro a ha hout
      by_contra hne
      obtain ⟨w', hsome, hle, hlt'⟩ := hfile a (hsize ▸ ha) hne
      obtain rfl : w = w' := Option.some.inj (hw.symm.trans hsome)
      omega
    simp only [flush, hw, if_pos hpos]
    split_ifs with hshort
    · refine ⟨_, by simp only [nvramWrite, hf, Option.map_some]; rfl, fun a ha => ?_⟩
      simp only [nvramWrite] at ha ⊢
      rw [blit_slice_same, blit_slice_same]
      split_ifs with h1 h2
      · rfl
      · rfl
      · exact hcover a ha h2
    · refine ⟨_, by simp only [nvramWrite, hf, Option.map_some]; rfl, fun a ha => ?_⟩
      simp only [nvramWrite] at ha ⊢
      rw [blit_slice_same]
      split_ifs with h1
      · rfl
      · exact hcover a ha h1

theorem flush_fields (i : BitbangI2c) : i.flush.memory = i.memory ∧ i.flush.size = i.size := by
  simp only [flush]
  split
  · exact ⟨rfl, rfl⟩
  · split_ifs <;> exact ⟨rfl, rfl⟩

theorem tracked_enterStop (h : Tracked k i) : Tracked k i.enterStop ∧ Backed i.enterStop := by
  have hflush := eeprom_flush h.kind
  obtain ⟨f, hf, hfile⟩ := backed_flush h
  refine ⟨⟨⟨hflush.1, hflush.2, hflush.3, hflush.4, hflush.5⟩, ⟨f, hf, fun a ha hne => ?_⟩, ?_, ?_⟩,
    f, hf, hfile⟩
  · exact absurd (hfile a (by rw [(flush_fields i).2, h.kind.size]; exact ha)) hne
  · exact fun w hw => absurd hw (by simp [enterStop])
  · exact fun hr => absurd hr (by simp [enterStop, Reads])

theorem received_data (he : i.estate = .data) (heven : i.currentAddr % 2 = 0) :
    i.received = { i with
      writeOffset := some (i.writeOffset.getD i.eepromAddr)
      memory := Function.update i.memory i.eepromAddr i.buffer
      eepromAddr := nextInPage i.eepromAddr } := by
  simp [received, he, heven]

/-- A data byte that is stored stays in the 16 bytes. -/
theorem tracked_received (h : Tracked k i) (hr : ¬ Reads i)
    (hbelow : i.estate = .data → i.currentAddr % 2 = 0 → i.eepromAddr < i.writeOffset.getD 0 →
      i.memory i.eepromAddr = i.buffer) : Tracked k i.received := by
  obtain ⟨f, hf, hfile⟩ := h.file
  have hkind := eeprom_received h.kind
  have hnone : i.estate ≠ .data → ∀ w, i.writeOffset ≠ some w :=
    fun hne w hw => hne (h.written w hw).1
  cases he : i.estate with
  | deviceaddr =>
    have hw := hnone (by simp [he])
    rcases Nat.mod_two_eq_zero_or_one i.buffer.toNat with hparity | hparity
    · rw [received_write he hparity] at hkind ⊢
      exact ⟨hkind, ⟨f, hf, hfile⟩, fun w hsome => absurd hsome (hw w), fun hr' => absurd hr' hr⟩
    · rw [received_read he hparity] at hkind ⊢
      exact ⟨hkind, ⟨f, hf, hfile⟩, fun w hsome => absurd hsome (hw w), fun hr' => absurd hr' hr⟩
  | wordaddr =>
    have hw := hnone (by simp [he])
    rw [received_word he] at hkind ⊢
    exact ⟨hkind, ⟨f, hf, hfile⟩, fun w hsome => absurd hsome (hw w), fun hr' => absurd hr' hr⟩
  | data =>
    rcases Int.emod_two_eq_zero_or_one i.currentAddr with heven | hodd
    · rw [received_data he heven] at hkind ⊢
      have hpage : nextInPage i.eepromAddr / 16 = i.eepromAddr / 16 := by
        simp only [nextInPage, nvramPageSize]
        omega
      refine ⟨hkind, ⟨f, hf, fun a ha hne => ?_⟩, ?_, fun hr' => absurd hr' hr⟩
      · simp only at hne
        cases hw : i.writeOffset with
        | none =>
          -- the first byte: nothing else is missing from the file
          refine ⟨i.eepromAddr, by simp, ?_⟩
          by_cases haddr : a = i.eepromAddr
          · omega
          · rw [Function.update_of_ne haddr] at hne
            obtain ⟨w, hsome, -⟩ := hfile a ha hne
            exact absurd (hw.symm.trans hsome) (by simp)
        | some w =>
          refine ⟨w, by simp, ?_⟩
          by_cases haddr : a = i.eepromAddr
          · subst haddr
            rw [Function.update_self] at hne
            have hsame := (h.written w hw).2.2 heven
            have hle : ¬ i.eepromAddr < w := fun hlt => by
              have hbuffer := hbelow he heven (by rw [hw]; exact hlt)
              obtain ⟨w', hsome, hge, -⟩ := hfile _ ha (hbuffer ▸ hne)
              obtain rfl : w = w' := Option.some.inj (hw.symm.trans hsome)
              omega
            omega
          · rw [Function.update_of_ne haddr] at hne
            obtain ⟨w', hsome, hin⟩ := hfile a ha hne
            obtain rfl : w = w' := Option.some.inj (hw.symm.trans hsome)
            exact hin
      · intro w hsome
        simp only [Option.some.injEq] at hsome
        refine ⟨he, ?_, fun _ => ?_⟩
        · cases hw : i.writeOffset with
          | none => rw [← hsome, hw]; exact h.kind.eepromAddr
          | some w' => rw [← hsome, hw]; exact (h.written w' hw).2.1
        · simp only [hpage]
          cases hw : i.writeOffset with
          | none => rw [← hsome, hw]; rfl
          | some w' => rw [← hsome, hw]; exact (h.written w' hw).2.2 heven
    · have hsame : i.received = i := by simp [received, he, hodd]
      rwa [hsame]

/-- What does not move the address or the protocol keeps the file in step. -/
theorem Tracked.congr {j : BitbangI2c} (h : Tracked k i) (hkind : Eeprom k j) (hzf : j.zf = i.zf)
    (hmem : j.memory = i.memory) (hw : j.writeOffset = i.writeOffset) (he : j.estate = i.estate)
    (hcur : j.currentAddr % 2 = 1 ∨ (j.currentAddr = i.currentAddr ∧ j.eepromAddr = i.eepromAddr ∧
      (Reads j → Reads i))) : Tracked k j := by
  obtain ⟨f, hf, hfile⟩ := h.file
  refine ⟨hkind, ⟨f, hzf.trans hf, ?_⟩, ?_, ?_⟩
  · rw [hmem, hw]
    exact hfile
  · intro w hsome
    obtain ⟨hdata, hlt, hpage⟩ := h.written w (hw ▸ hsome)
    refine ⟨he.trans hdata, hlt, fun heven => ?_⟩
    rcases hcur with hodd | ⟨hcur, haddr, -⟩
    · omega
    · rw [haddr]
      exact hpage (hcur ▸ heven)
  · intro hr
    rcases hcur with hodd | ⟨hcur, -, hreads⟩
    · exact hodd
    · rw [hcur]
      exact h.reading (hreads hr)

theorem tracked_clockRise (h : Tracked k i) (hbelow : i.state = .waitingForAck → i.estate = .data →
    i.currentAddr % 2 = 0 → i.eepromAddr < i.writeOffset.getD 0 →
    i.memory i.eepromAddr = i.buffer) : Tracked k i.clockRise.2 := by
  have hkind := eeprom_clockRise h.kind
  cases hs : i.state with
  | stopped =>
    refine h.congr hkind ?_ ?_ ?_ ?_ (.inr ?_) <;> simp [clockRise, hs, ret, Reads]
  | sentNack =>
    refine h.congr hkind ?_ ?_ ?_ ?_ (.inr ?_) <;> simp [clockRise, hs, ret, Reads]
  | sendingBit n =>
    by_cases hn : n = 0 <;> refine h.congr hkind ?_ ?_ ?_ ?_ (.inr ?_) <;>
      simp [clockRise, hs, ret, Reads, nextState, hn]
  | waitingForAck =>
    have hr : ¬ Reads i := by simp [Reads, hs]
    have hreceived := tracked_received h hr (hbelow hs)
    have hrise : i.clockRise.2 = i.acknowledge.2 := by simp [clockRise, hs]
    by_cases hrefuses : i.refuses
    · obtain ⟨f, hf, hfile⟩ := h.file
      rw [hrise, acknowledge_refused hrefuses] at hkind ⊢
      refine ⟨hkind, ⟨f, hf, hfile⟩, fun w hsome => ?_, fun hr' => absurd hr' (by simp [Reads])⟩
      exact absurd ((h.written w hsome).1.symm.trans hrefuses.1) (by decide)
    · rcases Int.emod_two_eq_zero_or_one i.received.currentAddr with heven | hodd
      · have hstate : BitbangState.sendingBit 7 =
            if i.received.currentAddr % 2 = 1 then .receivingBit 7 else .sendingBit 7 := by
          rw [if_neg (by omega)]
        rw [hrise, acknowledge_received hrefuses hstate] at hkind ⊢
        exact hreceived.congr hkind rfl rfl rfl rfl (.inr ⟨rfl, rfl, fun hr' =>
          absurd hr' (by simp [Reads])⟩)
      · have hstate : BitbangState.receivingBit 7 =
            if i.received.currentAddr % 2 = 1 then .receivingBit 7 else .sendingBit 7 := by
          rw [if_pos hodd]
        rw [hrise, acknowledge_received hrefuses hstate] at hkind ⊢
        exact hreceived.congr hkind rfl rfl rfl rfl (.inl hodd)
  | receivingBit n =>
    have hodd := h.reading (by simp [Reads, hs])
    refine h.congr hkind ?_ ?_ ?_ ?_ (.inl ?_)
    all_goals
      simp only [clockRise, hs, ret, fetch]
      split_ifs
      all_goals first | rfl | exact hodd
  | sendingAck =>
    have hodd := h.reading (by simp [Reads, hs])
    refine h.congr hkind ?_ ?_ ?_ ?_ (.inl ?_)
    all_goals simp only [clockRise, hs, ret]
    exact hodd

/-- Every change but one that stores below the first address keeps the file in step. -/
theorem tracked_set (h : Tracked k i) {c : Change} (hbelow : ¬ StoresBelow i c) :
    Tracked k (eepromI2cSet i c).2 := by
  have hkind := eeprom_set h.kind c
  obtain ⟨line, level⟩ := c
  cases line with
  | sda =>
    simp only [eepromI2cSet, nop, ret] at hkind ⊢
    split_ifs at hkind ⊢
    · exact h.congr hkind rfl rfl rfl rfl (.inr ⟨rfl, rfl, id⟩)
    · exact h.congr hkind rfl rfl rfl rfl (.inr ⟨rfl, rfl, id⟩)
    · exact h.congr hkind rfl rfl rfl rfl (.inl rfl)
    · have hstop := (tracked_enterStop (h.congr (j := { i with lastData := level.getD i.lastData })
        ⟨h.kind.1, h.kind.2, h.kind.3, h.kind.4, h.kind.5⟩ rfl rfl rfl rfl
        (.inr ⟨rfl, rfl, id⟩))).1
      exact hstop.congr hkind rfl rfl rfl rfl (.inr ⟨rfl, rfl, id⟩)
  | scl =>
    simp only [eepromI2cSet, nop, ret] at hkind ⊢
    split_ifs at hkind ⊢ with hsame hlow
    · exact h.congr hkind rfl rfl rfl rfl (.inr ⟨rfl, rfl, id⟩)
    · exact h.congr hkind rfl rfl rfl rfl (.inr ⟨rfl, rfl, id⟩)
    · have hlevel : level = some true ∧ i.lastClock = false := by
        rcases level with _ | _ | _
        · exact absurd rfl hsame
        · exact absurd rfl hlow
        · refine ⟨rfl, ?_⟩
          simpa using hsame
      refine tracked_clockRise (h.congr (j := { i with lastClock := level.getD i.lastClock })
        ⟨h.kind.1, h.kind.2, h.kind.3, h.kind.4, h.kind.5⟩ rfl rfl rfl rfl
        (.inr ⟨rfl, rfl, id⟩)) ?_
      intro hstate he heven hw
      by_contra hne
      exact hbelow ⟨by rw [hlevel.1], hlevel.2, hstate, he, heven, hw, hne⟩

theorem tracked_changes {cs : List Change} : ∀ {i : BitbangI2c}, Tracked k i → NeverBelow i cs →
    Tracked k (changes i cs) := by
  induction cs with
  | nil => exact fun h _ => h
  | cons c cs ih => exact fun h hrun => ih (tracked_set h hrun.1) hrun.2

theorem tracked_new {memory f : Image} (hf : ∀ a < 256 * 2 ^ k, f a = memory a) :
    Tracked k (eepromNew memory (256 * 2 ^ k) (some f)) := by
  refine ⟨eeprom_reachable .new, ⟨f, rfl, fun a ha hne => absurd (hf a ?_) hne⟩, fun w hw => ?_,
    fun hr => ?_⟩
  · rwa [pow_add] at ha
  · simp [eepromNew, eepromReset] at hw
  · simp [eepromNew, eepromReset, Reads] at hr

/-- A STOP brings the file up to date. -/
theorem backed_stop (h : Tracked k i) {c : Change} (hstop : IsStop i c) :
    Backed (eepromI2cSet i c).2 := by
  obtain ⟨rfl, hd, hc⟩ := hstop
  have htracked := (tracked_enterStop (h.congr (j := { i with lastData := true })
    ⟨h.kind.1, h.kind.2, h.kind.3, h.kind.4, h.kind.5⟩ rfl rfl rfl rfl
    (.inr ⟨rfl, rfl, id⟩))).2
  have hset : (eepromI2cSet i ⟨.sda, some true⟩).2 =
      { ({ i with lastData := true } : BitbangI2c).enterStop with deviceOut := true } := by
    simp [eepromI2cSet, hd, hc, ret]
  rw [hset]
  exact htracked

theorem neverBelow_append {cs cs' : List Change} : ∀ {i : BitbangI2c}, NeverBelow i (cs ++ cs') →
    NeverBelow i cs := by
  induction cs with
  | nil => exact fun _ => trivial
  | cons c cs ih => exact fun h => ⟨h.1, ih h.2⟩

/-- **I2C persistence.** In a run where no data byte is stored below the first address that was
written since the last STOP, the file holds the memory after every STOP. -/
theorem backed_after_stop {memory f : Image} (hf : ∀ a < 256 * 2 ^ k, f a = memory a)
    {cs : List Change} {c : Change}
    (hrun : NeverBelow (eepromNew memory (256 * 2 ^ k) (some f)) (cs ++ [c]))
    (hstop : IsStop (changes (eepromNew memory (256 * 2 ^ k) (some f)) cs) c) :
    Backed (changes (eepromNew memory (256 * 2 ^ k) (some f)) (cs ++ [c])) := by
  rw [changes_append]
  exact backed_stop (tracked_changes (tracked_new hf) (neverBelow_append hrun)) hstop

/-- The changes of a write transfer up to its STOP. -/
def writeTransfer (bytes : List Byte) : List Change :=
  startCondition :: bitCalls (sentBits (bytes.map (·, false))) ++
    [⟨.scl, some false⟩, ⟨.sda, some false⟩, ⟨.scl, some true⟩]

theorem backed_after_stop_in_page : Backed (changes (eepromNew (fun _ => 0) (256 * 2 ^ 0)
    (some fun _ => 0)) (writeTransfer [0xa0, 0x0e, 0x11, 0x22] ++ [⟨.sda, some true⟩])) :=
  backed_after_stop (fun _ _ => rfl) (by decide +kernel) ⟨rfl, by decide +kernel, by decide +kernel⟩

/-- Two bytes from address 15 on: the second one is stored at 0, and is not in the file. -/
theorem wrapped_byte_not_backed : ¬ ∀ (cs : List Change) (c : Change),
    IsStop (changes (eepromNew (fun _ => 0) 256 (some fun _ => 0)) cs) c →
    Backed (changes (eepromNew (fun _ => 0) 256 (some fun _ => 0)) (cs ++ [c])) := by
  intro h
  obtain ⟨f, hf, hfile⟩ := h (writeTransfer [0xa0, 0x0f, 0x11, 0x22]) ⟨.sda, some true⟩
    ⟨rfl, by decide +kernel, by decide +kernel⟩
  have hfirst := hfile 0 (by decide +kernel)
  have hzf : (changes (eepromNew (fun _ => 0) 256 (some fun _ => 0))
      (writeTransfer [0xa0, 0x0f, 0x11, 0x22] ++ [⟨.sda, some true⟩])).zf.map (· 0) = some 0 := by
    decide +kernel
  have hmem : (changes (eepromNew (fun _ => 0) 256 (some fun _ => 0))
      (writeTransfer [0xa0, 0x0f, 0x11, 0x22] ++ [⟨.sda, some true⟩])).memory 0 = 0x22 := by
    decide +kernel
  rw [hf, Option.map_some, Option.some.injEq, hfirst, hmem] at hzf
  exact absurd hzf (by decide)

end LibretroUae.Flash
