import LibretroUae.Disk.Mfm
import LibretroUae.Lib.Cyclic

/-!
# LibretroUae.Disk.MfmLegal

**Legal MFM.** No two ones stand side by side, and never more than three zeros. A window of four
bits is in one word or goes into the next one, so a track is legal if all neighbours among its
words join. Words with the clocks of `mfmcode` join where each takes the last data bit of the word
before it.
-/

namespace LibretroUae.Disk

open Lib

/-- A stream of bits is legal from one position on. -/
def LegalAt (b : Nat → Bool) (j : Nat) : Prop :=
  ¬ (b j ∧ b (j + 1)) ∧ (b j ∨ b (j + 1) ∨ b (j + 2) ∨ b (j + 3))

instance (b : Nat → Bool) (j : Nat) : Decidable (LegalAt b j) := inferInstanceAs (Decidable (_ ∧ _))

/-- The cyclic bit stream of a track of `tracklen` bits is legal. -/
def LegalTrack (m : Track) (tracklen : Nat) : Prop :=
  ∀ j < tracklen, LegalAt (fun k => bitAt m (k % tracklen)) j

/-- The bits of two words. -/
def pairBit (w w' : Word) (j : Nat) : Bool := if j < 16 then w.getMsbD j else w'.getMsbD (j - 16)

/-- The windows from the bits of the first word are legal. -/
def Joins (w w' : Word) : Prop := ∀ j < 16, LegalAt (pairBit w w') j

instance (w w' : Word) : Decidable (Joins w w') := inferInstanceAs (Decidable (∀ _ < _, _))

variable {w w' v v' : Word} {last last' : Long} {m : Track} {len : Nat}

/-! ### Words -/

/-- The bits of a track by words. -/
theorem bitAt_window {i j : Nat} (hi : i < len) (hj : j < 32) :
    bitAt m ((16 * i + j) % (16 * len)) = pairBit (m i) (m ((i + 1) % len)) j := by
  rw [pairBit]
  split_ifs with h
  · have hword : (16 * i + j) / 16 = i := by omega
    have hbit : (16 * i + j) % 16 = j := by omega
    rw [Nat.mod_eq_of_lt (by omega), bitAt, hword, hbit]
  · obtain ⟨k, rfl⟩ : ∃ k, j = 16 + k := ⟨j - 16, by omega⟩
    have hsplit : 16 * i + (16 + k) = 16 * (i + 1) + k := by omega
    rw [hsplit, Nat.add_sub_cancel_left]
    by_cases hlast : i + 1 < len
    · have hword : (16 * (i + 1) + k) / 16 = i + 1 := by omega
      have hbit : (16 * (i + 1) + k) % 16 = k := by omega
      rw [Nat.mod_eq_of_lt (by omega), Nat.mod_eq_of_lt hlast, bitAt, hword, hbit]
    · obtain rfl : len = i + 1 := by omega
      rw [Nat.mod_self, Nat.add_mod_left, Nat.mod_eq_of_lt (by omega), bitAt,
        Nat.div_eq_of_lt (by omega), Nat.mod_eq_of_lt (by omega)]

/-- A track is legal if its neighbours join. -/
theorem legalTrack_iff : LegalTrack m (16 * len) ↔ Cyclic Joins m len := by
  have hwindow : ∀ i < len, ∀ j < 16,
      LegalAt (fun k => bitAt m (k % (16 * len))) (16 * i + j) ↔
        LegalAt (pairBit (m i) (m ((i + 1) % len))) j := by
    intro i hi j hj
    simp only [LegalAt, Nat.add_assoc, bitAt_window hi (by omega : j < 32),
      bitAt_window hi (by omega : j + 1 < 32), bitAt_window hi (by omega : j + 2 < 32),
      bitAt_window hi (by omega : j + 3 < 32)]
  constructor
  · exact fun h i hi j hj => (hwindow i hi j hj).mp (h _ (by omega))
  · intro h k hk
    have hsplit : k = 16 * (k / 16) + k % 16 := by omega
    rw [hsplit]
    exact (hwindow _ (by omega) _ (by omega)).mpr (h _ (by omega) _ (by omega))

/-! ### Clocks -/

/-- The data bits stay. -/
theorem getMsbD_mfmWord_odd (last : Long) (w : Word) {j : Nat} (hj : j % 2 = 1) :
    (mfmWord last w).2.getMsbD j = w.getMsbD j := by
  rw [BitVec.getMsbD_eq_getLsbD, BitVec.getMsbD_eq_getLsbD]
  by_cases hlt : j < 16
  · have hbit := congrArg (BitVec.getLsbD · (16 - 1 - j)) (mfmWord_data last w)
    have heven : (16 - 1 - j) % 2 = 0 := by omega
    have hin : 16 - 1 - j < 16 := by omega
    simp only [BitVec.getLsbD_and, getLsbD_wordMask, heven, hin, decide_true, Bool.and_true] at hbit
    rw [hbit]
  · simp only [hlt, decide_false, Bool.false_and]

/-- A clock stands between two zeros. -/
theorem getMsbD_mfmWord_even (last : Long) (w : Word) {j : Nat} (hj : j % 2 = 0) (hlt : j < 16) :
    (mfmWord last w).2.getMsbD j =
      (!(if j = 0 then last.getLsbD 0 else w.getMsbD (j - 1)) && !w.getMsbD (j + 1)) := by
  have hodd : ¬ (16 - 1 - j) % 2 = 0 := by omega
  have hpred : (16 - 1 - j - 1) % 2 = 0 := by omega
  have hsucc : (1 + (16 - 1 - j)) % 2 = 0 := by omega
  have h16 : 16 - 1 - j < 16 := by omega
  have h32 : 16 - 1 - j < 32 := by omega
  have h32' : 16 - 1 - j - 1 < 32 := by omega
  have h32'' : 1 + (16 - 1 - j) < 32 := by omega
  have hpos : ¬ 16 - 1 - j < 1 := by omega
  have hnext : 16 - 1 - j - 1 = 16 - 1 - (j + 1) := by omega
  rw [BitVec.getMsbD_eq_getLsbD]
  simp only [mfmWord, BitVec.getLsbD_setWidth, BitVec.getLsbD_or, BitVec.getLsbD_and,
    BitVec.getLsbD_shiftLeft, BitVec.getLsbD_ushiftRight, BitVec.getLsbD_not, getLsbD_mfmMask,
    hlt, h16, h32, h32', h32'', hodd, hpred, hsucc, hpos, decide_true, decide_false, Bool.true_and,
    Bool.and_true, Bool.and_false, Bool.false_or, Bool.not_false]
  have hbehind : 16 - 1 - j - 1 < 16 := by omega
  have hlt' : j + 1 < 16 := by omega
  rw [Bool.and_comm, BitVec.getMsbD_eq_getLsbD w (j + 1), hnext]
  rw [hnext] at hbehind
  simp only [hbehind, hlt', decide_true, Bool.not_true, Bool.false_and, Bool.false_or,
    Bool.true_and]
  rcases Nat.eq_zero_or_pos j with rfl | hj0
  · simp
  · have hfront : 1 + (16 - 1 - j) < 16 := by omega
    have hprev : 16 - 1 - (j - 1) = 1 + (16 - 1 - j) := by omega
    have hlt'' : j - 1 < 16 := by omega
    rw [if_neg (by omega), BitVec.getMsbD_eq_getLsbD w (j - 1), hprev]
    simp only [hfront, hlt'', decide_true, Bool.not_true, Bool.false_and, Bool.false_or,
      Bool.true_and]

/-! ### Words that join -/

/-- The stream of two words with their clocks, the second one behind the data of the first. -/
theorem joins_mfmWord (hlast : last'.getLsbD 0 = v.getLsbD 0) :
    Joins (mfmWord last v).2 (mfmWord last' v').2 := by
  have hbit : v.getLsbD 0 = v.getMsbD 15 := by rw [BitVec.getMsbD_eq_getLsbD]; rfl
  -- every clock behind the first is the one between its neighbours
  have hclock : ∀ j, 0 < j → j % 2 = 0 → j < 31 →
      pairBit (mfmWord last v).2 (mfmWord last' v').2 j =
        (!pairBit (mfmWord last v).2 (mfmWord last' v').2 (j - 1) &&
          !pairBit (mfmWord last v).2 (mfmWord last' v').2 (j + 1)) := by
    intro j hj0 hj hlt
    simp only [pairBit]
    rcases Nat.lt_trichotomy j 16 with h | rfl | h
    · have h1 : j - 1 < 16 := by omega
      have h2 : j + 1 < 16 := by omega
      rw [if_pos h, if_pos h1, if_pos h2, getMsbD_mfmWord_even _ _ hj h, if_neg (by omega),
        getMsbD_mfmWord_odd _ _ (by omega), getMsbD_mfmWord_odd _ _ (by omega)]
    · rw [if_neg (by decide), if_pos (by decide), if_neg (by decide),
        getMsbD_mfmWord_even _ _ (by decide) (by decide), getMsbD_mfmWord_odd _ _ (by decide),
        getMsbD_mfmWord_odd _ _ (by decide), hlast, hbit]
      rfl
    · have h0 : ¬ j < 16 := by omega
      have h1 : ¬ j - 1 < 16 := by omega
      have h2 : ¬ j + 1 < 16 := by omega
      have hprev : j - 1 - 16 = j - 16 - 1 := by omega
      have hnext : j + 1 - 16 = j - 16 + 1 := by omega
      rw [if_neg h0, if_neg h1, if_neg h2, hprev, hnext,
        getMsbD_mfmWord_even _ _ (by omega) (by omega), if_neg (by omega),
        getMsbD_mfmWord_odd _ _ (by omega), getMsbD_mfmWord_odd _ _ (by omega)]
  have hfirst : pairBit (mfmWord last v).2 (mfmWord last' v').2 0 →
      ¬ pairBit (mfmWord last v).2 (mfmWord last' v').2 1 := by
    rw [pairBit, pairBit, if_pos (by decide), if_pos (by decide),
      getMsbD_mfmWord_even _ _ (by decide) (by decide), getMsbD_mfmWord_odd _ _ (by decide)]
    simp
  intro j hj
  generalize pairBit (mfmWord last v).2 (mfmWord last' v').2 = b at hclock hfirst ⊢
  rcases Nat.mod_two_eq_zero_or_one j with h | h
  · -- clock, data, clock, data
    have hnext := hclock (j + 2) (by omega) (by omega) (by omega)
    have hprev : j + 2 - 1 = j + 1 := rfl
    rw [hprev] at hnext
    refine ⟨?_, ?_⟩
    · rcases Nat.eq_zero_or_pos j with rfl | hj0
      · exact fun ⟨h0, h1⟩ => hfirst h0 h1
      · have hthis := hclock j hj0 h (by omega)
        rintro ⟨h0, h1⟩
        simp [h0, h1] at hthis
    · cases h1 : b (j + 1) <;> cases h3 : b (j + 3) <;> simp_all
  · -- data, clock, data, clock
    have hnext := hclock (j + 1) (by omega) (by omega) (by omega)
    rw [Nat.add_sub_cancel] at hnext
    refine ⟨?_, ?_⟩
    · rintro ⟨h0, h1⟩
      simp [h0, h1] at hnext
    · cases h0 : b j <;> cases h2 : b (j + 2) <;> simp_all

/-- A word with clocks, whose last data bit is `d`. -/
def Carries (d : Bool) (w : Word) : Prop := ∃ last v, w = (mfmWord last v).2 ∧ v.getLsbD 0 = d

/-- A word with clocks for a last data bit `d` in front of it. -/
def Behind (d : Bool) (w : Word) : Prop := ∃ last v, w = (mfmWord last v).2 ∧ last.getLsbD 0 = d

theorem joins_behind {d : Bool} (h : Carries d w) (h' : Behind d w') : Joins w w' := by
  obtain ⟨last, v, rfl, hv⟩ := h
  obtain ⟨last', v', rfl, hlast⟩ := h'
  exact joins_mfmWord (hlast.trans hv.symm)

/-- Of the second word only the first three bits matter. -/
theorem joins_congr {x : Word} (h : ∀ j < 3, w'.getMsbD j = x.getMsbD j) : Joins w w' → Joins w x := by
  have hpair : ∀ j < 19, pairBit w w' j = pairBit w x j := by
    intro j hj
    simp only [pairBit]
    split_ifs
    · rfl
    · exact h _ (by omega)
  intro hjoins j hj
  have hlegal := hjoins j hj
  simpa only [LegalAt, hpair j (by omega), hpair (j + 1) (by omega), hpair (j + 2) (by omega),
    hpair (j + 3) (by omega)] using hlegal

/-- Two ones side by side. -/
theorem not_joins (h : Carries true w) (h' : w'.getMsbD 0 = true) : ¬ Joins w w' := by
  obtain ⟨last, v, rfl, hv⟩ := h
  intro hjoins
  refine (hjoins 15 (by decide)).1 ⟨?_, ?_⟩
  · rw [pairBit, if_pos (by decide), getMsbD_mfmWord_odd _ _ (by decide), BitVec.getMsbD_eq_getLsbD]
    exact hv
  · rw [pairBit, if_neg (by decide)]
    exact h'

/-- Where the clocks start anew, a data bit in front must be zero, or the first data bit one. -/
theorem joins_restart_iff {d : Bool} (h : Carries d w) :
    Joins w (mfmWord 0 v').2 ↔ (d = true → v'.getMsbD 1 = true) := by
  cases d with
  | false => exact iff_of_true (joins_behind h ⟨0, v', rfl, rfl⟩) fun h => absurd h (by decide)
  | true =>
    constructor
    · intro hjoins _
      by_contra hv
      refine not_joins h ?_ hjoins
      rw [getMsbD_mfmWord_even _ _ (by decide) (by decide), if_pos rfl]
      simpa using hv
    · intro hv
      have hbehind : Joins w (mfmWord 1 v').2 := joins_behind h ⟨1, v', rfl, rfl⟩
      refine joins_congr (fun j hj => ?_) hbehind
      rcases Nat.mod_two_eq_zero_or_one j with he | he
      · rw [getMsbD_mfmWord_even _ _ he (by omega), getMsbD_mfmWord_even _ _ he (by omega)]
        split_ifs with hj0
        · subst hj0
          simp [hv rfl]
        · rfl
      · rw [getMsbD_mfmWord_odd _ _ he, getMsbD_mfmWord_odd _ _ he]

/-- Behind a sync word the clocks start anew, so the first data bit must be one. -/
theorem joins_sync (h : v.getMsbD 1 = true) : Joins 0x4489 (mfmWord last v).2 := by
  have hstart : Joins 0x4489 0x4000 := by decide
  refine joins_congr (fun j hj => ?_) hstart
  obtain rfl | rfl | rfl : j = 0 ∨ j = 1 ∨ j = 2 := by omega
  · rw [getMsbD_mfmWord_even _ _ (by decide) (by decide), h, Bool.not_true, Bool.and_false]
    rfl
  · rw [getMsbD_mfmWord_odd _ _ (by decide), h]
    rfl
  · rw [getMsbD_mfmWord_even _ _ (by decide) (by decide), if_neg (by decide), h]
    rfl

/-! ### The words of `mfmcode` -/

theorem isChain_mfmcode (ws : List Word) : ∀ last : Long, (mfmcode last ws).IsChain Joins := by
  induction ws with
  | nil => exact fun _ => .nil
  | cons w ws ih =>
    intro last
    rw [mfmcode]
    refine (ih (mfmWord last w).1).cons fun y hy => ?_
    cases ws with
    | nil => exact absurd hy (by simp [mfmcode])
    | cons w' ws =>
      obtain rfl : (mfmWord (mfmWord last w).1 w').2 = y := by simpa [mfmcode] using hy
      refine joins_mfmWord ?_
      simp [mfmWord, mfmMask]

theorem head?_mfmcode (last : Long) (w : Word) (ws : List Word) :
    (mfmcode last (w :: ws)).head? = some (mfmWord last w).2 := rfl

theorem getLast?_mfmcode (ws : List Word) : ∀ (last : Long) (x : Word), ws.getLast? = some x →
    ∃ y, (mfmcode last ws).getLast? = some y ∧ Carries (x.getLsbD 0) y := by
  induction ws with
  | nil => exact fun _ _ h => absurd h (by simp)
  | cons w ws ih =>
    intro last x h
    rw [mfmcode]
    cases ws with
    | nil =>
      obtain rfl : w = x := by simpa using h
      exact ⟨_, rfl, last, w, rfl, rfl⟩
    | cons w' ws =>
      obtain ⟨y, hy, hcarries⟩ := ih (mfmWord last w).1 x (by simpa using h)
      refine ⟨y, ?_, hcarries⟩
      rw [mfmcode] at hy ⊢
      simpa using hy

/-- `mfmcode` leaves every data bit. -/
theorem mfmcode_data (ws : List Word) : ∀ last : Long,
    (mfmcode last ws).map (· &&& wordMask) = ws.map (· &&& wordMask) := by
  induction ws with
  | nil => exact fun _ => rfl
  | cons w ws ih =>
    intro last
    rw [mfmcode, List.map_cons, List.map_cons, ih, mfmWord_data]

/-! ### Gap words -/

/-- The gap word behind a last data bit. -/
def gapWord (d : Bool) : Word := if d then 0x2aaa else 0xaaaa

theorem behind_gapWord (d : Bool) : Behind d (gapWord d) := by
  cases d with
  | false => exact ⟨0, 0, by decide, rfl⟩
  | true => exact ⟨1, 0, by decide, rfl⟩

theorem carries_gapWord (d : Bool) : Carries false (gapWord d) := by
  cases d with
  | false => exact ⟨0, 0, by decide, rfl⟩
  | true => exact ⟨1, 0, by decide, rfl⟩

theorem joins_gapWord (d : Bool) : Joins (gapWord d) 0xaaaa :=
  joins_behind (carries_gapWord d) (behind_gapWord false)

end LibretroUae.Disk
