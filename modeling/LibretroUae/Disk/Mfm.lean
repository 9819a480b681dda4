import LibretroUae.Lib.Bytes

/-!
# LibretroUae.Disk.Mfm

MFM words as `disk.c` writes and reads them.

A long is written as two halves, the odd bits and then the even bits, each in the
even positions of a long of its own (`dodd`, `deven`); `mfmcode` then puts clock bits
into the odd positions. The reader masks the clocks out again, so all it sees of
`mfmcode` is that it keeps the even positions (`mfmWord_data`), and a track that holds
a list of longs between its clocks is described by `HasLongs`.
-/

namespace LibretroUae.Disk

open LibretroUae.Lib

abbrev Word := BitVec 16
abbrev Long := BitVec 32

/-- A track buffer, `bigmfmbuf`. -/
abbrev Track := Nat → Word

/-- The `k`-th bit of a buffer. -/
def bitAt (buf : Track) (k : Nat) : Bool := (buf (k / 16)).getMsbD (k % 16)

/-- `MFMMASK`: the data bits of a long. -/
def mfmMask : Long := 0x55555555

/-- The data bits of a word. -/
def wordMask : Word := 0x5555

/-! ### Writing -/

/-- One turn of `mfmcode`: the next `lastword` and the word with its clocks. -/
def mfmWord (lastword : Long) (w : Word) : Long × Word :=
  let v := w.setWidth 32 &&& mfmMask
  let lv := (lastword <<< 16) ||| v
  let nlv := mfmMask &&& ~~~lv
  let mfmbits := (nlv <<< 1) &&& (nlv >>> 1)
  (v, (v ||| mfmbits).setWidth 16)

/-- `mfmcode`, from a `lastword` on. -/
def mfmcode : Long → List Word → List Word
  | _, [] => []
  | lastword, w :: ws => (mfmWord lastword w).2 :: mfmcode (mfmWord lastword w).1 ws

/-- The odd bits of a long, moved to the even positions. -/
def dodd (l : Long) : Long := (l >>> 1) &&& mfmMask

/-- The even bits of a long. -/
def deven (l : Long) : Long := l &&& mfmMask

/-- A long as two words, high word first. -/
def longWords (l : Long) : List Word := [(l >>> 16).setWidth 16, l.setWidth 16]

/-! ### Reading -/

-- the numerals of shifts
scoped instance neZero_sixteen : NeZero 16 := ⟨by decide⟩

/-- `getmfmword`. -/
def getmfmword (mbuf : Track) (p : Nat) (shift : Fin 16) : Word :=
  (mbuf p <<< shift.val) ||| (mbuf (p + 1) >>> (16 - shift.val))

/-- `getmfmlong`. -/
def getmfmlong (mbuf : Track) (p : Nat) (shift : Fin 16) : Long :=
  (((getmfmword mbuf p shift).setWidth 32 <<< 16) ||| (getmfmword mbuf (p + 1) shift).setWidth 32)
    &&& mfmMask

/-- `(odd << 1) | even`. -/
def merge (odd even : Long) : Long := (odd <<< 1) ||| even

/-! ### Data bits -/

theorem getLsbD_mfmMask (i : Nat) : mfmMask.getLsbD i = (decide (i < 32) && decide (i % 2 = 0)) := by
  rcases Nat.lt_or_ge i 32 with h | h
  · have hall : ∀ i < 32, mfmMask.getLsbD i = (decide (i < 32) && decide (i % 2 = 0)) := by decide
    exact hall i h
  · have hge : ¬ i < 32 := by omega
    rw [BitVec.getLsbD_of_ge _ _ h]
    simp [hge]

theorem getLsbD_wordMask (i : Nat) :
    wordMask.getLsbD i = (decide (i < 16) && decide (i % 2 = 0)) := by
  rcases Nat.lt_or_ge i 16 with h | h
  · have hall : ∀ i < 16, wordMask.getLsbD i = (decide (i < 16) && decide (i % 2 = 0)) := by decide
    exact hall i h
  · have hge : ¬ i < 16 := by omega
    rw [BitVec.getLsbD_of_ge _ _ h]
    simp [hge]

/-- The clocks of `mfmcode` stay out of the data positions. -/
theorem mfmWord_data (lastword : Long) (w : Word) :
    (mfmWord lastword w).2 &&& wordMask = w &&& wordMask := by
  apply BitVec.eq_of_getLsbD_eq
  intro i hi
  rcases Nat.mod_two_eq_zero_or_one i with h | h
  · have h32 : i < 32 := by omega
    simp only [mfmWord, BitVec.getLsbD_and, BitVec.getLsbD_setWidth, BitVec.getLsbD_or,
      BitVec.getLsbD_shiftLeft, getLsbD_mfmMask, getLsbD_wordMask, hi, h, h32, decide_true,
      Bool.and_true, Bool.true_and]
    -- a clock needs data positions on both sides
    rcases Nat.eq_zero_or_pos i with rfl | hpos
    · simp
    · have hodd : ¬ (i - 1) % 2 = 0 := by omega
      simp [hodd]
  · simp [BitVec.getLsbD_and, getLsbD_wordMask, h]

/-- Of the last word only its last data bit matters. -/
theorem mfmWord_congr {last : Long} (last' : Long) (h : last.getLsbD 0 = last'.getLsbD 0) (w : Word) :
    (mfmWord last w).2 = (mfmWord last' w).2 := by
  have hshift : ∀ j < 17, (last <<< 16).getLsbD j = (last' <<< 16).getLsbD j := by
    intro j hj
    rcases Nat.lt_or_ge j 16 with hlt | hge
    · simp [BitVec.getLsbD_shiftLeft, hlt]
    · obtain rfl : j = 16 := by omega
      simpa [BitVec.getLsbD_shiftLeft] using h
  apply BitVec.eq_of_getLsbD_eq
  intro i hi
  simp only [mfmWord, BitVec.getLsbD_setWidth, BitVec.getLsbD_or, BitVec.getLsbD_and,
    BitVec.getLsbD_shiftLeft _ 1, BitVec.getLsbD_ushiftRight, BitVec.getLsbD_not,
    hshift (i - 1) (by omega), hshift (1 + i) (by omega)]

/-- A zero data word gets a clock in front of every data position but, after a data bit,
the first. -/
theorem mfmWord_zero (last : Long) :
    (mfmWord last 0).2 = if last.getLsbD 0 then 0x2aaa else 0xaaaa := by
  cases h : last.getLsbD 0 with
  | false =>
    have h0 : (mfmWord 0 0).2 = 0xaaaa := by decide
    rw [mfmWord_congr 0 (h.trans (by decide)), h0]
    rfl
  | true =>
    have h1 : (mfmWord 1 0).2 = 0x2aaa := by decide
    rw [mfmWord_congr 1 (h.trans (by decide)), h1]
    rfl

/-- Splitting a long into odd and even bits and merging them. -/
theorem merge_split (l : Long) : merge (dodd l) (deven l) = l := by
  apply BitVec.eq_of_getLsbD_eq
  intro i hi
  simp only [merge, dodd, deven, BitVec.getLsbD_or, BitVec.getLsbD_shiftLeft, BitVec.getLsbD_and,
    BitVec.getLsbD_ushiftRight, getLsbD_mfmMask, hi, decide_true, Bool.true_and]
  rcases Nat.mod_two_eq_zero_or_one i with h | h
  · rcases Nat.eq_zero_or_pos i with rfl | hpos
    · simp
    · have hodd : ¬ (i - 1) % 2 = 0 := by omega
      simp [h, hodd]
  · have hpos : ¬ i < 1 := by omega
    have heven : (i - 1) % 2 = 0 := by omega
    have hlt : i - 1 < 32 := by omega
    have hadd : 1 + (i - 1) = i := by omega
    simp [h, hpos, heven, hlt, hadd]

/-! ### Words and longs on a track -/

/-- The words `ws` stand on the track from `p` on. -/
def HasWords (mbuf : Track) : Nat → List Word → Prop
  | _, [] => True
  | p, w :: ws => mbuf p = w ∧ HasWords mbuf (p + 1) ws

/-- The data bits of the longs `ls` stand on the track from word `p` on. -/
def HasLongs (mbuf : Track) : Nat → List Long → Prop
  | _, [] => True
  | p, l :: ls => getmfmlong mbuf p 0 = deven l ∧ HasLongs mbuf (p + 2) ls

theorem HasWords.append {mbuf : Track} {ws ws' : List Word} :
    ∀ {p : Nat}, HasWords mbuf p (ws ++ ws') ↔
      HasWords mbuf p ws ∧ HasWords mbuf (p + ws.length) ws' := by
  induction ws with
  | nil => simp [HasWords]
  | cons w ws ih =>
    intro p
    simp only [List.cons_append, HasWords, ih, List.length_cons, and_assoc]
    rw [Nat.add_assoc p 1, Nat.add_comm 1]

theorem HasLongs.append {mbuf : Track} {ls ls' : List Long} :
    ∀ {p : Nat}, HasLongs mbuf p (ls ++ ls') ↔
      HasLongs mbuf p ls ∧ HasLongs mbuf (p + 2 * ls.length) ls' := by
  induction ls with
  | nil => simp [HasLongs]
  | cons l ls ih =>
    intro p
    simp only [List.cons_append, HasLongs, ih, List.length_cons, and_assoc]
    rw [Nat.add_assoc p 2, Nat.mul_add, Nat.mul_one, Nat.add_comm 2]

/-- Tracks that agree on the words of a list hold it both or neither. -/
theorem HasWords.congr {m m' : Track} {ws : List Word} :
    ∀ {p q : Nat}, (∀ j < ws.length, m' (q + j) = m (p + j)) → HasWords m p ws →
      HasWords m' q ws := by
  induction ws with
  | nil => exact fun _ _ => trivial
  | cons w ws ih =>
    intro p q h hw
    refine ⟨(h 0 (by simp)).trans hw.1, ih (fun j hj => ?_) hw.2⟩
    have := h (j + 1) (by simpa using hj)
    rwa [Nat.add_comm j 1, ← Nat.add_assoc, ← Nat.add_assoc] at this

@[simp] theorem getmfmword_zero (mbuf : Track) (p : Nat) : getmfmword mbuf p 0 = mbuf p := by
  have h : mbuf (p + 1) >>> 16 = 0 := BitVec.ushiftRight_eq_zero (by decide)
  simp only [getmfmword, Fin.val_zero, BitVec.shiftLeft_zero, Nat.sub_zero, h]
  exact BitVec.or_zero

/-- The two words of a long, under whatever clocks, read as its data bits. -/
theorem getmfmlong_of_words {mbuf : Track} {p : Nat} {l : Long}
    (hhi : mbuf p &&& wordMask = (l >>> 16).setWidth 16 &&& wordMask)
    (hlo : mbuf (p + 1) &&& wordMask = l.setWidth 16 &&& wordMask) :
    getmfmlong mbuf p 0 = deven l := by
  have hbit : ∀ {w w' : Word} {i : Nat}, w &&& wordMask = w' &&& wordMask → i < 16 → i % 2 = 0 →
      w.getLsbD i = w'.getLsbD i := by
    intro w w' i h hi h2
    have := congrArg (BitVec.getLsbD · i) h
    simpa [-BitVec.getLsbD_eq_getElem, BitVec.getLsbD_and, getLsbD_wordMask, hi, h2] using this
  apply BitVec.eq_of_getLsbD_eq
  intro i hi
  simp only [getmfmlong, deven, getmfmword_zero, BitVec.getLsbD_and, BitVec.getLsbD_or,
    BitVec.getLsbD_shiftLeft, BitVec.getLsbD_setWidth, getLsbD_mfmMask, hi, decide_true,
    Bool.true_and]
  rcases Nat.mod_two_eq_zero_or_one i with h2 | h2
  · rcases Nat.lt_or_ge i 16 with h | h
    · have hl := hbit hlo h h2
      rw [BitVec.getLsbD_setWidth] at hl
      simp [-BitVec.getLsbD_eq_getElem, h, hl]
    · have hsub : (i - 16) % 2 = 0 := by omega
      have hlt : i - 16 < 16 := by omega
      have hadd : 16 + (i - 16) = i := by omega
      have hge : ¬ i < 16 := by omega
      have hl := hbit hhi hlt hsub
      rw [BitVec.getLsbD_setWidth, BitVec.getLsbD_ushiftRight, hadd] at hl
      have h0 : (mbuf (p + 1)).getLsbD i = false := BitVec.getLsbD_of_ge _ _ h
      have hlt32 : i - 16 < 32 := by omega
      simp [-BitVec.getLsbD_eq_getElem, hge, hl, hlt, hlt32, h0]
  · simp [h2]

/-- Longs written with `mfmcode` read as their data bits. -/
theorem HasLongs.of_mfmcode {mbuf : Track} {ls : List Long} :
    ∀ {last : Long} {p : Nat}, HasWords mbuf p (mfmcode last (ls.flatMap longWords)) →
      HasLongs mbuf p ls := by
  induction ls with
  | nil => exact fun _ => trivial
  | cons l ls ih =>
    intro last p h
    obtain ⟨hhi, hlo, hrest⟩ := h
    refine ⟨getmfmlong_of_words ?_ ?_, ih hrest⟩
    · rw [hhi]
      exact mfmWord_data _ _
    · rw [hlo]
      exact mfmWord_data _ _

end LibretroUae.Disk
