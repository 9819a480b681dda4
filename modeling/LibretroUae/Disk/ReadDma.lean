import LibretroUae.Disk.Mfm
import LibretroUae.Lib.Machine
import Mathlib.Data.List.Basic
import Mathlib.Tactic.Common
import Mathlib.Tactic.SplitIfs

/-!
# LibretroUae.Disk.ReadDma

**Reading a track by DMA.** The controller shifts the bits of the track into a word. A word that is
the sync word starts the transfer and aligns it; from there on every sixteenth bit completes a word,
which goes through a FIFO of three words to memory, in slots that come at any time. When the FIFO is
full the bit is read again later.

A word that is loaded last while the FIFO is empty is lost, and so is one that is in it alone when
the third slot of a line has been used.
-/

namespace LibretroUae.DiskDma

open LibretroUae.Lib LibretroUae.Disk

/-- Bits of `ADKCON`, `DSKSYNC`, and whether the drive is faster than a real one. Disk DMA is on. -/
structure Config where
  msbsync : Bool
  wordsync : Bool
  dsksync : Word
  fast : Bool

/-- The FIFO with the word that came last in front, and what has been stored in memory. -/
structure Controller where
  word : Word
  bitoffset : Nat
  dsksyncOn : Bool
  dmaEnable : Bool
  dskdmaen : Bool
  dsklength : Nat
  fifo : List Word
  mem : List Word
  deriving DecidableEq

namespace Controller

variable (c : Controller)

/-- `disk_dmafinished`. -/
def dmafinished : Controller := { c with dskdmaen := false, dsklength := 0, fifo := [] }

/-- `DSKDAT`. -/
def dskdat (v : Word) : Controller :=
  if c.fifo.length = 3 then c else { c with fifo := v :: c.fifo }

/-- `DSKDATR`, and the word goes to memory. -/
def dskdatr (slot : Nat) : Controller :=
  match c.fifo.getLast? with
  | none => c
  | some v =>
    let c := { c with fifo := c.fifo.dropLast, mem := c.mem ++ [v] }
    if c.dskdmaen && c.dsklength = 0 && (c.fifo = [] || (slot = 2 && c.fifo.length = 1)) then
      c.dmafinished
    else c

/-- Faster drives flush a full FIFO. -/
def flush (cfg : Config) : Controller :=
  if cfg.fast ∧ c.fifo.length = 3 then (dskdatr · 0)^[3] c else c

/-- `doreaddma`; none stands for -1. -/
def doreaddma (cfg : Config) : Option Controller :=
  if c.bitoffset = 15 ∧ c.dmaEnable ∧ c.dskdmaen ∧ 0 < c.dsklength then
    let c := c.flush cfg
    if c.fifo.length = 3 then none
    else
      let c := { c with dsklength := c.dsklength - 1 }
      if c.fifo = [] ∧ c.dsklength = 0 then some c.dmafinished else some (c.dskdat c.word)
  else some c

/-- `wordsync_detected` within a track. -/
def wordsyncDetected (cfg : Config) : Controller :=
  let c := { c with dsksyncOn := true }
  let c :=
    if c.dskdmaen && !c.dmaEnable then
      let c := { c with dmaEnable := true }
      if c.dsklength = 0 then c.dmafinished else c
    else c
  if cfg.wordsync then { c with bitoffset := 15 } else c

end Controller

/-- A bit goes into the word. -/
def shiftIn (w : Word) (b : Bool) : Word := w <<< 1 ||| (BitVec.ofBool b).setWidth 16

namespace Controller

variable (c : Controller)

/-- The bit that `MSBSYNC` takes back, if it does. -/
def msbSync (cfg : Config) : Controller × Bool :=
  if cfg.msbsync && !c.word.getLsbD 0 then
    if c.bitoffset = 0 then ({ c with word := 0 }, true)
    else if c.bitoffset = 8 then ({ c with word := c.word >>> 1 }, true)
    else (c, false)
  else (c, false)

/-- The word is the sync word, or is not. -/
def wordSync (cfg : Config) : Controller :=
  if c.word ≠ cfg.dsksync then { c with dsksyncOn := false }
  else if cfg.msbsync then c
  else c.wordsyncDetected cfg

/-- A bit of `disk_doupdate_read`, and whether it has been taken. -/
def readBit (cfg : Config) (b : Bool) : Controller × Bool :=
  let shifted := { c with word := shiftIn c.word b }
  match shifted.doreaddma cfg with
  | none => ({ c with word := shifted.word >>> 1 }, false)
  | some c =>
    let (c, skipbit) := c.msbSync cfg
    let c := c.wordSync cfg
    (if skipbit then c else { c with bitoffset := (c.bitoffset + 1) % 16 }, true)

end Controller

/-- Bits come from the track, and slots from the bus. -/
inductive Input
  | bit (b : Bool)
  | slot (n : Nat)

/-- The controller with the bits that it has taken. -/
def step (cfg : Config) (s : Controller × List Bool) : Input → Controller × List Bool
  | .bit b => ((s.1.readBit cfg b).1, if (s.1.readBit cfg b).2 then s.2 ++ [b] else s.2)
  | .slot n => (s.1.dskdatr n, s.2)

/-- Slots come only while DMA is on. -/
def readMachine (cfg : Config) : Machine (Controller × List Bool) Input Empty where
  legal s
    | .bit _ => True
    | .slot _ => s.1.dskdmaen = true
  step s i := .ok (step cfg s i)

instance (cfg : Config) (s : Controller × List Bool) :
    ∀ i, Decidable ((readMachine cfg).legal s i)
  | .bit _ => .isTrue trivial
  | .slot _ => inferInstanceAs (Decidable (s.1.dskdmaen = true))

/-! ### The words on a track -/

/-- How far a track has been read: the word, how many bits there have been since it was aligned, and
the words so far. -/
structure Frame where
  word : Word
  since : Option Nat
  words : List Word

def Frame.bit (dsksync : Word) (f : Frame) (b : Bool) : Frame :=
  let word := shiftIn f.word b
  { word
    since := if word = dsksync then some 0 else f.since.map fun r => (r + 1) % 16
    words := if f.since = some 15 then f.words ++ [word] else f.words }

/-- The track read from the word `w` on. -/
def frame (dsksync w : Word) (bits : List Bool) : Frame :=
  bits.foldl (Frame.bit dsksync) ⟨w, none, []⟩

/-- How a transfer of `n` words begins. -/
def Controller.Starts (c : Controller) (n : Nat) : Prop :=
  c.dmaEnable = false ∧ c.dskdmaen = true ∧ c.dsklength = n ∧ c.fifo = [] ∧ c.mem = []

/-! ### The transfer -/

/-- What has come of the first `n` of some words. -/
structure Stored (n : Nat) (c : Controller) (words : List Word) : Prop where
  fifo : c.fifo.length ≤ 3
  stored : c.mem ++ c.fifo.reverse <+: words
  all : c.dskdmaen = true → 0 < c.dsklength → c.mem ++ c.fifo.reverse = words
  count : c.dskdmaen = true → c.mem.length + c.fifo.length + c.dsklength = n
  done : c.dskdmaen = false → n ≤ c.mem.length + 1 ∧ c.mem.length ≤ n

/-- The controller beside the frame. The upper bit of its word may have been lost. -/
structure Transfer (n : Nat) (c : Controller) (f : Frame) : Prop where
  stored : Stored n c f.words
  word : c.word <<< 1 = f.word <<< 1
  enabled : c.dskdmaen = true → c.dmaEnable = f.since.isSome
  offset : c.dskdmaen = true → ∀ r, f.since = some r → c.bitoffset = r
  waiting : f.since = none → f.words = []

/-- Words go from the FIFO to memory. -/
structure Moves (c c' : Controller) : Prop where
  word : c'.word = c.word
  bitoffset : c'.bitoffset = c.bitoffset
  dmaEnable : c'.dmaEnable = c.dmaEnable
  dskdmaen : c'.dskdmaen = c.dskdmaen
  dsklength : c'.dsklength = c.dsklength
  dsksyncOn : c'.dsksyncOn = c.dsksyncOn
  stored : c'.mem ++ c'.fifo.reverse = c.mem ++ c.fifo.reverse
  fifo : c'.fifo.length ≤ c.fifo.length

section

variable {cfg : Config} {n : Nat} {c c' : Controller} {words : List Word}

theorem Moves.refl (c : Controller) : Moves c c := ⟨rfl, rfl, rfl, rfl, rfl, rfl, rfl, le_rfl⟩

theorem Moves.trans {c'' : Controller} (h : Moves c c') (h' : Moves c' c'') : Moves c c'' where
  word := h'.word.trans h.word
  bitoffset := h'.bitoffset.trans h.bitoffset
  dmaEnable := h'.dmaEnable.trans h.dmaEnable
  dskdmaen := h'.dskdmaen.trans h.dskdmaen
  dsklength := h'.dsklength.trans h.dsklength
  dsksyncOn := h'.dsksyncOn.trans h.dsksyncOn
  stored := h'.stored.trans h.stored
  fifo := h'.fifo.trans h.fifo

theorem Moves.length (h : Moves c c') :
    c'.mem.length + c'.fifo.length = c.mem.length + c.fifo.length := by
  simpa using congrArg List.length h.stored

theorem Stored.of_eq (h : Stored n c words) (hfifo : c'.fifo = c.fifo) (hmem : c'.mem = c.mem)
    (hon : c'.dskdmaen = c.dskdmaen) (hlen : c'.dsklength = c.dsklength) : Stored n c' words where
  fifo := by rw [hfifo]; exact h.fifo
  stored := by rw [hfifo, hmem]; exact h.stored
  all := by rw [hfifo, hmem, hon, hlen]; exact h.all
  count := by rw [hfifo, hmem, hon, hlen]; exact h.count
  done := by rw [hmem, hon]; exact h.done

theorem Stored.moves (h : Stored n c words) (hm : Moves c c') (hlen : 0 < c.dsklength)
    (hon : c.dskdmaen = true) : Stored n c' words where
  fifo := hm.fifo.trans h.fifo
  stored := by rw [hm.stored]; exact h.stored
  all := fun _ _ => by rw [hm.stored]; exact h.all hon hlen
  count := fun _ => by
    rw [hm.length, hm.dsklength]
    exact h.count hon
  done := fun hoff => by
    rw [hm.dskdmaen, hon] at hoff
    cases hoff

/-- The oldest word is taken. -/
theorem moves_pop {v : Word} (hlast : c.fifo.getLast? = some v) :
    Moves c { c with fifo := c.fifo.dropLast, mem := c.mem ++ [v] } where
  word := rfl
  bitoffset := rfl
  dmaEnable := rfl
  dskdmaen := rfl
  dsklength := rfl
  dsksyncOn := rfl
  stored := by
    have hsplit : c.fifo.dropLast ++ [v] = c.fifo :=
      List.dropLast_append_getLast? v hlast
    conv_rhs => rw [← hsplit]
    simp
  fifo := by simp

theorem moves_dskdatr (hlen : 0 < c.dsklength) (slot : Nat) : Moves c (c.dskdatr slot) := by
  rw [Controller.dskdatr]
  have hne : c.dsklength ≠ 0 := by omega
  split
  · exact .refl c
  · next v hlast => simpa [hne] using moves_pop hlast

theorem moves_flush (hlen : 0 < c.dsklength) : Moves c (c.flush cfg) := by
  rw [Controller.flush]
  split
  · have hfirst : Moves c (c.dskdatr 0) := moves_dskdatr hlen 0
    have hsecond := hfirst.trans (moves_dskdatr (hfirst.dsklength ▸ hlen) 0)
    exact hsecond.trans (moves_dskdatr (hsecond.dsklength ▸ hlen) 0)
  · exact .refl c

/-- A slot while DMA is on. -/
theorem Stored.dskdatr (h : Stored n c words) (hon : c.dskdmaen = true) (slot : Nat) :
    Stored n (c.dskdatr slot) words := by
  rw [Controller.dskdatr]
  split
  · exact h
  · next v hlast =>
    have hm := moves_pop hlast
    have hlength := hm.length
    have hcount := h.count hon
    have hpop : Stored n { c with fifo := c.fifo.dropLast, mem := c.mem ++ [v] } words := {
      fifo := hm.fifo.trans h.fifo
      stored := by rw [hm.stored]; exact h.stored
      all := fun _ hlen => by rw [hm.stored]; exact h.all hon hlen
      count := fun _ => by
        rw [hlength]
        exact hcount
      done := fun hoff => by
        rw [show _ = true from hon] at hoff
        cases hoff }
    simp only
    split_ifs with hend
    · simp only [Bool.and_eq_true, decide_eq_true_eq, Bool.or_eq_true] at hend
      obtain ⟨⟨-, hzero⟩, hempty⟩ := hend
      exact {
        fifo := Nat.zero_le 3
        stored := by
          simp only [Controller.dmafinished, List.reverse_nil, List.append_nil]
          exact (List.prefix_append _ _).trans hpop.stored
        all := fun hoff => by cases hoff
        count := fun hoff => by cases hoff
        done := fun _ => by
          have hleft : c.fifo.dropLast.length ≤ 1 := by
            rcases hempty with hnil | hone
            · simp [hnil]
            · exact hone.2.le
          simp only [Controller.dmafinished] at hlength ⊢
          omega }
    · exact hpop

/-- What `doreaddma` leaves alone. -/
structure SameBits (c c' : Controller) : Prop where
  word : c'.word = c.word
  bitoffset : c'.bitoffset = c.bitoffset
  dmaEnable : c'.dmaEnable = c.dmaEnable
  off : c.dskdmaen = false → c'.dskdmaen = false

/-- A word is loaded when sixteen bits have gone by. -/
theorem Stored.load (h : Stored n c words) (hon : c.dskdmaen = true) (hlen : 0 < c.dsklength)
    (hroom : c.fifo.length ≠ 3) :
    let c' := { c with dsklength := c.dsklength - 1 }
    Stored n (if c'.fifo = [] ∧ c'.dsklength = 0 then c'.dmafinished else c'.dskdat c.word)
      (words ++ [c.word]) := by
  intro c'
  have hall := h.all hon hlen
  have hcount := h.count hon
  have hfifo := h.fifo
  split_ifs with hlast
  · obtain ⟨hempty, hzero⟩ := hlast
    have hnil : c.fifo = [] := hempty
    have hone : c.dsklength - 1 = 0 := hzero
    exact {
      fifo := Nat.zero_le 3
      stored := by
        rw [← hall]
        simp [c', Controller.dmafinished, List.append_assoc]
      all := fun hoff => by cases hoff
      count := fun hoff => by cases hoff
      done := fun _ => by
        rw [hnil] at hcount
        simp only [List.length_nil] at hcount
        simp only [c', Controller.dmafinished]
        omega }
  · have hdskdat : c'.dskdat c.word = { c' with fifo := c.word :: c.fifo } := by
      rw [Controller.dskdat, if_neg hroom]
    have hstored : c.mem ++ (c.word :: c.fifo).reverse = words ++ [c.word] := by
      rw [List.reverse_cons, ← List.append_assoc, hall]
    rw [hdskdat]
    exact {
      fifo := by
        simp only [List.length_cons]
        omega
      stored := hstored ▸ List.prefix_rfl
      all := fun _ _ => hstored
      count := fun _ => by
        simp only [c', List.length_cons]
        omega
      done := fun hoff => by
        rw [show _ = true from hon] at hoff
        cases hoff }

/-- `doreaddma` loads the word exactly when the frame completes one. -/
theorem doreaddma_some {f : Frame} (h : Stored n c f.words)
    (henabled : c.dskdmaen = true → c.dmaEnable = f.since.isSome)
    (hoffset : c.dskdmaen = true → ∀ r, f.since = some r → c.bitoffset = r)
    (hc : c.doreaddma cfg = some c') :
    SameBits c c' ∧ Stored n c' (if f.since = some 15 then f.words ++ [c.word] else f.words) := by
  rw [Controller.doreaddma] at hc
  split_ifs at hc with hload
  · obtain ⟨hoff, hena, hon, hlen⟩ := hload
    have hm : Moves c (c.flush cfg) := moves_flush hlen
    have hsince : f.since = some 15 := by
      have hsome := henabled hon
      rw [hena] at hsome
      obtain ⟨r, hr⟩ := Option.isSome_iff_exists.mp hsome.symm
      rw [hr, ← hoffset hon r hr, hoff]
    have hon' : (c.flush cfg).dskdmaen = true := hm.dskdmaen.trans hon
    have hstored := h.moves hm hlen hon
    rw [if_pos hsince]
    dsimp only at hc
    split_ifs at hc with hfull hlast
    · have hloaded := hstored.load hon' (hm.dsklength ▸ hlen) hfull
      simp only [if_pos hlast, hm.word] at hloaded
      obtain rfl := Option.some.inj hc
      exact ⟨⟨hm.word, hm.bitoffset, hm.dmaEnable, fun _ => rfl⟩,
        by simpa only [hm.word] using hloaded⟩
    · have hloaded := hstored.load hon' (hm.dsklength ▸ hlen) hfull
      simp only [if_neg hlast, hm.word] at hloaded
      obtain rfl := Option.some.inj hc
      refine ⟨?_, by simpa only [hm.word] using hloaded⟩
      rw [Controller.dskdat, if_neg hfull]
      exact ⟨hm.word, hm.bitoffset, hm.dmaEnable, fun hoff => by rw [hon] at hoff; cases hoff⟩
  · obtain rfl := Option.some.inj hc
    refine ⟨⟨rfl, rfl, rfl, id⟩, ?_⟩
    split
    · next hsince =>
      exact {
        fifo := h.fifo
        stored := h.stored.trans (List.prefix_append _ _)
        all := fun hon hlen => absurd ⟨hoffset hon 15 hsince, by
          rw [henabled hon, hsince]
          rfl, hon, hlen⟩ hload
        count := h.count
        done := h.done }
    · exact h

/-- The end of a bit: the sync word starts and aligns the transfer. -/
theorem Transfer.sync {f : Frame} (hmsb : cfg.msbsync = false) (hsync : cfg.wordsync = true)
    (h : Stored n c words) (hpos : 0 < n)
    (henabled : c.dskdmaen = true → c.dmaEnable = f.since.isSome)
    (hoffset : c.dskdmaen = true → ∀ r, f.since = some r → c.bitoffset = r)
    (hwaiting : f.since = none → words = []) :
    Transfer n { c.wordSync cfg with bitoffset := ((c.wordSync cfg).bitoffset + 1) % 16 }
      ⟨c.word, if c.word = cfg.dsksync then some 0 else f.since.map fun r => (r + 1) % 16,
        words⟩ := by
  by_cases hw : c.word = cfg.dsksync
  · have hsecond : c.wordSync cfg = c.wordsyncDetected cfg := by
      rw [Controller.wordSync, if_neg (not_not.mpr hw), hmsb, if_neg Bool.false_ne_true]
    -- nothing has been read before the transfer starts
    have hlen : c.dskdmaen = true → c.dmaEnable = false → c.dsklength ≠ 0 := by
      intro hon hena
      have hnone : f.since = none := by
        rw [← Option.not_isSome_iff_eq_none, ← henabled hon, hena]
        exact Bool.false_ne_true
      have hempty := h.stored
      rw [hwaiting hnone, List.prefix_nil, List.append_eq_nil_iff] at hempty
      have hcount := h.count hon
      rw [hempty.1, List.reverse_eq_nil_iff.mp hempty.2] at hcount
      simp only [List.length_nil] at hcount
      omega
    have hdetected : c.wordsyncDetected cfg = { c with
        dsksyncOn := true
        dmaEnable := c.dmaEnable || c.dskdmaen
        bitoffset := 15 } := by
      rw [Controller.wordsyncDetected]
      cases hon : c.dskdmaen
      · simp [hsync]
      · cases hena : c.dmaEnable
        · simp [hsync, hlen hon hena]
        · simp [hsync]
    rw [hsecond, hdetected, if_pos hw]
    exact {
      stored := h.of_eq rfl rfl rfl rfl
      word := rfl
      enabled := fun hon => by
        have hread : c.dskdmaen = true := hon
        simp [hread]
      offset := fun _ r hr => by
        rw [← Option.some.inj hr]
        exact Nat.mod_self 16
      waiting := fun hnone => by cases hnone }
  · have hsecond : c.wordSync cfg = { c with dsksyncOn := false } := by
      rw [Controller.wordSync, if_pos hw]
    rw [hsecond, if_neg hw]
    exact {
      stored := h.of_eq rfl rfl rfl rfl
      word := rfl
      enabled := fun hon => by
        rw [Option.isSome_map]
        exact henabled hon
      offset := fun hon r hr => by
        obtain ⟨r', hr', rfl⟩ := Option.map_eq_some_iff.mp hr
        rw [hoffset hon r' hr']
      waiting := fun hnone => hwaiting (Option.map_eq_none_iff.mp hnone) }

/-- A bit that has to be read again loses the upper bit of the word only. -/
theorem shiftIn_back (w : Word) (b : Bool) : (shiftIn w b >>> 1) <<< 1 = w <<< 1 := by
  apply BitVec.eq_of_getLsbD_eq
  intro i hi
  cases i with
  | zero => simp
  | succ i =>
    have hnext : 1 + i < 16 := by omega
    simp [shiftIn, hi, hnext]

/-- A bit of the track, taken or not. -/
theorem Transfer.bit {f : Frame} (h : Transfer n c f) (hmsb : cfg.msbsync = false)
    (hsync : cfg.wordsync = true) (hpos : 0 < n) (b : Bool) :
    Transfer n (c.readBit cfg b).1
      (if (c.readBit cfg b).2 then f.bit cfg.dsksync b else f) := by
  have hword : shiftIn c.word b = shiftIn f.word b := by
    rw [shiftIn, h.word, shiftIn]
  have hshifted : Stored n { c with word := shiftIn c.word b } f.words :=
    h.stored.of_eq rfl rfl rfl rfl
  cases hdma : ({ c with word := shiftIn c.word b } : Controller).doreaddma cfg with
  | none =>
    simp only [Controller.readBit, hdma, Bool.false_eq_true, if_false]
    exact {
      stored := h.stored.of_eq rfl rfl rfl rfl
      word := (shiftIn_back _ _).trans h.word
      enabled := h.enabled
      offset := h.offset
      waiting := h.waiting }
  | some c₁ =>
    obtain ⟨hsame, hstored⟩ := doreaddma_some hshifted h.enabled h.offset hdma
    have hon : c₁.dskdmaen = true → c.dskdmaen = true := by
      intro hon
      by_contra hoff
      have hfalse := hsame.off (Bool.eq_false_iff.mpr hoff)
      rw [hon] at hfalse
      cases hfalse
    have hmsbSync : c₁.msbSync cfg = (c₁, false) := by
      simp [Controller.msbSync, hmsb]
    have hnext := Transfer.sync (f := f) hmsb hsync hstored hpos
      (fun h₁ => hsame.dmaEnable.trans (h.enabled (hon h₁)))
      (fun h₁ r hr => hsame.bitoffset.trans (h.offset (hon h₁) r hr))
      (fun hnone => by
        rw [hnone, if_neg (by simp)]
        exact h.waiting hnone)
    simp only [Controller.readBit, hdma, hmsbSync, if_true, Bool.false_eq_true, if_false]
    have hframe : f.bit cfg.dsksync b = ⟨c₁.word,
        if c₁.word = cfg.dsksync then some 0 else f.since.map fun r => (r + 1) % 16,
        if f.since = some 15 then f.words ++ [shiftIn c.word b] else f.words⟩ := by
      rw [Frame.bit, ← hword, hsame.word]
    rw [hframe]
    exact hnext

theorem transfer_invariant (hmsb : cfg.msbsync = false) (hsync : cfg.wordsync = true) (hpos : 0 < n)
    (w : Word) : (readMachine cfg).Invariant fun s =>
      Transfer n s.1 (frame cfg.dsksync w s.2) := by
  intro s i h hlegal
  refine ⟨_, rfl, ?_⟩
  cases i with
  | bit b =>
    have hbit := h.bit hmsb hsync hpos b
    simp only [step]
    split
    · next htaken =>
      rw [if_pos htaken] at hbit
      rwa [frame, List.foldl_append]
    · next htaken => rwa [if_neg htaken] at hbit
  | slot m =>
    have hsame : ∀ c : Controller, (c.dskdatr m).word = c.word ∧
        (c.dskdatr m).bitoffset = c.bitoffset ∧ (c.dskdatr m).dmaEnable = c.dmaEnable := by
      intro c
      rw [Controller.dskdatr]
      split
      · exact ⟨rfl, rfl, rfl⟩
      · simp only
        split_ifs <;> exact ⟨rfl, rfl, rfl⟩
    obtain ⟨hword, hbitoffset, hena⟩ := hsame s.1
    have hon : s.1.dskdmaen = true := hlegal
    exact {
      stored := h.stored.dskdatr hon m
      word := by
        simp only [step, hword]
        exact h.word
      enabled := fun _ => hena.trans (h.enabled hon)
      offset := fun _ r hr => hbitoffset.trans (h.offset hon r hr)
      waiting := h.waiting }

theorem Controller.Starts.transfer (h : c.Starts n) (dsksync : Word) :
    Transfer n c (frame dsksync c.word []) := by
  obtain ⟨hena, hon, hlen, hfifo, hmem⟩ := h
  exact {
    stored := {
      fifo := by simp [hfifo]
      stored := by simp [hfifo, hmem]
      all := fun _ _ => by simp [hfifo, hmem, frame]
      count := fun _ => by simp [hfifo, hmem, hlen]
      done := fun hoff => by
        rw [hon] at hoff
        cases hoff }
    word := rfl
    enabled := fun _ => hena
    offset := fun _ r hr => by cases hr
    waiting := fun _ => rfl }

end

/-! ### What is on a track -/

/-- The bits of a word as they are on a track. -/
def bitsOf (w : Word) : List Bool := (List.range 16).map fun i => w.getLsbD (15 - i)

/-- The word that is seen `j` bits into the next one. -/
def seen (w w' : Word) (j : Nat) : Word := w <<< j ||| w' >>> (16 - j)

/-- Words between which the sync word is not seen. -/
def Clear (dsksync w w' : Word) : Prop := ∀ j, j < 16 → 0 < j → seen w w' j ≠ dsksync

instance (dsksync w w' : Word) : Decidable (Clear dsksync w w') :=
  inferInstanceAs (Decidable (∀ j, j < 16 → 0 < j → seen w w' j ≠ dsksync))

/-- Words that follow each other clear of the sync word. -/
def ClearFrom (dsksync : Word) : Word → List Word → Prop
  | _, [] => True
  | w, w' :: ws => Clear dsksync w w' ∧ ClearFrom dsksync w' ws

instance decidableClearFrom (dsksync : Word) : ∀ w ws, Decidable (ClearFrom dsksync w ws)
  | _, [] => .isTrue trivial
  | w, w' :: ws =>
    have := decidableClearFrom dsksync w' ws
    inferInstanceAs (Decidable (Clear dsksync w w' ∧ ClearFrom dsksync w' ws))

/-- The sync word has not been seen in the bits behind `w`. -/
def Unsynced (dsksync : Word) : Word → List Bool → Prop
  | _, [] => True
  | w, b :: bits => shiftIn w b ≠ dsksync ∧ Unsynced dsksync (shiftIn w b) bits

instance decidableUnsynced (dsksync : Word) : ∀ w bits, Decidable (Unsynced dsksync w bits)
  | _, [] => .isTrue trivial
  | w, b :: bits =>
    have := decidableUnsynced dsksync (shiftIn w b) bits
    inferInstanceAs (Decidable (shiftIn w b ≠ dsksync ∧ Unsynced dsksync (shiftIn w b) bits))

section

variable {dsksync : Word}

theorem getLsbD_shiftIn (w : Word) (b : Bool) {i : Nat} (hi : i < 16) :
    (shiftIn w b).getLsbD i = if i = 0 then b else w.getLsbD (i - 1) := by
  cases i with
  | zero => simp [shiftIn]
  | succ i =>
    have hbefore : i < 16 := by omega
    simpa [shiftIn, hi] using (BitVec.getLsbD_eq_getElem hbefore).symm

theorem getLsbD_seen (w w' : Word) {i j : Nat} (hj : j ≤ 16) (hi : i < 16) :
    (seen w w' j).getLsbD i = if i < j then w'.getLsbD (16 - j + i) else w.getLsbD (i - j) := by
  rw [seen, BitVec.getLsbD_or, BitVec.getLsbD_shiftLeft, BitVec.getLsbD_ushiftRight]
  split
  · next hlt => simp [hlt]
  · next hge =>
    have hout : w'.getLsbD (16 - j + i) = false := BitVec.getLsbD_of_ge _ _ (by omega)
    simp [hge, hi, hout]

/-- One bit further. -/
theorem shiftIn_seen (w w' : Word) {j : Nat} (hj : j < 16) :
    shiftIn (seen w w' j) (w'.getLsbD (15 - j)) = seen w w' (j + 1) := by
  apply BitVec.eq_of_getLsbD_eq
  intro i hi
  rw [getLsbD_shiftIn _ _ hi, getLsbD_seen w w' (by omega) hi]
  cases i with
  | zero =>
    have hplace : 16 - (j + 1) + 0 = 15 - j := by omega
    rw [if_pos rfl, if_pos (Nat.succ_pos j), hplace]
  | succ i =>
    have hplace : 16 - (j + 1) + (i + 1) = 16 - j + i := by omega
    rw [if_neg (Nat.succ_ne_zero i), Nat.add_sub_cancel, getLsbD_seen w w' hj.le (by omega), hplace,
      Nat.add_sub_add_right]
    simp only [Nat.add_lt_add_iff_right]

theorem seen_zero (w w' : Word) : seen w w' 0 = w := by
  apply BitVec.eq_of_getLsbD_eq
  intro i hi
  rw [getLsbD_seen w w' (Nat.zero_le _) hi, if_neg (Nat.not_lt_zero i), Nat.sub_zero]

theorem seen_sixteen (w w' : Word) : seen w w' 16 = w' := by
  apply BitVec.eq_of_getLsbD_eq
  intro i hi
  rw [getLsbD_seen w w' le_rfl hi, if_pos hi, Nat.sub_self, Nat.zero_add]

theorem take_bitsOf_succ (w : Word) {j : Nat} (hj : j < 16) :
    (bitsOf w).take (j + 1) = (bitsOf w).take j ++ [w.getLsbD (15 - j)] := by
  rw [List.take_add_one, bitsOf]
  simp [List.getElem?_range hj]

theorem length_bitsOf (w : Word) : (bitsOf w).length = 16 := by
  simp [bitsOf]

/-- Within a word behind an aligned one. -/
theorem foldl_take_bitsOf {w w' : Word} (h : Clear dsksync w w') (words : List Word) :
    ∀ j, j < 16 → ((bitsOf w').take j).foldl (Frame.bit dsksync) ⟨w, some 0, words⟩ =
      ⟨seen w w' j, some j, words⟩
  | 0, _ => by rw [seen_zero]; rfl
  | j + 1, hj => by
    have hlt : j < 16 := by omega
    have hlast : (some j : Option Nat) ≠ some 15 := fun heq => by
      have := Option.some.inj heq
      omega
    have hmod : (j + 1) % 16 = j + 1 := Nat.mod_eq_of_lt hj
    rw [take_bitsOf_succ w' hlt, List.foldl_append, foldl_take_bitsOf h words j hlt]
    simp only [List.foldl_cons, List.foldl_nil, Frame.bit, shiftIn_seen w w' hlt,
      if_neg (h (j + 1) hj (Nat.succ_pos j)), if_neg hlast, Option.map_some, hmod]

/-- A word behind an aligned one. -/
theorem foldl_bitsOf {w w' : Word} (h : Clear dsksync w w') (words : List Word) :
    (bitsOf w').foldl (Frame.bit dsksync) ⟨w, some 0, words⟩ =
      ⟨w', some 0, words ++ [w']⟩ := by
  have hfull : bitsOf w' = (bitsOf w').take 15 ++ [w'.getLsbD (15 - 15)] := by
    rw [← take_bitsOf_succ w' (by decide)]
    exact (List.take_of_length_le (length_bitsOf w').le).symm
  rw [hfull, List.foldl_append, foldl_take_bitsOf h words 15 (by decide)]
  have hword : shiftIn (seen w w' 15) (w'.getLsbD (15 - 15)) = w' :=
    (shiftIn_seen w w' (by decide)).trans (seen_sixteen w w')
  have hnext : (if w' = dsksync then some 0 else some ((15 + 1) % 16)) = some 0 := by
    split <;> rfl
  simp only [List.foldl_cons, List.foldl_nil, Frame.bit, hword, if_true, Option.map_some, hnext]

/-- Words behind an aligned one, up to a bit. -/
theorem foldl_take_words : ∀ (ws : List Word) (w : Word) (words : List Word) (m : Nat),
    ClearFrom dsksync w ws → m ≤ (ws.flatMap bitsOf).length →
    (((ws.flatMap bitsOf).take m).foldl (Frame.bit dsksync) ⟨w, some 0, words⟩).words =
      words ++ ws.take (m / 16)
  | [], w, words, m, _, hm => by simp
  | w' :: ws, w, words, m, hclear, hm => by
    obtain ⟨hfirst, hrest⟩ := hclear
    rw [List.flatMap_cons] at hm ⊢
    by_cases hlt : m < 16
    · have htake : (bitsOf w' ++ ws.flatMap bitsOf).take m = (bitsOf w').take m :=
        List.take_append_of_le_length (by rw [length_bitsOf]; omega)
      rw [htake, foldl_take_bitsOf hfirst words m hlt, Nat.div_eq_of_lt hlt, List.take_zero,
        List.append_nil]
    · obtain ⟨k, rfl⟩ := Nat.exists_eq_add_of_le (not_lt.mp hlt)
      have htake : (bitsOf w' ++ ws.flatMap bitsOf).take (16 + k) =
          bitsOf w' ++ (ws.flatMap bitsOf).take k := by
        rw [← length_bitsOf w', List.take_length_add_append]
      have hk : k ≤ (ws.flatMap bitsOf).length := by
        rw [List.length_append, length_bitsOf] at hm
        omega
      have hdiv : (16 + k) / 16 = k / 16 + 1 := by omega
      rw [htake, List.foldl_append, foldl_bitsOf hfirst,
        foldl_take_words ws w' (words ++ [w']) k hrest hk, hdiv, List.take_succ_cons,
        List.append_assoc, List.singleton_append]

/-- Before the sync word has been seen. -/
theorem foldl_unsynced : ∀ (bits : List Bool) (w : Word), Unsynced dsksync w bits →
    ∃ w', bits.foldl (Frame.bit dsksync) ⟨w, none, []⟩ = ⟨w', none, []⟩
  | [], w, _ => ⟨w, rfl⟩
  | b :: bits, w, h => by
    obtain ⟨w', hw'⟩ := foldl_unsynced bits (shiftIn w b) h.2
    have hbit : Frame.bit dsksync ⟨w, none, []⟩ b = ⟨shiftIn w b, none, []⟩ := by
      simp [Frame.bit, h.1]
    exact ⟨w', by rw [List.foldl_cons, hbit, hw']⟩

theorem Unsynced.take : ∀ {bits : List Bool} {w : Word} (m : Nat), Unsynced dsksync w bits →
    Unsynced dsksync w (bits.take m)
  | [], _, m, _ => by simp [Unsynced]
  | b :: bits, _, 0, _ => trivial
  | b :: bits, _, m + 1, h => ⟨h.1, h.2.take m⟩

/-- The word after sixteen bits is made of them. -/
theorem foldl_word (w' : Word) (f : Frame) : ∀ j, j ≤ 16 →
    (((bitsOf w').take j).foldl (Frame.bit dsksync) f).word = seen f.word w' j
  | 0, _ => (seen_zero _ _).symm
  | j + 1, hj => by
    rw [take_bitsOf_succ w' hj, List.foldl_append, List.foldl_cons, List.foldl_nil, Frame.bit,
      foldl_word w' f j (by omega), shiftIn_seen _ _ hj]

/-- The words of a track with one sync word in front, as far as its bits have been read. -/
theorem frame_words {w : Word} {junk bits : List Bool} {words : List Word}
    (hjunk : Unsynced dsksync w (junk ++ (bitsOf dsksync).take 15))
    (hclear : ClearFrom dsksync dsksync words)
    (htrack : bits <+: junk ++ (dsksync :: words).flatMap bitsOf) :
    (frame dsksync w bits).words = words.take ((bits.length - (junk.length + 16)) / 16) := by
  have hlen : (junk ++ (bitsOf dsksync).take 15).length = junk.length + 15 := by
    simp [length_bitsOf]
  have hsplit : bitsOf dsksync =
      (bitsOf dsksync).take 15 ++ [dsksync.getLsbD (15 - 15)] := by
    rw [← take_bitsOf_succ dsksync (by decide)]
    exact (List.take_of_length_le (length_bitsOf dsksync).le).symm
  have hall : junk ++ (dsksync :: words).flatMap bitsOf =
      (junk ++ (bitsOf dsksync).take 15) ++
        (dsksync.getLsbD (15 - 15) :: words.flatMap bitsOf) := by
    conv_lhs => rw [List.flatMap_cons, hsplit]
    simp
  rw [hall] at htrack
  have htake := List.prefix_iff_eq_take.mp htrack
  by_cases hlt : bits.length ≤ junk.length + 15
  · -- the sync word is not complete
    rw [List.take_append_of_le_length (by rw [hlen]; exact hlt)] at htake
    obtain ⟨w', hw'⟩ := foldl_unsynced _ _ (hjunk.take bits.length)
    have hzero : (bits.length - (junk.length + 16)) / 16 = 0 := by omega
    rw [hzero, frame, htake, hw', List.take_zero]
  · obtain ⟨k, hk⟩ :
        ∃ k, bits.length = (junk ++ (bitsOf dsksync).take 15).length + (k + 1) :=
      ⟨bits.length - (junk.length + 16), by rw [hlen]; omega⟩
    obtain ⟨w₁, hw₁⟩ := foldl_unsynced _ _ hjunk
    -- the word is the sync word, whatever stood in front of it
    have hword : shiftIn w₁ (dsksync.getLsbD (15 - 15)) = dsksync := by
      have hseen := @foldl_word dsksync dsksync
        (junk.foldl (Frame.bit dsksync) ⟨w, none, []⟩) 15 (by decide)
      rw [← List.foldl_append, hw₁] at hseen
      rw [show w₁ = _ from hseen, shiftIn_seen _ _ (by decide), seen_sixteen]
    have hsync : Frame.bit dsksync ⟨w₁, none, []⟩ (dsksync.getLsbD (15 - 15)) =
        ⟨dsksync, some 0, []⟩ := by
      simp only [Frame.bit, hword, if_true]
      rfl
    have hrest : bits = (junk ++ (bitsOf dsksync).take 15) ++
        (dsksync.getLsbD (15 - 15) :: (words.flatMap bitsOf).take k) := by
      rw [htake, hk, List.take_length_add_append, List.take_succ_cons]
    have hle : k ≤ (words.flatMap bitsOf).length := by
      have hbound := htrack.length_le
      simp only [hk, List.length_append, List.length_cons] at hbound
      omega
    have hcount : bits.length - (junk.length + 16) = k := by
      rw [hk, hlen]
      omega
    rw [hcount, frame, hrest, List.foldl_append, hw₁, List.foldl_cons, hsync,
      foldl_take_words words dsksync [] k hclear hle, List.nil_append]

/-- A transfer brings the words behind the sync word to memory in order, whenever the slots come:
what has gone by is in memory and in the FIFO as long as words are missing, never more than `n`
words are stored, and when it has ended at most the last one is lost. -/
theorem read_words {cfg : Config} {n : Nat} {c c' : Controller} {junk bits : List Bool}
    {words : List Word} (hmsb : cfg.msbsync = false) (hsync : cfg.wordsync = true) (hpos : 0 < n)
    (hstart : c.Starts n)
    (hjunk : Unsynced cfg.dsksync c.word (junk ++ (bitsOf cfg.dsksync).take 15))
    (hclear : ClearFrom cfg.dsksync cfg.dsksync words)
    (hrun : (readMachine cfg).Reachable (c, []) (c', bits))
    (htrack : bits <+: junk ++ (cfg.dsksync :: words).flatMap bitsOf) :
    c'.mem <+: words.take n ∧
      (c'.dskdmaen = true → 0 < c'.dsklength →
        c'.mem ++ c'.fifo.reverse = words.take ((bits.length - (junk.length + 16)) / 16)) ∧
      (c'.dskdmaen = false → n ≤ c'.mem.length + 1) := by
  have htransfer : Transfer n c' (frame cfg.dsksync c.word bits) :=
    (transfer_invariant hmsb hsync hpos c.word).reachable hrun (hstart.transfer cfg.dsksync)
  have hstored := htransfer.stored
  rw [frame_words hjunk hclear htrack] at hstored
  have hmem : c'.mem.length ≤ n := by
    cases hon : c'.dskdmaen
    · exact (hstored.done hon).2
    · have hcount := hstored.count hon
      omega
  refine ⟨?_, hstored.all, fun hoff => (hstored.done hoff).1⟩
  have hprefix : c'.mem <+: words :=
    ((List.prefix_append _ _).trans hstored.stored).trans (List.take_prefix _ _)
  rw [List.prefix_iff_eq_take.mp hprefix]
  exact List.take_prefix_take_left hmem

end

/-- `ADKCON` and `DSKSYNC` as the trackdisk device has them. -/
def trackdisk : Config := ⟨false, true, 0x4489, false⟩

/-- Two words behind two sync words. The third slot comes when one word is left in the FIFO. -/
theorem read_words_two :
    let start : Controller := ⟨0, 5, false, false, true, 3, [], []⟩
    let bits := [true, false] ++ [0x4489, 0x4489, 0x2aaa, 0x5555].flatMap bitsOf
    let inputs := bits.map Input.bit ++ [Input.slot 0, Input.slot 2]
    let s := inputs.foldl (step trackdisk) (start, [])
    s.1.mem <+: [0x4489#16, 0x2aaa, 0x5555] ∧ s.1.dskdmaen = false ∧
      3 ≤ s.1.mem.length + 1 := by
  intro start bits inputs s
  have hexec : (readMachine trackdisk).exec (start, []) inputs = some (s.1, s.2) := by
    decide +kernel
  have hend : s.1.dskdmaen = false := by decide +kernel
  have hstart : start.Starts 3 := ⟨rfl, rfl, rfl, rfl, rfl⟩
  have hjunk : Unsynced trackdisk.dsksync start.word
      ([true, false] ++ (bitsOf trackdisk.dsksync).take 15) := by decide +kernel
  have hclear : ClearFrom trackdisk.dsksync trackdisk.dsksync [0x4489, 0x2aaa, 0x5555] := by
    decide +kernel
  have htrack : s.2 <+: [true, false] ++
      (trackdisk.dsksync :: [0x4489, 0x2aaa, 0x5555]).flatMap bitsOf := by decide +kernel
  obtain ⟨hmem, -, hdone⟩ := read_words rfl rfl (by decide) hstart hjunk hclear
    (Machine.reachable_of_exec hexec) htrack
  exact ⟨hmem, hend, hdone hend⟩

end LibretroUae.DiskDma
