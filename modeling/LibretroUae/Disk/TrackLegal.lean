import LibretroUae.Disk.Amigados
import LibretroUae.Disk.MfmLegal
import LibretroUae.Lib.Words
import Mathlib.Data.Nat.ModEq

/-!
# LibretroUae.Disk.TrackLegal

**The tracks of the encoders.** `decode_amigados` carries the last data bit of a sector over to the
word behind it, so its tracks are legal. `decode_diskspare` starts every sector with the same word
and codes the header and the data apart, so it depends on the data whether two ones meet.
-/

namespace LibretroUae.Disk

open Lib

/-! ### The encoder -/

/-- The data of a sector, each long as its odd and its even half. -/
def diskspareData (data : List Long) : List Word :=
  mfmcode 0 (data.flatMap fun l => longWords (dodd l) ++ longWords (deven l))

/-- `chk`: the words with their clocks, but for the first clock. -/
def diskspareChk : List Word → Word
  | [] => 0
  | w :: ws => ws.foldl (· ^^^ ·) (w &&& 0x7fff)

/-- `secbuf[0..3]`. -/
def diskspareHeader (tr sec : Nat) (chk : Word) : Long :=
  word32 (BitVec.ofNat 8 tr) (BitVec.ofNat 8 sec) ((chk >>> 8).setWidth 8) (chk.setWidth 8)

/-- `mfmbuf`. -/
def diskspareWords (tr sec : Nat) (data : List Long) : List Word :=
  let header := diskspareHeader tr sec (diskspareChk (diskspareData data))
  [0xaaaa, 0x4489, 0x4489, 0x2aaa] ++
    (mfmcode 0 (longWords (dodd header) ++ longWords (deven header)) ++ diskspareData data)

/-- The loop of `decode_diskspare` over the sectors. -/
def diskspareLoop (len tr : Nat) : Nat → Nat → Track → List Sector → Track
  | _, _, m, [] => m
  | sec, off, m, s :: ss =>
    diskspareLoop len tr (sec + 1) (off + 520)
      (writeWords len off m (diskspareWords tr sec s.dataLongs)) ss

/-- `decode_diskspare`, of a track with the given sectors. -/
def decodeDiskspare (writeLen tr : Nat) (secs : List Sector) (stale : Track) : Track :=
  let len := secs.length * 520 + gapLen writeLen
  diskspareLoop len tr 0 (gapLen writeLen) (fun i => if i < len then 0xaaaa else stale i) secs

/-! ### What is written round the track -/

variable {len off : Nat} {m : Track} {ws : List Word}

theorem writeWords_untouched : ∀ {off : Nat} {m : Track} {j : Nat},
    (∀ k < ws.length, (off + k) % len ≠ j) → writeWords len off m ws j = m j := by
  induction ws with
  | nil => exact fun _ => rfl
  | cons w ws ih =>
    intro off m j h
    rw [writeWords, ih fun k hk => ?_, Function.update_of_ne]
    · exact (h 0 (Nat.succ_pos _)).symm
    · have hnext := h (k + 1) (Nat.succ_lt_succ hk)
      rwa [Nat.add_comm k 1, ← Nat.add_assoc] at hnext

theorem add_mod_ne {i j : Nat} (hi : i < len) (hj : j < len) (hne : i ≠ j) :
    (off + i) % len ≠ (off + j) % len := by
  intro heq
  have hmod : i % len = j % len := Nat.ModEq.add_left_cancel' off heq
  rw [Nat.mod_eq_of_lt hi, Nat.mod_eq_of_lt hj] at hmod
  exact hne hmod

/-- Words that do not go round more than once stand where they were written. -/
theorem standsAt_writeWords : ∀ {off : Nat} {m : Track}, ws.length ≤ len →
    StandsAt (writeWords len off m ws) len off ws := by
  induction ws with
  | nil => exact fun _ i hi => absurd hi (Nat.not_lt_zero i)
  | cons w ws ih =>
    intro off m hlen i hi
    rw [List.length_cons] at hlen hi
    rw [writeWords]
    cases i with
    | zero =>
      rw [writeWords_untouched]
      · exact Function.update_self ..
      · intro k hk
        have hne := @add_mod_ne len off (k + 1) 0 (by omega) (by omega) (by omega)
        rwa [Nat.add_comm k 1, ← Nat.add_assoc] at hne
    | succ i =>
      have hnext := @ih (off + 1) (Function.update m (off % len) w) (Nat.le_of_succ_le hlen) i
        (by omega)
      rw [Nat.add_right_comm, Nat.add_assoc] at hnext
      rw [hnext]
      rfl

/-- The gap goes on behind the words. -/
theorem standsAt_gap (hm : ∀ j < len, m j = 0xaaaa) (hlen : ws.length ≤ len) :
    StandsAt (writeWords len off m ws) len off
      (ws ++ List.replicate (len - ws.length) 0xaaaa) := by
  intro i hi
  rw [List.length_append, List.length_replicate] at hi
  by_cases hin : i < ws.length
  · rw [List.getElem_append_left hin]
    exact standsAt_writeWords hlen i hin
  · rw [List.getElem_append_right (by omega), List.getElem_replicate, writeWords_untouched]
    · exact hm _ (Nat.mod_lt _ (by omega))
    · exact fun k hk => add_mod_ne (by omega) (by omega) (by omega)

/-- The gap, followed by its first word. -/
theorem isChain_gap (n : Nat) : (List.replicate n (0xaaaa : Word)).IsChain Joins :=
  List.isChain_replicate_of_rel n (joins_gapWord false)

/-- A track whose words fit with a gap behind them. -/
theorem legalTrack_writeWords (hm : ∀ j < len, m j = 0xaaaa) (hlen : ws.length ≤ len)
    (hhead : (ws ++ List.replicate (len - ws.length) 0xaaaa).head? = some 0xaaaa) :
    LegalTrack (writeWords len off m ws) (16 * len) ↔
      (ws ++ List.replicate (len - ws.length + 1) 0xaaaa).IsChain Joins := by
  have hstands := @standsAt_gap len off m ws hm hlen
  have hlength : (ws ++ List.replicate (len - ws.length) (0xaaaa : Word)).length = len := by
    rw [List.length_append, List.length_replicate]
    omega
  rw [legalTrack_iff, cyclic_iff_isChain hlength hstands, hhead, List.replicate_succ',
    List.append_assoc]
  rfl

/-! ### AmigaDOS tracks -/

/-- The data bits of a sector behind its sync words. -/
def sectorData (id : Long) (s : Sector) : List Word :=
  (sectorLongs id s.headLongs s.dataLongs).flatMap longWords

/-- The last data bit of words. -/
def lastBit (ws : List Word) : Bool := (ws.getLast?.getD 0).getLsbD 0

/-- The words of a sector, but for the word behind it. -/
def sectorFront (prevbit : Bool) (id : Long) (s : Sector) : List Word :=
  [gapWord prevbit, 0xaaaa, 0x4489, 0x4489] ++ mfmcode 0 (sectorData id s)

/-- The words of all sectors and the word behind them. -/
def trackWords (n tr : Nat) : Nat → Bool → List Sector → List Word
  | _, prevbit, [] => [gapWord prevbit]
  | sec, prevbit, s :: ss =>
    sectorFront prevbit (sectorId tr sec (n - sec)) s ++
      trackWords n tr (sec + 1) (lastBit (sectorData (sectorId tr sec (n - sec)) s)) ss

theorem length_sectorData (id : Long) (s : Sector) : (sectorData id s).length = 540 := by
  simp only [sectorData, sectorLongs, halves, List.length_append, length_flatMap_longWords,
    List.length_map, List.length_cons, List.length_nil, s.length_headLongs, s.length_dataLongs]

theorem length_sectorFront (prevbit : Bool) (id : Long) (s : Sector) :
    (sectorFront prevbit id s).length = 544 := by
  rw [sectorFront, List.length_append, length_mfmcode, length_sectorData]
  rfl

theorem sectorData_getLast? (id : Long) (s : Sector) :
    ∃ x, (sectorData id s).getLast? = some x := by
  cases h : (sectorData id s).getLast? with
  | none =>
    have hlen := length_sectorData id s
    rw [List.getLast?_eq_none_iff.mp h] at hlen
    exact absurd hlen (by decide)
  | some x => exact ⟨x, rfl⟩

theorem mfmcode_append_gapWord {ws : List Word} : ∀ {last : Long} {x : Word},
    ws.getLast? = some x → mfmcode last (ws ++ [0]) = mfmcode last ws ++ [gapWord (x.getLsbD 0)] := by
  induction ws with
  | nil => exact fun h => absurd h (by simp)
  | cons w ws ih =>
    intro last x h
    rw [List.cons_append, mfmcode, mfmcode, List.cons_append]
    congr 1
    cases ws with
    | nil =>
      obtain rfl : w = x := by simpa using h
      rw [List.nil_append, mfmcode, mfmcode, mfmcode, mfmWord_zero, List.nil_append, gapWord]
      simp [mfmWord, mfmMask]
    | cons w' ws => exact ih (by simpa using h)

theorem sectorWords_front (prevbit : Bool) (id : Long) (s : Sector) :
    sectorWords prevbit id s.headLongs s.dataLongs =
      sectorFront prevbit id s ++ [gapWord (lastBit (sectorData id s))] := by
  obtain ⟨x, hx⟩ := sectorData_getLast? id s
  have happend := @mfmcode_append_gapWord (sectorData id s) 0 x hx
  rw [sectorData] at happend
  rw [sectorWords, happend, sectorFront, lastBit, hx, List.append_assoc]
  rfl

theorem sectorFront_getLast? (prevbit : Bool) (id : Long) (s : Sector) :
    ∃ y, (sectorFront prevbit id s).getLast? = some y ∧ Carries (lastBit (sectorData id s)) y := by
  obtain ⟨x, hx⟩ := sectorData_getLast? id s
  obtain ⟨y, hy, hcarries⟩ := getLast?_mfmcode (sectorData id s) 0 x hx
  refine ⟨y, ?_, ?_⟩
  · rw [sectorFront, List.getLast?_append, hy]
    rfl
  · rwa [lastBit, hx]

/-- `prevbit`, read off the last word of the sector. -/
theorem prevbit_eq (prevbit : Bool) (id : Long) (s : Sector) :
    decide ((sectorWords prevbit id s.headLongs s.dataLongs).getD 543 0 &&& 1 ≠ 0) =
      lastBit (sectorData id s) := by
  obtain ⟨y, hy, last, v, rfl, hv⟩ := sectorFront_getLast? prevbit id s
  have hlen := length_sectorFront prevbit id s
  have hword : (sectorWords prevbit id s.headLongs s.dataLongs).getD 543 0 = (mfmWord last v).2 := by
    rw [List.getLast?_eq_getElem?, hlen] at hy
    rw [sectorWords_front, List.getD_eq_getElem?_getD, List.getElem?_append_left (by omega)]
    rw [show 544 - 1 = 543 from rfl] at hy
    rw [hy, Option.getD_some]
  have hbit := getMsbD_mfmWord_odd last v (j := 15) (by decide)
  rw [BitVec.getMsbD_eq_getLsbD, BitVec.getMsbD_eq_getLsbD] at hbit
  rw [hword, Lib.and_one_ne_zero _ (by decide), ← hv]
  exact hbit

/-- What the loop writes, in one go: the word behind a sector is the first of the next one. -/
theorem encodeLoop_eq {n tr : Nat} {ss : List Sector} : ∀ {sec off : Nat} {prevbit : Bool} {m : Track},
    encodeLoop len n tr sec off prevbit (Function.update m (off % len) (gapWord prevbit)) ss =
      writeWords len off m (trackWords n tr sec prevbit ss) := by
  induction ss with
  | nil => exact rfl
  | cons s ss ih =>
    intro sec off prevbit m
    have hfront : ∀ rest : List Word, writeWords len off (Function.update m (off % len)
        (gapWord prevbit)) (sectorFront prevbit (sectorId tr sec (n - sec)) s ++ rest) =
        writeWords len off m (sectorFront prevbit (sectorId tr sec (n - sec)) s ++ rest) := by
      intro rest
      rw [sectorFront, List.append_assoc, List.cons_append, writeWords, Function.update_idem]
      rfl
    rw [encodeLoop]
    simp only [prevbit_eq]
    rw [sectorWords_front, hfront, writeWords_append, length_sectorFront, writeWords, writeWords, ih,
      trackWords, writeWords_append, length_sectorFront]

theorem length_trackWords (n tr : Nat) (ss : List Sector) : ∀ (sec : Nat) (prevbit : Bool),
    (trackWords n tr sec prevbit ss).length = ss.length * 544 + 1 := by
  induction ss with
  | nil => exact fun _ _ => rfl
  | cons s ss ih =>
    intro sec prevbit
    rw [trackWords, List.length_append, length_sectorFront, ih, List.length_cons]
    omega

theorem head?_trackWords (n tr sec : Nat) (prevbit : Bool) (ss : List Sector) :
    (trackWords n tr sec prevbit ss).head? = some (gapWord prevbit) := by
  cases ss <;> rfl

/-- The first byte behind the sync words is 0xff. -/
theorem isChain_sectorFront (prevbit : Bool) (tr sec left : Nat) (s : Sector) :
    (sectorFront prevbit (sectorId tr sec left) s).IsChain Joins := by
  have hsync : Joins 0xaaaa 0x4489 ∧ Joins 0x4489 0x4489 := by decide
  have hdata := isChain_mfmcode (sectorData (sectorId tr sec left) s) 0
  obtain ⟨rest, hrest⟩ : ∃ rest, sectorData (sectorId tr sec left) s =
      (dodd (sectorId tr sec left) >>> 16).setWidth 16 :: rest := ⟨_, rfl⟩
  rw [hrest, mfmcode] at hdata
  rw [sectorFront, hrest, mfmcode]
  refine .cons_cons (joins_gapWord prevbit) (.cons_cons hsync.1 (.cons_cons hsync.2
    (.cons_cons (joins_sync ?_) hdata)))
  have hff : (sectorId tr sec left).getLsbD 31 = true := by simp [sectorId, word32]
  rw [BitVec.getMsbD_eq_getLsbD, BitVec.getLsbD_setWidth, BitVec.getLsbD_ushiftRight, dodd,
    BitVec.getLsbD_and, BitVec.getLsbD_ushiftRight, getLsbD_mfmMask]
  simpa using hff

theorem isChain_trackWords (n tr : Nat) (ss : List Sector) (k : Nat) : ∀ (sec : Nat) (prevbit : Bool),
    (trackWords n tr sec prevbit ss ++ List.replicate (k + 1) 0xaaaa).IsChain Joins := by
  induction ss with
  | nil => exact fun _ prevbit => .cons_cons (joins_gapWord prevbit) (isChain_gap (k + 1))
  | cons s ss ih =>
    intro sec prevbit
    rw [trackWords, List.append_assoc]
    refine (isChain_sectorFront prevbit tr sec (n - sec) s).append (ih _ _) fun x hx y hy => ?_
    obtain ⟨x', hx', hcarries⟩ := sectorFront_getLast? prevbit (sectorId tr sec (n - sec)) s
    obtain rfl := Option.some.inj (hx'.symm.trans hx)
    rw [List.head?_append, head?_trackWords] at hy
    obtain rfl := Option.some.inj hy
    exact joins_behind hcarries (behind_gapWord _)

theorem legalTrack_decodeAmigados {writeLen : Nat} (hgap : 11 * 544 < writeLen) (tr : Nat)
    (secs : List Sector) (stale : Track) : LegalTrack (decodeAmigados writeLen tr secs stale)
      (16 * (secs.length * 544 + gapLen writeLen)) := by
  have hpos : 0 < gapLen writeLen := Nat.sub_pos_of_lt hgap
  rw [decodeAmigados]
  generalize gapLen writeLen = gap at hpos
  generalize hlen : secs.length * 544 + gap = len
  have hfill : ∀ j < len, (fun i => if i < len then (0xaaaa : Word) else stale i) j = 0xaaaa :=
    fun j hj => if_pos hj
  generalize (fun i => if i < len then (0xaaaa : Word) else stale i) = m at hfill
  have hfirst : Function.update m (gap % len) (gapWord false) = m := by
    rw [gapWord, if_neg (by decide), ← hfill _ (Nat.mod_lt gap (by omega)), Function.update_eq_self]
  have hwhole := @encodeLoop_eq len secs.length tr secs 0 gap false m
  rw [hfirst] at hwhole
  have hlength := length_trackWords secs.length tr secs 0 false
  have hhead : (trackWords secs.length tr 0 false secs ++ List.replicate
      (len - (trackWords secs.length tr 0 false secs).length) 0xaaaa).head? = some 0xaaaa := by
    rw [List.head?_append, head?_trackWords]
    rfl
  rw [hwhole, legalTrack_writeWords hfill (by omega) hhead]
  exact isChain_trackWords ..

/-! ### DiskSpare tracks -/

/-- The last data bits of the four words of a long. -/
def lowBits (l : Long) : Bool :=
  l.getLsbD 17 ^^ (l.getLsbD 1 ^^ (l.getLsbD 16 ^^ l.getLsbD 0))

/-- The parity of the last data bits of a sector's words, which is the last bit of its checksum. -/
def lowParity (data : List Long) : Bool := data.foldl (fun p l => p ^^ lowBits l) false

/-- The data of a sector whose words all join: it ends in a zero, and it begins with a one or has an
even checksum. -/
def Quiet (data : List Long) : Prop :=
  (∀ l ∈ data.getLast?, l.getLsbD 0 = false) ∧
    (lowParity data = true → ∀ l ∈ data.head?, l.getLsbD 31 = true)

instance (data : List Long) : Decidable (Quiet data) := inferInstanceAs (Decidable (_ ∧ _))

/-- The words of a long. -/
def longHalves (l : Long) : List Word := longWords (dodd l) ++ longWords (deven l)

/-- The parity of the last bits of words. -/
def parity (ws : List Word) (p : Bool) : Bool := ws.foldl (fun p w => p ^^ w.getLsbD 0) p

theorem getLsbD_foldl_xor (ws : List Word) : ∀ a : Word,
    (ws.foldl (· ^^^ ·) a).getLsbD 0 = parity ws (a.getLsbD 0) := by
  induction ws with
  | nil => exact fun _ => rfl
  | cons w ws ih =>
    intro a
    rw [List.foldl_cons, ih, BitVec.getLsbD_xor]
    rfl

theorem getLsbD_mfmWord_zero (last : Long) (w : Word) : (mfmWord last w).2.getLsbD 0 = w.getLsbD 0 := by
  have hbit := @getMsbD_mfmWord_odd last w 15 (by decide)
  rwa [BitVec.getMsbD_eq_getLsbD, BitVec.getMsbD_eq_getLsbD] at hbit

/-- The clocks leave the parity. -/
theorem parity_mfmcode (ws : List Word) : ∀ (last : Long) (p : Bool),
    parity (mfmcode last ws) p = parity ws p := by
  induction ws with
  | nil => exact fun _ _ => rfl
  | cons w ws ih =>
    intro last p
    rw [mfmcode, parity, List.foldl_cons, ← parity, ih, getLsbD_mfmWord_zero]
    rfl

theorem parity_longHalves (l : Long) (p : Bool) : parity (longHalves l) p = (p ^^ lowBits l) := by
  have h0 : mfmMask[0] = true := by decide
  have h16 : mfmMask[16] = true := by decide
  simp [parity, longHalves, longWords, lowBits, dodd, deven, h0, h16]

theorem parity_flatMap (data : List Long) : ∀ p : Bool,
    parity (data.flatMap longHalves) p = data.foldl (fun p l => p ^^ lowBits l) p := by
  induction data with
  | nil => exact fun _ => rfl
  | cons l data ih =>
    intro p
    rw [List.flatMap_cons, parity, List.foldl_append, ← parity, ← parity, ih, parity_longHalves]
    rfl

theorem getLsbD_diskspareChk (data : List Long) (h : data ≠ []) :
    (diskspareChk (diskspareData data)).getLsbD 0 = lowParity data := by
  have hparity := parity_mfmcode (data.flatMap longHalves) 0 false
  rw [parity_flatMap] at hparity
  obtain ⟨w, ws, hws⟩ : ∃ w ws, diskspareData data = w :: ws := by
    cases data with
    | nil => exact absurd rfl h
    | cons l data => exact ⟨_, _, rfl⟩
  have hchk : diskspareData data = mfmcode 0 (data.flatMap longHalves) := rfl
  rw [hws, diskspareChk, getLsbD_foldl_xor, lowParity, ← hparity, ← hchk, hws, BitVec.getLsbD_and,
    parity, parity, List.foldl_cons]
  simp

theorem length_longHalves (data : List Long) :
    (data.flatMap longHalves).length = 4 * data.length := by
  induction data with
  | nil => rfl
  | cons l data ih =>
    rw [List.flatMap_cons, List.length_append, ih, List.length_cons, longHalves, List.length_append]
    simp only [longWords, List.length_cons, List.length_nil]
    omega

theorem length_diskspareWords (tr sec : Nat) (s : Sector) :
    (diskspareWords tr sec s.dataLongs).length = 520 := by
  have hdata := length_longHalves s.dataLongs
  rw [s.length_dataLongs] at hdata
  have hlen : (diskspareData s.dataLongs).length = 512 := by
    rw [← show 4 * 128 = 512 from rfl, ← hdata]
    exact length_mfmcode _ _
  rw [diskspareWords, List.length_append, List.length_append, hlen, length_mfmcode]
  simp only [longWords, List.length_append, List.length_cons, List.length_nil]

theorem getLast?_flatMap (data : List Long) {l : Long} (h : data.getLast? = some l) :
    (data.flatMap longHalves).getLast? = some ((deven l).setWidth 16) := by
  obtain ⟨init, rfl⟩ : ∃ init, data = init ++ [l] := by
    obtain ⟨init, hinit⟩ := List.getLast?_eq_some_iff.mp h
    exact ⟨init, hinit⟩
  rw [List.flatMap_append, List.getLast?_append]
  rfl

/-- The words of a sector join exactly if the header meets the data well. -/
theorem isChain_diskspareWords (tr sec : Nat) {data : List Long} {first : Long}
    (h : data.head? = some first) : (diskspareWords tr sec data).IsChain Joins ↔
      (lowParity data = true → first.getLsbD 31 = true) := by
  obtain ⟨rest, rfl⟩ : ∃ rest, data = first :: rest := by
    cases data with
    | nil => exact absurd h (by simp)
    | cons l rest => exact ⟨rest, by rw [Option.some.inj h]⟩
  have hchk := getLsbD_diskspareChk (first :: rest) (by simp)
  have hsync : [(0xaaaa : Word), 0x4489, 0x4489, 0x2aaa].IsChain Joins := by decide
  rw [diskspareWords]
  generalize hheader : diskspareHeader tr sec (diskspareChk (diskspareData (first :: rest))) = header
  have hlast : ((deven header).setWidth 16 : Word).getLsbD 0 = lowParity (first :: rest) := by
    rw [← hchk, ← hheader]
    simp [deven, diskspareHeader, word32, mfmMask]
  have hdata : ((dodd first >>> 16).setWidth 16 : Word).getMsbD 1 = first.getLsbD 31 := by
    rw [BitVec.getMsbD_eq_getLsbD, BitVec.getLsbD_setWidth, BitVec.getLsbD_ushiftRight, dodd,
      BitVec.getLsbD_and, BitVec.getLsbD_ushiftRight, getLsbD_mfmMask]
    simp
  obtain ⟨x, hx, hcarries⟩ := getLast?_mfmcode (longWords (dodd header) ++ longWords (deven header)) 0
    ((deven header).setWidth 16) rfl
  rw [hlast] at hcarries
  have hhead : (diskspareData (first :: rest)).head? =
      some (mfmWord 0 ((dodd first >>> 16).setWidth 16)).2 := rfl
  rw [List.isChain_append, List.isChain_append, hx, hhead]
  have hseam := @joins_restart_iff x ((dodd first >>> 16).setWidth 16) (lowParity (first :: rest))
    hcarries
  rw [hdata] at hseam
  have hfirst : ∀ y ∈ (mfmcode 0 (longWords (dodd header) ++ longWords (deven header)) ++
      diskspareData (first :: rest)).head?, Joins 0x2aaa y := by
    intro y hy
    obtain rfl := Option.some.inj hy
    exact joins_behind (carries_gapWord true) ⟨0, _, rfl, rfl⟩
  constructor
  · rintro ⟨-, ⟨-, -, hjoins⟩, -⟩
    exact hseam.mp (hjoins _ rfl _ rfl)
  · intro hone
    refine ⟨hsync, ⟨isChain_mfmcode _ 0, isChain_mfmcode _ 0, ?_⟩, ?_⟩
    · rintro _ ⟨⟩ _ ⟨⟩
      exact hseam.mpr hone
    · rintro _ ⟨⟩ y hy
      exact hfirst y hy

theorem diskspareWords_getLast? (tr sec : Nat) {data : List Long} {l : Long}
    (h : data.getLast? = some l) :
    ∃ y, (diskspareWords tr sec data).getLast? = some y ∧ Carries (l.getLsbD 0) y := by
  obtain ⟨y, hy, hcarries⟩ := getLast?_mfmcode (data.flatMap longHalves) 0 _ (getLast?_flatMap data h)
  have hbit : ((deven l).setWidth 16 : Word).getLsbD 0 = l.getLsbD 0 := by simp [deven, mfmMask]
  rw [hbit] at hcarries
  refine ⟨y, ?_, hcarries⟩
  have hdata : diskspareData data = mfmcode 0 (data.flatMap longHalves) := rfl
  rw [diskspareWords, List.getLast?_append, List.getLast?_append, hdata, hy]
  rfl

/-- The words of all sectors. -/
def spareWords (tr : Nat) : Nat → List Sector → List Word
  | _, [] => []
  | sec, s :: ss => diskspareWords tr sec s.dataLongs ++ spareWords tr (sec + 1) ss

theorem diskspareLoop_eq {tr : Nat} {ss : List Sector} : ∀ {sec off : Nat} {m : Track},
    diskspareLoop len tr sec off m ss = writeWords len off m (spareWords tr sec ss) := by
  induction ss with
  | nil => exact rfl
  | cons s ss ih =>
    intro sec off m
    rw [diskspareLoop, ih, spareWords, writeWords_append, length_diskspareWords]

theorem length_spareWords (tr : Nat) (ss : List Sector) : ∀ sec : Nat,
    (spareWords tr sec ss).length = ss.length * 520 := by
  induction ss with
  | nil => exact fun _ => rfl
  | cons s ss ih =>
    intro sec
    rw [spareWords, List.length_append, length_diskspareWords, ih, List.length_cons]
    omega

theorem head?_spareWords (tr sec : Nat) (ss : List Sector) (n : Nat) :
    (spareWords tr sec ss ++ List.replicate (n + 1) 0xaaaa).head? = some 0xaaaa := by
  cases ss <;> rfl

/-- The words of the sectors and the gap join exactly if every sector is quiet. -/
theorem isChain_spareWords (tr : Nat) (n : Nat) (ss : List Sector) : ∀ sec : Nat,
    (spareWords tr sec ss ++ List.replicate (n + 1) 0xaaaa).IsChain Joins ↔
      ∀ s ∈ ss, Quiet s.dataLongs := by
  induction ss with
  | nil =>
    intro sec
    refine iff_of_true ?_ (fun s hs => absurd hs List.not_mem_nil)
    exact isChain_gap (n + 1)
  | cons s ss ih =>
    intro sec
    have hlen := s.length_dataLongs
    obtain ⟨first, hfirst⟩ : ∃ first, s.dataLongs.head? = some first := by
      cases h : s.dataLongs with
      | nil => exact absurd (h ▸ hlen) (by decide)
      | cons l ls => exact ⟨l, rfl⟩
    obtain ⟨l, hl⟩ : ∃ l, s.dataLongs.getLast? = some l := by
      cases h : s.dataLongs.getLast? with
      | none => exact absurd (List.getLast?_eq_none_iff.mp h ▸ hlen) (by decide)
      | some l => exact ⟨l, rfl⟩
    obtain ⟨y, hy, hcarries⟩ := diskspareWords_getLast? tr sec hl
    have hseam : Joins y 0xaaaa ↔ l.getLsbD 0 = false := by
      cases hbit : l.getLsbD 0 with
      | false =>
        rw [hbit] at hcarries
        exact iff_of_true (joins_behind hcarries (behind_gapWord false)) rfl
      | true =>
        rw [hbit] at hcarries
        exact iff_of_false (not_joins hcarries (by decide)) (by decide)
    rw [spareWords, List.append_assoc, List.isChain_append, isChain_diskspareWords tr sec hfirst, ih,
      hy, head?_spareWords, List.forall_mem_cons, Quiet, hl, hfirst]
    constructor
    · rintro ⟨hparity, hrest, hjoins⟩
      refine ⟨⟨?_, ?_⟩, hrest⟩
      · rintro _ ⟨⟩
        exact hseam.mp (hjoins _ rfl _ rfl)
      · rintro hp _ ⟨⟩
        exact hparity hp
    · rintro ⟨⟨hlow, hparity⟩, hrest⟩
      refine ⟨fun hp => hparity hp _ rfl, hrest, ?_⟩
      rintro _ ⟨⟩ _ ⟨⟩
      exact hseam.mpr (hlow _ rfl)

theorem legalTrack_decodeDiskspare_iff {writeLen : Nat} (hgap : 11 * 544 < writeLen) (tr : Nat)
    (secs : List Sector) (stale : Track) :
    LegalTrack (decodeDiskspare writeLen tr secs stale)
      (16 * (secs.length * 520 + gapLen writeLen)) ↔ ∀ s ∈ secs, Quiet s.dataLongs := by
  have hpos : 0 < gapLen writeLen := Nat.sub_pos_of_lt hgap
  rw [decodeDiskspare]
  generalize gapLen writeLen = gap at hpos
  obtain ⟨n, rfl⟩ : ∃ n, gap = n + 1 := ⟨gap - 1, by omega⟩
  have hlength := length_spareWords tr secs 0
  generalize hlen : secs.length * 520 + (n + 1) = len
  have hfill : ∀ j < len, (fun i => if i < len then (0xaaaa : Word) else stale i) j = 0xaaaa :=
    fun j hj => if_pos hj
  generalize (fun i => if i < len then (0xaaaa : Word) else stale i) = m at hfill
  have hspace : len - (spareWords tr 0 secs).length = n + 1 := by omega
  rw [diskspareLoop_eq, legalTrack_writeWords hfill (by omega) (by
    rw [hspace, head?_spareWords]), hspace]
  exact isChain_spareWords tr (n + 1) secs 0

/-- **Legal tracks.** AmigaDOS tracks are always legal, DiskSpare tracks exactly if all their sectors
are quiet, and no data bit is changed. -/
theorem legalTracks_iff {writeLen : Nat} (hgap : 11 * 544 < writeLen) (tr : Nat)
    (secs : List Sector) (stale : Track) :
    (LegalTrack (decodeAmigados writeLen tr secs stale)
        (16 * (secs.length * 544 + gapLen writeLen)) ∧
      LegalTrack (decodeDiskspare writeLen tr secs stale)
        (16 * (secs.length * 520 + gapLen writeLen)) ∧
      ∀ ws : List Word, (mfmcode 0 ws).map (· &&& wordMask) = ws.map (· &&& wordMask)) ↔
    ∀ s ∈ secs, Quiet s.dataLongs :=
  ⟨fun h => (legalTrack_decodeDiskspare_iff hgap tr secs stale).mp h.2.1, fun h =>
    ⟨legalTrack_decodeAmigados hgap tr secs stale,
      (legalTrack_decodeDiskspare_iff hgap tr secs stale).mpr h, fun ws => mfmcode_data ws 0⟩⟩

/-- A sector of one byte repeated. -/
def flatSector (b : Byte) : Sector where
  data := List.replicate 512 b
  head := List.replicate 16 0
  length_data := List.length_replicate
  length_head := length_zeroHead

theorem legalTracks_zeros :
    (LegalTrack (decodeAmigados 6334 0 (List.replicate 12 (flatSector 0)) fun _ => 0)
        (16 * (12 * 544 + gapLen 6334)) ∧
      LegalTrack (decodeDiskspare 6334 0 (List.replicate 12 (flatSector 0)) fun _ => 0)
        (16 * (12 * 520 + gapLen 6334)) ∧
      ∀ ws : List Word, (mfmcode 0 ws).map (· &&& wordMask) = ws.map (· &&& wordMask)) ↔
    ∀ s ∈ List.replicate 12 (flatSector 0), Quiet s.dataLongs :=
  legalTracks_iff (by decide) 0 (List.replicate 12 (flatSector 0)) fun _ => 0

/-- A DiskSpare sector of ones ends in a one, and what is behind it begins with one. -/
theorem ones_not_legal : ¬ ∀ (writeLen tr : Nat) (secs : List Sector) (stale : Track),
    11 * 544 < writeLen → secs.length = 12 → LegalTrack (decodeDiskspare writeLen tr secs stale)
      (16 * (secs.length * 520 + gapLen writeLen)) := by
  intro h
  have hquiet := (legalTrack_decodeDiskspare_iff (by decide) 0
    (List.replicate 12 (flatSector 0xff)) fun _ => 0).mp
      (h 6334 0 (List.replicate 12 (flatSector 0xff)) (fun _ => 0) (by decide) List.length_replicate)
  exact absurd (hquiet (flatSector 0xff) (List.mem_replicate.mpr ⟨by decide, rfl⟩))
    (by decide +kernel)

end LibretroUae.Disk
