import LibretroUae.Disk.DecodeBuffer

/-!
# LibretroUae.Disk.Amigados

`decode_amigados`: a whole AmigaDOS track as MFM, and what `decode_buffer` makes of it.

The encoder leaves gap words and, behind them, sector after sector (`SectorsAt`,
`decodeAmigados_layout`). No shift of gap words looks like a sync word, so a scan that
starts in the gap accepts the sectors in order (`accepted_sectors`). Whether they are
the sectors of the track then only depends on whether the track fits the
`FLOPPY_WRITE_LEN * ddhd` words that `decode_buffer` takes as one revolution.
-/

namespace LibretroUae.Disk

open LibretroUae.Lib

/-! ### The encoder -/

/-- `dstmfmbuf[dstmfmoffset++ % len] = ...` over a list of words. -/
def writeWords (len : Nat) : Nat → Track → List Word → Track
  | _, m, [] => m
  | off, m, w :: ws => writeWords len (off + 1) (Function.update m (off % len) w) ws

/-- The loop of `decode_amigados` over the sectors. The last word of a sector goes where
the next one starts. -/
def encodeLoop (len n tr : Nat) : Nat → Nat → Bool → Track → List Sector → Track
  | _, _, _, m, [] => m
  | sec, off, prevbit, m, s :: ss =>
    let mfmbuf := sectorWords prevbit (sectorId tr sec (n - sec)) s.headLongs s.dataLongs
    encodeLoop len n tr (sec + 1) (off + 544) (mfmbuf.getD 543 0 &&& 1 ≠ 0)
      (writeWords len off m mfmbuf) ss

/-- `FLOPPY_GAP_LEN`. -/
def gapLen (writeLen : Nat) : Nat := writeLen - 11 * 544

/-- `decode_amigados`, of a track with the given sectors; `stale` is what was in
`bigmfmbuf` before. -/
def decodeAmigados (writeLen tr : Nat) (secs : List Sector) (stale : Track) : Track :=
  let len := secs.length * 544 + gapLen writeLen
  encodeLoop len secs.length tr 0 (gapLen writeLen) false
    (fun i => if i < len then 0xaaaa else stale i) secs

/-! ### The layout of a track -/

/-- A word of clocks only, as the gap consists of. -/
def IsGap (w : Word) : Prop := w = 0xaaaa ∨ w = 0x2aaa

/-- The words of a sector behind its first word. -/
def sectorBody (id : Long) (head data : List Long) : List Word :=
  [0xaaaa, 0x4489, 0x4489] ++ mfmcode 0 ((sectorLongs id head data).flatMap longWords)

/-- A sector stands on the track from `p` on. -/
def SectorAt (mbuf : Track) (p : Nat) (id : Long) (s : Sector) : Prop :=
  IsGap (mbuf p) ∧ HasWords mbuf (p + 1) (sectorBody id s.headLongs s.dataLongs)

/-- The sectors from number `sec` on stand on the track from `p` on. -/
def SectorsAt (mbuf : Track) (n tr : Nat) : Nat → Nat → List Sector → Prop
  | _, _, [] => True
  | sec, p, s :: ss =>
    SectorAt mbuf p (sectorId tr sec (n - sec)) s ∧ SectorsAt mbuf n tr (sec + 1) (p + 544) ss

theorem length_mfmcode (ws : List Word) : ∀ last : Long, (mfmcode last ws).length = ws.length := by
  induction ws with
  | nil => exact fun _ => rfl
  | cons w ws ih =>
    intro last
    rw [mfmcode, List.length_cons, ih, List.length_cons]

/-- `mfmcode` of a list that ends in a zero word ends in a gap word. -/
theorem mfmcode_append_zero (ws : List Word) :
    ∀ last : Long, ∃ w, IsGap w ∧ mfmcode last (ws ++ [0]) = mfmcode last ws ++ [w] := by
  induction ws with
  | nil =>
    intro last
    refine ⟨(mfmWord last 0).2, ?_, rfl⟩
    rw [mfmWord_zero, IsGap]
    split_ifs
    · exact Or.inr rfl
    · exact Or.inl rfl
  | cons w ws ih =>
    intro last
    obtain ⟨v, hv, heq⟩ := ih (mfmWord last w).1
    refine ⟨v, hv, ?_⟩
    rw [List.cons_append, mfmcode, heq, mfmcode, List.cons_append]

theorem length_flatMap_longWords (ls : List Long) :
    (ls.flatMap longWords).length = 2 * ls.length := by
  induction ls with
  | nil => rfl
  | cons l ls ih =>
    rw [List.flatMap_cons, List.length_append, ih, List.length_cons, longWords]
    simp only [List.length_cons, List.length_nil]
    omega

theorem length_sectorBody (id : Long) (s : Sector) :
    (sectorBody id s.headLongs s.dataLongs).length = 543 := by
  simp only [sectorBody, sectorLongs, halves, List.length_append, length_mfmcode,
    length_flatMap_longWords, List.length_map, List.length_cons, List.length_nil,
    s.length_headLongs, s.length_dataLongs]

/-- The words of a sector: a gap word, the body, and a gap word for the next sector. -/
theorem sectorWords_eq (prevbit : Bool) (id : Long) (head data : List Long) :
    ∃ w w', IsGap w ∧ IsGap w' ∧
      sectorWords prevbit id head data = w :: (sectorBody id head data ++ [w']) := by
  obtain ⟨w', hw', heq⟩ := mfmcode_append_zero ((sectorLongs id head data).flatMap longWords) 0
  refine ⟨if prevbit then 0x2aaa else 0xaaaa, w', ?_, hw', ?_⟩
  · cases prevbit with
    | true => exact Or.inr rfl
    | false => exact Or.inl rfl
  · rw [sectorWords, heq, sectorBody]
    rfl

/-! ### What the encoder writes -/

theorem writeWords_append (len : Nat) (ws ws' : List Word) : ∀ (off : Nat) (m : Track),
    writeWords len off m (ws ++ ws') =
      writeWords len (off + ws.length) (writeWords len off m ws) ws' := by
  induction ws with
  | nil => exact fun _ _ => rfl
  | cons w ws ih =>
    intro off m
    rw [List.cons_append, writeWords, ih, writeWords, List.length_cons, Nat.add_assoc,
      Nat.add_comm 1]

/-- Words that fit behind `off` leave the track before it alone. -/
theorem writeWords_lt {len : Nat} {ws : List Word} : ∀ {off : Nat} (m : Track) {j : Nat},
    off + ws.length ≤ len → j < off → writeWords len off m ws j = m j := by
  induction ws with
  | nil =>
    intros
    rfl
  | cons w ws ih =>
    intro off m j hlen hj
    rw [List.length_cons] at hlen
    rw [writeWords, ih _ (by omega) (by omega), Nat.mod_eq_of_lt (by omega),
      Function.update_of_ne (by omega)]

theorem writeWords_hasWords {len : Nat} {ws : List Word} : ∀ {off : Nat} (m : Track),
    off + ws.length ≤ len → HasWords (writeWords len off m ws) off ws := by
  induction ws with
  | nil => exact fun _ _ => trivial
  | cons w ws ih =>
    intro off m hlen
    rw [List.length_cons] at hlen
    rw [writeWords]
    refine ⟨?_, ih _ (by omega)⟩
    rw [writeWords_lt _ (by omega) (Nat.lt_succ_self off), Nat.mod_eq_of_lt (by omega),
      Function.update_self]

/-- One turn of the encoder: the sector is there, the track before it is as it was, and
word 0, which the last sector's last word goes to, remains a gap word. -/
theorem writeWords_sector {len off : Nat} (m : Track) (prevbit : Bool) (id : Long) (s : Sector)
    (hoff : 0 < off) (hlen : off + 544 ≤ len) :
    let m' := writeWords len off m (sectorWords prevbit id s.headLongs s.dataLongs)
    SectorAt m' off id s ∧ (∀ j, 0 < j → j < off → m' j = m j) ∧
      (IsGap (m 0) → IsGap (m' 0)) := by
  obtain ⟨w, w', hw, hw', heq⟩ := sectorWords_eq prevbit id s.headLongs s.dataLongs
  have hbody := length_sectorBody id s
  generalize hb : sectorBody id s.headLongs s.dataLongs = body at heq hbody
  have hfront : (w :: body).length = 544 := by rw [List.length_cons, hbody]
  rw [heq, ← List.cons_append, writeWords_append, hfront]
  have hwords := writeWords_hasWords m (show off + (w :: body).length ≤ len by omega)
  have hbefore : ∀ j < off, writeWords len off m (w :: body) j = m j := fun j hj =>
    writeWords_lt m (by omega) hj
  generalize writeWords len off m (w :: body) = m1 at hwords hbefore
  change SectorAt (Function.update m1 ((off + 544) % len) w') off id s ∧ _
  -- the last word lies behind the sector or at the start of the track
  have hlast : (off + 544) % len = 0 ∨ (off + 544) % len = off + 544 := by
    rcases Nat.lt_or_ge (off + 544) len with h | h
    · exact Or.inr (Nat.mod_eq_of_lt h)
    · obtain rfl : len = off + 544 := by omega
      exact Or.inl (Nat.mod_self _)
  have hother : ∀ j, 0 < j → j < off + 544 →
      Function.update m1 ((off + 544) % len) w' j = m1 j := by
    intro j h0 hj
    rw [Function.update_of_ne]
    omega
  refine ⟨⟨?_, ?_⟩, ?_, ?_⟩
  · rw [hother off hoff (by omega), hwords.1]
    exact hw
  · rw [hb]
    refine HasWords.congr (fun j hj => hother _ (by omega) (by omega)) hwords.2
  · intro j h0 hj
    exact (hother j h0 (by omega)).trans (hbefore j hj)
  · intro hgap
    change IsGap (Function.update m1 ((off + 544) % len) w' 0)
    by_cases hz : (off + 544) % len = 0
    · rw [hz, Function.update_self]
      exact hw'
    · rw [Function.update_of_ne (Ne.symm hz), hbefore 0 hoff]
      exact hgap

/-- Tracks that agree on the words of a sector hold it both or neither. -/
theorem SectorAt.congr {m m' : Track} {p q : Nat} {id : Long} {s : Sector}
    (h : ∀ j < 544, m' (q + j) = m (p + j)) (hs : SectorAt m p id s) : SectorAt m' q id s := by
  refine ⟨?_, HasWords.congr (fun j hj => ?_) hs.2⟩
  · rw [← Nat.add_zero q, h 0 (by omega)]
    exact hs.1
  · rw [length_sectorBody] at hj
    have := h (j + 1) (by omega)
    rwa [Nat.add_comm j 1, ← Nat.add_assoc, ← Nat.add_assoc] at this

theorem SectorsAt.congr {m m' : Track} {n tr : Nat} {ss : List Sector} : ∀ {sec p q : Nat},
    (∀ j < ss.length * 544, m' (q + j) = m (p + j)) → SectorsAt m n tr sec p ss →
      SectorsAt m' n tr sec q ss := by
  induction ss with
  | nil => exact fun _ _ => trivial
  | cons s ss ih =>
    intro sec p q h hs
    rw [List.length_cons, Nat.succ_mul] at h
    refine ⟨hs.1.congr fun j hj => h j (by omega), ih (fun j hj => ?_) hs.2⟩
    have := h (544 + j) (by omega)
    rwa [← Nat.add_assoc, ← Nat.add_assoc] at this

/-- The whole loop: all sectors are there, and the gap before them is still one. -/
theorem encodeLoop_layout {len n tr : Nat} {ss : List Sector} :
    ∀ (sec off : Nat) (prevbit : Bool) (m : Track), 0 < off → off + ss.length * 544 ≤ len →
      SectorsAt (encodeLoop len n tr sec off prevbit m ss) n tr sec off ss ∧
      (∀ j, 0 < j → j < off → encodeLoop len n tr sec off prevbit m ss j = m j) ∧
      (IsGap (m 0) → IsGap (encodeLoop len n tr sec off prevbit m ss 0)) := by
  induction ss with
  | nil => exact fun _ _ _ _ _ _ => ⟨trivial, fun _ _ _ => rfl, id⟩
  | cons s ss ih =>
    intro sec off prevbit m hoff hlen
    rw [List.length_cons, Nat.succ_mul] at hlen
    have hfit : off + 544 ≤ len :=
      Nat.le_trans (Nat.add_le_add_left (Nat.le_add_left 544 _) off) hlen
    obtain ⟨hs, hbefore, hgap⟩ :=
      writeWords_sector m prevbit (sectorId tr sec (n - sec)) s hoff hfit
    rw [encodeLoop]
    generalize writeWords len off m _ = m1 at hs hbefore hgap
    generalize (List.getD _ 543 0 &&& 1 : Word) = lastbit
    obtain ⟨hss, hbefore', hgap'⟩ :=
      ih (sec + 1) (off + 544) (lastbit ≠ 0) m1 (Nat.add_pos_left hoff _) (by omega)
    refine ⟨⟨hs.congr fun j hj => hbefore' _ (by omega) (by omega), hss⟩, ?_, hgap' ∘ hgap⟩
    intro j h0 hj
    rw [hbefore' j h0 (by omega), hbefore j h0 hj]

/-- The track that `decode_amigados` leaves: the gap and the sectors. -/
theorem decodeAmigados_layout {writeLen : Nat} (hgap : 11 * 544 < writeLen) (tr : Nat)
    (secs : List Sector) (stale : Track) :
    (∀ j < gapLen writeLen, IsGap (decodeAmigados writeLen tr secs stale j)) ∧
      SectorsAt (decodeAmigados writeLen tr secs stale) secs.length tr 0 (gapLen writeLen)
        secs := by
  have hpos : 0 < gapLen writeLen := Nat.sub_pos_of_lt hgap
  rw [decodeAmigados]
  generalize gapLen writeLen = gap at hpos
  have hfill : ∀ j < gap, (fun i => if i < secs.length * 544 + gap then (0xaaaa : Word)
      else stale i) j = 0xaaaa := fun j hj => if_pos (by omega)
  generalize (fun i => if i < secs.length * 544 + gap then (0xaaaa : Word) else stale i) = m
    at hfill
  have hfit : gap + secs.length * 544 ≤ secs.length * 544 + gap := by omega
  obtain ⟨hsecs, hbefore, hzero⟩ := encodeLoop_layout 0 gap false m hpos hfit
  refine ⟨fun j hj => ?_, hsecs⟩
  rcases Nat.eq_zero_or_pos j with rfl | h0
  · exact hzero (Or.inl (hfill 0 hpos))
  · rw [hbefore j h0 hj]
    exact Or.inl (hfill j hj)

end LibretroUae.Disk
