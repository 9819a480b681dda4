import LibretroUae.Disk.Amigados

/-!
# LibretroUae.Disk.RoundTrip

Writing an AmigaDOS track and reading it back.

`accepted_sectors` is the scan lemma: from a position in front of sectors, with a shift
of 0, the scan accepts exactly these and goes on behind the last one. The track that
`decode_amigados` leaves then comes back (`roundTrip_iff`) if it is no longer than
what `decode_buffer` doubles. Otherwise the copy overwrites the rear sectors, and the
scan meets the front ones twice.
-/

namespace LibretroUae.Disk

open LibretroUae.Lib

/-! ### No sync word in the gap -/

/-- Two words between which no shift shows a sync word. -/
def NoSync (w w' : Word) : Prop :=
  ∀ shift : Fin 16, (w <<< shift.val ||| w' >>> (16 - shift.val)) ≠ 0x4489

instance (w w' : Word) : Decidable (NoSync w w') := by
  unfold NoSync
  infer_instance

/-- Gap words show none, and neither does the last one with the real sync word. -/
theorem IsGap.noSync {w w' : Word} (h : IsGap w) (h' : IsGap w' ∨ w' = 0x4489) : NoSync w w' := by
  rcases h with rfl | rfl <;> rcases h' with (rfl | rfl) | rfl <;> decide

/-- The search passes a word that shows no sync word. -/
theorem seekSync_word {mbuf : Track} {mend p : Nat} (hp : p < mend)
    (h : NoSync (mbuf p) (mbuf (p + 1))) (shift : Fin 16) :
    seekSync mbuf mend p shift = seekSync mbuf mend (p + 1) 0 := by
  have hno : ∀ s : Fin 16, ¬ getmfmword mbuf p s = 0x4489 := h
  have hend : ¬ mend ≤ p := Nat.not_le.mpr hp
  obtain ⟨k, hk⟩ : ∃ k, shift.val + k = 15 := ⟨15 - shift.val, by omega⟩
  -- the induction is on the shifts left in this word
  induction k generalizing shift with
  | zero => rw [seekSync, if_neg (hno shift), if_neg hend, dif_pos (by omega)]
  | succ k ih =>
    rw [seekSync, if_neg (hno shift), if_neg hend, dif_neg (by omega)]
    exact ih ⟨shift.val + 1, by omega⟩ (by simp only; omega)

/-- The search passes any number of such words. -/
theorem seekSync_words {mbuf : Track} {mend k : Nat} : ∀ {p : Nat}, p + k ≤ mend →
    (∀ j < k, NoSync (mbuf (p + j)) (mbuf (p + j + 1))) →
      seekSync mbuf mend p 0 = seekSync mbuf mend (p + k) 0 := by
  induction k with
  | zero => exact fun _ _ => rfl
  | succ k ih =>
    intro p hp h
    have hrest : ∀ j < k, NoSync (mbuf (p + 1 + j)) (mbuf (p + 1 + j + 1)) := by
      intro j hj
      rw [Nat.add_right_comm p]
      exact h (j + 1) (by omega)
    calc seekSync mbuf mend p 0 = seekSync mbuf mend (p + 1) 0 :=
          seekSync_word (by omega) (h 0 (Nat.succ_pos k)) 0
      _ = seekSync mbuf mend (p + 1 + k) 0 := ih (by omega) hrest
      _ = seekSync mbuf mend (p + (k + 1)) 0 := by rw [Nat.add_right_comm, Nat.add_assoc]

/-! ### Scanning one sector -/

/-- The identification is not mistaken for a third sync word: its format byte is 0xff. -/
theorem ne_sync_of_sectorId {mbuf : Track} {p tr sec left : Nat}
    (h : getmfmlong mbuf p 0 = dodd (sectorId tr sec left)) : mbuf p ≠ 0x4489 := by
  intro hsync
  have hbit := congrArg (BitVec.getLsbD · 28) h
  have h29 : (sectorId tr sec left).getLsbD 29 = true := by
    rw [sectorId, getLsbD_word32 _ _ _ _ (by decide)]
    rfl
  simp only [getmfmlong, getmfmword_zero, dodd, BitVec.getLsbD_and, BitVec.getLsbD_or,
    BitVec.getLsbD_shiftLeft, BitVec.getLsbD_ushiftRight, BitVec.getLsbD_setWidth, hsync, h29,
    getLsbD_mfmMask, BitVec.getLsbD_of_ge (mbuf (p + 1)) 28 (by decide)] at hbit
  exact absurd hbit (by decide)

/-- The longs of a sector behind its sync words. -/
theorem SectorAt.longs {mbuf : Track} {p : Nat} {id : Long} {s : Sector}
    (h : SectorAt mbuf p id s) :
    mbuf (p + 1) = 0xaaaa ∧ mbuf (p + 2) = 0x4489 ∧ mbuf (p + 3) = 0x4489 ∧
      HasLongs mbuf (p + 4) (sectorLongs id s.headLongs s.dataLongs) := by
  obtain ⟨h1, h2, h3, h4⟩ := h.2
  exact ⟨h1, h2, h3, HasLongs.of_mfmcode h4⟩

/-- A scan from the gap in front of a sector accepts it. -/
theorem nextSector_sector {cfg : Config} {mbuf : Track} {mend p gap sec left : Nat} {s : Sector}
    (hgap : ∀ j < gap, IsGap (mbuf (p + j)))
    (hs : SectorAt mbuf (p + gap) (sectorId (cfg.cyl * 2 + cfg.side) sec left) s)
    (hend : p + gap + 3 < mend) (hext : cfg.filetype ≠ .ext2) (hsec : sec < cfg.drvsec)
    (hsec8 : sec < 256) (htr : cfg.cyl * 2 + cfg.side < 256) :
    nextSector cfg mbuf mend p 0 =
      some (.ok ⟨sec, s.headLongs, s.dataLongs⟩, p + gap + 544, 0) := by
  obtain ⟨h1, h2, h3, hlongs⟩ := hs.longs
  have hdec := decodeSector_of_longs hlongs hext hsec hsec8 rfl htr
  have h4 : mbuf (p + gap + 4) ≠ 0x4489 := by
    rw [sectorLongs, halves] at hlongs
    exact ne_sync_of_sectorId (hlongs.1.trans (deven_dodd _))
  -- gap, the sector's first word and the word before the sync words
  have hgaps : ∀ j ≤ gap + 1, IsGap (mbuf (p + j)) := by
    intro j hj
    rcases Nat.lt_trichotomy j gap with h | rfl | h
    · exact hgap j h
    · exact hs.1
    · obtain rfl : j = gap + 1 := by omega
      exact Or.inl h1
  have hno : ∀ j < gap + 2, NoSync (mbuf (p + j)) (mbuf (p + j + 1)) := by
    intro j hj
    rcases Nat.lt_or_ge j (gap + 1) with h | h
    · exact (hgaps j (by omega)).noSync (Or.inl (hgaps (j + 1) (by omega)))
    · obtain rfl : j = gap + 1 := by omega
      exact (hgaps _ (Nat.le_refl _)).noSync (Or.inr h2)
  have hseek : seekSync mbuf mend p 0 = some (p + gap + 2, 0) := by
    rw [seekSync_words (by omega) hno, ← Nat.add_assoc, seekSync, getmfmword_zero, if_pos h2]
  have hskip : skipSync mbuf mend (p + gap + 2) 0 = some (p + gap + 4) := by
    have hlt2 : ¬ mend ≤ p + gap + 2 := by omega
    have hlt3 : ¬ mend ≤ p + gap + 3 := by omega
    rw [skipSync, getmfmword_zero, if_pos h2, if_neg hlt2, skipSync, getmfmword_zero, if_pos h3,
      if_neg hlt3, skipSync, getmfmword_zero, if_neg h4]
  rw [nextSector, hseek]
  simp only [hskip, hdec, bind, Option.bind, pure]

/-! ### Scanning a run of sectors -/

/-- What the scan makes of sectors from number `sec` on. -/
def decodedFrom : Nat → List Sector → List Decoded
  | _, [] => []
  | sec, s :: ss => ⟨sec, s.headLongs, s.dataLongs⟩ :: decodedFrom (sec + 1) ss

theorem length_decodedFrom (ss : List Sector) : ∀ sec, (decodedFrom sec ss).length = ss.length := by
  induction ss with
  | nil => exact fun _ => rfl
  | cons s ss ih =>
    intro sec
    rw [decodedFrom, List.length_cons, ih, List.length_cons]

/-- A scan from the gap in front of sectors accepts them and goes on behind them. -/
theorem accepted_sectors {cfg : Config} {mbuf : Track} {mend n : Nat} {ss : List Sector}
    (hext : cfg.filetype ≠ .ext2) (htr : cfg.cyl * 2 + cfg.side < 256) (hn8 : cfg.drvsec ≤ 256) :
    ∀ (sec p gap : Nat), (∀ j < gap, IsGap (mbuf (p + j))) →
      SectorsAt mbuf n (cfg.cyl * 2 + cfg.side) sec (p + gap) ss → sec + ss.length ≤ cfg.drvsec →
      p + gap + ss.length * 544 < mend + 541 → ss ≠ [] →
      accepted cfg mbuf mend p 0 =
        decodedFrom sec ss ++ accepted cfg mbuf mend (p + gap + ss.length * 544) 0 := by
  induction ss with
  | nil => exact fun _ _ _ _ _ _ _ h => absurd rfl h
  | cons s ss ih =>
    intro sec p gap hgap hs hsec hend _
    rw [List.length_cons] at hsec
    rw [List.length_cons, Nat.succ_mul] at hend
    have hnext := nextSector_sector hgap hs.1 (show p + gap + 3 < mend by omega) hext
      (by omega) (by omega) htr
    rw [accepted_ok hnext, decodedFrom, List.cons_append]
    rcases List.eq_nil_or_concat ss with rfl | h
    · rw [decodedFrom, List.nil_append, List.length_singleton, Nat.one_mul]
    · have hne : ss ≠ [] := by
        obtain ⟨_, _, rfl⟩ := h
        simp
      -- no gap between two sectors
      have hrest := ih (sec + 1) (p + gap + 544) 0 (fun j hj => absurd hj (Nat.not_lt_zero j)) hs.2
        (by omega) (by omega) hne
      rw [hrest, List.length_cons, Nat.succ_mul, Nat.add_zero, Nat.add_assoc _ 544,
        Nat.add_comm 544]

/-! ### A revolution -/

/-- `FLOPPY_WRITE_LEN` with the default settings. -/
def defaultWriteLen (ntscmode : Bool) : Nat := if ntscmode then 12784 / 2 else 12668 / 2

theorem lt_defaultWriteLen (ntscmode : Bool) : 11 * 544 < defaultWriteLen ntscmode := by
  cases ntscmode with
  | false => exact Nat.lt_of_sub_pos (by decide)
  | true => exact Nat.lt_of_sub_pos (by decide)

/-- What `decode_buffer` is called with for a track of an `ADF_NORMAL_HEADER` file. -/
def headerConfig (ntscmode : Bool) (drvsec ddhd cyl side : Nat) : Config where
  writeLen := defaultWriteLen ntscmode
  drvsec
  ddhd
  cyl
  side
  filetype := .normalHeader
  checkmode := false

/-- The track of `decode_amigados`, decoded, is complete and holds what the file held. -/
def RoundTrip (cfg : Config) (secs : List Sector) (stale : Track) (b : Buffers) : Prop :=
  let r := decodeBuffer cfg (decodeAmigados cfg.writeLen (cfg.cyl * 2 + cfg.side) secs stale) b
  r.1 = 0 ∧ ∀ s (hs : s < secs.length), r.2.sectable s = 1 ∧
    (∀ i < 512, r.2.writebuffer (s * 512 + i) = secs[s].data.getD i 0) ∧
    ∀ i < 16, r.2.writesecheadbuffer (s * 16 + i) = secs[s].head.getD i 0

theorem SectorsAt.of_append {mbuf : Track} {n tr : Nat} {ss ss' : List Sector} : ∀ {sec p : Nat},
    SectorsAt mbuf n tr sec p (ss ++ ss') → SectorsAt mbuf n tr sec p ss := by
  induction ss with
  | nil => exact fun _ => trivial
  | cons s ss ih => exact fun h => ⟨h.1, ih h.2⟩

/-- The scan over a copy of the gap and the first sectors of a track, anywhere in the
doubled buffer. -/
theorem accepted_copy {cfg : Config} {mbuf m : Track} {mend n gap base : Nat} {ss : List Sector}
    (hext : cfg.filetype ≠ .ext2) (htr : cfg.cyl * 2 + cfg.side < 256) (hn8 : cfg.drvsec ≤ 256)
    (hgap : ∀ j < gap, IsGap (m j)) (hs : SectorsAt m n (cfg.cyl * 2 + cfg.side) 0 gap ss)
    (hcopy : ∀ j < gap + ss.length * 544, mbuf (base + j) = m j) (hlen : ss.length ≤ cfg.drvsec)
    (hend : base + gap + ss.length * 544 < mend + 541) (hne : ss ≠ []) :
    accepted cfg mbuf mend base 0 =
      decodedFrom 0 ss ++ accepted cfg mbuf mend (base + gap + ss.length * 544) 0 := by
  refine accepted_sectors hext htr hn8 0 base gap (fun j hj => ?_) (hs.congr fun j hj => ?_)
    (by omega) hend hne
  · rw [hcopy j (by omega)]
    exact hgap j hj
  · rw [Nat.add_assoc, hcopy _ (by omega)]

theorem mem_decodedFrom {d : Decoded} {ss : List Sector} : ∀ {sec : Nat}, d ∈ decodedFrom sec ss →
    ∃ k, ∃ h : k < ss.length, d = ⟨sec + k, ss[k].headLongs, ss[k].dataLongs⟩ := by
  induction ss with
  | nil => exact fun h => absurd h List.not_mem_nil
  | cons s ss ih =>
    intro sec h
    rcases List.mem_cons.mp h with rfl | h
    · exact ⟨0, Nat.succ_pos _, rfl⟩
    · obtain ⟨k, hk, rfl⟩ := ih h
      refine ⟨k + 1, Nat.succ_lt_succ hk, ?_⟩
      rw [List.getElem_cons_succ, Nat.add_right_comm, Nat.add_assoc]

theorem numbers_decodedFrom (ss : List Sector) :
    ∀ sec, (decodedFrom sec ss).map Decoded.number = List.range' sec ss.length := by
  induction ss with
  | nil => exact fun _ => rfl
  | cons s ss ih =>
    intro sec
    rw [decodedFrom, List.map_cons, ih, List.length_cons, List.range'_succ]

/-- A decoded sector fills its slots. -/
theorem Sector.sized (s : Sector) (sec : Nat) : Decoded.Sized ⟨sec, s.headLongs, s.dataLongs⟩ := by
  refine ⟨?_, ?_⟩
  · rw [length_flatMap_be32, s.length_dataLongs]
  · rw [length_flatMap_be32, s.length_headLongs]

theorem Config.lt_mend (cfg : Config) (h : 540 ≤ 2 * cfg.fwlen) :
    2 * cfg.fwlen < cfg.mend + 541 := by
  have hsub : cfg.mend + (4 + 16 + 8 + 512) = 2 * cfg.fwlen := Nat.sub_add_cancel h
  omega

/-- If a scan stores the sectors of the track in order, the round trip is complete. -/
theorem roundTrip_of_stored {cfg : Config} {secs : List Sector} {stale : Track} (b : Buffers)
    (hext : cfg.filetype ≠ .ext2) (hlen : secs.length = cfg.drvsec)
    (h : storedSectors cfg (decodeAmigados cfg.writeLen (cfg.cyl * 2 + cfg.side) secs stale) =
      decodedFrom 0 secs) :
    RoundTrip cfg secs stale b := by
  have hnot : ¬ secs.length < cfg.drvsec := by omega
  rw [RoundTrip, decodeBuffer_eq hext, h, length_decodedFrom, if_neg hnot]
  refine ⟨rfl, fun s hs => ?_⟩
  have hmem : s ∈ (decodedFrom 0 secs).map Decoded.number := by
    rw [numbers_decodedFrom, List.mem_range'_1]
    omega
  have hsized : ∀ d ∈ decodedFrom 0 secs, d.Sized := by
    intro d hd
    obtain ⟨k, hk, rfl⟩ := mem_decodedFrom hd
    exact Sector.sized _ _
  obtain ⟨d, hd, hnum, hholds⟩ := holds_foldl hsized
    { b with sectable := fun _ => 0, secwritten := 0 } hmem
  obtain ⟨k, hk, rfl⟩ := mem_decodedFrom hd
  obtain rfl : k = s := (Nat.zero_add k).symm.trans hnum
  refine ⟨?_, fun i hi => ?_, fun i hi => ?_⟩
  · rw [sectable_foldl, if_pos hmem]
  · rw [hholds.data i hi, Sector.bytes_dataLongs]
  · rw [hholds.head i hi, Sector.bytes_headLongs]

section Tracks

variable {cfg : Config} {secs : List Sector}

/-- A track that fits the words of one revolution: the scan stores its sectors in order. -/
theorem storedSectors_of_le (hext : cfg.filetype ≠ .ext2) (htr : cfg.cyl * 2 + cfg.side < 256)
    (hwrite : 11 * 544 < cfg.writeLen) (hdd : 0 < cfg.ddhd) (hlen : secs.length = cfg.drvsec)
    (hpos : 0 < cfg.drvsec) (hn8 : cfg.drvsec ≤ 256) (hfit : cfg.drvsec ≤ 11 * cfg.ddhd)
    (stale : Track) :
    storedSectors cfg (decodeAmigados cfg.writeLen (cfg.cyl * 2 + cfg.side) secs stale) =
      decodedFrom 0 secs := by
  obtain ⟨hgap, hsecs⟩ := decodeAmigados_layout hwrite (cfg.cyl * 2 + cfg.side) secs stale
  have hgaplen : gapLen cfg.writeLen + 11 * 544 = cfg.writeLen := Nat.sub_add_cancel hwrite.le
  have hrev : cfg.writeLen ≤ cfg.fwlen := Nat.le_mul_of_pos_right _ hdd
  have hfw : gapLen cfg.writeLen + secs.length * 544 ≤ cfg.fwlen := by
    calc gapLen cfg.writeLen + secs.length * 544
        ≤ gapLen cfg.writeLen * cfg.ddhd + 11 * cfg.ddhd * 544 :=
          Nat.add_le_add (Nat.le_mul_of_pos_right _ hdd)
            (Nat.mul_le_mul_right 544 (hlen.le.trans hfit))
      _ = (gapLen cfg.writeLen + 11 * 544) * cfg.ddhd := by
          rw [Nat.add_mul, Nat.mul_right_comm 11]
      _ = cfg.fwlen := by rw [hgaplen, Config.fwlen]
  generalize decodeAmigados cfg.writeLen (cfg.cyl * 2 + cfg.side) secs stale = m at hgap hsecs
  have hcopy : ∀ j < gapLen cfg.writeLen + secs.length * 544,
      doubled cfg.fwlen m (0 + j) = m j := by
    intro j hj
    rw [Nat.zero_add, doubled, if_neg (by omega)]
  have hmend : 2 * cfg.fwlen < cfg.mend + 541 := cfg.lt_mend (by omega)
  have hend : 0 + gapLen cfg.writeLen + secs.length * 544 < cfg.mend + 541 := by omega
  have hscan := accepted_copy hext htr hn8 hgap hsecs hcopy hlen.le hend
    (List.ne_nil_of_length_pos (hlen ▸ hpos))
  rw [storedSectors, hscan, List.take_append_of_le_length (by rw [length_decodedFrom, hlen]),
    List.take_of_length_le (by rw [length_decodedFrom, hlen])]

/-- A 22-sector track in 11-sector revolutions: the scan stores sectors 0 to 10 twice. -/
theorem storedSectors_of_gt (hext : cfg.filetype ≠ .ext2) (htr : cfg.cyl * 2 + cfg.side < 256)
    (hwrite : 11 * 544 < cfg.writeLen) (hdd : cfg.ddhd = 1) (hlen : secs.length = 22)
    (hsec : cfg.drvsec = 22) (stale : Track) :
    storedSectors cfg (decodeAmigados cfg.writeLen (cfg.cyl * 2 + cfg.side) secs stale) =
      decodedFrom 0 (secs.take 11) ++ decodedFrom 0 (secs.take 11) := by
  obtain ⟨hgap, hsecs⟩ := decodeAmigados_layout hwrite (cfg.cyl * 2 + cfg.side) secs stale
  have hgaplen : gapLen cfg.writeLen + 11 * 544 = cfg.writeLen := Nat.sub_add_cancel hwrite.le
  have hfw : cfg.fwlen = cfg.writeLen := by rw [Config.fwlen, hdd, Nat.mul_one]
  have hmend : 2 * cfg.writeLen < cfg.mend + 541 := hfw ▸ cfg.lt_mend (by omega)
  generalize decodeAmigados cfg.writeLen (cfg.cyl * 2 + cfg.side) secs stale = m at hgap hsecs
  rw [← List.take_append_drop 11 secs] at hsecs
  have hfront := hsecs.of_append
  have hten : (secs.take 11).length = 11 := by
    rw [List.length_take, hlen]
    rfl
  have hne : secs.take 11 ≠ [] := List.ne_nil_of_length_pos (by omega)
  generalize secs.take 11 = front at hfront hten hne
  have hfirst : ∀ j < gapLen cfg.writeLen + front.length * 544,
      doubled cfg.fwlen m (0 + j) = m j := by
    intro j hj
    rw [Nat.zero_add, doubled, if_neg (by omega)]
  have hsecond : ∀ j < gapLen cfg.writeLen + front.length * 544,
      doubled cfg.fwlen m (cfg.writeLen + j) = m j := by
    intro j hj
    rw [doubled, if_pos (by omega), hfw, Nat.add_sub_cancel_left]
  have hend1 : 0 + gapLen cfg.writeLen + front.length * 544 = cfg.writeLen := by omega
  have hend2 : cfg.writeLen + gapLen cfg.writeLen + front.length * 544 = 2 * cfg.writeLen := by
    omega
  have hscan1 := accepted_copy hext htr (by omega) hgap hfront hfirst (by omega)
    (show _ < cfg.mend + 541 by omega) hne
  have hscan2 := accepted_copy hext htr (by omega) hgap hfront hsecond (by omega)
    (hend2.trans_lt hmend) hne
  rw [storedSectors, hscan1, hend1, hscan2, ← List.append_assoc,
    List.take_append_of_le_length ?_, List.take_of_length_le ?_]
  all_goals
    rw [List.length_append, length_decodedFrom]
    omega

/-- Then the rear sectors are not marked. -/
theorem not_roundTrip_of_gt (hext : cfg.filetype ≠ .ext2) (htr : cfg.cyl * 2 + cfg.side < 256)
    (hwrite : 11 * 544 < cfg.writeLen) (hdd : cfg.ddhd = 1) (hlen : secs.length = 22)
    (hsec : cfg.drvsec = 22) (stale : Track) (b : Buffers) : ¬ RoundTrip cfg secs stale b := by
  intro h
  rw [RoundTrip, decodeBuffer_eq hext,
    storedSectors_of_gt hext htr hwrite hdd hlen hsec stale] at h
  have hmark := (h.2 11 (by omega)).1
  rw [sectable_foldl, if_neg] at hmark
  · exact absurd hmark Nat.zero_ne_one
  · intro hmem
    obtain ⟨d, hd, hnum⟩ := List.mem_map.mp hmem
    obtain ⟨k, hk, rfl⟩ := mem_decodedFrom ((List.mem_append.mp hd).elim id id)
    rw [List.length_take] at hk
    dsimp only at hnum
    omega

end Tracks

/-- An AmigaDOS track with headers comes back from `decode_amigados` and `decode_buffer`
exactly when it has no more than 11 sectors for each unit of `ddhd`. -/
theorem roundTrip_iff (ntscmode : Bool) {ddhd cyl side : Nat} {secs : List Sector}
    (hdd : ddhd = 1 ∨ ddhd = 2) (htr : cyl * 2 + side < 256)
    (hsecs : secs.length = 11 ∨ secs.length = 22) (stale : Track) (b : Buffers) :
    RoundTrip (headerConfig ntscmode secs.length ddhd cyl side) secs stale b ↔
      secs.length ≤ 11 * ddhd := by
  have hext : (headerConfig ntscmode secs.length ddhd cyl side).filetype ≠ .ext2 := by
    simp [headerConfig]
  have hwrite : 11 * 544 < (headerConfig ntscmode secs.length ddhd cyl side).writeLen :=
    lt_defaultWriteLen ntscmode
  rcases Nat.lt_or_ge (11 * ddhd) secs.length with hgt | hle
  · have hone : ddhd = 1 := by omega
    have hlen : secs.length = 22 := by omega
    exact ⟨fun h => absurd h (not_roundTrip_of_gt hext htr hwrite hone hlen hlen stale b),
      fun h => absurd hgt (Nat.not_lt.mpr h)⟩
  · have hpos : 0 < secs.length := by omega
    have hdd' : 0 < ddhd := by omega
    have hn8 : secs.length ≤ 256 := by omega
    have hstored := storedSectors_of_le hext htr hwrite hdd' rfl hpos hn8 hle stale
    exact ⟨fun _ => hle, fun _ => roundTrip_of_stored b hext rfl hstored⟩

/-- A sector of zeros with a header of zeros. -/
def blankSector : Sector where
  data := List.replicate 512 0
  head := List.replicate 16 0
  length_data := List.length_replicate
  length_head := length_zeroHead

/-- Buffers before the first call. -/
def blankBuffers : Buffers where
  sectable _ := 0
  writebuffer _ := 0
  writesecheadbuffer _ := 0
  secwritten := 0

theorem roundTrip_blank :
    RoundTrip (headerConfig false 11 1 40 1) (List.replicate 11 blankSector) (fun _ => 0)
      blankBuffers :=
  have hsecs : (List.replicate 11 blankSector).length = 11 := List.length_replicate
  have htr : 40 * 2 + 1 < 256 := by omega
  (roundTrip_iff false (Or.inl rfl) htr (Or.inl hsecs) _ _).mpr hsecs.le

/-- A 22-sector track of a drive whose `ddhd` is still 1. -/
theorem not_roundTrip_blank :
    ¬ RoundTrip (headerConfig false 22 1 40 1) (List.replicate 22 blankSector) (fun _ => 0)
      blankBuffers :=
  not_roundTrip_of_gt (by simp [headerConfig]) (by decide) (by decide) rfl rfl rfl _ _

/-! ### Complete decodes -/

/-- A successful decode is complete exactly when no sector number occurs twice among the
sectors it stores: for every track, and every file type but `ADF_EXT2`. -/
theorem decodeBuffer_complete_iff {cfg : Config} (hext : cfg.filetype ≠ .ext2) (mbuf : Track)
    (b : Buffers) :
    ((decodeBuffer cfg mbuf b).1 = 0 → Complete cfg mbuf (decodeBuffer cfg mbuf b).2) ↔
      (storedSectors cfg mbuf).length < cfg.drvsec ∨
        ((storedSectors cfg mbuf).map Decoded.number).Nodup := by
  have hvalid := fun d (h : d ∈ storedSectors cfg mbuf) => storedSectors_valid h
  have hle : (storedSectors cfg mbuf).length ≤ cfg.drvsec := by
    rw [storedSectors, List.length_take]
    exact Nat.min_le_left _ _
  rw [decodeBuffer_eq hext]
  dsimp only
  by_cases hshort : (storedSectors cfg mbuf).length < cfg.drvsec
  · rw [if_pos hshort]
    exact ⟨fun _ => Or.inl hshort, fun _ h => absurd h Nat.one_ne_zero⟩
  · rw [if_neg hshort]
    have hnumbers : ∀ x ∈ (storedSectors cfg mbuf).map Decoded.number, x < cfg.drvsec := by
      intro x hx
      obtain ⟨d, hd, rfl⟩ := List.mem_map.mp hx
      obtain ⟨q, s, -, hv⟩ := hvalid d hd
      exact hv.range
    have hlen : ((storedSectors cfg mbuf).map Decoded.number).length = cfg.drvsec := by
      rw [List.length_map]
      omega
    rw [← forall_mem_iff_nodup hlen hnumbers]
    constructor
    · intro h
      refine Or.inr fun s hs => ?_
      have hmark := (h rfl s hs).1
      rw [sectable_foldl] at hmark
      by_contra hmem
      rw [if_neg hmem] at hmark
      exact absurd hmark Nat.zero_ne_one
    · intro h _ s hs
      have hmem := h.resolve_left hshort s hs
      have hsized : ∀ d ∈ storedSectors cfg mbuf, d.Sized := by
        intro d hd
        obtain ⟨q, s, -, hv⟩ := hvalid d hd
        exact hv.sized
      obtain ⟨d, hd, hnum, hholds⟩ := holds_foldl hsized _ hmem
      obtain ⟨q, shift, hsync, hv⟩ := hvalid d hd
      refine ⟨?_, q, shift, d, hsync, hv, hnum, hholds.data⟩
      rw [sectable_foldl, if_pos hmem]

theorem complete_blank :
    Complete (headerConfig false 11 1 40 1)
      (decodeAmigados 6334 81 (List.replicate 11 blankSector) fun _ => 0)
      (decodeBuffer (headerConfig false 11 1 40 1)
        (decodeAmigados 6334 81 (List.replicate 11 blankSector) fun _ => 0) blankBuffers).2 := by
  have hext : (headerConfig false 11 1 40 1).filetype ≠ .ext2 := by simp [headerConfig]
  have hstored : storedSectors (headerConfig false 11 1 40 1)
      (decodeAmigados 6334 81 (List.replicate 11 blankSector) fun _ => 0) =
        decodedFrom 0 (List.replicate 11 blankSector) :=
    storedSectors_of_le hext (by decide) (lt_defaultWriteLen false) Nat.one_pos rfl (by decide)
      (by decide) (by decide) _
  refine (decodeBuffer_complete_iff hext _ blankBuffers).mpr (Or.inr ?_) ?_
  · rw [hstored, numbers_decodedFrom]
    exact List.nodup_range'
  · rw [decodeBuffer_eq hext, hstored]
    rfl

/-- The scan of a 22-sector track of a drive whose `ddhd` is still 1 succeeds on sectors 0
to 10 alone. -/
theorem not_complete_blank :
    ¬ ((decodeBuffer (headerConfig false 22 1 40 1)
        (decodeAmigados 6334 81 (List.replicate 22 blankSector) fun _ => 0) blankBuffers).1 = 0 →
      Complete (headerConfig false 22 1 40 1)
        (decodeAmigados 6334 81 (List.replicate 22 blankSector) fun _ => 0)
        (decodeBuffer (headerConfig false 22 1 40 1)
          (decodeAmigados 6334 81 (List.replicate 22 blankSector) fun _ => 0)
          blankBuffers).2) := by
  have hext : (headerConfig false 22 1 40 1).filetype ≠ .ext2 := by simp [headerConfig]
  have hstored : storedSectors (headerConfig false 22 1 40 1)
      (decodeAmigados 6334 81 (List.replicate 22 blankSector) fun _ => 0) = _ :=
    storedSectors_of_gt hext (by decide) (lt_defaultWriteLen false) rfl rfl rfl _
  rw [decodeBuffer_eq hext, hstored]
  intro h
  have hmark := (h rfl 11 (by decide)).1
  rw [sectable_foldl, if_neg (by decide)] at hmark
  exact absurd hmark Nat.zero_ne_one

end LibretroUae.Disk
