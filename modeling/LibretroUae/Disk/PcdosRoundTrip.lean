import LibretroUae.Disk.PcdosLayout

/-!
# LibretroUae.Disk.PcdosRoundTrip

Writing a PC track and reading it back.

In front of a sector the reader takes two turns, one for the header and one for the data
(`turn_header`, `turn_data`), and then stands in front of the next. So it writes the sectors in
order (`writeLoop_sectors`) as long as they are all in the words that it doubles. The rest of a
longer track is overwritten before anything is read, and two tracks which differ only there cannot
both come back (`pcRoundTrip_iff`).
-/

namespace LibretroUae.Disk

open LibretroUae.Lib

theorem dosWord_ne_sync : ∀ (c : Bool) (byte : Byte), dosWord c byte ≠ 0x4489 := by decide

/-! ### Groups of sync words -/

/-- The search finds a group of three sync words and stops behind it. -/
theorem seek_group {m : Track} {mend a q : Nat} (haq : a ≤ q) (hend : q + 3 ≤ mend)
    (hno : ∀ k, a ≤ k → k < q → NoSync (m k) (m (k + 1)))
    (hsync : ∀ j < 3, m (q + j) = 0x4489) (hmark : m (q + 3) ≠ 0x4489) :
    seekSync m mend a 0 = some (q, 0) ∧ skipSync m mend q 0 = some (q + 3) := by
  obtain ⟨k, rfl⟩ := Nat.exists_eq_add_of_le haq
  have h0 : m (a + k) = 0x4489 := hsync 0 (by decide)
  have h1 := hsync 1 (by decide)
  have h2 := hsync 2 (by decide)
  have hwords : seekSync m mend a 0 = seekSync m mend (a + k) 0 :=
    seekSync_words (by omega) fun j hj => hno (a + j) (by omega) (by omega)
  constructor
  · rw [hwords, seekSync, getmfmword_zero, if_pos h0]
  · have hlt0 : ¬ mend ≤ a + k := by omega
    have hlt1 : ¬ mend ≤ a + k + 1 := by omega
    have hlt2 : ¬ mend ≤ a + k + 2 := by omega
    rw [skipSync, getmfmword_zero, if_pos h0, if_neg hlt0, skipSync, getmfmword_zero, if_pos h1,
      if_neg hlt1, skipSync, getmfmword_zero, if_pos h2, if_neg hlt2, skipSync, getmfmword_zero,
      if_neg hmark]

namespace PcSectorAt

variable {m : Track} {p : Nat} {bytes : List Byte}

theorem decode (hs : PcSectorAt m p bytes) {j : Nat} (hj : j < bytes.length) (hsync : ¬ IsSync j) :
    mfmdecode m (p + j) 0 = bytes.getD j 0 := by
  obtain ⟨c, hc⟩ := hs.byte j hj hsync
  exact mfmdecode_of_eq hc

/-- A run of bytes without sync words. -/
theorem mfmBytes_eq (hs : PcSectorAt m p bytes) {j n : Nat} (hlen : j + n ≤ bytes.length)
    (hsync : ∀ i < n, ¬ IsSync (j + i)) :
    mfmBytes m 0 (p + j) n = (List.range n).map fun i => bytes.getD (j + i) 0 := by
  rw [mfmBytes, List.map_inj_left]
  intro i hi
  have hi' := List.mem_range.mp hi
  rw [Nat.add_assoc, hs.decode (by omega) (hsync i hi')]

theorem mfmCrc_eq (hs : PcSectorAt m p bytes) {j : Nat} {v : Word} (hlen : j + 1 < bytes.length)
    (hj : ¬ IsSync j) (hj' : ¬ IsSync (j + 1)) (hhigh : bytes.getD j 0 = byteAt v 8)
    (hlow : bytes.getD (j + 1) 0 = byteAt v 0) : mfmCrc m 0 (p + j) = v := by
  rw [mfmCrc, hs.decode (by omega) hj, Nat.add_assoc, hs.decode hlen hj', hhigh, hlow, word16_byteAt]

end PcSectorAt

namespace PcDrive

variable {drv : PcDrive} {getCrc16 : List Byte → Word} {stale : Nat → Byte} {m : Track}
  {a p i : Nat} {s : PcSector} {sector : Option Nat}

/-! ### The turns for a sector -/

theorem getD_frontBytes_crc (drv : PcDrive) (getCrc16 : List Byte → Word) (i : Nat) :
    (drv.frontBytes getCrc16 i).getD 20 0 = byteAt (getCrc16 (drv.headerBytes i)) 8 ∧
      (drv.frontBytes getCrc16 i).getD 21 0 = byteAt (getCrc16 (drv.headerBytes i)) 0 := by
  rw [frontBytes, headerBytes]
  exact ⟨rfl, rfl⟩

/-- The turn in front of a sector takes its header. -/
theorem turn_header (hs : PcSectorAt m p (drv.sectorBytes getCrc16 stale i s)) (ha : a ≤ p + 12)
    (hno : ∀ k, a ≤ k → k < p + 12 → NoSync (m k) (m (k + 1))) (hend : p + 59 ≤ drv.mend)
    (hi : i < drv.numSecs) (hsecs : drv.numSecs < 96) (hcyl : drv.cyl < 256)
    (hside : drv.side < 256) :
    drv.turn getCrc16 m a 0 sector = some (.next (some i), p + 50, 0) := by
  have hlen : ∀ j < 574, j < (drv.sectorBytes getCrc16 stale i s).length := fun j hj => by
    rw [length_sectorBytes]
    exact Nat.lt_of_lt_of_le hj drv.le_step
  have hbyte : ∀ j < 60, ¬ IsSync j →
      mfmdecode m (p + j) 0 = (drv.frontBytes getCrc16 i).getD j 0 := fun j hj hsync => by
    rw [hs.decode (hlen j (by omega)) hsync, getD_sectorBytes_front _ _ _ _ _ hj]
  obtain ⟨c, hmark⟩ := hs.byte 15 (hlen 15 (by decide)) (by decide)
  obtain ⟨hseek, hskip⟩ := seek_group ha (show p + 12 + 3 ≤ drv.mend by omega) hno
    (fun j hj => by
      rw [Nat.add_assoc]
      exact hs.sync (12 + j) (hlen _ (by omega)) (Or.inl (by omega)))
    (hmark ▸ dosWord_ne_sync c _)
  have hfe : mfmdecode m (p + 15) 0 = 0xfe := hbyte 15 (by decide) (by decide)
  have h16 : mfmdecode m (p + 16) 0 = BitVec.ofNat 8 drv.cyl := hbyte 16 (by decide) (by decide)
  have h17 : mfmdecode m (p + 17) 0 = BitVec.ofNat 8 drv.side := hbyte 17 (by decide) (by decide)
  have h18 : mfmdecode m (p + 18) 0 = BitVec.ofNat 8 (1 + i) := hbyte 18 (by decide) (by decide)
  have h19 : mfmdecode m (p + 19) 0 = 2 := hbyte 19 (by decide) (by decide)
  have hheader : [0xa1, 0xa1, 0xa1, 0xfe] ++ mfmBytes m 0 (p + 16) 4 = drv.headerBytes i := by
    change [0xa1, 0xa1, 0xa1, 0xfe, mfmdecode m (p + 16) 0, mfmdecode m (p + 17) 0,
      mfmdecode m (p + 18) 0, mfmdecode m (p + 19) 0] = _
    rw [h16, h17, h18, h19, headerBytes]
  have hcrc : mfmCrc m 0 (p + 20) = getCrc16 (drv.headerBytes i) :=
    hs.mfmCrc_eq (hlen 21 (by decide)) (by decide) (by decide)
      ((getD_sectorBytes_front drv getCrc16 stale i s (by decide)).trans
        (getD_frontBytes_crc drv getCrc16 i).1)
      ((getD_sectorBytes_front drv getCrc16 stale i s (by decide)).trans
        (getD_frontBytes_crc drv getCrc16 i).2)
  have hcyl' : (mfmdecode m (p + 16) 0).toNat = drv.cyl := by
    rw [h16, BitVec.toNat_ofNat, Nat.mod_eq_of_lt hcyl]
  have hside' : (mfmdecode m (p + 17) 0).toNat = drv.side := by
    rw [h17, BitVec.toNat_ofNat, Nat.mod_eq_of_lt hside]
  have hsector : (mfmdecode m (p + 18) 0).toNat = 1 + i := by
    rw [h18, BitVec.toNat_ofNat, Nat.mod_eq_of_lt (by omega)]
  have hsize : (mfmdecode m (p + 19) 0).toNat = 2 := by
    rw [h19]
    rfl
  have hcount : ¬ p + 15 - (p + 12) < 3 := by omega
  rw [turn, hseek]
  simp only [hskip, hfe, hheader, hcrc, Nat.add_assoc, Nat.reduceAdd, hcyl', hside', hsector,
    hsize, bind, Option.bind, pure]
  rw [if_neg hcount, if_pos trivial, if_neg ?_, Nat.add_sub_cancel_left]
  simp only [ne_eq, not_true_eq_false, false_or, not_or]
  omega

/-- The turn behind a header takes the data. -/
theorem turn_data (hs : PcSectorAt m p (drv.sectorBytes getCrc16 stale i s))
    (hend : p + 59 ≤ drv.mend) :
    drv.turn getCrc16 m (p + 50) 0 (some i) = some (.data i s.data, p + 574, 0) := by
  have hlen : ∀ j < 574, j < (drv.sectorBytes getCrc16 stale i s).length := fun j hj => by
    rw [length_sectorBytes]
    exact Nat.lt_of_lt_of_le hj drv.le_step
  obtain ⟨c, hmark⟩ := hs.byte 59 (hlen 59 (by decide)) (by decide)
  have hno : ∀ k, p + 50 ≤ k → k < p + 56 → NoSync (m k) (m (k + 1)) := by
    intro k hle hlt
    obtain ⟨j, rfl⟩ := Nat.exists_eq_add_of_le (Nat.le_of_add_right_le hle)
    refine hs.noSync j (hlen _ (by omega)) ?_
    rw [IsSync]
    omega
  obtain ⟨hseek, hskip⟩ := seek_group (show p + 50 ≤ p + 56 by omega)
    (show p + 56 + 3 ≤ drv.mend from hend) hno
    (fun j hj => by
      rw [Nat.add_assoc]
      exact hs.sync (56 + j) (hlen _ (by omega)) (Or.inr (by omega)))
    (hmark ▸ dosWord_ne_sync c _)
  have hfb : mfmdecode m (p + 59) 0 = 0xfb :=
    (hs.decode (hlen 59 (by decide)) (by decide)).trans
      (getD_sectorBytes_front drv getCrc16 stale i s (by decide))
  have hdata : mfmBytes m 0 (p + 60) 512 = s.data := by
    have hbytes : mfmBytes m 0 (p + 60) 512 =
        (List.range 512).map fun k => s.data.getD k 0 := by
      rw [hs.mfmBytes_eq (Nat.le_of_lt (hlen 572 (by decide))) fun k hk => by rw [IsSync]; omega,
        List.map_inj_left]
      exact fun k hk => getD_sectorBytes_data _ _ _ _ _ (List.mem_range.mp hk)
    refine hbytes.trans (List.ext_getElem ?_ fun k hk hk' => ?_)
    · rw [List.length_map, List.length_range, s.length_data]
    · rw [List.getElem_map, List.getElem_range, List.getD_eq_getElem _ _ hk']
  have hcrc : mfmCrc m 0 (p + 572) = getCrc16 (dataBytes s) :=
    hs.mfmCrc_eq (hlen 573 (by decide)) (by decide) (by decide)
      (@getD_sectorBytes_crc drv getCrc16 stale i s 0 (by decide))
      (@getD_sectorBytes_crc drv getCrc16 stale i s 1 (by decide))
  have hdataBytes : [0xa1, 0xa1, 0xa1, 0xfb] ++ s.data = dataBytes s := rfl
  have hcount : ¬ p + 59 - (p + 56) < 3 := by omega
  -- six words to the next group are not too many
  have hgap : ¬ (16 * (p + 56 - (p + 50)) + (0 : Fin 16).val - (0 : Fin 16).val) / 16 ≥ 43 := by
    change ¬ (16 * (p + 56 - (p + 50)) + 0 - 0) / 16 ≥ 43
    omega
  rw [turn, hseek]
  simp only [hskip, hfb, hdata, hdataBytes, hcrc, hgap, Nat.add_assoc, Nat.reduceAdd, if_false,
    bind, Option.bind, pure]
  rw [if_neg hcount, if_neg (by decide), if_neg (by decide), if_neg (not_not.mpr rfl)]

/-! ### The loop -/

section Loop

variable {count : Bool} {mbuf : Track} {p' seccnt n : Nat} {shift shift' : Fin 16}
  {sector sector' : Option Nat} {w : PcWritten} {bytes : List Byte}

theorem writeLoop_next (hlt : seccnt < drv.numSecs)
    (h : drv.turn getCrc16 mbuf p shift sector = some (.next sector', p', shift')) :
    writeLoop drv getCrc16 count mbuf p shift sector seccnt w =
      writeLoop drv getCrc16 count mbuf p' shift' sector' seccnt w := by
  rw [writeLoop, if_pos hlt]
  split
  · rename_i h'
    simp [h] at h'
  · rename_i h'
    obtain ⟨⟨rfl⟩, rfl, rfl⟩ : _ ∧ _ ∧ _ := by simpa [h] using h'
    rfl
  · rename_i h'
    simp [h] at h'

/-- Data of a sector that is not marked yet. -/
theorem writeLoop_data (hlt : seccnt < drv.numSecs) (hn : w.sectable n = false)
    (h : drv.turn getCrc16 mbuf p shift sector = some (.data n bytes, p', shift')) :
    writeLoop drv getCrc16 count mbuf p shift sector seccnt w =
      writeLoop drv getCrc16 count mbuf p' shift' none (seccnt + 1)
        (w.write drv.offs n bytes) := by
  rw [writeLoop, if_pos hlt]
  split
  · rename_i h'
    simp [h] at h'
  · rename_i h'
    simp [h] at h'
  · rename_i h'
    obtain ⟨⟨rfl, rfl⟩, rfl, rfl⟩ : _ ∧ _ ∧ _ := by simpa [h] using h'
    rw [if_neg (by simp [hn])]

end Loop

end PcDrive

/-- Writing sectors from number `i` on. -/
def PcWritten.writeAll (offs : Nat) : Nat → PcWritten → List PcSector → PcWritten
  | _, w, [] => w
  | i, w, s :: ss => PcWritten.writeAll offs (i + 1) (w.write offs i s.data) ss

theorem PcWritten.write_sectable {w : PcWritten} (offs : Nat) {i k : Nat} (bytes : List Byte)
    (h : k ≠ i) : (w.write offs i bytes).sectable k = w.sectable k := by
  rw [PcWritten.write]
  split_ifs
  · rfl
  · exact Function.update_of_ne h _ _

/-- Writing a sector leaves the later ones unmarked. -/
theorem PcWritten.write_unmarked {w : PcWritten} (offs : Nat) {i : Nat} (bytes : List Byte)
    (hw : ∀ k, i ≤ k → w.sectable k = false) :
    ∀ k, i + 1 ≤ k → (w.write offs i bytes).sectable k = false := by
  intro k hk
  rw [PcWritten.write_sectable offs bytes (Nat.ne_of_gt hk)]
  exact hw k (Nat.le_of_succ_le hk)

namespace PcDrive

variable {drv : PcDrive} {getCrc16 : List Byte → Word} {stale : Nat → Byte} {m : Track}

/-- A scan from in front of the last sectors of a track writes these. -/
theorem writeLoop_sectors {count : Bool} {ss : List PcSector} (hsecs : drv.numSecs < 96)
    (hcyl : drv.cyl < 256) (hside : drv.side < 256) :
    ∀ {i a p : Nat} {sector : Option Nat} {w : PcWritten},
      drv.SectorsAt getCrc16 stale m i p ss → a ≤ p + 12 →
      (∀ k, a ≤ k → k < p → ss ≠ [] → NoSync (m k) (m (k + 1))) →
      i + ss.length = drv.numSecs →
      p + ss.length * drv.step ≤ drv.mend → (∀ k, i ≤ k → w.sectable k = false) →
        writeLoop drv getCrc16 count m a 0 sector i w =
          (some (w.writeAll drv.offs i ss).secwritten, w.writeAll drv.offs i ss) := by
  induction ss with
  | nil =>
    intro i a p sector w _ _ _ hi _ _
    have hdone : ¬ i < drv.numSecs := by
      rw [← hi]
      exact Nat.lt_irrefl i
    rw [writeLoop, if_neg hdone, PcWritten.writeAll]
  | cons s ss ih =>
    intro i a p sector w hs ha hno hi hend hw
    have hstep := drv.le_step
    rw [List.length_cons] at hi
    rw [List.length_cons, Nat.succ_mul] at hend
    have hlt : i < drv.numSecs := by omega
    have hinner : ∀ j, j + 1 < drv.step → ¬ IsSync j → NoSync (m (p + j)) (m (p + j + 1)) :=
      fun j hj => hs.1.noSync j (by rwa [length_sectorBytes])
    have hfront : ∀ k, a ≤ k → k < p + 12 → NoSync (m k) (m (k + 1)) := by
      intro k hle hk
      rcases Nat.lt_or_ge k p with hkp | hkp
      · exact hno k hle hkp (List.cons_ne_nil s ss)
      · obtain ⟨j, rfl⟩ := Nat.exists_eq_add_of_le hkp
        refine hinner j (by omega) ?_
        rw [IsSync]
        omega
    have hheader := @turn_header drv getCrc16 stale m a p i s sector hs.1 ha hfront (by omega) hlt
      hsecs hcyl hside
    have hdata := turn_data hs.1 (by omega)
    rw [writeLoop_next hlt hheader, writeLoop_data hlt (hw i (Nat.le_refl i)) hdata,
      PcWritten.writeAll]
    -- from the end of the data to the next sector
    have hgap : ∀ k, p + 574 ≤ k → k < p + drv.step → ss ≠ [] → NoSync (m k) (m (k + 1)) := by
      intro k hle hk hne
      obtain ⟨j, rfl⟩ := Nat.exists_eq_add_of_le (Nat.le_of_add_right_le hle)
      rcases Nat.lt_or_ge (j + 1) drv.step with hj | hj
      · refine hinner j hj ?_
        rw [IsSync]
        omega
      · obtain ⟨s', ss', rfl⟩ := List.exists_cons_of_ne_nil hne
        have hlead := hs.2.1.lead
        have hpred : p + drv.step - 1 = p + j := by omega
        have hnext : p + drv.step = p + j + 1 := by omega
        rwa [hpred, hnext] at hlead
    exact ih hs.2 (by omega) hgap (by omega) (by omega) (PcWritten.write_unmarked _ _ hw)

end PcDrive

/-! ### What is written -/

theorem PcWritten.secwritten_writeAll (offs : Nat) {ss : List PcSector} :
    ∀ {i : Nat} {w : PcWritten}, (∀ k, i ≤ k → w.sectable k = false) →
      (w.writeAll offs i ss).secwritten = w.secwritten + ss.length := by
  induction ss with
  | nil => exact fun _ => rfl
  | cons s ss ih =>
    intro i w hw
    have hnew : ¬ w.sectable i = true := by simp [hw i (Nat.le_refl i)]
    have hrest := PcWritten.write_unmarked offs s.data hw
    have hwritten : (w.write offs i s.data).secwritten = w.secwritten + 1 := by
      rw [PcWritten.write, if_neg hnew]
    rw [PcWritten.writeAll, ih hrest, hwritten, List.length_cons]
    omega

/-- A sector's bytes lie in its own slot behind `offs`. -/
theorem storeBytes_offs {bs : List Byte} (image : Nat → Byte) (offs n : Nat)
    (hlen : bs.length = 512) (k : Nat) {j : Nat} (hj : j < 512) :
    storeBytes image (offs + n * 512) bs (offs + k * 512 + j) =
      if k = n then bs.getD j 0 else image (offs + k * 512 + j) := by
  have hslot := storeBytes_slot (fun x => image (offs + x)) hlen n k j hj
  rw [← Nat.add_assoc] at hslot
  rw [← hslot, storeBytes, storeBytes]
  have hiff : (offs + n * 512 ≤ offs + k * 512 + j ∧
      offs + k * 512 + j < offs + n * 512 + bs.length) ↔
        (n * 512 ≤ k * 512 + j ∧ k * 512 + j < n * 512 + bs.length) := by omega
  have hsub : offs + k * 512 + j - (offs + n * 512) = k * 512 + j - n * 512 := by omega
  rw [hsub, ← Nat.add_assoc]
  simp only [hiff]

theorem PcWritten.image_write {w : PcWritten} (offs : Nat) {i : Nat} (s : PcSector)
    (hw : w.sectable i = false) (k : Nat) {j : Nat} (hj : j < 512) :
    (w.write offs i s.data).image (offs + k * 512 + j) =
      if k = i then s.data.getD j 0 else w.image (offs + k * 512 + j) := by
  have hnew : ¬ w.sectable i = true := by simp [hw]
  rw [PcWritten.write, if_neg hnew]
  exact storeBytes_offs w.image offs i s.length_data k hj

/-- Writing later sectors leaves a slot alone. -/
theorem PcWritten.image_writeAll_of_lt (offs : Nat) {ss : List PcSector} {k : Nat} :
    ∀ {i : Nat} {w : PcWritten}, (∀ n, i ≤ n → w.sectable n = false) → k < i → ∀ j < 512,
      (w.writeAll offs i ss).image (offs + k * 512 + j) = w.image (offs + k * 512 + j) := by
  induction ss with
  | nil => exact fun _ _ _ _ => rfl
  | cons s ss ih =>
    intro i w hw hk j hj
    have hrest := PcWritten.write_unmarked offs s.data hw
    rw [PcWritten.writeAll, ih hrest (Nat.lt_succ_of_lt hk) j hj,
      PcWritten.image_write offs s (hw i (Nat.le_refl i)) k hj, if_neg (Nat.ne_of_lt hk)]

/-- Every sector is in its slot in the end. -/
theorem PcWritten.image_writeAll (offs : Nat) {ss : List PcSector} :
    ∀ {i : Nat} {w : PcWritten}, (∀ n, i ≤ n → w.sectable n = false) →
      ∀ r (h : r < ss.length), ∀ j < 512,
        (w.writeAll offs i ss).image (offs + (i + r) * 512 + j) = ss[r].data.getD j 0 := by
  induction ss with
  | nil => exact fun _ r h => absurd h (Nat.not_lt_zero r)
  | cons s ss ih =>
    intro i w hw r h j hj
    have hrest := PcWritten.write_unmarked offs s.data hw
    cases r with
    | zero =>
      rw [PcWritten.writeAll, Nat.add_zero i,
        PcWritten.image_writeAll_of_lt offs hrest (Nat.lt_succ_self i) j hj,
        PcWritten.image_write offs s (hw i (Nat.le_refl i)) i hj, if_pos rfl]
      rfl
    | succ r =>
      have hnum : i + (r + 1) = i + 1 + r := by omega
      rw [PcWritten.writeAll, hnum, ih hrest r (Nat.lt_of_succ_lt_succ h) j hj]
      rfl

/-! ### The round trip -/

/-- `num_secs` and `ddhd` as `drive_insert` sets them for `ADF_PCDOS`. -/
def pcdosGeometries : List (Nat × Nat) :=
  [(9, 1), (18, 2), (10, 1), (20, 2), (21, 2), (15, 1), (8, 1)]

/-- The track of `decode_pcdos`, read back into an image: all sectors are counted, and the image
holds every one of them. -/
def PcRoundTrip (drv : PcDrive) (getCrc16 : List Byte → Word) (stale : Nat → Byte) (old : Track)
    (count : Bool) (image : Nat → Byte) (secs : List PcSector) : Prop :=
  let r := drv.writePcdos getCrc16 count (drv.decodePcdos getCrc16 stale secs old) image
  r.1 = some drv.numSecs ∧ ∀ s (hs : s < secs.length), ∀ j < 512,
    r.2.image (drv.offs + s * 512 + j) = secs[s].data.getD j 0

namespace PcDrive

/-- The words of the preamble and the sectors. -/
def trackWords (drv : PcDrive) : Nat := 97 + drv.numSecs * drv.step

variable {drv : PcDrive} {getCrc16 : List Byte → Word} {stale : Nat → Byte} {old : Track}
  {secs : List PcSector}

/-- A track that fits the words of one revolution comes back. -/
theorem pcRoundTrip_of_fits (hfit : drv.trackWords ≤ drv.fwlen) (hsecs : drv.numSecs < 96)
    (hpos : 0 < drv.numSecs) (hcyl : drv.cyl < 256) (hside : drv.side < 256)
    (hlen : secs.length = drv.numSecs) (count : Bool) (image : Nat → Byte) :
    PcRoundTrip drv getCrc16 stale old count image secs := by
  obtain ⟨hno, hat⟩ := @decodePcdos_layout drv getCrc16 stale secs old
  have hstep := drv.le_step
  have hpos' : drv.step ≤ drv.numSecs * drv.step := Nat.le_mul_of_pos_left _ hpos
  rw [trackWords] at hfit
  generalize hm : drv.decodePcdos getCrc16 stale secs old = m at hno hat
  have hsame : ∀ k < drv.fwlen, doubled drv.fwlen m k = m k := by
    intro k hk
    rw [doubled, if_neg (by omega)]
  have hat' := hat.congr (by decide) fun k _ hk => hsame k (by rw [hlen] at hk; omega)
  have hno' : ∀ k, 0 ≤ k → k < 97 → secs ≠ [] →
      NoSync (doubled drv.fwlen m k) (doubled drv.fwlen m (k + 1)) := by
    intro k _ hk hne
    rcases Nat.lt_or_ge k 96 with h | h
    · rw [hsame k (by omega), hsame (k + 1) (by omega)]
      exact hno k h
    · obtain rfl : k = 96 := by omega
      obtain ⟨s, ss, rfl⟩ := List.exists_cons_of_ne_nil hne
      exact hat'.1.lead
  have hsub : drv.mend + 518 = 2 * drv.fwlen := Nat.sub_add_cancel (by omega)
  have hmend : 97 + secs.length * drv.step ≤ drv.mend := by
    rw [hlen]
    omega
  have hblank : ∀ k, 0 ≤ k → (fun _ : Nat => false) k = false := fun _ _ => rfl
  have hloop := @writeLoop_sectors drv getCrc16 stale (doubled drv.fwlen m) count secs hsecs hcyl
    hside 0 0 97 none ⟨0, fun _ => false, image⟩ hat' (Nat.zero_le _) hno'
    (by rw [hlen, Nat.zero_add]) hmend hblank
  rw [PcRoundTrip, hm, writePcdos, hloop]
  refine ⟨?_, fun s hs j hj => ?_⟩
  · rw [PcWritten.secwritten_writeAll _ hblank, Nat.zero_add, hlen]
  · have himage := @PcWritten.image_writeAll drv.offs secs 0 ⟨0, fun _ => false, image⟩ hblank s
      hs j hj
    rwa [Nat.zero_add] at himage

/-! ### Tracks that are too long -/

theorem length_sectorsWords (ss : List PcSector) : ∀ (i : Nat) (last : Word),
    (drv.sectorsWords getCrc16 stale i last ss).length = ss.length * drv.step := by
  induction ss with
  | nil =>
    intro i last
    rw [List.length_nil, Nat.zero_mul]
    rfl
  | cons s ss ih =>
    intro i last
    rw [sectorsWords, List.length_append, ih, length_syncWords, length_mfmcoder,
      length_sectorBytes, List.length_cons, Nat.succ_mul, Nat.add_comm]

/-- Sectors that differ in their last byte have the same words up to this byte's. -/
theorem getD_sectorWords_congr {s s' : PcSector} (i : Nat) (last : Word)
    (h : ∀ j < 511, s.data.getD j 0 = s'.data.getD j 0) {k : Nat} (hk : k < 571) :
    (syncWords (mfmcoder last (drv.sectorBytes getCrc16 stale i s))).getD k 0 =
      (syncWords (mfmcoder last (drv.sectorBytes getCrc16 stale i s'))).getD k 0 := by
  have hstep := drv.le_step
  have hlen : ∀ t : PcSector,
      59 ≤ (mfmcoder last (drv.sectorBytes getCrc16 stale i t)).length := fun t => by
    rw [length_mfmcoder, length_sectorBytes]
    omega
  have hbytes : ∀ j < 571, (drv.sectorBytes getCrc16 stale i s).getD j 0 =
      (drv.sectorBytes getCrc16 stale i s').getD j 0 := by
    intro j hj
    rcases Nat.lt_or_ge j 60 with hfront | hdata
    · rw [getD_sectorBytes_front _ _ _ _ _ hfront, getD_sectorBytes_front _ _ _ _ _ hfront]
    · obtain ⟨d, rfl⟩ := Nat.exists_eq_add_of_le hdata
      rw [getD_sectorBytes_data _ _ _ _ _ (by omega), getD_sectorBytes_data _ _ _ _ _ (by omega),
        h d (by omega)]
  rw [getD_syncWords k (hlen s), getD_syncWords k (hlen s'),
    getD_mfmcoder last (by rw [length_sectorBytes]; omega),
    getD_mfmcoder last (by rw [length_sectorBytes]; omega), hbytes k hk,
    hbytes (k - 1) (by omega)]

theorem getD_sectorsWords_congr {ss : List PcSector} {s s' : PcSector}
    (h : ∀ j < 511, s.data.getD j 0 = s'.data.getD j 0) : ∀ (i : Nat) (last : Word) {k : Nat},
      k < ss.length * drv.step + 571 →
        (drv.sectorsWords getCrc16 stale i last (ss ++ [s])).getD k 0 =
          (drv.sectorsWords getCrc16 stale i last (ss ++ [s'])).getD k 0 := by
  have hstep := drv.le_step
  have hlen : ∀ (i : Nat) (last : Word) (t : PcSector),
      (syncWords (mfmcoder last (drv.sectorBytes getCrc16 stale i t))).length = drv.step := by
    intro i last t
    rw [length_syncWords, length_mfmcoder, length_sectorBytes]
  induction ss with
  | nil =>
    intro i last k hk
    rw [List.length_nil, Nat.zero_mul, Nat.zero_add] at hk
    have hsingle : ∀ t, (drv.sectorsWords getCrc16 stale i last [t]).getD k 0 =
        (syncWords (mfmcoder last (drv.sectorBytes getCrc16 stale i t))).getD k 0 := by
      intro t
      rw [sectorsWords, List.getD_append _ _ _ _ (by rw [hlen]; omega)]
    rw [List.nil_append, List.nil_append, hsingle, hsingle, getD_sectorWords_congr i last h hk]
  | cons t ss ih =>
    intro i last k hk
    rw [List.length_cons, Nat.succ_mul] at hk
    rw [List.cons_append, List.cons_append, sectorsWords, sectorsWords]
    rcases Nat.lt_or_ge k drv.step with hlt | hge
    · rw [List.getD_append _ _ _ _ (by rwa [hlen]), List.getD_append _ _ _ _ (by rwa [hlen])]
    · rw [List.getD_append_right _ _ _ _ (by rwa [hlen]),
        List.getD_append_right _ _ _ _ (by rwa [hlen]), hlen, ih _ _ (by omega)]

/-- The tracks of two such contents, as the reader doubles them, are the same if the last byte's
word is overwritten. -/
theorem doubled_decodePcdos_congr {ss : List PcSector} {s s' : PcSector}
    (h : ∀ j < 511, s.data.getD j 0 = s'.data.getD j 0)
    (hcut : drv.fwlen ≤ 97 + ss.length * drv.step + 571)
    (hend : 97 + (ss.length + 1) * drv.step ≤ 2 * drv.fwlen) :
    doubled drv.fwlen (drv.decodePcdos getCrc16 stale (ss ++ [s]) old) =
      doubled drv.fwlen (drv.decodePcdos getCrc16 stale (ss ++ [s']) old) := by
  have hlen : ∀ t : PcSector, (preamble ++ drv.sectorsWords getCrc16 stale 0 (preamble.getLastD 0)
      (ss ++ [t])).length = 97 + (ss.length + 1) * drv.step := by
    intro t
    rw [List.length_append, length_preamble, length_sectorsWords, List.length_append,
      List.length_singleton]
  have hfront : ∀ k < drv.fwlen, drv.decodePcdos getCrc16 stale (ss ++ [s]) old k =
      drv.decodePcdos getCrc16 stale (ss ++ [s']) old k := by
    intro k hk
    have hstep := drv.le_step
    rw [Nat.succ_mul] at hlen
    rcases Nat.lt_or_ge k 97 with hpre | hpre
    · rw [decodePcdos_preamble _ _ hpre, decodePcdos_preamble _ _ hpre]
    · have hlt : ∀ t, k < (preamble ++ drv.sectorsWords getCrc16 stale 0 (preamble.getLastD 0)
          (ss ++ [t])).length := fun t => by
        rw [hlen]
        omega
      have hpre' : preamble.length ≤ k := by rwa [length_preamble]
      rw [decodePcdos, decodePcdos, if_pos (hlt s), if_pos (hlt s'),
        List.getD_append_right _ _ _ _ hpre', List.getD_append_right _ _ _ _ hpre',
        length_preamble, getD_sectorsWords_congr h 0 _ (by omega)]
  have hback : ∀ k, 2 * drv.fwlen ≤ k → drv.decodePcdos getCrc16 stale (ss ++ [s]) old k =
      drv.decodePcdos getCrc16 stale (ss ++ [s']) old k := by
    intro k hk
    have hge : ∀ t, ¬ k < (preamble ++ drv.sectorsWords getCrc16 stale 0 (preamble.getLastD 0)
        (ss ++ [t])).length := fun t => by
      rw [hlen]
      omega
    rw [decodePcdos, decodePcdos, if_neg (hge s), if_neg (hge s')]
  funext k
  rw [doubled, doubled]
  split_ifs with hk
  · exact hfront _ (by omega)
  · rcases Nat.lt_or_ge k drv.fwlen with hlt | hge
    · exact hfront k hlt
    · exact hback k (by omega)

/-- They cannot both come back. -/
theorem not_both {ss : List PcSector} {s s' : PcSector} {count : Bool} {image : Nat → Byte}
    (h : ∀ j < 511, s.data.getD j 0 = s'.data.getD j 0)
    (hne : s.data.getD 511 0 ≠ s'.data.getD 511 0)
    (hcut : drv.fwlen ≤ 97 + ss.length * drv.step + 571)
    (hend : 97 + (ss.length + 1) * drv.step ≤ 2 * drv.fwlen) :
    ¬ (PcRoundTrip drv getCrc16 stale old count image (ss ++ [s]) ∧
      PcRoundTrip drv getCrc16 stale old count image (ss ++ [s'])) := by
  rintro ⟨⟨-, hs⟩, ⟨-, hs'⟩⟩
  have hlast : ∀ t : PcSector, ss.length < (ss ++ [t]).length := fun t => by
    rw [List.length_append, List.length_singleton]
    exact Nat.lt_succ_self _
  have hbyte := hs ss.length (hlast s) 511 (by decide)
  have hbyte' := hs' ss.length (hlast s') 511 (by decide)
  rw [writePcdos, doubled_decodePcdos_congr h hcut hend] at hbyte
  rw [List.getElem_concat_length rfl] at hbyte hbyte'
  exact hne (hbyte.symm.trans hbyte')

end PcDrive

/-- A sector of zeros up to its last byte. -/
def lastByteSector (byte : Byte) : PcSector where
  data := List.replicate 511 0 ++ [byte]
  length_data := by rw [List.length_append, List.length_replicate, List.length_singleton]

theorem getD_lastByteSector (byte byte' : Byte) :
    (∀ j < 511, (lastByteSector byte).data.getD j 0 = (lastByteSector byte').data.getD j 0) ∧
      (lastByteSector byte).data.getD 511 0 = byte := by
  refine ⟨fun j hj => ?_, ?_⟩
  · have hlt : j < (List.replicate 511 (0 : Byte)).length := by rwa [List.length_replicate]
    rw [lastByteSector, lastByteSector, List.getD_append _ _ _ _ hlt,
      List.getD_append _ _ _ _ hlt]
  · rw [lastByteSector, List.getD_append_right _ _ _ _ (by rw [List.length_replicate]),
      List.length_replicate]
    rfl

/-- `MAX_TRACKS`. -/
def maxTracks : Nat := 2 * 83

namespace PcDrive

variable {drv : PcDrive} {ntscmode : Bool}

theorem geometry_bounds (h : (drv.numSecs, drv.ddhd) ∈ pcdosGeometries) :
    0 < drv.numSecs ∧ drv.numSecs < 96 := by
  simp only [pcdosGeometries, List.mem_cons, Prod.mk.injEq, List.not_mem_nil, or_false] at h
  omega

/-- What does not fit is too long by more than the last sector's gap and checksum, and by less
than a revolution. -/
theorem not_fits (h : (drv.numSecs, drv.ddhd) ∈ pcdosGeometries)
    (hwrite : drv.writeLen = defaultWriteLen ntscmode) (hlong : ¬ drv.trackWords ≤ drv.fwlen) :
    drv.fwlen ≤ 97 + (drv.numSecs - 1) * drv.step + 571 ∧
      97 + drv.numSecs * drv.step ≤ 2 * drv.fwlen := by
  simp only [pcdosGeometries, List.mem_cons, Prod.mk.injEq, List.not_mem_nil, or_false] at h
  rw [trackWords, fwlen, step, hwrite] at hlong
  rw [fwlen, step, hwrite]
  have hlen : defaultWriteLen ntscmode = 6334 ∨ defaultWriteLen ntscmode = 6392 := by
    cases ntscmode with
    | false => exact Or.inl rfl
    | true => exact Or.inr rfl
  rcases h with h | h | h | h | h | h | h
  all_goals
    rw [h.1, h.2] at hlong ⊢
    omega

end PcDrive

/-- Every track of a PC disk comes back exactly when the disk's tracks fit the words that are
written in one revolution. -/
theorem pcRoundTrip_iff (ntscmode : Bool) {drv : PcDrive} (getCrc16 : List Byte → Word)
    (stale : Nat → Byte) (old : Track) (count : Bool) (image : Nat → Byte)
    (hgeometry : (drv.numSecs, drv.ddhd) ∈ pcdosGeometries)
    (hwrite : drv.writeLen = defaultWriteLen ntscmode)
    (htrack : drv.cyl * 2 + drv.side < maxTracks) :
    (∀ secs : List PcSector, secs.length = drv.numSecs →
        PcRoundTrip drv getCrc16 stale old count image secs) ↔ drv.trackWords ≤ drv.fwlen := by
  obtain ⟨hpos, hsecs⟩ := PcDrive.geometry_bounds hgeometry
  rw [maxTracks] at htrack
  constructor
  · intro hall
    by_contra hlong
    obtain ⟨hcut, hend⟩ := PcDrive.not_fits hgeometry hwrite hlong
    have hlen : (List.replicate (drv.numSecs - 1) (lastByteSector 0)).length = drv.numSecs - 1 :=
      List.length_replicate
    have hback : ∀ byte, PcRoundTrip drv getCrc16 stale old count image
        (List.replicate (drv.numSecs - 1) (lastByteSector 0) ++ [lastByteSector byte]) := by
      intro byte
      refine hall _ ?_
      rw [List.length_append, hlen, List.length_singleton, Nat.sub_add_cancel hpos]
    refine PcDrive.not_both (getD_lastByteSector 0 1).1 ?_ ?_ ?_ ⟨hback 0, hback 1⟩
    · rw [(getD_lastByteSector 0 1).2, (getD_lastByteSector 1 0).2]
      decide
    · rwa [hlen]
    · rwa [hlen, Nat.sub_add_cancel hpos]
  · exact fun hfit secs hlen => PcDrive.pcRoundTrip_of_fits hfit hsecs hpos (by omega) (by omega)
      hlen count image

/-- A double density drive at cylinder 40. -/
def pcDrive (numSecs : Nat) : PcDrive where
  writeLen := defaultWriteLen false
  numSecs
  ddhd := 1
  cyl := 40
  side := 1
  offs := 0

theorem pcRoundTrip_nine :
    PcRoundTrip (pcDrive 9) (fun _ => 0xffff) (fun _ => 0) (fun _ => 0) false (fun _ => 0)
      (List.replicate 9 (lastByteSector 1)) :=
  (@pcRoundTrip_iff false (pcDrive 9) (fun _ => 0xffff) (fun _ => 0) (fun _ => 0) false
    (fun _ => 0) (by decide) rfl (by decide)).mpr (by decide) _ List.length_replicate

/-- Ten sectors of zeros, and ten sectors of zeros up to the last byte. -/
theorem not_pcRoundTrip_ten :
    ¬ (PcRoundTrip (pcDrive 10) (fun _ => 0xffff) (fun _ => 0) (fun _ => 0) false (fun _ => 0)
        (List.replicate 9 (lastByteSector 0) ++ [lastByteSector 0]) ∧
      PcRoundTrip (pcDrive 10) (fun _ => 0xffff) (fun _ => 0) (fun _ => 0) false (fun _ => 0)
        (List.replicate 9 (lastByteSector 0) ++ [lastByteSector 1])) := by
  have hlen : (List.replicate 9 (lastByteSector 0)).length = 9 := List.length_replicate
  refine PcDrive.not_both (getD_lastByteSector 0 1).1 ?_ ?_ ?_
  · rw [(getD_lastByteSector 0 1).2, (getD_lastByteSector 1 0).2]
    decide
  · rw [hlen]
    decide
  · rw [hlen]
    decide

end LibretroUae.Disk
