import LibretroUae.Disk.ImageTracks
import Mathlib.Algebra.BigOperators.Group.List.Basic

/-!
# LibretroUae.Disk.TrackBounds

**Which images stay inside the tables.** Every loop is a fill of the first entries with tracks that
follow each other, so that for each format what remains is the number of tracks. It is bounded for
the formats with a fixed number of tracks and for the sizes that belong to a geometry. It is not
bounded where it comes from the header, from the size of a large file that has no geometry, or from
a PC disk whose geometry is not one of the drive.
-/

namespace LibretroUae.ImageTracks

/-- The end of a track behind the header and the tracks in front of it, all of the declared
lengths. -/
def declaredEnd (header : Nat) (declared : Nat → Nat) (i : Nat) : Nat :=
  header + ((List.range (i + 1)).map declared).sum

/-- An entry has the declared length and lies where the declared lengths allow it. -/
def Within (header : Nat) (declared : Nat → Nat) (i : Nat) (tid : TrackId) : Prop :=
  tid.len.toNat = declared i ∧ tid.offs + tid.len.toNat ≤ declaredEnd header declared i

/-- All filled entries are entries of the table, and within the image. -/
def Inside (header : Nat) (declared : Nat → Nat) (t : Tracks) : Prop :=
  ∀ i ∈ t.filled, i < maxTracks ∧ Within header declared i (t.entry i)

theorem inside_nil {header : Nat} {declared : Nat → Nat} {t : Tracks} (h : t.filled = []) :
    Inside header declared t := by
  intro i hi
  rw [h] at hi
  cases hi

/-! ### Loops that fill the first entries -/

namespace Tracks

variable (t : Tracks) (f : Nat → TrackId → TrackId)

theorem fill_succ (n : Nat) : t.fill (n + 1) f = (t.fill n f).set n (f n) := by
  rw [fill, List.range_succ, List.foldl_append]
  rfl

theorem fill_filled (n : Nat) : (t.fill n f).filled = t.filled ++ List.range n := by
  induction n with
  | zero => exact (List.append_nil _).symm
  | succ n ih => rw [fill_succ, set, ih, List.range_succ, List.append_assoc]

theorem fill_entry (n i : Nat) :
    (t.fill n f).entry i = if i < n then f i (t.entry i) else t.entry i := by
  induction n generalizing i with
  | zero => rfl
  | succ n ih =>
    rw [fill_succ, set]
    dsimp only
    by_cases hi : i = n
    · subst hi
      rw [Function.update_self, ih, if_neg (Nat.lt_irrefl i), if_pos (Nat.lt_succ_self i)]
    · rw [Function.update_of_ne hi, ih]
      by_cases hlt : i < n
      · rw [if_pos hlt, if_pos (Nat.lt_succ_of_lt hlt)]
      · rw [if_neg hlt, if_neg (by omega)]

theorem fill_inside {header : Nat} {declared : Nat → Nat} (h : t.filled = []) (n : Nat) :
    Inside header declared (t.fill n f) ↔
      n ≤ maxTracks ∧ ∀ i < n, Within header declared i (f i (t.entry i)) := by
  simp only [Inside, fill_filled, h, List.nil_append, List.mem_range, fill_entry]
  constructor
  · intro hin
    refine ⟨?_, fun i hi => ?_⟩
    · by_contra hgt
      exact Nat.lt_irrefl _ (hin maxTracks (Nat.lt_of_not_le hgt)).1
    · have hwithin := (hin i hi).2
      rwa [if_pos hi] at hwithin
  · rintro ⟨hn, hwithin⟩ i hi
    rw [if_pos hi]
    exact ⟨Nat.lt_of_lt_of_le hi hn, hwithin i hi⟩

end Tracks

/-! ### Tracks of sectors -/

theorem declaredEnd_sectors (c i : Nat) : declaredEnd 0 (fun _ => c) i = (i + 1) * c := by
  simp [declaredEnd]

/-- A track of `numSecs` sectors that does not start behind the tracks in front of it. -/
theorem sectors_within {numSecs : Nat} (hsecs : numSecs < 128) {i : Nat} {tid : TrackId}
    (hlen : tid.len = BitVec.ofNat 16 (512 * numSecs)) :
    Within 0 (fun _ => 512 * numSecs) i tid ↔ tid.offs ≤ (i * 512 * numSecs : Nat) := by
  have htoNat : tid.len.toNat = 512 * numSecs := by
    rw [hlen, BitVec.toNat_ofNat, Nat.mod_eq_of_lt (by omega)]
  have hsum : (i + 1) * (512 * numSecs) = i * 512 * numSecs + 512 * numSecs := by
    rw [Nat.add_mul, Nat.one_mul, Nat.mul_assoc]
  unfold Within
  rw [declaredEnd_sectors, htoNat, hsum]
  refine ⟨fun h => ?_, fun h => ⟨rfl, ?_⟩⟩ <;> omega

/-- The number of tracks is all that matters for a fill with tracks of sectors. -/
theorem sectors_inside {t : Tracks} {f : Nat → TrackId → TrackId} {numSecs : Nat}
    (h : t.filled = []) (hsecs : numSecs < 128)
    (hlen : ∀ i tid, (f i tid).len = BitVec.ofNat 16 (512 * numSecs))
    (hoffs : ∀ i tid, (f i tid).offs ≤ (i * 512 * numSecs : Nat)) (n : Nat) :
    Inside 0 (fun _ => 512 * numSecs) (t.fill n f) ↔ n ≤ maxTracks := by
  rw [t.fill_inside f h n, and_iff_left_iff_imp]
  intro _ i _
  exact (sectors_within hsecs (hlen i _)).mpr (hoffs i _)

/-! ### Tracks that the header declares -/

/-- The offset of a track behind tracks whose lengths are cut to 16 bits. -/
def offsetOf (header : Nat) (declared : Nat → Nat) (i : Nat) : Nat :=
  header + ((List.range i).map fun j => declared j % 2 ^ 16).sum

theorem offsetOf_succ (header : Nat) (declared : Nat → Nat) (i : Nat) :
    offsetOf header declared (i + 1) = offsetOf header declared i + declared i % 2 ^ 16 := by
  simp [offsetOf, List.range_succ, Nat.add_assoc]

/-- The tracks follow each other inside the declared lengths, cut or not. -/
theorem offsetOf_le (header : Nat) (declared : Nat → Nat) (i : Nat) :
    offsetOf header declared (i + 1) ≤ declaredEnd header declared i := by
  unfold offsetOf declaredEnd
  refine Nat.add_le_add_left ?_ header
  generalize List.range (i + 1) = l
  induction l with
  | nil => exact Nat.le_refl _
  | cons j l ih =>
    rw [List.map_cons, List.map_cons, List.sum_cons, List.sum_cons]
    exact Nat.add_le_add (Nat.mod_le _ _) ih

theorem declared_within {header : Nat} {declared : Nat → Nat} {i : Nat} {tid : TrackId}
    (hlen : tid.len = BitVec.ofNat 16 (declared i))
    (hoffs : tid.offs = offsetOf header declared i) :
    Within header declared i tid ↔ declared i < 2 ^ 16 := by
  have hle := offsetOf_le header declared i
  rw [offsetOf_succ] at hle
  unfold Within
  rw [hlen, hoffs, BitVec.toNat_ofNat]
  constructor
  · rintro ⟨hcut, -⟩
    rw [← hcut]
    exact Nat.mod_lt _ (Nat.two_pow_pos 16)
  · intro hlt
    exact ⟨Nat.mod_eq_of_lt hlt, by exact_mod_cast hle⟩

/-- The loop of `read_header_ext2` as a fill. -/
theorem ext2_loop (f : FloppyFile) (t : Tracks) (header ddhd n : Nat) :
    ∃ d, (List.range n).foldl (ext2Step f) ⟨t, header, ddhd⟩ =
      ⟨t.fill n fun i tid =>
        { tid with
          type := .ofByte (f.record i 3)
          revolutions := (f.record i 2).toNat + 1
          len := BitVec.ofNat 16 (f.declaredLen i)
          bitlen := f.declaredBitlen i
          offs := offsetOf header f.declaredLen i
          track := i }, offsetOf header f.declaredLen n, d⟩ := by
  induction n with
  | zero => exact ⟨ddhd, rfl⟩
  | succ n ih =>
    obtain ⟨d, hd⟩ := ih
    rw [List.range_succ, List.foldl_append, hd, Tracks.fill_succ, offsetOf_succ]
    refine ⟨if (BitVec.ofNat 16 (f.declaredLen n)).toNat > 20000 then 2 else d, ?_⟩
    simp only [List.foldl_cons, List.foldl_nil, ext2Step, Int.natCast_add, BitVec.toNat_ofNat]

theorem ext1_loop (f : FloppyFile) (t : Tracks) (header n : Nat) :
    (List.range n).foldl (ext1Step f) (t, (header : Int)) =
      (t.fill n fun i tid =>
        (ext1Step f (⟨fun _ => tid, []⟩, offsetOf header f.ext1Len i) i).1.entry i,
        (offsetOf header f.ext1Len n : Int)) := by
  induction n with
  | zero => rfl
  | succ n ih =>
    rw [List.range_succ, List.foldl_append, ih, Tracks.fill_succ, offsetOf_succ]
    simp only [List.foldl_cons, List.foldl_nil, ext1Step, Tracks.set, Function.update_self]
    refine Prod.ext rfl ?_
    simp

/-- The header of a file fits the table: its tracks are no more than the table has, and their
lengths fit 16 bits. -/
def FloppyFile.Fits (f : FloppyFile) : Prop :=
  f.startsWith magicExt2 = true →
    f.numTracks ≤ maxTracks ∧ ∀ i < f.numTracks, f.declaredLen i < 2 ^ 16

theorem readHeaderExt2_inside {f : FloppyFile} {t t' : Tracks} {ddhd n d : Nat}
    (h : readHeaderExt2 f t ddhd = some (t', n, d)) (hnil : t.filled = []) :
    Inside (ext2Header f.numTracks) f.declaredLen t' ↔ f.Fits := by
  unfold readHeaderExt2 at h
  split_ifs at h with hmagic
  obtain ⟨d', hloop⟩ := ext2_loop f t (ext2Header f.numTracks) ddhd f.numTracks
  rw [hloop, Option.some.injEq, Prod.mk.injEq] at h
  rw [← h.1, t.fill_inside _ hnil, FloppyFile.Fits]
  simp only [hmagic, true_imp_iff]
  refine and_congr_right (fun _ => forall_congr' fun i => imp_congr_right fun _ => ?_)
  exact declared_within rfl rfl

theorem ext1Len_lt (f : FloppyFile) (i : Nat) : f.ext1Len i < 2 ^ 16 := by
  have h2 := (f.record i 2).isLt
  have h3 := (f.record i 3).isLt
  unfold FloppyFile.ext1Len
  omega

theorem insertExt1_inside (img : Image) {drv : Drive} (h : drv.trackdata.filled = []) :
    Inside ext1Header img.file.ext1Len (insertExt1 img drv).trackdata := by
  rw [insertExt1, ext1_loop]
  dsimp only
  refine (Tracks.fill_inside _ _ h 160).mpr ⟨by decide, fun i _ => ?_⟩
  refine (declared_within ?_ ?_).mpr (ext1Len_lt img.file i)
  · simp [ext1Step, Tracks.set]
  · simp [ext1Step, Tracks.set]

/-! ### Plain images -/

/-- The sizes of a plain image whose tracks fit the table: less than 167 tracks of a high density
disk, or one of the large geometries with 24 sectors or with sector headers. -/
def PlainFits (size : Nat) : Prop :=
  size < 167 * 11264 ∨ ∃ i ∈ [80, 81, 82, 83], size = i * 24 * 1024 ∨ size = i * 22 * 1056

instance (size : Nat) : Decidable (PlainFits size) := inferInstanceAs (Decidable (_ ∨ _))

theorem plainGeometry_spec {size i : Nat} {g : PlainGeometry} (h : plainGeometry size i = some g) :
    g.numTracks = i * 2 ∧ g.numSecs < 128 := by
  unfold plainGeometry at h
  split_ifs at h with h1 h2 h3 h4 h5 h6 <;> obtain rfl := Option.some.inj h <;>
    dsimp only <;> omega

theorem plainGeometry_none {size i : Nat} (h : plainGeometry size i = none) :
    size ≠ i * 24 * 1024 ∧ size ≠ i * 22 * 1056 := by
  unfold plainGeometry at h
  split_ifs at h
  omega

theorem plainFormat_secs (size : Nat) : (plainFormat size).numSecs < 128 := by
  unfold plainFormat
  split_ifs
  · cases hfind : [80, 81, 82, 83].findSome? (plainGeometry size) with
    | none => exact (by decide : 22 < 128)
    | some g =>
      obtain ⟨i, -, hg⟩ := List.exists_of_findSome?_eq_some hfind
      exact (plainGeometry_spec hg).2
  · exact (by decide : 11 < 128)

/-- A geometry has at most 166 tracks, and without one the size decides. -/
theorem plainFormat_tracks (size : Nat) :
    (plainFormat size).numTracks ≤ maxTracks ↔ PlainFits size := by
  unfold plainFormat
  split_ifs with hlarge
  · cases hfind : [80, 81, 82, 83].findSome? (plainGeometry size) with
    | none =>
      rw [List.findSome?_eq_none_iff] at hfind
      have hnone : ¬ ∃ i ∈ [80, 81, 82, 83], size = i * 24 * 1024 ∨ size = i * 22 * 1056 := by
        rintro ⟨i, hi, hsize⟩
        have hne := plainGeometry_none (hfind i hi)
        exact hsize.elim hne.1 hne.2
      rw [PlainFits, or_iff_left hnone, Option.getD_none, maxTracks]
      dsimp only
      omega
    | some g =>
      obtain ⟨i, hi, hg⟩ := List.exists_of_findSome?_eq_some hfind
      have hi' : 80 ≤ i ∧ i ≤ 83 := by
        simp only [List.mem_cons, List.not_mem_nil, or_false] at hi
        omega
      rw [Option.getD_some]
      refine iff_of_true (by rw [(plainGeometry_spec hg).1, maxTracks]; omega) ?_
      rw [PlainFits, or_iff_not_imp_left]
      intro hbig
      refine ⟨i, hi, ?_⟩
      unfold plainGeometry at hg
      split_ifs at hg <;> omega
  · refine iff_of_true ?_ (Or.inl (by omega))
    dsimp only
    rw [maxTracks]
    omega

theorem insertPlain_inside (img : Image) {drv : Drive} (h : drv.trackdata.filled = []) :
    Inside 0 (fun _ => 512 * (insertPlain img drv).numSecs) (insertPlain img drv).trackdata ↔
      PlainFits img.file.size := by
  rw [← plainFormat_tracks]
  refine sectors_inside h (plainFormat_secs _) (fun _ _ => rfl) (fun i tid => ?_) _
  simp [sectorTrack]

theorem insertExe_inside (img : Image) {drv : Drive} (h : drv.trackdata.filled = []) :
    Inside 0 (fun _ => 512 * (insertExe img drv).numSecs) (insertExe img drv).trackdata := by
  have hd : exeDensity img.dfxtype img.file.size ≤ 2 := by
    unfold exeDensity
    dsimp only
    split_ifs <;> decide
  unfold insertExe
  dsimp only
  split_ifs
  · have hsecs : 11 * exeDensity img.dfxtype img.file.size < 128 := by omega
    dsimp only
    refine (sectors_inside h hsecs (fun _ _ => rfl) (fun i tid => ?_) 160).mpr (by decide)
    simp [sectorTrack]
  · exact inside_nil h

theorem insertKick_inside (img : Image) {drv : Drive} (h : drv.trackdata.filled = []) :
    Inside 0 (fun _ => 512 * (insertKick img drv).numSecs) (insertKick img drv).trackdata := by
  refine (sectors_inside h (by decide : 11 < 128) (fun _ _ => rfl) (fun i tid => ?_) _).mpr
    (by decide)
  simp only [sectorTrack]
  split_ifs <;> omega

/-! ### PC disks -/

/-- The PC disks whose tracks fit the table: less than 167 tracks of 9 sectors, a drive that knows
all geometries of 80 cylinders, or the one other large disk a drive knows. -/
def PcFits (d : DriveType) (size : Nat) : Prop :=
  size < 167 * 4608 ∨ d ∈ [.dd35, .dd35Escom, .hd35, .pc35Only80] ∨
    (d = .pc5254080 ∧ size = 15 * 80 * 2 * 512)

instance (d : DriveType) (size : Nat) : Decidable (PcFits d size) :=
  inferInstanceAs (Decidable (_ ∨ _))

/-- The disk has a geometry of the drive with one side, and none with two. -/
def OneSided (d : DriveType) (size : Nat) : Prop :=
  pcGeometry d size 2 = none ∧ (pcGeometry d size 1).isSome = true

instance (d : DriveType) (size : Nat) : Decidable (OneSided d size) :=
  decidable_of_iff ((pcGeometry d size 2).isNone = true ∧ (pcGeometry d size 1).isSome = true)
    (by rw [OneSided, Option.isNone_iff_eq_none])

/-- The rounds of the loop that fills the table. -/
def pcRounds (d : DriveType) (size : Nat) : Nat :=
  size / ((pcFormat d size).2.numSecs * 512) *
    if (pcFormat d size).2.sd && d = .dd525 then 2 else 1

theorem pcFormat_heads (d : DriveType) (size : Nat) :
    (pcFormat d size).1 = 1 ↔ OneSided d size := by
  unfold pcFormat OneSided
  cases h2 : pcGeometry d size 2 with
  | some g => simp
  | none =>
    cases h1 : pcGeometry d size 1 with
    | some g => simp
    | none => simp

theorem pcGeometry_secs {d : DriveType} {size heads : Nat} {g : PcGeometry}
    (h : pcGeometry d size heads = some g) : g.numSecs < 128 := by
  unfold pcGeometry at h
  dsimp only at h
  rw [Option.or_eq_some_iff] at h
  rcases h with h | ⟨-, h⟩ <;> split_ifs at h <;> obtain rfl := Option.some.inj h <;> decide

theorem pcFormat_secs (d : DriveType) (size : Nat) : (pcFormat d size).2.numSecs < 128 := by
  unfold pcFormat
  cases h2 : pcGeometry d size 2 with
  | some g => exact pcGeometry_secs h2
  | none =>
    cases h1 : pcGeometry d size 1 with
    | some g => exact pcGeometry_secs h1
    | none => decide

/-- The drives and sizes are finitely many, and each pair is looked at. -/
theorem pcRounds_fits (d : DriveType) {size : Nat} (h : pcSizes.contains size = true) :
    pcRounds d size * (if OneSided d size then 2 else 1) ≤ maxTracks ↔ PcFits d size := by
  have hall : (pcSizes.all fun size =>
      decide (pcRounds d size * (if OneSided d size then 2 else 1) ≤ maxTracks) ==
        decide (PcFits d size)) = true := by
    cases d <;> decide
  have hsize := List.all_eq_true.mp hall size (by simpa using h)
  rw [beq_iff_eq, decide_eq_decide] at hsize
  exact hsize

/-- The entries that a one-sided disk fills for a pair of sides. -/
def oneSidedTrack (numSecs : Nat) (sd : Bool) (i : Nat) (tid : TrackId) : TrackId :=
  if i % 2 = 0 then
    { tid with
      type := .pcdos
      len := BitVec.ofNat 16 (512 * numSecs)
      bitlen := 0
      offs := ((if sd then i / 2 / 2 else i / 2) * 512 * numSecs : Nat) }
  else { tid with type := .none, len := BitVec.ofNat 16 (512 * numSecs), revolutions := 1 }

theorem pcLoop_oneSided (numSecs : Nat) (sd : Bool) (t : Tracks) (n : Nat) :
    (List.range n).foldl (pcStep 1 numSecs sd) t =
      t.fill (2 * n) (oneSidedTrack numSecs sd) := by
  induction n with
  | zero => rfl
  | succ n ih =>
    rw [List.range_succ, List.foldl_append, ih, Nat.mul_succ, Tracks.fill_succ, Tracks.fill_succ]
    have heven : (2 * n) % 2 = 0 := Nat.mul_mod_right 2 n
    have hodd : ¬ (2 * n + 1) % 2 = 0 := by omega
    have hhalf : 2 * n / 2 = n := by omega
    have hside : oneSidedTrack numSecs sd (2 * n) = fun tid =>
        { tid with
          type := .pcdos
          len := BitVec.ofNat 16 (512 * numSecs)
          bitlen := 0
          offs := ((if sd then n / 2 else n) * 512 * numSecs : Nat) } := by
      funext tid
      rw [oneSidedTrack, if_pos heven, hhalf]
    have hother : oneSidedTrack numSecs sd (2 * n + 1) = fun tid =>
        { tid with type := .none, len := BitVec.ofNat 16 (512 * numSecs), revolutions := 1 } := by
      funext tid
      rw [oneSidedTrack, if_neg hodd]
    rw [hside, hother]
    rfl

theorem pcLoop_sides {heads : Nat} (hheads : heads ≠ 1) (numSecs : Nat) (sd : Bool) (t : Tracks)
    (n : Nat) :
    (List.range n).foldl (pcStep heads numSecs sd) t =
      t.fill n fun i tid =>
        { tid with
          type := .pcdos
          len := BitVec.ofNat 16 (512 * numSecs)
          bitlen := 0
          offs := ((if sd then i / 2 else i) * 512 * numSecs : Nat)
          revolutions := 1 } := by
  have hstep : pcStep heads numSecs sd = fun t i => t.set i fun tid =>
      { tid with
        type := .pcdos
        len := BitVec.ofNat 16 (512 * numSecs)
        bitlen := 0
        offs := ((if sd then i / 2 else i) * 512 * numSecs : Nat)
        revolutions := 1 } := by
    funext t i
    rw [pcStep, if_neg hheads]
  rw [hstep, Tracks.fill]

/-- The offsets that the image before left in the entries of the other side are not behind the
tracks of this image. -/
def StaleFits (d : DriveType) (size : Nat) (t : Tracks) : Prop :=
  OneSided d size → ∀ i < pcRounds d size,
    (t.entry (2 * i + 1)).offs ≤ ((2 * i + 1) * 512 * (pcFormat d size).2.numSecs : Nat)

theorem half_offset_le (sd : Bool) (i k : Nat) : (if sd then i / 2 else i) * 512 * k ≤ i * 512 * k := by
  refine Nat.mul_le_mul_right k (Nat.mul_le_mul_right 512 ?_)
  split_ifs
  · exact Nat.div_le_self i 2
  · exact Nat.le_refl i

theorem insertPcdos_trackdata (img : Image) (drv : Drive) :
    (insertPcdos img drv).trackdata =
      (List.range (pcRounds img.dfxtype img.file.size)).foldl
        (pcStep (pcFormat img.dfxtype img.file.size).1
          (pcFormat img.dfxtype img.file.size).2.numSecs
          ((pcFormat img.dfxtype img.file.size).2.sd && img.dfxtype = .dd525)) drv.trackdata := rfl

theorem insertPcdos_inside (img : Image) {drv : Drive} (h : drv.trackdata.filled = [])
    (hsize : pcSizes.contains img.file.size = true) :
    Inside 0 (fun _ => 512 * (insertPcdos img drv).numSecs) (insertPcdos img drv).trackdata ↔
      PcFits img.dfxtype img.file.size ∧
        StaleFits img.dfxtype img.file.size drv.trackdata := by
  have hsecs := pcFormat_secs img.dfxtype img.file.size
  have hheads := pcFormat_heads img.dfxtype img.file.size
  have hfits := pcRounds_fits img.dfxtype hsize
  have hnum : (insertPcdos img drv).numSecs = (pcFormat img.dfxtype img.file.size).2.numSecs := rfl
  unfold StaleFits
  rw [← hfits, hnum, insertPcdos_trackdata]
  generalize (pcFormat img.dfxtype img.file.size).2.numSecs = numSecs at hsecs ⊢
  generalize pcRounds img.dfxtype img.file.size = n
  by_cases hone : OneSided img.dfxtype img.file.size
  · rw [hheads.mpr hone, pcLoop_oneSided, Tracks.fill_inside _ _ h, if_pos hone, Nat.mul_comm n 2]
    refine and_congr_right (fun _ => ?_)
    simp only [hone, true_imp_iff]
    have hlen : ∀ sd i tid, (oneSidedTrack numSecs sd i tid).len = BitVec.ofNat 16 (512 * numSecs) := by
      intro sd i tid
      unfold oneSidedTrack
      split_ifs <;> rfl
    constructor
    · intro hwithin i hi
      have hodd := (sectors_within hsecs (hlen _ _ _)).mp (hwithin (2 * i + 1) (by omega))
      rwa [oneSidedTrack, if_neg (by omega)] at hodd
    · intro hstale i hi
      refine (sectors_within hsecs (hlen _ _ _)).mpr ?_
      by_cases heven : i % 2 = 0
      · -- the track of this side starts at half the entry's place at most
        rw [oneSidedTrack, if_pos heven]
        refine Int.ofNat_le.mpr (Nat.le_trans (half_offset_le _ (i / 2) numSecs) ?_)
        exact Nat.mul_le_mul_right _ (Nat.mul_le_mul_right _ (Nat.div_le_self i 2))
      · have hodd := hstale (i / 2) (by omega)
        have hi2 : 2 * (i / 2) + 1 = i := by omega
        rw [oneSidedTrack, if_neg heven]
        rwa [hi2] at hodd
  · rw [pcLoop_sides (fun heq => hone (hheads.mp heq)), if_neg hone, Nat.mul_one]
    rw [and_iff_left (fun hone' => absurd hone' hone)]
    refine sectors_inside h hsecs (fun _ _ => rfl) (fun i tid => ?_) n
    exact Int.ofNat_le.mpr (half_offset_le _ i numSecs)

/-! ### `drive_insert` -/

/-- The header in front of the tracks. -/
def Image.header (img : Image) : Nat :=
  match img.kind with
  | .ext2 => ext2Header img.file.numTracks
  | .ext1 => ext1Header
  | _ => 0

/-- The declared length of a track: by the header, or by the sectors of the drive. -/
def Image.declared (img : Image) (drv : Drive) : Nat → Nat :=
  match img.kind with
  | .ext2 => img.file.declaredLen
  | .ext1 => img.file.ext1Len
  | _ => fun _ => 512 * drv.numSecs

/-- The filled entries of both tables are inside. -/
structure Drive.Inside (img : Image) (drv : Drive) : Prop where
  image : ImageTracks.Inside img.header (img.declared drv) drv.trackdata
  write : ∀ f ∈ img.writefile,
    ImageTracks.Inside (ext2Header f.numTracks) f.declaredLen drv.writetrackdata

/-- The image fits the tables of a drive. -/
structure Image.Fits (img : Image) (drv : Drive) : Prop where
  ext2 : img.kind = .ext2 → img.file.Fits
  plain : img.kind = .plain → PlainFits img.file.size
  pcdos : img.kind = .pcdos →
    PcFits img.dfxtype img.file.size ∧ StaleFits img.dfxtype img.file.size drv.trackdata
  write : img.kind ≠ .refused → ∀ f ∈ img.writefile, f.Fits

theorem openwritefile_trackdata (w : Option FloppyFile) (drv : Drive) :
    (openwritefile w drv).trackdata = drv.trackdata ∧
      (openwritefile w drv).numSecs = drv.numSecs := by
  unfold openwritefile
  split <;> exact ⟨rfl, rfl⟩

theorem openwritefile_inside {w : Option FloppyFile} {drv : Drive}
    (h : drv.writetrackdata.filled = []) :
    (∀ f ∈ w, Inside (ext2Header f.numTracks) f.declaredLen (openwritefile w drv).writetrackdata) ↔
      ∀ f ∈ w, f.Fits := by
  cases w with
  | none => simp
  | some f =>
    simp only [Option.mem_def, Option.some.injEq, forall_eq']
    unfold openwritefile
    rw [Option.bind_some]
    cases hread : readHeaderExt2 f drv.writetrackdata 0 with
    | none =>
      refine iff_of_true (inside_nil h) (fun hmagic => ?_)
      rw [readHeaderExt2, if_pos hmagic] at hread
      cases hread
    | some r =>
      obtain ⟨t, n, d⟩ := r
      exact readHeaderExt2_inside hread h

theorem insertExt2_inside (img : Image) {drv : Drive} (h : drv.trackdata.filled = []) :
    Inside (ext2Header img.file.numTracks) img.file.declaredLen (insertExt2 img drv).trackdata ↔
      img.file.Fits := by
  unfold insertExt2
  cases hread : readHeaderExt2 img.file drv.trackdata drv.ddhd with
  | none =>
    refine iff_of_true (inside_nil h) (fun hmagic => ?_)
    rw [readHeaderExt2, if_pos hmagic] at hread
    cases hread
  | some r =>
    obtain ⟨t, n, d⟩ := r
    exact readHeaderExt2_inside hread h

theorem insertExt2_write (img : Image) (drv : Drive) :
    (insertExt2 img drv).writetrackdata = drv.writetrackdata := by
  unfold insertExt2
  split <;> rfl

theorem insertExe_write (img : Image) (drv : Drive) :
    (insertExe img drv).writetrackdata = drv.writetrackdata := by
  unfold insertExe
  dsimp only
  split_ifs <;> rfl

theorem Image.kind_pcdos {img : Image} (h : img.kind = .pcdos) :
    pcSizes.contains img.file.size = true := by
  unfold Image.kind at h
  dsimp only at h
  cases hloader : img.loader with
  | refused =>
    rw [hloader] at h
    split_ifs at h
  | loaded filetype numTracks numSecs =>
    rw [hloader] at h
    split_ifs at h
  | absent =>
    rw [hloader] at h
    dsimp only at h
    split_ifs at h with _ _ _ _ hpc
    rw [Bool.and_eq_true] at hpc
    exact hpc.2

/-- The part of the condition that is about the image. -/
def Image.TracksFit (img : Image) (drv : Drive) : Prop :=
  (img.kind = .ext2 → img.file.Fits) ∧ (img.kind = .plain → PlainFits img.file.size) ∧
    (img.kind = .pcdos →
      PcFits img.dfxtype img.file.size ∧ StaleFits img.dfxtype img.file.size drv.trackdata)

theorem Image.fits_iff {img : Image} {drv : Drive} (h : img.kind ≠ .refused) :
    img.Fits drv ↔ img.TracksFit drv ∧ ∀ f ∈ img.writefile, f.Fits :=
  ⟨fun hfits => ⟨⟨hfits.ext2, hfits.plain, hfits.pcdos⟩, hfits.write h⟩,
    fun ⟨⟨hext2, hplain, hpcdos⟩, hwrite⟩ => ⟨hext2, hplain, hpcdos, fun _ => hwrite⟩⟩

/-- The image and the write file are two tables, and the second does not touch the first. -/
theorem openwritefile_inside_iff {img : Image} {drv drv1 : Drive} (hkind : img.kind ≠ .refused)
    (hw : drv1.writetrackdata.filled = [])
    (h : Inside img.header (img.declared drv1) drv1.trackdata ↔ img.TracksFit drv) :
    (openwritefile img.writefile drv1).Inside img ↔ img.Fits drv := by
  have hkeep := openwritefile_trackdata img.writefile drv1
  have hdeclared : img.declared (openwritefile img.writefile drv1) = img.declared drv1 := by
    unfold Image.declared
    rw [hkeep.2]
  rw [Image.fits_iff hkind, ← h, ← openwritefile_inside hw]
  constructor
  · rintro ⟨himage, hwrite⟩
    rw [hdeclared, hkeep.1] at himage
    exact ⟨himage, hwrite⟩
  · rintro ⟨himage, hwrite⟩
    refine ⟨?_, hwrite⟩
    rwa [hdeclared, hkeep.1]

/-- One case for each format. -/
theorem driveInsert_inside (img : Image) (drv : Drive) :
    (driveInsert img drv).Inside img ↔ img.Fits drv := by
  unfold driveInsert
  dsimp only
  cases hkind : img.kind with
  | refused =>
    refine iff_of_true ⟨inside_nil rfl, fun _ _ => inside_nil rfl⟩ ?_
    constructor <;> intro h <;> simp [hkind] at h
  | catweasel =>
    refine openwritefile_inside_iff (by simp [hkind]) rfl ?_
    exact iff_of_true (inside_nil rfl) (by simp [Image.TracksFit, hkind])
  | loaded filetype numTracks numSecs =>
    refine openwritefile_inside_iff (by simp [hkind]) rfl ?_
    exact iff_of_true (inside_nil rfl) (by simp [Image.TracksFit, hkind])
  | ext2 =>
    refine openwritefile_inside_iff (by simp [hkind]) (by rw [insertExt2_write]; rfl) ?_
    simp only [Image.header, Image.declared, Image.TracksFit, hkind]
    rw [insertExt2_inside img rfl]
    simp
  | ext1 =>
    refine openwritefile_inside_iff (by simp [hkind]) rfl ?_
    simp only [Image.header, Image.declared, Image.TracksFit, hkind]
    exact iff_of_true (insertExt1_inside img rfl) (by simp)
  | exe =>
    refine openwritefile_inside_iff (by simp [hkind]) (by rw [insertExe_write]; rfl) ?_
    simp only [Image.header, Image.declared, Image.TracksFit, hkind]
    exact iff_of_true (insertExe_inside img rfl) (by simp)
  | pcdos =>
    refine openwritefile_inside_iff (by simp [hkind]) rfl ?_
    simp only [Image.header, Image.declared, Image.TracksFit, hkind]
    rw [insertPcdos_inside img rfl (Image.kind_pcdos hkind)]
    simp [StaleFits, Tracks.unfilled]
  | kick =>
    refine openwritefile_inside_iff (by simp [hkind]) rfl ?_
    simp only [Image.header, Image.declared, Image.TracksFit, hkind]
    exact iff_of_true (insertKick_inside img rfl) (by simp)
  | plain =>
    refine openwritefile_inside_iff (by simp [hkind]) rfl ?_
    simp only [Image.header, Image.declared, Image.TracksFit, hkind]
    rw [insertPlain_inside img rfl]
    simp

/-- `read_header_ext2` stays inside its table exactly when the header fits it, and `drive_insert`
inside its two tables exactly when the image fits the drive. -/
theorem insert_inside_iff (f : FloppyFile) (t : Tracks) (ddhd : Nat) (img : Image) (drv : Drive) :
    (Inside (ext2Header f.numTracks) f.declaredLen
      ((readHeaderExt2 f t.unfilled ddhd).elim t.unfilled Prod.fst) ↔ f.Fits) ∧
    ((driveInsert img drv).Inside img ↔ img.Fits drv) := by
  refine ⟨?_, driveInsert_inside img drv⟩
  cases hread : readHeaderExt2 f t.unfilled ddhd with
  | none =>
    refine iff_of_true (inside_nil rfl) (fun hmagic => ?_)
    rw [readHeaderExt2, if_pos hmagic] at hread
    cases hread
  | some r =>
    obtain ⟨t', n, d⟩ := r
    exact readHeaderExt2_inside hread rfl

/-- A blank image of 167 high density tracks. -/
def largeImage : Image where
  file := ⟨fun _ => 0, fun _ => 0, fun _ _ => 0, 167 * 11264⟩
  dfxtype := .dd35
  canauto := true
  catweasel := false
  loader := .absent
  writefile := none

/-- Its last track is written behind the table. -/
theorem insert_outside : ¬ ∀ (img : Image) (drv : Drive), (driveInsert img drv).Inside img := by
  intro h
  have hblank : TrackId := ⟨0, 0, 0, 0, 0, 0, .amigados, 0⟩
  have hdrive : Drive := ⟨none, 0, 0, 0, 2, 1, false, ⟨fun _ => hblank, []⟩, ⟨fun _ => hblank, []⟩⟩
  have hfits := (driveInsert_inside largeImage hdrive).mp (h largeImage hdrive)
  exact absurd (hfits.plain (by decide)) (by decide)

end LibretroUae.ImageTracks
