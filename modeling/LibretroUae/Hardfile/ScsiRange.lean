import LibretroUae.Hardfile.Scsi

/-!
# LibretroUae.Hardfile.ScsiRange

**When the SCSI commands keep to their blocks.** A block number from `2 ^ 31` on is taken
for a negative one and refused, whatever the size of the disk. A transfer of `2 ^ 31` bytes
or more passes the check but moves nothing; a negative block count even passes it for
blocks that are not there, as the sum of offset and length wraps around. All other commands
do what they are to do.
-/

namespace LibretroUae.Hardfile

open Lib Lib.Image

variable {base offset len : Nat} {h : HardFile} {u : ScsiUnit} {c : RwCommand} {cmdbuf : Image}

/-! ### Write protection and reading -/

def HardFile.withLocks (h : HardFile) (readonly dangerous : Bool) : HardFile :=
  { h with target := { h.target with readonly, dangerous } }

/-- The hardfile without its write protection. -/
def HardFile.unlocked (h : HardFile) : HardFile := h.withLocks false false

theorem HardFile.unlocked_withLocks (h : HardFile) :
    h.unlocked.withLocks h.target.readonly h.target.dangerous = h := rfl

theorem readSectormap_withLocks (h : HardFile) (r d : Bool) (k : Nat) :
    readSectormap (h.withLocks r d) k =
      ((readSectormap h k).1, (readSectormap h k).2.withLocks r d) := by
  rw [readSectormap, readSectormap]
  by_cases hk : h.vhd.sectormapblock = k
  · rw [if_pos hk, if_pos (show (h.withLocks r d).vhd.sectormapblock = k from hk)]
  · rw [if_neg hk, if_neg (show ¬ (h.withLocks r d).vhd.sectormapblock = k from hk)]
    have hread : hdfReadTarget (h.withLocks r d).target k 512 = hdfReadTarget h.target k 512 := rfl
    simp only [hread]
    by_cases hlen : (hdfReadTarget h.target k 512).length ≠ 512
    · rw [if_pos hlen, if_pos hlen]
      rfl
    · rw [if_neg hlen, if_neg hlen]
      rfl

theorem vhdReadSector_withLocks (h : HardFile) (r d : Bool) (offset : Nat) :
    vhdReadSector (h.withLocks r d) offset =
      ((vhdReadSector h offset).1, (vhdReadSector h offset).2.withLocks r d) := by
  rw [vhdReadSector, vhdReadSector]
  have hvhd : (h.withLocks r d).vhd = h.vhd := rfl
  simp only [hvhd, readSectormap_withLocks]
  split_ifs
  · rfl
  · rcases readSectormap h _ with ⟨_ | _, h'⟩
    · rfl
    · have hread : ∀ k, hdfReadTarget (h'.withLocks r d).target k 512 =
          hdfReadTarget h'.target k 512 := fun _ => rfl
      have hvhd : (h'.withLocks r d).vhd = h'.vhd := rfl
      simp only [hvhd, hread]
      split_ifs <;> rfl

/-- A map of states that every turn of a loop commutes with. -/
theorem readLoop_map {σ : Type} {turn : σ → Nat → Option (List Byte) × σ} (f : σ → σ)
    (hturn : ∀ s offset, turn (f s) offset = ((turn s offset).1, f (turn s offset).2)) :
    ∀ (n : Nat) (s : σ) (offset : Nat),
      readLoop turn n (f s) offset = ((readLoop turn n s offset).1, f (readLoop turn n s offset).2)
  | 0, _, _ => rfl
  | n + 1, s, offset => by
    rw [readLoop, readLoop, hturn]
    rcases turn s offset with ⟨_ | bs, s'⟩
    · rfl
    · simp only [readLoop_map f hturn n s']

theorem imageRead_withLocks (h : HardFile) (r d : Bool) (offset len : Nat) :
    imageRead (h.withLocks r d) offset len =
      ((imageRead h offset len).1, (imageRead h offset len).2.withLocks r d) := by
  rw [imageRead, imageRead]
  have hty : (h.withLocks r d).hfdType = h.hfdType := rfl
  rw [hty]
  cases h.hfdType with
  | plain => rfl
  | vhdFixed => rfl
  | vhdDynamic =>
    simp only [vhdRead]
    split_ifs
    · rfl
    · rfl
    · exact readLoop_map (·.withLocks r d) (vhdReadSector_withLocks · r d) _ _ _

theorem hdfRead2_withLocks (h : HardFile) (r d : Bool) (buf : List Byte) (offset : Nat) :
    hdfRead2 (h.withLocks r d) buf offset = ((hdfRead2 h buf offset).1,
      (hdfRead2 h buf offset).2.1, (hdfRead2 h buf offset).2.2.withLocks r d) := by
  have hsize : (h.withLocks r d).virtualSize = h.virtualSize := rfl
  have hrdb : (h.withLocks r d).virtualRdb = h.virtualRdb := rfl
  have hpart : rdbPart (h.withLocks r d) offset buf.length = rdbPart h offset buf.length := rfl
  rw [hdfRead2, hdfRead2]
  simp only [hsize, hrdb, hpart, imageRead_withLocks]
  by_cases h1 : offset < h.virtualSize
  · simp only [if_pos h1]
    cases h.virtualRdb with
    | none => rfl
    | some rdb =>
      dsimp only
      split_ifs <;> rfl
  · simp only [if_neg h1]

theorem hdfRead_withLocks (h : HardFile) (r d : Bool) (buf : List Byte) (offset : Nat) :
    hdfRead (h.withLocks r d) buf offset = ((hdfRead h buf offset).1,
      (hdfRead h buf offset).2.1, (hdfRead h buf offset).2.2.withLocks r d) := by
  have hstart : start (h.withLocks r d) offset = start h offset := rfl
  rw [hdfRead_eq, hdfRead_eq, hstart, hdfRead2_withLocks]
  rfl

theorem content_withLocks (h : HardFile) (r d : Bool) : content (h.withLocks r d) = content h := rfl

/-- Reading a range, whether or not the hardfile may be written. -/
theorem hdfRead_locked (hb : Backed base h.unlocked) {buf : List Byte}
    (hle : start h offset + buf.length ≤ h.fullSize)
    (hsuits : Suits h (start h offset) buf.length) :
    ∃ h', hdfRead h buf offset =
        (buf.length, loaded h ((content h).slice (start h offset) buf.length), h') ∧
      content h' = content h := by
  obtain ⟨h', hread, hcontent⟩ := hdfRead_spec hb hle hsuits
  refine ⟨h'.withLocks h.target.readonly h.target.dangerous, ?_, hcontent⟩
  have hlocked := hdfRead_withLocks h.unlocked h.target.readonly h.target.dangerous buf offset
  rw [hread, h.unlocked_withLocks] at hlocked
  exact hlocked

/-! ### Parts of sectors -/

theorem imageRead_of_not_whole (hw : ¬ WholeSectors h offset len) :
    imageRead h offset len = ([], h) := by
  rw [WholeSectors, Classical.not_imp, not_and_or] at hw
  rw [imageRead, hw.1]
  change vhdRead h offset len = _
  rw [vhdRead]
  rcases hw.2 with hoff | hlen
  · rw [if_pos fun hz => hoff (Nat.dvd_of_mod_eq_zero hz)]
  · rw [if_pos fun hz => hlen (Nat.dvd_of_mod_eq_zero hz), ite_self]

theorem imageWrite_of_not_whole {buf : List Byte} (hw : ¬ WholeSectors h offset buf.length) :
    imageWrite h offset buf = some (0, h) := by
  rw [WholeSectors, Classical.not_imp, not_and_or] at hw
  rw [imageWrite, hw.1]
  change vhdWrite h offset buf = _
  rw [vhdWrite]
  rcases hw.2 with hoff | hlen
  · rw [if_pos fun hz => hoff (Nat.dvd_of_mod_eq_zero hz)]
  · rw [if_pos fun hz => hlen (Nat.dvd_of_mod_eq_zero hz), ite_self]

/-- A transfer that does not suit the image reaches behind the RDB. -/
theorem reaches_image (hs : ¬ Suits h offset len) (h1 : offset < h.virtualSize) :
    ¬ offset + len ≤ h.virtualSize := by
  intro h2
  apply hs
  rw [Suits, rdbPart_inside h1 h2, Nat.sub_self, Nat.sub_eq_zero_of_le h2]
  exact fun _ => ⟨dvd_zero _, dvd_zero _⟩

theorem hdfRead2_of_not_suits (hb : Backed base h.unlocked) {buf : List Byte}
    (hs : ¬ Suits h offset buf.length) : (hdfRead2 h buf offset).1 = 0 := by
  have hreach := reaches_image hs
  rw [Suits] at hs
  rw [hdfRead2]
  by_cases h1 : offset < h.virtualSize
  · have hpos : 0 < h.virtualSize := by omega
    obtain ⟨rdb, hrdb⟩ := Option.isSome_iff_exists.mp (hb.virtualRdb hpos)
    have hrdb' : h.virtualRdb = some rdb := hrdb
    have hrest : buf.length - rdbPart h offset buf.length ≠ 0 := by
      rw [rdbPart_split h1 (hreach h1)]
      have := hreach h1
      omega
    simp only [if_pos h1, hrdb', if_neg hrest, imageRead_of_not_whole hs]
    rfl
  · rw [rdbPart_behind h1, Nat.add_zero, Nat.sub_zero] at hs
    simp only [if_neg h1, imageRead_of_not_whole hs]
    rfl

theorem hdfWrite2_of_not_suits {buf : List Byte} (hs : ¬ Suits h offset buf.length) :
    hdfWrite2 h buf offset = some (0, h) := by
  have hreach := reaches_image hs
  rw [Suits] at hs
  rw [hdfWrite2]
  by_cases h1 : offset < h.virtualSize
  · have hrest : buf.length - rdbPart h offset buf.length ≠ 0 := by
      rw [rdbPart_split h1 (hreach h1)]
      have := hreach h1
      omega
    rw [← List.length_drop] at hs
    simp only [if_pos h1, if_neg hrest, imageWrite_of_not_whole hs]
    rfl
  · rw [rdbPart_behind h1, Nat.add_zero, Nat.sub_zero] at hs
    simp only [if_neg h1, imageWrite_of_not_whole hs]

/-! ### The fields of a command -/

/-- A field that went through an `int`. -/
def extend (v : Nat) : Nat := if v < 2 ^ 31 then v else v + (2 ^ 64 - 2 ^ 32)

theorem u64_rl (p : Image) (off : Nat) : u64 (rl p off) = extend (p.getLong off) := by
  have hlt := getLong_lt p off
  rw [u64, rl, extend]
  split <;> omega

theorem extend_of_lt {v : Nat} (hv : v < 2 ^ 31) : extend v = v := if_pos hv

theorem scsi10Len_eq (p : Image) :
    scsi10Len p = extend ((p 7).toNat * 2 ^ 8 + (p 8).toNat) := by
  have h5 := (p 5).isLt
  have h6 := (p 6).isLt
  have h7 := (p 7).isLt
  have h8 := (p 8).isLt
  have hlong : p.getLong (7 - 2) =
      ((p 5).toNat * 2 ^ 24 + (p 6).toNat * 2 ^ 16 + (p 7).toNat * 2 ^ 8 + (p 8).toNat) := rfl
  rw [extend_of_lt (by omega), scsi10Len, u64, rl, hlong]
  split <;> omega

/-- The command after its fields went through an `int`. -/
def execute (u : ScsiUnit) (c : RwCommand) (scsiData : Image) : Option Reply :=
  if c.write then scsiWrite u (extend c.lba) (extend c.count) scsiData
  else some (scsiRead u (extend c.lba) (extend c.count) scsiData)

theorem scsiHdEmulate_eq (hc : rwCommand cmdbuf = some c) (hlun : (cmdbuf 1).toNat < 2 ^ 5)
    (hstarted : u.unitStopped = false) (scsiData : Image) :
    c.lba < 2 ^ 32 ∧ c.count < 2 ^ 32 ∧ scsiHdEmulate u cmdbuf scsiData =
      execute u c scsiData := by
  have hlong2 := getLong_lt cmdbuf 2
  have hlong6 := getLong_lt cmdbuf 6
  have h2 := (cmdbuf 2).isLt
  have h3 := (cmdbuf 3).isLt
  have h4 := (cmdbuf 4).isLt
  have h7 := (cmdbuf 7).isLt
  have h8 := (cmdbuf 8).isLt
  have hoffset : getScsi6Offset cmdbuf < 2 ^ 31 := by
    rw [getScsi6Offset]
    omega
  have hlen : scsi6Len cmdbuf < 2 ^ 31 := by
    rw [scsi6Len]
    split <;> omega
  have hlun' : ¬ (cmdbuf 1).toNat / 2 ^ 5 ≠ 0 := by
    rw [Nat.div_eq_of_lt hlun]
    exact fun hne => hne rfl
  rw [scsiHdEmulate]
  simp only [if_neg hlun', hstarted, Bool.false_eq_true, if_false, u64_rl, scsi10Len_eq]
  rw [rwCommand] at hc
  split at hc <;> cases hc <;> dsimp only [execute]
  · rw [extend_of_lt hoffset, extend_of_lt hlen]
    exact ⟨by omega, by omega, rfl⟩
  · rw [extend_of_lt hoffset, extend_of_lt hlen]
    exact ⟨by omega, by omega, rfl⟩
  · exact ⟨hlong2, by omega, rfl⟩
  · exact ⟨hlong2, by omega, rfl⟩
  · exact ⟨hlong2, hlong6, rfl⟩
  · exact ⟨hlong2, hlong6, rfl⟩

/-! ### The check -/

section Check

variable {v w blocksize size : Nat} (hv : v < 2 ^ 32) (hw : w < 2 ^ 32) (hpos : 0 < blocksize)
  (hblocksize : blocksize < 2 ^ 31) (hsize : size < 2 ^ 63)
include hblocksize

theorem extend_mul_of_lt (hlt : v < 2 ^ 31) :
    extend v * blocksize % 2 ^ 64 = v * blocksize ∧ v * blocksize < 2 ^ 62 := by
  have hmul : v * blocksize < 2 ^ 31 * 2 ^ 31 :=
    Nat.mul_lt_mul_of_lt_of_le hlt (Nat.le_of_lt hblocksize) (by decide)
  rw [extend_of_lt hlt, Nat.mod_eq_of_lt (by omega)]
  exact ⟨rfl, by omega⟩

include hpos hv

/-- A field from `2 ^ 31` on is a negative number. -/
theorem extend_mul_of_ge (hge : 2 ^ 31 ≤ v) :
    extend v * blocksize % 2 ^ 64 + (2 ^ 32 - v) * blocksize = 2 ^ 64 ∧
      0 < (2 ^ 32 - v) * blocksize ∧ (2 ^ 32 - v) * blocksize ≤ 2 ^ 62 := by
  have hmul : (2 ^ 32 - v) * blocksize ≤ 2 ^ 31 * 2 ^ 31 :=
    Nat.mul_le_mul (by omega) (Nat.le_of_lt hblocksize)
  have hmulpos : 0 < (2 ^ 32 - v) * blocksize := Nat.mul_pos (by omega) hpos
  have hsum : extend v * blocksize + (2 ^ 32 - v) * blocksize = 2 ^ 64 * blocksize := by
    rw [← Nat.add_mul, extend, if_neg (by omega)]
    congr 1
    omega
  generalize extend v * blocksize = e at *
  generalize (2 ^ 32 - v) * blocksize = g at *
  refine ⟨?_, hmulpos, by omega⟩
  omega

include hw hsize

/-- What the bounds check lets through. -/
theorem inBounds_iff :
    ¬ (size ≤ extend v * blocksize % 2 ^ 64 ∨
      size < (extend v * blocksize % 2 ^ 64 + extend w * blocksize % 2 ^ 64) % 2 ^ 64) ↔
    v < 2 ^ 31 ∧ v * blocksize < size ∧
      (w < 2 ^ 31 ∧ v * blocksize + w * blocksize ≤ size ∨ 2 ^ 31 ≤ w ∧ 2 ^ 32 - w ≤ v) := by
  by_cases hv31 : v < 2 ^ 31
  · obtain ⟨hoffset, hlt⟩ := extend_mul_of_lt hblocksize hv31
    rw [hoffset]
    by_cases hw31 : w < 2 ^ 31
    · obtain ⟨hlen, hlt'⟩ := extend_mul_of_lt hblocksize hw31
      rw [hlen, Nat.mod_eq_of_lt (by omega)]
      omega
    · obtain ⟨hlen, hlenpos, hlenle⟩ := extend_mul_of_ge hw hpos hblocksize (by omega)
      have hwrap : 2 ^ 32 - w ≤ v ↔ (2 ^ 32 - w) * blocksize ≤ v * blocksize :=
        (Nat.mul_le_mul_right_iff hpos).symm
      rw [hwrap]
      generalize extend w * blocksize % 2 ^ 64 = l at *
      generalize (2 ^ 32 - w) * blocksize = g at *
      omega
  · obtain ⟨hoffset, -, hle⟩ := extend_mul_of_ge hv hpos hblocksize (by omega)
    refine iff_of_false (fun hno => hno (.inl ?_)) fun hyes => hv31 hyes.1
    omega

end Check

/-! ### Commands on a unit -/

/-- A unit in order, without forced end and bad blocks. -/
structure Healthy (u : ScsiUnit) : Prop where
  started : u.unitStopped = false
  maxLba : u.maxLba = 0
  badblocks : u.badblocks = []
  blocksize : 0 < u.hfd.blocksize ∧ u.hfd.blocksize < 2 ^ 31
  words : Worded u.hfd → 2 ∣ u.hfd.blocksize
  fullSize : u.hfd.fullSize < 2 ^ 63

/-- The bounds check lets the command through. -/
def InBounds (u : ScsiUnit) (c : RwCommand) : Prop :=
  c.lba < 2 ^ 31 ∧ c.offset u < u.hfd.fullSize ∧
    (c.count < 2 ^ 31 ∧ c.offset u + c.len u ≤ u.hfd.fullSize ∨
      2 ^ 31 ≤ c.count ∧ 2 ^ 32 - c.count ≤ c.lba)

/-- The command is one that the hardfile lets write. -/
def Permitted (u : ScsiUnit) (c : RwCommand) : Prop :=
  c.write = true → isWriteprotected u = false

/-- When a command does what it is to do. -/
structure KeepsToBlocks (u : ScsiUnit) (c : RwCommand) : Prop where
  inside : c.Allowed u → c.lba < 2 ^ 31 ∧ c.len u < 2 ^ 31 ∧ c.offset u < u.hfd.fullSize ∧
    (c.count = 0 ∨ Suits u.hfd (start u.hfd (c.offset u)) (c.len u))
  outside : Permitted u c → u.hfd.fullSize < c.offset u + c.len u →
    ¬ (2 ^ 31 ≤ c.count ∧ c.lba < 2 ^ 31 ∧ c.offset u < u.hfd.fullSize ∧
      2 ^ 32 - c.count ≤ c.lba)

/-- The hardfile of a permitted write has no write protection. -/
theorem unlocked_of_permitted (hperm : Permitted u c) (hw : c.write = true) :
    u.hfd.unlocked = u.hfd := by
  have hprot := hperm hw
  rw [isWriteprotected, Bool.or_eq_false_iff, Bool.or_eq_false_iff] at hprot
  calc u.hfd.unlocked = u.hfd.withLocks false false := rfl
    _ = u.hfd.withLocks u.hfd.target.readonly u.hfd.target.dangerous := by
      rw [hprot.1.1, hprot.1.2]
    _ = u.hfd := rfl

section Commands

variable (hu : Healthy u) (hlba : c.lba < 2 ^ 32) (hcount : c.count < 2 ^ 32) {scsiData : Image}
include hu

theorem checkbounds_eq (offset len mode : Nat) : checkbounds u offset len mode =
    if u.hfd.fullSize ≤ offset ∨ u.hfd.fullSize < (offset + len) % 2 ^ 64 then -1 else 0 := by
  have hsize := hu.fullSize
  rw [checkbounds, hu.maxLba, hu.badblocks]
  by_cases hout : u.hfd.fullSize ≤ offset ∨ u.hfd.fullSize < (offset + len) % 2 ^ 64
  · rw [if_pos hout, if_pos (by omega)]
  · rw [if_neg hout, if_neg (by omega), if_neg (by simp), if_neg (by simp)]

include hlba hcount

theorem checkbounds_command (mode : Nat) :
    checkbounds u (extend c.lba * u.hfd.blocksize % 2 ^ 64)
      (extend c.count * u.hfd.blocksize % 2 ^ 64) mode = 0 ↔ InBounds u c := by
  have hiff := inBounds_iff hlba hcount hu.blocksize.1 hu.blocksize.2 hu.fullSize
  rw [checkbounds_eq hu, InBounds, RwCommand.offset, RwCommand.len, ← hiff]
  split_ifs with hout
  · exact iff_of_false (by decide) (not_not.mpr hout)
  · exact iff_of_true rfl hout

variable (hempty : u.hfd.target.driveEmpty = false)
include hempty

theorem execute_refused (hno : ¬ (InBounds u c ∧ Permitted u c)) :
    ∃ r, execute u c scsiData = some r ∧ Refuses u scsiData r := by
  rw [execute]
  cases hw : c.write with
  | false =>
    have hout : ¬ InBounds u c := fun hin => hno ⟨hin, fun h => absurd (hw ▸ h) (by decide)⟩
    have hchk := mt (checkbounds_command hu hlba hcount 1).mp hout
    refine ⟨_, rfl, ?_⟩
    simp only [scsiRead, nodisk, hempty, Bool.false_eq_true, if_false, if_pos hchk]
    exact ⟨rfl, rfl, rfl, rfl⟩
  | true =>
    rw [if_pos rfl, scsiWrite]
    simp only [nodisk, hempty, Bool.false_eq_true, if_false]
    by_cases hprot : isWriteprotected u = true
    · rw [if_pos hprot]
      exact ⟨_, rfl, rfl, rfl, rfl, rfl⟩
    · have hout : ¬ InBounds u c := fun hin => hno ⟨hin, fun _ => Bool.not_eq_true _ ▸ hprot⟩
      have hchk := mt (checkbounds_command hu hlba hcount 2).mp hout
      rw [if_neg hprot, if_pos hchk]
      exact ⟨_, rfl, rfl, rfl, rfl, rfl⟩

/-- A transfer of no bytes or of too many is done without moving anything. -/
theorem execute_nothing (hin : InBounds u c) (hperm : Permitted u c)
    (hlen : extend c.count * u.hfd.blocksize % 2 ^ 64 = 0 ∨
      extend c.count * u.hfd.blocksize % 2 ^ 64 > 0x7fffffff) :
    execute u c scsiData = some ⟨0, 0, none, scsiData, u⟩ := by
  have hchk := (checkbounds_command hu hlba hcount · |>.mpr hin)
  rw [execute]
  cases hw : c.write with
  | false =>
    simp only [scsiRead, nodisk, hempty, Bool.false_eq_true, if_false, hchk, ne_eq,
      not_true_eq_false, cmdReadx, if_pos hlen]
    rfl
  | true =>
    simp only [scsiWrite, nodisk, hempty, hperm hw, Bool.false_eq_true, if_false, if_true, hchk,
      ne_eq, not_true_eq_false, cmdWritex, if_pos hlen]
    rfl

end Commands

section Transfer

variable (hu : Healthy u) (hb : Backed base u.hfd.unlocked) (hin : InBounds u c)
  (hperm : Permitted u c) (hlt : c.len u < 2 ^ 31) (hpos : 0 < c.count)
  (htail : start u.hfd (c.offset u) + c.len u ≤ u.hfd.fullSize) (scsiData : Image)
include hu hin hlt hpos

theorem transfer_fields : c.lba < 2 ^ 32 ∧ c.count < 2 ^ 32 ∧
    extend c.lba * u.hfd.blocksize % 2 ^ 64 = c.offset u ∧
    extend c.count * u.hfd.blocksize % 2 ^ 64 = c.len u ∧
    ¬ (c.len u = 0 ∨ c.len u > 0x7fffffff) := by
  have hlba := hin.1
  have hcount : c.count < 2 ^ 31 :=
    Nat.lt_of_le_of_lt (Nat.le_mul_of_pos_right _ hu.blocksize.1) hlt
  have hlen : 0 < c.len u := Nat.mul_pos hpos hu.blocksize.1
  exact ⟨by omega, by omega, (extend_mul_of_lt hu.blocksize.2 hlba).1,
    (extend_mul_of_lt hu.blocksize.2 hcount).1, by omega⟩

include hb hperm

/-- A permitted transfer is one of `hdf_read` or `hdf_write`. -/
theorem execute_eq : execute u c scsiData =
    if c.write then
      (hdfWrite u.hfd (scsiData.slice 0 (c.len u)) (c.offset u)).map fun r =>
        ⟨0, r.1, none, scsiData.blit 0 r.2.1, { u with hfd := r.2.2 }⟩
    else
      some ⟨0, (hdfRead u.hfd (scsiData.slice 0 (c.len u)) (c.offset u)).1, none,
        scsiData.blit 0 (hdfRead u.hfd (scsiData.slice 0 (c.len u)) (c.offset u)).2.1,
        { u with hfd := (hdfRead u.hfd (scsiData.slice 0 (c.len u)) (c.offset u)).2.2 }⟩ := by
  obtain ⟨hlba, hcount, hoffset, hlen, hsome⟩ := transfer_fields hu hin hlt hpos
  have hchk := (checkbounds_command hu hlba hcount · |>.mpr hin)
  rw [hoffset, hlen] at hchk
  have hempty : u.hfd.target.driveEmpty = false := hb.usable.driveEmpty
  rw [execute]
  cases hw : c.write with
  | false =>
    simp only [scsiRead, nodisk, hempty, Bool.false_eq_true, if_false, hoffset, hlen, hchk, ne_eq,
      not_true_eq_false, cmdReadx, if_neg hsome]
  | true =>
    simp only [scsiWrite, nodisk, hempty, hperm hw, Bool.false_eq_true, if_false, if_true, hoffset,
      hlen, hchk, ne_eq, not_true_eq_false, cmdWritex, if_neg hsome, Option.map_map]
    rfl

include htail

theorem execute_transfers (hsuits : Suits u.hfd (start u.hfd (c.offset u)) (c.len u)) :
    ∃ r, execute u c scsiData = some r ∧ Transfers u c scsiData r := by
  have hlen : (scsiData.slice 0 (c.len u)).length = c.len u := length_slice _ _ _
  rw [← hlen] at htail hsuits
  rw [execute_eq hu hb hin hperm hlt hpos]
  cases hw : c.write with
  | false =>
    obtain ⟨h', hread, hcontent⟩ := hdfRead_locked hb htail hsuits
    refine ⟨_, rfl, ?_⟩
    rw [hread, hlen]
    exact ⟨rfl, rfl, fun _ => ⟨rfl, hcontent⟩, fun h => absurd (hw ▸ h) (by decide)⟩
  | true =>
    rw [unlocked_of_permitted hperm hw] at hb
    obtain ⟨h', hwrite, -, -, hcontent⟩ := hdfWrite_spec hb htail hsuits
    rw [hwrite, hlen]
    rw [hlen] at hcontent
    exact ⟨_, rfl, rfl, rfl, fun h => absurd (hw ▸ h) (by decide),
      fun _ => ⟨blit_slice _ _ _, hcontent⟩⟩

omit htail in
theorem execute_short (hsuits : ¬ Suits u.hfd (start u.hfd (c.offset u)) (c.len u)) :
    ∃ r, execute u c scsiData = some r ∧ r.status = 0 ∧ r.dataLen = 0 := by
  have hlen : (scsiData.slice 0 (c.len u)).length = c.len u := length_slice _ _ _
  rw [← hlen] at hsuits
  rw [execute_eq hu hb hin hperm hlt hpos]
  cases hw : c.write with
  | false =>
    refine ⟨_, rfl, rfl, ?_⟩
    rw [hdfRead_eq]
    exact congrArg Nat.cast (hdfRead2_of_not_suits hb hsuits)
  | true =>
    rw [← length_stored u.hfd] at hsuits
    rw [hdfWrite_eq u.hfd (hdfWrite2_of_not_suits hsuits)]
    exact ⟨_, rfl, rfl, rfl⟩

end Transfer

/-! ### Every command -/

theorem loaded_nil (h : HardFile) : loaded h [] = [] :=
  List.eq_nil_of_length_eq_zero (length_loaded h [])

theorem stored_nil (h : HardFile) : stored h [] = [] :=
  List.eq_nil_of_length_eq_zero (length_stored h [])

/-- A command for no blocks moves nothing. -/
theorem transfers_nothing (hzero : c.count = 0) (scsiData : Image) :
    Transfers u c scsiData ⟨0, 0, none, scsiData, u⟩ := by
  have hlen : c.len u = 0 := by rw [RwCommand.len, hzero, Nat.zero_mul]
  refine ⟨rfl, by rw [hlen]; rfl, fun _ => ⟨?_, rfl⟩, fun _ => ⟨rfl, ?_⟩⟩
  · rw [hlen, slice_zero, loaded_nil, blit_nil]
  · rw [hlen, slice_zero, stored_nil, List.drop_nil, blit_nil]

theorem count_lt_of_len (hu : Healthy u) (hlt : c.len u < 2 ^ 31) : c.count < 2 ^ 31 :=
  Nat.lt_of_le_of_lt (Nat.le_mul_of_pos_right _ hu.blocksize.1) hlt

/-- A transfer of `2 ^ 31` bytes or more is too long for the transfer routines. -/
theorem too_long (hu : Healthy u) (hcount : c.count < 2 ^ 32) (hge : ¬ c.len u < 2 ^ 31) :
    extend c.count * u.hfd.blocksize % 2 ^ 64 > 0x7fffffff := by
  by_cases hlt : c.count < 2 ^ 31
  · rw [(extend_mul_of_lt hu.blocksize.2 hlt).1]
    rw [RwCommand.len] at hge
    omega
  · obtain ⟨hsum, -, hle⟩ :=
      extend_mul_of_ge hcount hu.blocksize.1 hu.blocksize.2 (Nat.le_of_not_lt hlt)
    omega

/-- A READ or WRITE command moves exactly the bytes of its blocks if they are on the disk and
is refused if they are not, exactly when the fields are not taken for negative numbers, the
transfer is below `2 ^ 31` bytes and, on a dynamic VHD image, of whole sectors. -/
theorem scsi_meets_iff (hc : rwCommand cmdbuf = some c) (hlun : (cmdbuf 1).toNat < 2 ^ 5)
    (hu : Healthy u) (hb : Backed base u.hfd.unlocked)
    (htail : u.hfd.adide = true → c.Allowed u →
      start u.hfd (c.offset u) + c.len u ≤ u.hfd.fullSize) (scsiData : Image) :
    ∃ r, scsiHdEmulate u cmdbuf scsiData = some r ∧
      (Meets u c scsiData r ↔ KeepsToBlocks u c) := by
  obtain ⟨hlba, hcount, hrun⟩ := scsiHdEmulate_eq hc hlun hu.started scsiData
  have hempty : u.hfd.target.driveEmpty = false := hb.usable.driveEmpty
  rw [hrun]
  by_cases hgo : InBounds u c ∧ Permitted u c
  · obtain ⟨hin, hperm⟩ := hgo
    by_cases hlt : c.len u < 2 ^ 31
    · have hcount31 := count_lt_of_len hu hlt
      have hfit : c.offset u + c.len u ≤ u.hfd.fullSize := by
        rcases hin.2.2 with h | h
        · exact h.2
        · omega
      have hout : ¬ u.hfd.fullSize < c.offset u + c.len u := Nat.not_lt.mpr hfit
      by_cases hzero : c.count = 0
      · refine ⟨_, execute_nothing hu hlba hcount hempty hin hperm (.inl ?_), iff_of_true ?_ ?_⟩
        · rw [hzero, extend_of_lt (by decide), Nat.zero_mul, Nat.zero_mod]
        · exact ⟨fun _ => transfers_nothing hzero scsiData, fun h => absurd ⟨hfit, hperm⟩ h⟩
        · exact ⟨fun _ => ⟨hin.1, hlt, hin.2.1, .inl hzero⟩, fun _ h => absurd h hout⟩
      · have hroom : start u.hfd (c.offset u) + c.len u ≤ u.hfd.fullSize := by
          cases hadide : u.hfd.adide with
          | true => exact htail hadide ⟨hfit, hperm⟩
          | false => rwa [start, hadide]
        by_cases hsuits : Suits u.hfd (start u.hfd (c.offset u)) (c.len u)
        · obtain ⟨r, hr, hmoved⟩ := execute_transfers hu hb hin hperm hlt
            (Nat.pos_of_ne_zero hzero) hroom scsiData hsuits
          refine ⟨r, hr, iff_of_true ?_ ?_⟩
          · exact ⟨fun _ => hmoved, fun h => absurd ⟨hfit, hperm⟩ h⟩
          · exact ⟨fun _ => ⟨hin.1, hlt, hin.2.1, .inr hsuits⟩, fun _ h => absurd h hout⟩
        · obtain ⟨r, hr, -, hdata⟩ := execute_short hu hb hin hperm hlt
            (Nat.pos_of_ne_zero hzero) scsiData hsuits
          refine ⟨r, hr, iff_of_false (fun hm => ?_) fun hk => ?_⟩
          · have hlen := (hm.1 ⟨hfit, hperm⟩).dataLen
            have hpos : 0 < c.len u := Nat.mul_pos (Nat.pos_of_ne_zero hzero) hu.blocksize.1
            omega
          · exact (hk.inside ⟨hfit, hperm⟩).2.2.2.elim hzero hsuits
    · refine ⟨_, execute_nothing hu hlba hcount hempty hin hperm
        (.inr (too_long hu hcount hlt)), iff_of_false (fun hm => ?_) fun hk => ?_⟩
      · by_cases hallowed : c.Allowed u
        · have hlen := (hm.1 hallowed).dataLen
          change (0 : Int) = _ at hlen
          omega
        · exact absurd (hm.2 hallowed).status (show ¬ (0 : Nat) = 2 by decide)
      · rcases hin.2.2 with h | h
        · exact hlt (hk.inside ⟨h.2, hperm⟩).2.1
        · by_cases hfit : c.offset u + c.len u ≤ u.hfd.fullSize
          · exact hlt (hk.inside ⟨hfit, hperm⟩).2.1
          · exact hk.outside hperm (Nat.lt_of_not_le hfit) ⟨h.1, hin.1, hin.2.1, h.2⟩
  · obtain ⟨r, hr, hrefused⟩ := execute_refused hu hlba hcount hempty hgo
    refine ⟨r, hr, ?_⟩
    by_cases hallowed : c.Allowed u
    · refine iff_of_false (fun hm => ?_) fun hk => ?_
      · exact absurd ((hm.1 hallowed).status.symm.trans hrefused.status) (by decide)
      · obtain ⟨h1, h2, h3, -⟩ := hk.inside hallowed
        exact hgo ⟨⟨h1, h3, .inl ⟨count_lt_of_len hu h2, hallowed.1⟩⟩, hallowed.2⟩
    · refine iff_of_true ⟨fun h => absurd h hallowed, fun _ => hrefused⟩ ⟨fun h => absurd h hallowed,
        fun hperm _ hbad => ?_⟩
      exact hgo ⟨⟨hbad.2.1, hbad.2.2.1, .inr ⟨hbad.1, hbad.2.2.2⟩⟩, hperm⟩

/-- A unit with a plain file of `size` bytes. -/
def plainUnit (size : Nat) : ScsiUnit where
  hfd :=
    { target := ⟨fun _ => 0, size, false, false, false⟩
      blocksize := 512
      virtsize := size
      virtualRdb := none
      virtualSize := 0
      byteswap := false
      adide := false
      hfdType := .plain
      vhd := ⟨fun _ => 0, 0, 0, 0, 0, fun _ => 0, 0, 0⟩ }
  unitStopped := false
  harddriveReadOnly := false
  maxLba := 0
  badblocks := []

/-- A command buffer. -/
def cdb (bytes : List Byte) : Image := fun i => bytes.getD i 0

theorem scsi_meets_iff_small :
    ∃ r, scsiHdEmulate (plainUnit 1024) (cdb [0x28, 0, 0, 0, 0, 1, 0, 0, 1, 0]) (fun _ => 0) =
        some r ∧
      (Meets (plainUnit 1024) ⟨false, 1, 1⟩ (fun _ => 0) r ↔
        KeepsToBlocks (plainUnit 1024) ⟨false, 1, 1⟩) :=
  have hb : Backed 0 (plainUnit 1024).hfd.unlocked :=
    ⟨⟨rfl, rfl, rfl⟩, fun h => absurd h (by decide), Nat.le_refl 1024⟩
  scsi_meets_iff rfl (by decide)
    ⟨rfl, rfl, rfl, by decide, fun _ => ⟨256, rfl⟩, by decide⟩ hb (fun h => absurd h (by decide)) _

/-- Block `2 ^ 31` of a disk of two terabytes is refused; `2 ^ 32 - 1` blocks are read with
success from a disk of two blocks. -/
theorem scsi_not_meets :
    (∃ r, scsiHdEmulate (plainUnit (2 ^ 41)) (cdb [0x28, 0, 0x80, 0, 0, 0, 0, 0, 1, 0])
        (fun _ => 0) = some r ∧
      rwCommand (cdb [0x28, 0, 0x80, 0, 0, 0, 0, 0, 1, 0]) = some ⟨false, 2 ^ 31, 1⟩ ∧
      ¬ Meets (plainUnit (2 ^ 41)) ⟨false, 2 ^ 31, 1⟩ (fun _ => 0) r) ∧
    ∃ r, scsiHdEmulate (plainUnit 1024) (cdb [0xa8, 0, 0, 0, 0, 1, 0xff, 0xff, 0xff, 0xff, 0, 0])
        (fun _ => 0) = some r ∧
      rwCommand (cdb [0xa8, 0, 0, 0, 0, 1, 0xff, 0xff, 0xff, 0xff, 0, 0]) =
        some ⟨false, 1, 2 ^ 32 - 1⟩ ∧
      ¬ Meets (plainUnit 1024) ⟨false, 1, 2 ^ 32 - 1⟩ (fun _ => 0) r := by
  refine ⟨⟨_, rfl, rfl, fun hm => ?_⟩, _, rfl, rfl, fun hm => ?_⟩
  · have hallowed : RwCommand.Allowed (plainUnit (2 ^ 41)) ⟨false, 2 ^ 31, 1⟩ :=
      ⟨by decide, fun _ => rfl⟩
    exact absurd (hm.1 hallowed).status (by decide)
  · have hrefused : ¬ RwCommand.Allowed (plainUnit 1024) ⟨false, 1, 2 ^ 32 - 1⟩ :=
      fun h => absurd h.1 (by decide)
    exact absurd (hm.2 hrefused).status (by decide)

end LibretroUae.Hardfile
