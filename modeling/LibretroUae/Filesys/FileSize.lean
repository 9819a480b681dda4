import Mathlib.Tactic.Common
import Mathlib.Tactic.Ring

/-!
# LibretroUae.Filesys.FileSize

**Changing the size of an open file.** Three packets do it: they seek to the new end, write one
byte there and truncate the file at that position. The file must not end before the position of
another handle.
-/

namespace LibretroUae.Filesys

/-! ### Files and handles -/

abbrev HostFile := List UInt8

/-- A byte is written at a position, with zeros before it where the file was shorter. -/
def HostFile.write (f : HostFile) (pos : Nat) (b : UInt8) : HostFile :=
  (f ++ List.replicate (pos - f.length) 0).take pos ++ b :: f.drop (pos + 1)

/-- `ftruncate`, which also makes files longer. -/
def HostFile.truncate (f : HostFile) (n : Nat) : HostFile :=
  f.take n ++ List.replicate (n - f.length) 0

inductive Whence
  | set
  | cur
  | fromEnd
  deriving DecidableEq, Repr

/-- The mode of a packet. -/
def whenceOf (mode : Int) : Whence :=
  if 0 < mode then .fromEnd else if mode < 0 then .set else .cur

/-- `Key`: an open file, with the position of its handle and that of the host's descriptor. -/
structure SizeKey where
  uniq : UInt32
  aino : Nat
  filePos : Nat
  fdPos : Nat
  notifyactive : Bool
  deriving DecidableEq, Repr

structure SizeState where
  keys : List SizeKey
  files : Nat → HostFile

/-- Where an offset counts from. -/
def Whence.base (w : Whence) (size pos : Nat) : Nat :=
  match w with
  | .set => 0
  | .cur => pos
  | .fromEnd => size

/-- `lseek`: the new position, if it is not negative. -/
def lseek (size pos : Nat) (offset : Int) (w : Whence) : Option Nat :=
  if (w.base size pos : Int) + offset < 0 then none
  else some ((w.base size pos : Int) + offset).toNat

/-! ### The packets -/

inductive SizeError
  | objectNotAround
  | badNumber
  | truncateFailed
  deriving DecidableEq, Repr

inductive SizePacket
  | setFileSize
  | setFileSize64
  | changeFileSize64
  deriving DecidableEq, Repr

def maxFileSize32_2G : Nat := 0x7fffffff

namespace SizeState

def lookupKey (s : SizeState) (uniq : UInt32) : Option SizeKey := s.keys.find? fun k => k.uniq == uniq

/-- No pointers of other handles become invalid. File positions are unsigned, so a negative offset
is larger than all of them. -/
def raiseOffset (s : SizeState) (k : SizeKey) (offset : Int) : Int :=
  s.keys.foldl (fun offset k1 =>
    if k1.uniq ≠ k.uniq ∧ k1.aino = k.aino ∧ offset % 2 ^ 64 < k1.filePos then k1.filePos
    else offset) offset

/-- The two seeks: the position of the descriptor and the offset that is used from then on. -/
def seekEnd (p : SizePacket) (size : Nat) (k : SizeKey) (offset : Int) (w : Whence) : Nat × Int :=
  let fd := (lseek size k.fdPos offset w).getD k.fdPos
  match p with
  | .setFileSize => (fd, if fd ≤ maxFileSize32_2G then fd else -1)
  | _ =>
    -- The offset is applied once more.
    match lseek size fd offset w with
    | none => (fd, -1)
    | some fd => (fd, fd)

/-- Stores a handle. -/
def putKey (s : SizeState) (k : SizeKey) : SizeState :=
  { s with keys := s.keys.map fun k1 => if k1.uniq = k.uniq then k else k1 }

def putFile (s : SizeState) (aino : Nat) (f : HostFile) : SizeState :=
  { s with files := fun a => if a = aino then f else s.files a }

/-- The byte at the new end, the position of the handle, and the truncation. -/
def finishSize (s : SizeState) (k : SizeKey) (fd : Nat) (offset : Int) :
    SizeState × Except SizeError Nat :=
  let f := (s.files k.aino).write fd 0
  let filePos := if offset % 2 ^ 64 < k.filePos then (offset % 2 ^ 64).toNat else k.filePos
  let s := s.putKey { k with filePos, fdPos := filePos, notifyactive := true }
  -- `my_truncate` takes the length as an int.
  let len := Int.bmod offset (2 ^ 32)
  if len < 0 then (s.putFile k.aino f, .error .truncateFailed)
  else (s.putFile k.aino (f.truncate len.toNat), .ok len.toNat)

/-- `action_set_file_size`, `action_set_file_size64` and `action_change_file_size64`, which differ
in a check and in their seeks. The reply has the new size. -/
def changeSize (p : SizePacket) (s : SizeState) (uniq : UInt32) (offset mode : Int) :
    SizeState × Except SizeError Nat :=
  match s.lookupKey uniq with
  | none => (s, .error .objectNotAround)
  | some k =>
    let size := (s.files k.aino).length
    if p = .setFileSize ∧ maxFileSize32_2G < size then (s, .error .badNumber)
    else
      let (fd, offset) := seekEnd p size k (s.raiseOffset k offset) (whenceOf mode)
      s.finishSize k fd offset

def actionSetFileSize := changeSize .setFileSize
def actionSetFileSize64 := changeSize .setFileSize64
def actionChangeFileSize64 := changeSize .changeFileSize64

/-! ### What they are for -/

/-- The largest position of the other handles of a file. -/
def othersPos (s : SizeState) (k : SizeKey) : Nat :=
  (s.keys.filter fun k1 => k1.uniq ≠ k.uniq && k1.aino = k.aino).foldl
    (fun m k1 => max m k1.filePos) 0

/-- A file got a length, with what it had, and only its handle was moved. -/
structure Resized (s : SizeState) (k : SizeKey) (n : Nat) (r : SizeState × Except SizeError Nat) :
    Prop where
  reply : r.2 = .ok n
  length : (r.1.files k.aino).length = n
  kept : (r.1.files k.aino).take (min (s.files k.aino).length n) =
    (s.files k.aino).take (min (s.files k.aino).length n)
  files : ∀ a, a ≠ k.aino → r.1.files a = s.files a
  handle : ∃ k', r.1.lookupKey k.uniq = some k' ∧ k'.filePos = min k.filePos n ∧
    k'.fdPos = k'.filePos
  others : ∀ uniq, uniq ≠ k.uniq → r.1.lookupKey uniq = s.lookupKey uniq

/-- Positions and sizes are offsets of the host. -/
structure Sound (s : SizeState) : Prop where
  positions : ∀ k ∈ s.keys, k.filePos < 2 ^ 63
  sizes : ∀ a, (s.files a).length < 2 ^ 63

/-- When a packet works: from the start always; the 64-bit packets add an offset from the position
twice; else no other handle may be behind what is compared, the offset if it is not negative. -/
def Works (p : SizePacket) (s : SizeState) (k : SizeKey) (offset : Int) (w : Whence) : Prop :=
  let base := w.base (s.files k.aino).length k.filePos
  s.othersPos k ≤ maxFileSize32_2G ∧
    (p = .setFileSize → (s.files k.aino).length ≤ maxFileSize32_2G) ∧
    if w = .set then True
    else if w = .cur ∧ p ≠ .setFileSize then offset = 0 ∧ s.othersPos k = 0
    else if offset < 0 then (s.othersPos k : Int) ≤ base + offset
    else s.othersPos k ≤ offset ∨ base = 0

end SizeState

/-! ### Files -/

theorem length_truncate (f : HostFile) (n : Nat) : (f.truncate n).length = n := by
  rw [HostFile.truncate, List.length_append, List.length_take, List.length_replicate]
  omega

theorem take_write (f : HostFile) (pos : Nat) (b : UInt8) :
    (f.write pos b).take (min f.length pos) = f.take (min f.length pos) := by
  have hle : min f.length pos ≤ f.length := Nat.min_le_left _ _
  rw [HostFile.write, List.take_append_of_le_length, List.take_take, Nat.min_assoc,
    Nat.min_self, List.take_append_of_le_length hle]
  rw [List.length_take, List.length_append, List.length_replicate]
  omega

theorem take_truncate (f : HostFile) {n m : Nat} (hm : m ≤ f.length) (hn : m ≤ n) :
    (f.truncate n).take m = f.take m := by
  rw [HostFile.truncate, List.take_append_of_le_length, List.take_take, Nat.min_eq_left hn]
  rw [List.length_take]
  omega

theorem length_write (f : HostFile) (pos : Nat) (b : UInt8) :
    (f.write pos b).length = max f.length (pos + 1) := by
  rw [HostFile.write]
  simp only [List.length_append, List.length_take, List.length_replicate, List.length_cons,
    List.length_drop]
  omega

/-! ### The raised offset -/

namespace SizeState

theorem foldl_max (l : List SizeKey) (a b : Nat) :
    l.foldl (fun m k1 => max m k1.filePos) (max a b) =
      max a (l.foldl (fun m k1 => max m k1.filePos) b) := by
  induction l generalizing b with
  | nil => rfl
  | cons k1 l ih => rw [List.foldl_cons, List.foldl_cons, Nat.max_assoc, ih]

section

variable {s : SizeState} {k : SizeKey}

theorem raiseOffset_neg (h : Sound s) {offset : Int} (hneg : offset < 0)
    (hlarge : -2 ^ 63 ≤ offset) : s.raiseOffset k offset = offset := by
  have hkeys := h.positions
  rw [raiseOffset]
  generalize s.keys = keys at hkeys
  induction keys with
  | nil => rfl
  | cons k1 keys ih =>
    obtain ⟨hk1, hrest⟩ := List.forall_mem_cons.mp hkeys
    rw [List.foldl_cons, if_neg fun hraise => by omega, ih hrest]

theorem raiseOffset_nonneg {offset : Nat} (hsmall : offset < 2 ^ 63) (h : Sound s) :
    s.raiseOffset k offset = (max offset (s.othersPos k) : Nat) := by
  have hkeys := h.positions
  rw [raiseOffset, othersPos]
  generalize s.keys = keys at hkeys
  induction keys generalizing offset with
  | nil => simp
  | cons k1 keys ih =>
    obtain ⟨hk1, hrest⟩ := List.forall_mem_cons.mp hkeys
    have hmod : (offset : Int) % 2 ^ 64 = offset := by omega
    rw [List.foldl_cons, hmod]
    by_cases hother : k1.uniq ≠ k.uniq ∧ k1.aino = k.aino
    · rw [List.filter_cons_of_pos (by simpa using hother), List.foldl_cons, Nat.max_comm 0, foldl_max]
      by_cases hraise : offset < k1.filePos
      · rw [if_pos ⟨hother.1, hother.2, by exact_mod_cast hraise⟩, ih hk1 hrest]
        congr 1
        omega
      · rw [if_neg fun hraise' => hraise (by exact_mod_cast hraise'.2.2), ih hsmall hrest]
        congr 1
        omega
    · rw [List.filter_cons_of_neg (by simpa using hother),
        if_neg fun hraise' => hother ⟨hraise'.1, hraise'.2.1⟩, ih hsmall hrest]

/-! ### Handles -/

theorem lookupKey_putKey {k' : SizeKey} (uniq : UInt32) :
    (s.putKey k').lookupKey uniq =
      (s.lookupKey uniq).map fun k1 => if k1.uniq = k'.uniq then k' else k1 := by
  have hsame : ((fun k1 : SizeKey => k1.uniq == uniq) ∘
      fun k1 => if k1.uniq = k'.uniq then k' else k1) = fun k1 => k1.uniq == uniq := by
    funext k1
    simp only [Function.comp]
    split_ifs with heq
    · rw [heq]
    · rfl
  rw [lookupKey, putKey, List.find?_map, hsame]
  rfl

theorem finishSize_reply {fd n : Nat} {offset : Int}
    (h : (s.finishSize k fd offset).2 = .ok n) : offset % 2 ^ 32 = n ∧ n < 2 ^ 31 := by
  rw [finishSize] at h
  by_cases hneg : Int.bmod offset (2 ^ 32) < 0
  · rw [if_pos hneg] at h
    cases h
  · rw [if_neg hneg] at h
    have hn := Except.ok.inj h
    have hmod := Int.bmod_emod (x := offset) (m := 2 ^ 32)
    have hlt := Int.bmod_lt (x := offset) (m := 2 ^ 32) (by decide)
    omega

/-- When the seeks end at the right place. -/
theorem finishSize_resized {n : Nat} (hk : s.lookupKey k.uniq = some k)
    (hn : n ≤ maxFileSize32_2G) : Resized s k n (s.finishSize k n n) := by
  rw [maxFileSize32_2G] at hn
  have hbmod : Int.bmod (n : Int) (2 ^ 32) = n := Int.bmod_eq_of_le (by omega) (by omega)
  have hmod : (n : Int) % 2 ^ 64 = n := by omega
  have hpos : (if (n : Int) % 2 ^ 64 < k.filePos then ((n : Int) % 2 ^ 64).toNat else k.filePos) =
      min k.filePos n := by
    rw [hmod]
    split_ifs <;> omega
  rw [finishSize, hbmod, if_neg (by omega), hpos, Int.toNat_natCast]
  refine ⟨rfl, ?_, ?_, fun a ha => if_neg ha, ?_, fun uniq hne => ?_⟩
  · dsimp only [putFile]
    rw [if_pos rfl, length_truncate]
  · dsimp only [putFile]
    rw [if_pos rfl, take_truncate, take_write]
    · rw [length_write]
      omega
    · exact Nat.min_le_right _ _
  · refine ⟨{ k with filePos := min k.filePos n, fdPos := min k.filePos n, notifyactive := true }, ?_,
      rfl, rfl⟩
    refine (lookupKey_putKey k.uniq).trans ?_
    rw [hk]
    exact congrArg some (if_pos rfl)
  · refine (lookupKey_putKey uniq).trans ?_
    cases hother : s.lookupKey uniq with
    | none => rfl
    | some k1 =>
      have hk1 : k1.uniq = uniq := by simpa using List.find?_some hother
      exact congrArg some (if_neg fun heq => hne (hk1.symm.trans heq))

end

section

variable {p : SizePacket} {s : SizeState} {k : SizeKey} {uniq : UInt32} {offset mode : Int}

theorem lseek_eq {size pos : Nat} {r : Int} {w : Whence} (hr : 0 ≤ (w.base size pos : Int) + r) :
    lseek size pos r w = some ((w.base size pos : Int) + r).toNat := if_neg (by omega)

theorem seekEnd_setFileSize {size : Nat} {r : Int} {w : Whence}
    (hr : 0 ≤ (w.base size k.fdPos : Int) + r) :
    seekEnd .setFileSize size k r w =
      (((w.base size k.fdPos : Int) + r).toNat,
        if ((w.base size k.fdPos : Int) + r).toNat ≤ maxFileSize32_2G then
          (((w.base size k.fdPos : Int) + r).toNat : Int) else -1) := by
  rw [seekEnd, lseek_eq hr]
  rfl

theorem seekEnd_other {p : SizePacket} {size : Nat} {r : Int} {w : Whence}
    (hp : p ≠ .setFileSize) (hr : 0 ≤ (w.base size k.fdPos : Int) + r) :
    seekEnd p size k r w =
      match lseek size ((w.base size k.fdPos : Int) + r).toNat r w with
      | none => (((w.base size k.fdPos : Int) + r).toNat, -1)
      | some fd => (fd, fd) := by
  cases p with
  | setFileSize => exact absurd rfl hp
  | setFileSize64 =>
    rw [seekEnd, lseek_eq hr]
    exacts [rfl, hp]
  | changeFileSize64 =>
    rw [seekEnd, lseek_eq hr]
    exacts [rfl, hp]

/-- The seeks end where they should exactly when the packet works. -/
theorem seekEnd_iff {n : Nat} (h : Sound s) (hk : k.filePos < 2 ^ 63)
    (hstep : k.fdPos = k.filePos)
    (hn : n = max (((whenceOf mode).base (s.files k.aino).length k.filePos : Int) + offset).toNat
      (s.othersPos k))
    (hlow : 0 ≤ ((whenceOf mode).base (s.files k.aino).length k.filePos : Int) + offset)
    (hhigh : ((whenceOf mode).base (s.files k.aino).length k.filePos : Int) + offset ≤ maxFileSize32_2G)
    (hsize : p = .setFileSize → (s.files k.aino).length ≤ maxFileSize32_2G) :
    (Works p s k offset (whenceOf mode) → seekEnd p (s.files k.aino).length k
        (s.raiseOffset k offset) (whenceOf mode) = (n, (n : Int)) ∧ n ≤ maxFileSize32_2G) ∧
      ((seekEnd p (s.files k.aino).length k
        (s.raiseOffset k offset) (whenceOf mode)).2 % 2 ^ 32 = n ∧ n < 2 ^ 31 →
        Works p s k offset (whenceOf mode)) := by
  have hfile := h.sizes k.aino
  have hbase : (whenceOf mode).base (s.files k.aino).length k.filePos < 2 ^ 63 := by
    cases whenceOf mode
    · exact Nat.two_pow_pos 63
    · exact hk
    · exact hfile
  have hneg : offset < 0 → s.raiseOffset k offset = offset := fun hlt =>
    raiseOffset_neg h hlt (by omega)
  have hnonneg : 0 ≤ offset → s.raiseOffset k offset = max offset (s.othersPos k) := by
    intro hge
    obtain ⟨o, rfl⟩ := Int.eq_ofNat_of_zero_le hge
    rw [raiseOffset_nonneg (by rw [maxFileSize32_2G] at hhigh; omega) h]
    omega
  rw [Works]
  generalize s.raiseOffset k offset = r at *
  generalize (s.files k.aino).length = size at *
  generalize s.othersPos k = others at *
  rw [maxFileSize32_2G] at *
  generalize whenceOf mode = w at *
  have hr : 0 ≤ (w.base size k.filePos : Int) + r := by omega
  have hset : w = .set → w.base size k.filePos = 0 := fun hw => by rw [hw]; rfl
  by_cases hp : p = .setFileSize
  · subst hp
    rw [seekEnd_setFileSize (hstep ▸ hr), hstep, maxFileSize32_2G]
    have hsize := hsize rfl
    generalize w.base size k.filePos = base at *
    have hmid : ¬ (w = .cur ∧ SizePacket.setFileSize ≠ .setFileSize) := fun hcur => hcur.2 rfl
    rw [if_neg hmid]
    refine ⟨fun ⟨hothers, _, hw⟩ => ?_, fun ⟨hmod, hlt⟩ => ⟨by omega, fun _ => hsize, ?_⟩⟩
    · have hfd : (base + r).toNat = n := by
        split_ifs at hw with hstart
        · have hzero := hset hstart
          omega
        · omega
        · omega
      rw [hfd, if_pos (by omega)]
      exact ⟨rfl, by omega⟩
    · split_ifs at hmod ⊢ <;> omega
  · rw [seekEnd_other hp (hstep ▸ hr), hstep]
    by_cases hcur : w = .cur
    · -- The offset is applied twice.
      subst hcur
      have hbase' : ∀ pos, Whence.base .cur size pos = pos := fun _ => rfl
      rw [if_neg (by decide), if_pos ⟨rfl, hp⟩]
      rw [hbase'] at *
      by_cases htwice : 0 ≤ ((k.filePos + r).toNat : Int) + r
      · rw [lseek_eq (by rw [hbase']; exact htwice), hbase']
        dsimp only
        refine ⟨fun ⟨_, _, hw⟩ => ⟨Prod.ext ?_ ?_, by omega⟩, fun ⟨hmod, hlt⟩ =>
          ⟨by omega, fun h => absurd h hp, by omega⟩⟩ <;> dsimp only <;> omega
      · rw [lseek, if_pos (by rw [hbase']; omega)]
        dsimp only
        exact ⟨fun ⟨_, _, hw⟩ => by omega, fun ⟨hmod, hlt⟩ => by omega⟩
    · have hbase' : ∀ pos, w.base size pos = w.base size k.filePos := fun _ => by
        cases w
        · rfl
        · exact absurd rfl hcur
        · rfl
      have hmid : ¬ (w = .cur ∧ p ≠ .setFileSize) := fun h => hcur h.1
      rw [lseek_eq (by rw [hbase' (Int.toNat _)]; exact hr), hbase' (Int.toNat _), if_neg hmid]
      dsimp only
      generalize w.base size k.filePos = base at *
      refine ⟨fun ⟨hothers, _, hw⟩ => ?_, fun ⟨hmod, hlt⟩ => ⟨by omega, fun h => absurd h hp, ?_⟩⟩
      · have hfd : (base + r).toNat = n := by
          split_ifs at hw with hstart
          · have hzero := hset hstart
            omega
          · omega
          · omega
        rw [hfd]
        exact ⟨rfl, by omega⟩
      · split_ifs at hmod ⊢ <;> omega

/-- A packet sets the size as it should exactly when it works. -/
theorem changeSize_resizes_iff (h : Sound s) (hk : s.lookupKey uniq = some k)
    (hstep : k.fdPos = k.filePos)
    (hlow : 0 ≤ ((whenceOf mode).base (s.files k.aino).length k.filePos : Int) + offset)
    (hhigh : ((whenceOf mode).base (s.files k.aino).length k.filePos : Int) + offset ≤
      maxFileSize32_2G) :
    Resized s k (max (((whenceOf mode).base (s.files k.aino).length k.filePos : Int) + offset).toNat
        (s.othersPos k)) (changeSize p s uniq offset mode) ↔
      Works p s k offset (whenceOf mode) := by
  have huniq : k.uniq = uniq := by simpa using List.find?_some hk
  have hmem := List.mem_of_find?_eq_some hk
  subst huniq
  rw [changeSize, hk]
  dsimp only
  by_cases hguard : p = .setFileSize ∧ maxFileSize32_2G < (s.files k.aino).length
  · rw [if_pos hguard]
    refine ⟨fun hr => (nomatch hr.reply), fun hw => ?_⟩
    have hsize := hw.2.1 hguard.1
    omega
  · rw [if_neg hguard]
    obtain ⟨hto, hfrom⟩ := seekEnd_iff h (h.positions k hmem) hstep rfl hlow hhigh
      (p := p) fun hp => Nat.le_of_not_lt fun hlt => hguard ⟨hp, hlt⟩
    refine ⟨fun hr => hfrom (finishSize_reply hr.reply), fun hw => ?_⟩
    obtain ⟨hseek, hn⟩ := hto hw
    rw [hseek]
    exact finishSize_resized hk hn

end

/-! ### A file of ten bytes -/

def tenBytes : SizeState := ⟨[⟨1, 0, 3, 3, false⟩], fun _ => List.replicate 10 1⟩

theorem tenBytes_sound : Sound tenBytes where
  positions := by decide
  sizes _ := by
    change (List.replicate 10 (1 : UInt8)).length < 2 ^ 63
    decide

theorem changeSize_resizes_tenBytes :
    Resized tenBytes ⟨1, 0, 3, 3, false⟩ 4 (actionSetFileSize tenBytes 1 4 (-1)) := by
  have hk : tenBytes.lookupKey 1 = some ⟨1, 0, 3, 3, false⟩ := rfl
  have hworks : Works .setFileSize tenBytes ⟨1, 0, 3, 3, false⟩ 4 (whenceOf (-1)) :=
    ⟨by decide, fun _ => by decide, trivial⟩
  exact (changeSize_resizes_iff tenBytes_sound hk rfl (by decide) (by decide)).mpr hworks

/-- Five bytes from the position, which is three, make a file of thirteen bytes. -/
theorem tenBytes_addedTwice : tenBytes.lookupKey 1 = some ⟨1, 0, 3, 3, false⟩ ∧
    ¬ Resized tenBytes ⟨1, 0, 3, 3, false⟩ 8 (actionSetFileSize64 tenBytes 1 5 0) := by
  refine ⟨rfl, fun h => ?_⟩
  have hlength := h.length
  revert hlength
  decide

end SizeState

end LibretroUae.Filesys
