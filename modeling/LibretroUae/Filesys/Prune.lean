import LibretroUae.Lib.Words

/-!
# LibretroUae.Filesys.Prune

**Pruning the metadata database.** When a directory is opened for the first time, the records of
files that are gone are taken out of its database. The live ones move down in the file that is
being read, so the write position stays at or below the read position; the rest is cut off.
-/

namespace LibretroUae.Filesys

/-! ### The file -/

/-- A stream of the host: the bytes of the file, and the position. -/
structure DbStream where
  bytes : List UInt8
  pos : Nat

def DbStream.fread (s : DbStream) (n : Nat) : List UInt8 × DbStream :=
  let got := (s.bytes.drop s.pos).take n
  (got, { s with pos := s.pos + got.length })

def DbStream.fwrite (s : DbStream) (bs : List UInt8) : DbStream :=
  ⟨s.bytes.take s.pos ++ List.replicate (s.pos - s.bytes.length) 0 ++ bs ++
    s.bytes.drop (s.pos + bs.length), s.pos + bs.length⟩

def DbStream.fseek (s : DbStream) (offset : Nat) : DbStream := { s with pos := offset }

/-- `my_truncate`: the length goes through an `int`, and a negative one is refused. -/
def myTruncate (bytes : List UInt8) (len : Nat) : List UInt8 :=
  let intLen := (BitVec.ofNat 32 len).toInt
  if intLen < 0 then bytes
  else bytes.take intLen.toNat ++ List.replicate (intLen.toNat - bytes.length) 0

/-! ### The loop -/

/-- The size of a record: valid, mode, Amiga name, native name and comment. -/
def entrySize : Nat := 1 + 4 + 257 + 257 + 81

section

-- which native files of the directory exist, and what is behind the buffer in memory
variable (fsdbExists : List UInt8 → Bool) (behind : List UInt8)

/-- The native name of a record, up to its NUL. -/
def nativeName (buf : List UInt8) : List UInt8 :=
  ((buf ++ behind).drop (5 + 257)).takeWhile (· ≠ 0)

/-- `fsdb_fixup`. -/
def fsdbFixup (buf : List UInt8) : List UInt8 :=
  if buf.head? = some 0 then buf
  else if fsdbExists (nativeName behind buf) then buf
  else buf.set 0 0

/-- The open file and the position of the next live record. -/
structure Pruning where
  f : DbStream
  pos1 : Nat

/-- A round of `fsdb_clean_dir`; none when no record is left. -/
def pruneRound (s : Pruning) : Option Pruning :=
  let pos2 := s.f.pos
  let (buf, f) := s.f.fread entrySize
  if buf.length < entrySize then none
  else
    let buf := fsdbFixup fsdbExists behind buf
    if buf.head? = some 0 then some { s with f }
    else
      let f := if s.pos1 ≠ pos2 then ((f.fseek s.pos1).fwrite buf).fseek (pos2 + entrySize) else f
      some ⟨f, s.pos1 + entrySize⟩

/-- The rounds, as long as there is fuel. -/
def pruneLoop : Nat → Pruning → Option Pruning
  | 0, _ => none
  | fuel + 1, s =>
    match pruneRound fsdbExists behind s with
    | some s' => pruneLoop fuel s'
    | none => some s

/-- `fsdb_clean_dir` of an existing file: what is there afterwards, if anything. -/
def fsdbCleanDir (fuel : Nat) (file : List UInt8) : Option (Option (List UInt8)) :=
  (pruneLoop fsdbExists behind fuel ⟨⟨file, 0⟩, 0⟩).map fun s =>
    if s.pos1 = 0 then none else some (myTruncate s.f.bytes s.pos1)

/-! ### The live records -/

/-- The complete records of a file. -/
def recordsOf (file : List UInt8) (n : Nat) : List (List UInt8) :=
  (List.range n).map fun i => (file.drop (entrySize * i)).take entrySize

/-- A record that is marked valid and whose native file exists. -/
def isLive (buf : List UInt8) : Bool :=
  buf.head? != some 0 && fsdbExists (nativeName behind buf)

/-- The live records among the first `n`. -/
def liveRecords (file : List UInt8) (n : Nat) : List (List UInt8) :=
  (recordsOf file n).filter (isLive fsdbExists behind)

/-- What should be left of a file. -/
def prunedFile (file : List UInt8) : Option (List UInt8) :=
  let live := liveRecords fsdbExists behind file (file.length / entrySize)
  if live = [] then none else some live.flatten

variable {fsdbExists behind} {file : List UInt8} {n : Nat}

theorem head_fixup {buf : List UInt8} (hbuf : buf ≠ []) :
    (fsdbFixup fsdbExists behind buf).head? = some 0 ↔ isLive fsdbExists behind buf = false := by
  obtain ⟨b, rest, rfl⟩ := List.exists_cons_of_ne_nil hbuf
  by_cases hb : b = 0
  · simp [fsdbFixup, isLive, hb]
  · cases hlive : fsdbExists (nativeName behind (b :: rest)) <;>
      simp [fsdbFixup, isLive, hb, hlive]

/-- A live record is not changed. -/
theorem fixup_live {buf : List UInt8} (h : isLive fsdbExists behind buf = true) :
    fsdbFixup fsdbExists behind buf = buf := by
  rw [isLive, Bool.and_eq_true] at h
  rw [fsdbFixup, if_pos h.2, ite_self]

theorem length_record {i : Nat} (hi : i < file.length / entrySize) :
    ((file.drop (entrySize * i)).take entrySize).length = entrySize := by
  have hle : entrySize * (i + 1) ≤ file.length := by
    have h := Nat.mul_le_mul_left entrySize (Nat.succ_le_of_lt hi)
    exact Nat.le_trans h (Nat.mul_div_le file.length entrySize)
  rw [List.length_take, List.length_drop]
  rw [Nat.mul_add, Nat.mul_one] at hle
  omega

theorem liveRecords_succ : liveRecords fsdbExists behind file (n + 1) =
    liveRecords fsdbExists behind file n ++
      if isLive fsdbExists behind ((file.drop (entrySize * n)).take entrySize)
      then [(file.drop (entrySize * n)).take entrySize] else [] := by
  simp only [liveRecords, recordsOf, List.range_succ, List.map_append, List.filter_append,
    List.map_cons, List.map_nil, List.filter_cons, List.filter_nil]

/-- The live records so far are at the start of the file; behind them it is as it was. -/
structure Pruned (live file : List UInt8) (n : Nat) (s : Pruning) : Prop where
  bytes : s.f.bytes = live ++ file.drop live.length
  pos : s.f.pos = entrySize * n
  pos1 : s.pos1 = live.length
  behindRead : live.length ≤ entrySize * n

/-- What is read is still the original. -/
theorem Pruned.fread {live : List UInt8} {s : Pruning} (h : Pruned live file n s) :
    s.f.fread entrySize = ((file.drop (entrySize * n)).take entrySize,
      { s.f with pos := entrySize * n + ((file.drop (entrySize * n)).take entrySize).length }) := by
  have hdrop : s.f.bytes.drop s.f.pos = file.drop (entrySize * n) := by
    have hsplit : entrySize * n = live.length + (entrySize * n - live.length) := by
      have hle := h.behindRead
      omega
    rw [h.bytes, h.pos, List.drop_append, List.drop_eq_nil_of_le h.behindRead, List.drop_drop,
      ← hsplit, List.nil_append]
  rw [DbStream.fread, hdrop, h.pos]

/-- A round goes over one record, and keeps it when it is live. -/
theorem pruneRound_record {s : Pruning} {live : List UInt8} (h : Pruned live file n s)
    (hn : n < file.length / entrySize) :
    let buf := (file.drop (entrySize * n)).take entrySize
    ∃ s', pruneRound fsdbExists behind s = some s' ∧
      Pruned (live ++ if isLive fsdbExists behind buf then buf else []) file (n + 1) s' := by
  intro buf
  have hlen : buf.length = entrySize := length_record hn
  have hne : buf ≠ [] := List.ne_nil_of_length_pos (by rw [hlen]; decide)
  have hread := h.fread
  have hnext : entrySize * n + buf.length = entrySize * (n + 1) := by
    rw [hlen, Nat.mul_add, Nat.mul_one]
  have hle := h.behindRead
  have hround : pruneRound fsdbExists behind s =
      if isLive fsdbExists behind buf then
        some ⟨if s.pos1 ≠ s.f.pos then
            ((DbStream.fseek { s.f with pos := entrySize * (n + 1) } s.pos1).fwrite buf).fseek
              (s.f.pos + entrySize)
          else { s.f with pos := entrySize * (n + 1) }, s.pos1 + entrySize⟩
      else some { s with f := { s.f with pos := entrySize * (n + 1) } } := by
    have hlong : ¬ buf.length < entrySize := by omega
    simp only [pruneRound, hread]
    rw [if_neg hlong, hnext]
    cases hlive : isLive fsdbExists behind buf with
    | false =>
      rw [if_pos ((head_fixup hne).mpr hlive)]
      rfl
    | true =>
      have hnot : ¬ (fsdbFixup fsdbExists behind buf).head? = some 0 := fun h0 => by
        rw [(head_fixup hne).mp h0] at hlive
        cases hlive
      rw [if_neg hnot, fixup_live hlive]
      rfl
  rw [hround]
  cases hlive : isLive fsdbExists behind buf with
  | false =>
    refine ⟨_, rfl, ?_⟩
    simp only [Bool.false_eq_true, if_false, List.append_nil]
    exact ⟨h.bytes, rfl, h.pos1, by rw [Nat.mul_add]; omega⟩
  | true =>
    have hsum : (live ++ buf).length = live.length + entrySize := by
      rw [List.length_append, hlen]
    have hsucc : entrySize * (n + 1) = entrySize * n + entrySize := Nat.mul_succ entrySize n
    refine ⟨_, rfl, ?_⟩
    simp only [if_true]
    by_cases hsame : s.pos1 = s.f.pos
    · -- nothing has been taken out: the record is where it belongs
      have hpos : live.length = entrySize * n := by rw [← h.pos1, hsame, h.pos]
      have hbuf : file.drop live.length = buf ++ file.drop (live.length + entrySize) := by
        rw [hpos, ← List.drop_drop, List.take_append_drop]
      simp only [hsame, ne_eq, not_true_eq_false, if_false]
      refine ⟨?_, rfl, ?_, ?_⟩
      · rw [hsum, List.append_assoc, ← hbuf]
        exact h.bytes
      · rw [hsum, h.pos, hpos]
      · rw [hsum, hsucc]
        omega
    · have hpos : live.length ≠ entrySize * n := by rwa [← h.pos1, ← h.pos]
      have hinside : live.length ≤ s.f.bytes.length := by
        rw [h.bytes, List.length_append]
        omega
      simp only [hsame, ne_eq, not_false_eq_true, if_true]
      refine ⟨?_, ?_, ?_, ?_⟩
      · -- the record overwrites what has been read
        have hzero : live.length - s.f.bytes.length = 0 := by omega
        simp only [DbStream.fseek, DbStream.fwrite, h.pos1, hzero, List.replicate_zero,
          List.append_nil]
        rw [h.bytes, List.take_left, List.drop_append, hlen,
          List.drop_eq_nil_of_le (by omega : live.length ≤ live.length + entrySize),
          Nat.add_sub_cancel_left, List.drop_drop, hsum, List.nil_append]
      · change s.f.pos + entrySize = entrySize * (n + 1)
        rw [h.pos, hsucc]
      · rw [hsum, h.pos1]
      · rw [hsum, hsucc]
        omega

/-- No complete record is left. -/
theorem pruneRound_end {s : Pruning} {live : List UInt8}
    (h : Pruned live file (file.length / entrySize) s) : pruneRound fsdbExists behind s = none := by
  have hrest : file.length - entrySize * (file.length / entrySize) < entrySize := by
    have hsplit := Nat.div_add_mod file.length entrySize
    have hmod := Nat.mod_lt file.length (show 0 < entrySize by decide)
    omega
  simp only [pruneRound, h.fread]
  rw [if_pos]
  rw [List.length_take, List.length_drop]
  omega

/-- From any record on, the loop goes over the rest. -/
theorem pruneLoop_spec {fuel m : Nat} {s : Pruning}
    (h : Pruned (liveRecords fsdbExists behind file n).flatten file n s)
    (hm : n + m = file.length / entrySize) (hfuel : m < fuel) :
    ∃ s', pruneLoop fsdbExists behind fuel s = some s' ∧
      Pruned (liveRecords fsdbExists behind file (file.length / entrySize)).flatten file
        (file.length / entrySize) s' := by
  induction m generalizing n s fuel with
  | zero =>
    obtain ⟨fuel, rfl⟩ : ∃ k, fuel = k + 1 := ⟨fuel - 1, by omega⟩
    obtain rfl : n = file.length / entrySize := hm
    exact ⟨s, by simp only [pruneLoop, pruneRound_end h], h⟩
  | succ m ih =>
    obtain ⟨fuel, rfl⟩ : ∃ k, fuel = k + 1 := ⟨fuel - 1, by omega⟩
    obtain ⟨s', hround, hs'⟩ := @pruneRound_record fsdbExists behind file n s _ h (by omega)
    have hlive : (liveRecords fsdbExists behind file n).flatten ++
        (if isLive fsdbExists behind ((file.drop (entrySize * n)).take entrySize)
          then (file.drop (entrySize * n)).take entrySize else []) =
        (liveRecords fsdbExists behind file (n + 1)).flatten := by
      rw [liveRecords_succ, List.flatten_append]
      split <;> simp
    rw [hlive] at hs'
    obtain ⟨s'', hloop, hs''⟩ := @ih (n + 1) fuel s' hs' (by omega) (by omega)
    exact ⟨s'', by simp only [pruneLoop, hround, hloop], hs''⟩

theorem length_liveRecords :
    (liveRecords fsdbExists behind file (file.length / entrySize)).flatten.length
      = entrySize * (liveRecords fsdbExists behind file (file.length / entrySize)).length := by
  have hall : ∀ buf ∈ liveRecords fsdbExists behind file (file.length / entrySize),
      buf.length = entrySize := by
    intro buf hbuf
    obtain ⟨i, hi, rfl⟩ := List.mem_map.mp (List.mem_filter.mp hbuf).1
    exact length_record (List.mem_range.mp hi)
  have hsum : ∀ l : List (List UInt8), (∀ buf ∈ l, buf.length = entrySize) →
      l.flatten.length = entrySize * l.length := by
    intro l hl
    induction l with
    | nil => rfl
    | cons buf l ih =>
      rw [List.flatten_cons, List.length_append, hl buf List.mem_cons_self,
        ih fun b hb => hl b (List.mem_cons_of_mem buf hb), List.length_cons, Nat.mul_succ,
        Nat.add_comm]
  exact hsum _ hall

/-- What `fsdb_clean_dir` makes of a file, in terms of its live records. -/
theorem fsdbCleanDir_eq {fuel : Nat} (hfuel : file.length / entrySize < fuel) :
    let records := liveRecords fsdbExists behind file (file.length / entrySize)
    let live := records.flatten
    live.length ≤ file.length ∧ fsdbCleanDir fsdbExists behind fuel file = some
      (if records = [] then none
        else some (myTruncate (live ++ file.drop live.length) live.length)) := by
  intro records live
  have hstart : Pruned (liveRecords fsdbExists behind file 0).flatten file 0 ⟨⟨file, 0⟩, 0⟩ :=
    ⟨rfl, rfl, rfl, Nat.le_refl 0⟩
  obtain ⟨s, hloop, hs⟩ :=
    pruneLoop_spec hstart (Nat.zero_add (file.length / entrySize)) hfuel
  have hzero : live.length = 0 ↔ records = [] := by
    change records.flatten.length = 0 ↔ records = []
    rw [length_liveRecords, Nat.mul_eq_zero, List.length_eq_zero_iff]
    exact or_iff_right (by decide)
  refine ⟨Nat.le_trans hs.behindRead (Nat.mul_div_le _ _), ?_⟩
  rw [fsdbCleanDir, hloop, Option.map_some, hs.pos1, hs.bytes]
  simp only [hzero, records, live]

/-- The length of the live records survives `my_truncate`: it is an `int`, or it is refused where
there is nothing to cut off. -/
def LengthKept (len fileLen : Nat) : Prop :=
  len < 2 ^ 31 ∨ 2 ^ 31 ≤ len % 2 ^ 32 ∧ fileLen = len

/-- Cutting the file after its live records leaves these, exactly when their length is kept. -/
theorem myTruncate_live (live : List UInt8) (hle : live.length ≤ file.length) :
    myTruncate (live ++ file.drop live.length) live.length = live ↔
      LengthKept live.length file.length := by
  have hmod := Nat.mod_lt live.length (show 0 < 2 ^ 32 by decide)
  have hmodle := Nat.mod_le live.length (2 ^ 32)
  rw [myTruncate, Lib.toInt_ofNat, LengthKept]
  by_cases hpos : live.length % 2 ^ 32 < 2 ^ 31
  · have hnonneg : ¬ ((live.length % 2 ^ 32 : Nat) : Int) < 0 := by omega
    have hnone : live.length % 2 ^ 32 - (live ++ file.drop live.length).length = 0 := by
      rw [List.length_append]
      omega
    simp only [if_pos hpos, if_neg hnonneg, Int.toNat_natCast, hnone, List.replicate_zero,
      List.append_nil]
    constructor
    · intro htake
      have hlen := congrArg List.length htake
      rw [List.length_take, List.length_append] at hlen
      omega
    · rintro (hsmall | ⟨hlarge, -⟩)
      · rw [Nat.mod_eq_of_lt (by omega), List.take_left]
      · omega
  · have hneg : ((live.length % 2 ^ 32 : Nat) : Int) - 2 ^ 32 < 0 := by omega
    simp only [if_neg hpos, if_pos hneg]
    constructor
    · intro hsame
      have hlen := congrArg List.length hsame
      rw [List.length_append, List.length_drop] at hlen
      omega
    · rintro (hsmall | ⟨-, hlen⟩)
      · exact absurd (Nat.lt_of_le_of_lt hmodle hsmall) hpos
      · rw [List.drop_eq_nil_of_le (Nat.le_of_eq hlen), List.append_nil]

/-- `fsdb_clean_dir` leaves exactly the live records, when their length is kept. -/
theorem fsdbCleanDir_pruned_iff (fsdbExists : List UInt8 → Bool) (behind file : List UInt8)
    (fuel : Nat) (hfuel : file.length / entrySize < fuel) :
    fsdbCleanDir fsdbExists behind fuel file = some (prunedFile fsdbExists behind file) ↔
      LengthKept
        (entrySize * (liveRecords fsdbExists behind file (file.length / entrySize)).length)
        file.length := by
  obtain ⟨hle, heq⟩ := @fsdbCleanDir_eq fsdbExists behind file fuel hfuel
  rw [heq, prunedFile, ← length_liveRecords]
  by_cases hnone : liveRecords fsdbExists behind file (file.length / entrySize) = []
  · simp only [hnone, if_true, true_iff]
    exact .inl (by decide)
  · simp only [hnone, if_false, Option.some.injEq]
    exact myTruncate_live _ hle

/-- A file below 2 GiB has no record too many. -/
theorem lengthKept_small (hfile : file.length < 2 ^ 31) : LengthKept
    (entrySize * (liveRecords fsdbExists behind file (file.length / entrySize)).length)
    file.length := by
  have hle := (@fsdbCleanDir_eq fsdbExists behind file _ (Nat.lt_succ_self _)).1
  rw [length_liveRecords] at hle
  exact .inl (Nat.lt_of_le_of_lt hle hfile)

/-- Two records whose files exist, and a byte of a third. -/
theorem fsdbCleanDir_pruned_two :
    fsdbCleanDir (fun _ => true) [] 3 (List.replicate 1201 1) =
      some (prunedFile (fun _ => true) [] (List.replicate 1201 1)) := by
  have hlen : (List.replicate 1201 (1 : UInt8)).length = 1201 := List.length_replicate
  exact (fsdbCleanDir_pruned_iff (fun _ => true) [] (List.replicate 1201 1) 3
    (by rw [hlen]; decide)).mpr (lengthKept_small (by rw [hlen]; decide))

theorem length_liveRecords_replicate {m : Nat} (hfile : file = List.replicate m 1) :
    (liveRecords (fun _ => true) [] file (m / entrySize)).length = m / entrySize := by
  have hall : ∀ buf ∈ recordsOf file (m / entrySize), isLive (fun _ => true) [] buf = true := by
    intro buf hbuf
    obtain ⟨i, -, rfl⟩ := List.mem_map.mp hbuf
    rw [hfile, List.drop_replicate, List.take_replicate, isLive, Bool.and_true]
    cases min entrySize (m - entrySize * i) <;> rfl
  rw [liveRecords, List.filter_eq_self.mpr hall, recordsOf, List.length_map, List.length_range]

/-- From 2 GiB on the length is a negative `int`, and what follows the records stays. -/
theorem fsdbCleanDir_not_pruned :
    ¬ ∀ (fsdbExists : List UInt8 → Bool) (behind file : List UInt8) (fuel : Nat),
      file.length / entrySize < fuel →
        fsdbCleanDir fsdbExists behind fuel file = some (prunedFile fsdbExists behind file) := by
  intro h
  obtain ⟨m, hm⟩ : ∃ m, m = 600 * 3579140 + 1 := ⟨_, rfl⟩
  obtain ⟨file, hfile⟩ : ∃ file : List UInt8, file = List.replicate m 1 := ⟨_, rfl⟩
  have hlen : file.length = m := by rw [hfile, List.length_replicate]
  have hpruned := h (fun _ => true) [] file _ (Nat.lt_succ_self _)
  obtain ⟨hle, heq⟩ := @fsdbCleanDir_eq (fun _ => true) [] file _ (Nat.lt_succ_self _)
  have hcount := length_liveRecords_replicate hfile
  have hlive := @length_liveRecords (fun _ => true) [] file
  rw [hlen] at heq hle hpruned hlive
  rw [hcount] at hlive
  change _ = 600 * (m / 600) at hlive
  have hsome : liveRecords (fun _ => true) [] file (m / entrySize) ≠ [] := by
    intro hnil
    rw [hnil] at hlive
    change 0 = _ at hlive
    omega
  rw [heq, prunedFile, hlen, if_neg hsome, if_neg hsome, Option.some.injEq, Option.some.injEq,
    myTruncate_live _ (by rw [hlen]; exact hle), LengthKept] at hpruned
  omega

end

end LibretroUae.Filesys
