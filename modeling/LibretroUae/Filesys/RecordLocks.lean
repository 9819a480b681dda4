import LibretroUae.Filesys.Records
import LibretroUae.Lib.Buckets

/-!
# LibretroUae.Filesys.RecordLocks

**What clients were told and what the lists hold.** A session is a unit together with the
records that its clients have been granted and have not freed, newest first, and the requests
they wait for. The records granted are those stored in the lists, and exclude each other, in
every run of packets and timeouts in which no range goes past the end of 64 bits, every
record that is freed is the newest of its handle, and no freed record releases a request.
-/

namespace LibretroUae.Filesys

open Lib

/-! ### Sessions -/

/-- A record as the client that locked it knows it. -/
structure Grant where
  key : Nat
  inode : UInt32
  pos : UInt64
  len : UInt64
  mode : UInt32
  deriving DecidableEq, Repr

/-- The record a key has stored. -/
def Key.grant (k : Key) (lr : LockRecord) : Grant :=
  { key := k.addr, inode := k.ainoUniq, pos := lr.pos, len := lr.len, mode := lr.mode }

/-- A unit, the records granted and not yet freed, and the requests not yet answered. -/
structure Session where
  unit : FsUnit
  granted : List Grant
  pending : List (UInt32 × Grant)
  deriving DecidableEq, Repr

inductive Packet
  | lockRecord (arg1 pos len mode timeout msg : UInt32)
  | lockRecord64 (arg1 : UInt32) (pos len : UInt64) (mode timeout msg : UInt32)
  | freeRecord (arg1 pos len : UInt32) (waiting : LockRecord → UInt32)
  | freeRecord64 (arg1 : UInt32) (pos len : UInt64) (waiting : LockRecord → UInt32)
  | close (arg1 : UInt32)
  | tick

namespace Session

/-- A lock request of the key `arg1` is answered. -/
def lock (s : Session) (done : FsUnit × Reply) (arg1 : UInt32) (pos len : UInt64)
    (mode msg : UInt32) : Session :=
  match s.unit.lookupKey arg1 with
  | none => { s with unit := done.1 }
  | some k =>
    let grant : Grant := { key := k.addr, inode := k.ainoUniq, pos, len, mode }
    match done.2 with
    | .success => { s with unit := done.1, granted := grant :: s.granted }
    | .queued => { s with unit := done.1, pending := (msg, grant) :: s.pending }
    | .failure _ => { s with unit := done.1 }

/-- The requests behind the messages marked as complete have been granted. -/
def complete (s : Session) (msgs : List UInt32) : Session :=
  { s with
    granted := (s.pending.filter fun p => p.1 ∈ msgs).map Prod.snd ++ s.granted
    pending := s.pending.filter fun p => p.1 ∉ msgs }

/-- A request of the key `arg1` to free a record is answered. -/
def free (s : Session) (done : FsUnit × List UInt32 × Reply) (arg1 : UInt32)
    (pos len : UInt64) : Session :=
  match s.unit.lookupKey arg1, done.2.2 with
  | some k, .success =>
    complete { s with
      unit := done.1
      granted := s.granted.eraseP fun g =>
        g.key == k.addr && (g.pos == pos && g.len == len) } done.2.1
  | _, _ => { s with unit := done.1 }

/-- The key `arg1` is closed, and all its records with it. -/
def close (s : Session) (arg1 : UInt32) : Session :=
  match s.unit.lookupKey arg1 with
  | none => { s with unit := actionEnd s.unit arg1 }
  | some k =>
    { s with
      unit := actionEnd s.unit arg1
      granted := s.granted.filter fun g => g.key != k.addr }

/-- A heartbeat: requests that time out are answered with an error. -/
def tick (s : Session) : Session :=
  let timedOut := recordTimeout s.unit
  { s with
    unit := timedOut.1
    pending := s.pending.filter fun p => p.1 ∉ timedOut.2 }

def step (ticks : UInt32 → UInt32) (s : Session) : Packet → Except Fault Session
  | .lockRecord arg1 pos len mode timeout msg =>
    .ok (s.lock (actionLockRecord ticks s.unit arg1 pos len mode timeout msg) arg1 pos.toUInt64
      len.toUInt64 mode msg)
  | .lockRecord64 arg1 pos len mode timeout msg =>
    .ok (s.lock (actionLockRecord64 ticks s.unit arg1 pos len mode timeout msg) arg1 pos len mode
      msg)
  | .freeRecord arg1 pos len waiting => do
    let done ← actionFreeRecord s.unit arg1 pos len waiting
    return s.free done arg1 pos.toUInt64 len.toUInt64
  | .freeRecord64 arg1 pos len waiting => do
    let done ← actionFreeRecord64 s.unit arg1 pos len waiting
    return s.free done arg1 pos len
  | .close arg1 => .ok (s.close arg1)
  | .tick => .ok s.tick

end Session

/-- Packets and heartbeats of a unit. -/
def recordMachine (ticks : UInt32 → UInt32) : Machine Session Packet Fault where
  legal _ _ := True
  step := Session.step ticks

/-- Handles have been opened and no record locked. -/
structure Opened (s : Session) : Prop where
  addrs : (s.unit.keys.map Key.addr).Nodup
  unlocked : ∀ k ∈ s.unit.keys, k.record = []
  waitingrecords : s.unit.waitingrecords = []
  granted : s.granted = []
  pending : s.pending = []

/-! ### What clients rely on -/

/-- The records granted and not yet freed are those stored, and exclude each other. -/
structure RecordsKept (s : Session) : Prop where
  stored : ∀ k ∈ s.unit.keys,
    (s.granted.filter fun g => g.key == k.addr).Perm (k.record.map k.grant)
  opened : ∀ g ∈ s.granted, ∃ k ∈ s.unit.keys, k.addr = g.key
  exclusive : ∀ g ∈ s.granted, ∀ g' ∈ s.granted, g.key ≠ g'.key → g.inode = g'.inode →
    isExclusive g.mode = true ∨ isExclusive g'.mode = true → ¬ Overlap g.pos g.len g'.pos g'.len

/-- Freeing a record of an open handle takes that one record out of its list, and answers that
there is none exactly when there is none. -/
def FreesOne (unit : FsUnit) (arg1 : UInt32) (pos len : UInt64)
    (waiting : LockRecord → UInt32) : Prop :=
  ∀ k, unit.lookupKey arg1 = some k → ∃ unit' msgs reply,
    actionFreeRecord64 unit arg1 pos len waiting = .ok (unit', msgs, reply) ∧
    (reply = .failure .recordNotLocked ↔ ∀ lr ∈ k.record, ¬ (lr.pos = pos ∧ lr.len = len)) ∧
    unit'.keys = (unit.setRecord k.addr (k.record.eraseP (isRecord pos len))).keys

/-! ### When they can -/

/-- The record that is freed, if there is one, is the newest of its handle, and no waiting
request is released by it. -/
def FreesNewest (unit : FsUnit) (arg1 : UInt32) (pos len : UInt64)
    (waiting : LockRecord → UInt32) : Prop :=
  ∀ k i, unit.lookupKey arg1 = some k → k.record.findIdx? (isRecord pos len) = some i →
    i = 0 ∧ ∀ lr ∈ unit.waitingrecords,
      released (unit.setRecord k.addr k.record.tail) waiting lr = false

instance (unit : FsUnit) (arg1 : UInt32) (pos len : UInt64) (waiting : LockRecord → UInt32) :
    Decidable (FreesNewest unit arg1 pos len waiting) :=
  decidable_of_iff (∀ k ∈ unit.lookupKey arg1, ∀ i ∈ k.record.findIdx? (isRecord pos len),
      i = 0 ∧ ∀ lr ∈ unit.waitingrecords,
        released (unit.setRecord k.addr k.record.tail) waiting lr = false)
    ⟨fun h k i hk hi => h k hk i hi, fun h k hk i hi => h k i hk hi⟩

/-- Ranges end below `2^64`, and records are freed newest first with nobody waiting for them. -/
def Careful (s : Session) : Packet → Prop
  | .lockRecord64 _ pos len _ _ _ => Whole pos len
  | .freeRecord arg1 pos len waiting =>
    FreesNewest s.unit arg1 pos.toUInt64 len.toUInt64 waiting
  | .freeRecord64 arg1 pos len waiting => FreesNewest s.unit arg1 pos len waiting
  | _ => True

instance (s : Session) : (packet : Packet) → Decidable (Careful s packet)
  | .lockRecord .. | .close _ | .tick => .isTrue trivial
  | .lockRecord64 _ pos len _ _ _ => inferInstanceAs (Decidable (pos.toNat + len.toNat < 2 ^ 64))
  | .freeRecord .. | .freeRecord64 .. => inferInstanceAs (Decidable (FreesNewest ..))

def carefulMachine (ticks : UInt32 → UInt32) : Machine Session Packet Fault :=
  { recordMachine ticks with legal := Careful }

instance (ticks : UInt32 → UInt32) (s : Session) (packet : Packet) :
    Decidable ((carefulMachine ticks).legal s packet) :=
  inferInstanceAs (Decidable (Careful s packet))

/-! ### The invariant -/

structure Session.Inv (s : Session) : Prop where
  addrs : (s.unit.keys.map Key.addr).Nodup
  stored : ∀ k ∈ s.unit.keys, (s.granted.filter fun g => g.key == k.addr) = k.record.map k.grant
  opened : ∀ g ∈ s.granted, ∃ k ∈ s.unit.keys, k.addr = g.key
  whole : ∀ g ∈ s.granted, Whole g.pos g.len
  exclusive : ∀ g ∈ s.granted, ∀ g' ∈ s.granted, g.key ≠ g'.key → g.inode = g'.inode →
    isExclusive g.mode = true ∨ isExclusive g'.mode = true → ¬ Overlap g.pos g.len g'.pos g'.len

theorem Session.Inv.recordsKept {s : Session} (h : s.Inv) : RecordsKept s where
  stored k hk := h.stored k hk ▸ List.Perm.refl _
  opened := h.opened
  exclusive := h.exclusive

theorem Opened.inv {s : Session} (h : Opened s) : s.Inv where
  addrs := h.addrs
  stored k hk := by rw [h.granted, h.unlocked k hk]; rfl
  opened g hg := by rw [h.granted] at hg; cases hg
  whole g hg := by rw [h.granted] at hg; cases hg
  exclusive g hg := by rw [h.granted] at hg; cases hg

/-- A grant is a record of its key. -/
theorem Session.Inv.record_of_granted {s : Session} (h : s.Inv) {g : Grant}
    (hg : g ∈ s.granted) : ∃ k ∈ s.unit.keys, ∃ lr ∈ k.record, g = k.grant lr := by
  obtain ⟨k, hk, haddr⟩ := h.opened g hg
  have hmem : g ∈ s.granted.filter fun g => g.key == k.addr :=
    List.mem_filter.mpr ⟨hg, beq_iff_eq.mpr haddr.symm⟩
  rw [h.stored k hk, List.mem_map] at hmem
  obtain ⟨lr, hlr, rfl⟩ := hmem
  exact ⟨k, hk, lr, hlr, rfl⟩

/-- The invariant looks at the keys and the grants only. -/
theorem Session.Inv.congr {s s' : Session} (h : s.Inv) (hkeys : s'.unit.keys = s.unit.keys)
    (hgranted : s'.granted = s.granted) : s'.Inv where
  addrs := by rw [hkeys]; exact h.addrs
  stored := by rw [hkeys, hgranted]; exact h.stored
  opened := by rw [hkeys, hgranted]; exact h.opened
  whole := by rw [hgranted]; exact h.whole
  exclusive := by rw [hgranted]; exact h.exclusive

/-! ### Locking -/

/-- A lock request of an open handle fails, waits, or stores a record that no other handle's
record hits. -/
theorem actionLockRecord64_cases (ticks : UInt32 → UInt32) {unit : FsUnit} {arg1 : UInt32}
    {k : Key} (hk : unit.lookupKey arg1 = some k) (pos len : UInt64) (mode timeout msg : UInt32) :
    (∃ e, actionLockRecord64 ticks unit arg1 pos len mode timeout msg = (unit, .failure e)) ∨
    (∃ lr, actionLockRecord64 ticks unit arg1 pos len mode timeout msg =
      ({ unit with waitingrecords := lr :: unit.waitingrecords }, .queued)) ∨
    (recordHit unit k pos len mode = false ∧ ∃ lr : LockRecord, lr.pos = pos ∧ lr.len = len ∧
      lr.mode = mode ∧ actionLockRecord64 ticks unit arg1 pos len mode timeout msg =
        (unit.setRecord k.addr (lr :: k.record), .success)) := by
  rw [actionLockRecord64, hk]
  dsimp only
  by_cases hmode : mode > recSharedImmed
  · rw [if_pos hmode]
    exact .inl ⟨_, rfl⟩
  rw [if_neg hmode]
  cases hhit : recordHit unit k pos len mode with
  | true =>
    rw [if_pos rfl]
    -- what is not immediate and has a timeout and a message waits, the rest fails
    split_ifs
    · exact .inr (.inl ⟨_, rfl⟩)
    · exact .inl ⟨_, rfl⟩
    · exact .inr (.inl ⟨_, rfl⟩)
    · exact .inl ⟨_, rfl⟩
  | false =>
    rw [if_neg Bool.false_ne_true]
    exact .inr (.inr ⟨rfl, _, rfl, rfl, rfl, rfl⟩)

/-- A record that no other handle's record hits may be granted. -/
theorem Session.Inv.grant {s : Session} (h : s.Inv) {k : Key} (hk : k ∈ s.unit.keys)
    {lr : LockRecord} (hhit : recordHit s.unit k lr.pos lr.len lr.mode = false)
    (hwhole : Whole lr.pos lr.len) :
    Session.Inv { s with
      unit := s.unit.setRecord k.addr (lr :: k.record)
      granted := k.grant lr :: s.granted } where
  addrs := by
    rw [map_addr_setRecord]
    exact h.addrs
  stored k' hk' := by
    obtain ⟨k₀, hk₀, rfl⟩ := mem_setRecord.mp hk'
    by_cases haddr : k₀.addr = k.addr
    · obtain rfl := key_eq_of_addr h.addrs hk₀ hk haddr
      rw [if_pos rfl]
      exact (List.filter_cons_of_pos (p := fun g : Grant => g.key == k₀.addr)
        (beq_self_eq_true k₀.addr)).trans (congrArg (k₀.grant lr :: ·) (h.stored k₀ hk₀))
    · rw [if_neg haddr]
      exact (List.filter_cons_of_neg (p := fun g : Grant => g.key == k₀.addr)
        fun heq => haddr (beq_iff_eq.mp heq).symm).trans (h.stored k₀ hk₀)
  opened g hg := by
    obtain ⟨k', hk', haddr⟩ : ∃ k' ∈ s.unit.keys, k'.addr = g.key := by
      rcases List.mem_cons.mp hg with rfl | hg
      · exact ⟨k, hk, rfl⟩
      · exact h.opened g hg
    refine ⟨_, mem_setRecord.mpr ⟨k', hk', rfl⟩, ?_⟩
    split_ifs <;> exact haddr
  whole g hg := by
    rcases List.mem_cons.mp hg with rfl | hg
    · exact hwhole
    · exact h.whole g hg
  exclusive := by
    -- the key's own records are not looked at, those of other keys were
    have hnew : ∀ g ∈ s.granted, k.addr ≠ g.key → k.ainoUniq = g.inode →
        isExclusive lr.mode = true ∨ isExclusive g.mode = true →
        ¬ Overlap lr.pos lr.len g.pos g.len := by
      intro g hg hkey hino hexcl
      have hwhole' := h.whole g hg
      obtain ⟨k2, hk2, lr2, hlr2, rfl⟩ := h.record_of_granted hg
      exact not_overlap_of_recordHit hhit hk2 hkey.symm hino.symm hlr2 hexcl hwhole hwhole'
    intro g hg g' hg' hkey hino hexcl
    rcases List.mem_cons.mp hg with rfl | hg <;> rcases List.mem_cons.mp hg' with rfl | hg'
    · exact absurd rfl hkey
    · exact hnew g' hg' hkey hino hexcl
    · exact fun hover => hnew g hg hkey.symm hino.symm hexcl.symm hover.symm
    · exact h.exclusive g hg g' hg' hkey hino hexcl

theorem Session.Inv.lock {s : Session} (h : s.Inv) (ticks : UInt32 → UInt32) (arg1 : UInt32)
    {pos len : UInt64} (hwhole : Whole pos len) (mode timeout msg : UInt32) :
    (s.lock (actionLockRecord64 ticks s.unit arg1 pos len mode timeout msg) arg1 pos len mode
      msg).Inv := by
  cases hk : s.unit.lookupKey arg1 with
  | none =>
    refine h.congr ?_ ?_
    · simp only [Session.lock, hk, actionLockRecord64]
    · simp only [Session.lock, hk]
  | some k =>
    rcases actionLockRecord64_cases ticks hk pos len mode timeout msg with
      ⟨e, hdone⟩ | ⟨lr, hdone⟩ | ⟨hhit, lr, rfl, rfl, rfl, hdone⟩
    · refine h.congr ?_ ?_ <;> simp only [Session.lock, hk, hdone]
    · refine h.congr ?_ ?_ <;> simp only [Session.lock, hk, hdone]
    · simp only [Session.lock, hk, hdone]
      exact h.grant (lookupKey_mem hk) hhit hwhole

/-- 32-bit ranges end below `2^64`. -/
theorem whole_of_uint32 (pos len : UInt32) : Whole pos.toUInt64 len.toUInt64 := by
  have hpos := pos.toNat_lt
  have hlen := len.toNat_lt
  rw [Whole, UInt32.toNat_toUInt64, UInt32.toNat_toUInt64]
  omega

/-! ### Freeing -/

theorem freeLoop_eq_none {pos len : UInt64} {record : List LockRecord}
    (h : ∀ lr ∈ record, isRecord pos len lr = false) : freeLoop pos len record = none := by
  induction record with
  | nil => rfl
  | cons lr rest ih =>
    rw [freeLoop, h lr List.mem_cons_self, if_neg Bool.false_ne_true]
    exact ih fun x hx => h x (List.mem_cons_of_mem _ hx)

/-- The loop frees the record at the head of the list. -/
theorem freeLoop_newest {pos len : UInt64} {record : List LockRecord}
    (h : ∀ i, record.findIdx? (isRecord pos len) = some i → i = 0) :
    (freeLoop pos len record = none ∧ ∀ lr ∈ record, isRecord pos len lr = false) ∨
    ∃ lr rest, record = lr :: rest ∧ isRecord pos len lr = true ∧
      freeLoop pos len record = some rest := by
  cases record with
  | nil => exact .inl ⟨rfl, by simp⟩
  | cons lr rest =>
    cases hlr : isRecord pos len lr with
    | true => exact .inr ⟨lr, rest, rfl, hlr, by rw [freeLoop, if_pos hlr]⟩
    | false =>
      left
      have hrest : ∀ lr' ∈ rest, isRecord pos len lr' = false := by
        intro lr' hlr'
        by_contra hne
        obtain ⟨i, hi⟩ : ∃ i, rest.findIdx? (isRecord pos len) = some i := by
          rw [← Option.isSome_iff_exists, List.findIdx?_isSome, List.any_eq_true]
          exact ⟨lr', hlr', by simpa using hne⟩
        -- a match further down is not the newest record
        have hlater := h (i + 1) (by simp [List.findIdx?_cons, hlr, hi])
        omega
      have hall : ∀ lr' ∈ lr :: rest, isRecord pos len lr' = false :=
        List.forall_mem_cons.mpr ⟨hlr, hrest⟩
      exact ⟨freeLoop_eq_none hall, hall⟩

/-- What `action_free_record64` does to an open handle whose newest record is freed. -/
theorem actionFreeRecord64_newest {unit : FsUnit} {arg1 : UInt32} {pos len : UInt64}
    {waiting : LockRecord → UInt32} (h : FreesNewest unit arg1 pos len waiting) {k : Key}
    (hk : unit.lookupKey arg1 = some k) :
    (actionFreeRecord64 unit arg1 pos len waiting =
        .ok (unit, [], .failure .recordNotLocked) ∧
      ∀ lr ∈ k.record, isRecord pos len lr = false) ∨
    ∃ lr rest, k.record = lr :: rest ∧ isRecord pos len lr = true ∧
      actionFreeRecord64 unit arg1 pos len waiting =
        .ok (unit.setRecord k.addr rest, [], .success) := by
  rcases freeLoop_newest fun i hi => (h k i hk hi).1 with
    ⟨hloop, hnone⟩ | ⟨lr, rest, hrecord, hlr, hloop⟩
  · exact .inl ⟨by simp only [actionFreeRecord64, hk, hloop], hnone⟩
  · have hquiet := (h k 0 hk (by simp [hrecord, List.findIdx?_cons, hlr])).2
    rw [hrecord, List.tail_cons] at hquiet
    refine .inr ⟨lr, rest, hrecord, hlr, ?_⟩
    simp only [actionFreeRecord64, hk, hloop]
    rw [recordCheckWaiting_none hquiet]
    rfl

theorem FreesNewest.freesOne {s : Session} (hinv : s.Inv) {arg1 : UInt32} {pos len : UInt64}
    {waiting : LockRecord → UInt32} (h : FreesNewest s.unit arg1 pos len waiting) :
    FreesOne s.unit arg1 pos len waiting := by
  intro k hk
  have hmatch : ∀ lr : LockRecord, isRecord pos len lr = false ↔ ¬ (lr.pos = pos ∧ lr.len = len) :=
    fun lr => by simp [isRecord]
  rcases actionFreeRecord64_newest h hk with ⟨hfree, hnone⟩ | ⟨lr, rest, hrecord, hlr, hfree⟩
  · refine ⟨_, _, _, hfree, iff_of_true rfl fun lr hlr => (hmatch lr).mp (hnone lr hlr), ?_⟩
    rw [List.eraseP_of_forall_not fun lr hlr => by rw [hnone lr hlr]; exact Bool.false_ne_true]
    exact (setRecord_self hinv.addrs (lookupKey_mem hk)).symm
  · refine ⟨_, _, _, hfree, iff_of_false (fun heq => by cases heq) fun hnone => ?_, ?_⟩
    · have hne := (hmatch lr).mpr (hnone lr (hrecord ▸ List.mem_cons_self))
      rw [hlr] at hne
      cases hne
    · rw [hrecord, List.eraseP_cons_of_pos hlr]

/-- The newest record of a handle may be taken away. -/
theorem Session.Inv.ungrant {s : Session} (h : s.Inv) {k : Key} (hk : k ∈ s.unit.keys)
    {lr : LockRecord} {rest : List LockRecord} (hrecord : k.record = lr :: rest)
    {pos len : UInt64} (hlr : isRecord pos len lr = true) {granted : List Grant}
    (hgranted : granted = s.granted.eraseP fun g =>
      g.key == k.addr && (g.pos == pos && g.len == len)) :
    Session.Inv { s with unit := s.unit.setRecord k.addr rest, granted } := by
  have hsub : ∀ g ∈ granted, g ∈ s.granted := fun g hg =>
    List.mem_of_mem_eraseP (hgranted ▸ hg)
  refine ⟨?_, fun k' hk' => ?_, fun g hg => ?_, fun g hg => h.whole g (hsub g hg),
    fun g hg g' hg' => h.exclusive g (hsub g hg) g' (hsub g' hg')⟩
  · rw [map_addr_setRecord]
    exact h.addrs
  · obtain ⟨k₀, hk₀, rfl⟩ := mem_setRecord.mp hk'
    by_cases haddr : k₀.addr = k.addr
    · obtain rfl := key_eq_of_addr h.addrs hk₀ hk haddr
      have hstored := h.stored k₀ hk₀
      rw [hrecord, List.map_cons] at hstored
      have hcomm : (fun g : Grant => g.key == k₀.addr && (g.pos == pos && g.len == len)) =
          fun g => (g.pos == pos && g.len == len) && g.key == k₀.addr :=
        funext fun g => Bool.and_comm _ _
      rw [if_pos rfl, hgranted, hcomm]
      refine (List.eraseP_filter (f := fun g : Grant => g.key == k₀.addr)).symm.trans ?_
      rw [hstored]
      exact List.eraseP_cons_of_pos (p := fun g : Grant => g.pos == pos && g.len == len) hlr
    · rw [if_neg haddr, hgranted]
      refine (filter_eraseP_of_not (p := fun g : Grant => g.key == k₀.addr) (fun g hg => ?_)
        s.granted).trans (h.stored k₀ hk₀)
      rw [Bool.and_eq_true] at hg
      rw [eq_of_beq hg.1]
      exact beq_eq_false_iff_ne.mpr (Ne.symm haddr)
  · obtain ⟨k', hk', haddr⟩ := h.opened g (hsub g hg)
    refine ⟨_, mem_setRecord.mpr ⟨k', hk', rfl⟩, ?_⟩
    split_ifs <;> exact haddr

theorem Session.complete_nil (s : Session) : s.complete [] = s := by
  cases s
  simp [Session.complete]

theorem Session.Inv.free {s : Session} (h : s.Inv) {arg1 : UInt32} {pos len : UInt64}
    {waiting : LockRecord → UInt32} (hfree : FreesNewest s.unit arg1 pos len waiting) :
    ∃ done, actionFreeRecord64 s.unit arg1 pos len waiting = .ok done ∧
      (s.free done arg1 pos len).Inv := by
  cases hk : s.unit.lookupKey arg1 with
  | none =>
    refine ⟨(s.unit, [], .failure .objectWrongType), by simp only [actionFreeRecord64, hk], ?_⟩
    simp only [Session.free, hk]
    exact h.congr rfl rfl
  | some k =>
    rcases actionFreeRecord64_newest hfree hk with ⟨hdone, -⟩ | ⟨lr, rest, hrecord, hlr, hdone⟩
    · refine ⟨_, hdone, ?_⟩
      simp only [Session.free, hk]
      exact h.congr rfl rfl
    · refine ⟨_, hdone, ?_⟩
      simp only [Session.free, hk, Session.complete_nil]
      exact h.ungrant (lookupKey_mem hk) hrecord hlr rfl

/-! ### Closing and timing out -/

theorem Session.Inv.close {s : Session} (h : s.Inv) (arg1 : UInt32) : (s.close arg1).Inv := by
  cases hk : s.unit.lookupKey arg1 with
  | none => refine h.congr ?_ ?_ <;> simp only [Session.close, actionEnd, hk]
  | some k =>
    simp only [Session.close, actionEnd, hk, freeKey]
    have hsub : ∀ g ∈ s.granted.filter fun g => g.key != k.addr, g ∈ s.granted := fun g hg =>
      (List.mem_filter.mp hg).1
    refine ⟨?_, fun k' hk' => ?_, fun g hg => ?_, fun g hg => h.whole g (hsub g hg),
      fun g hg g' hg' => h.exclusive g (hsub g hg) g' (hsub g' hg')⟩
    · exact h.addrs.sublist (List.filter_sublist.map Key.addr)
    · obtain ⟨hk', haddr⟩ := List.mem_filter.mp hk'
      rw [← h.stored k' hk', List.filter_filter]
      refine List.filter_congr fun g _ => ?_
      rw [Bool.and_eq_left_iff_imp, bne_iff_ne]
      intro heq
      rw [eq_of_beq heq]
      exact of_decide_eq_true haddr
    · obtain ⟨hg, hne⟩ := List.mem_filter.mp hg
      obtain ⟨k', hk', haddr⟩ := h.opened g hg
      refine ⟨k', List.mem_filter.mpr ⟨hk', decide_eq_true ?_⟩, haddr⟩
      rw [haddr]
      exact bne_iff_ne.mp hne

/-! ### Runs -/

/-- Every careful packet and every heartbeat keeps the invariant. -/
theorem careful_invariant (ticks : UInt32 → UInt32) :
    (carefulMachine ticks).Invariant Session.Inv := by
  intro s packet hs hcareful
  cases packet with
  | lockRecord arg1 pos len mode timeout msg =>
    exact ⟨_, rfl, hs.lock ticks arg1 (whole_of_uint32 pos len) mode timeout msg⟩
  | lockRecord64 arg1 pos len mode timeout msg =>
    exact ⟨_, rfl, hs.lock ticks arg1 hcareful mode timeout msg⟩
  | freeRecord arg1 pos len waiting =>
    obtain ⟨done, hdone, hs'⟩ := hs.free hcareful
    refine ⟨_, ?_, hs'⟩
    change (do let done ← actionFreeRecord64 s.unit arg1 pos.toUInt64 len.toUInt64 waiting; _) = _
    rw [hdone]
    rfl
  | freeRecord64 arg1 pos len waiting =>
    obtain ⟨done, hdone, hs'⟩ := hs.free hcareful
    refine ⟨_, ?_, hs'⟩
    change (do let done ← actionFreeRecord64 s.unit arg1 pos len waiting; _) = _
    rw [hdone]
    rfl
  | close arg1 => exact ⟨_, rfl, hs.close arg1⟩
  | tick => exact ⟨_, rfl, hs.congr rfl rfl⟩

/-- Two handles on one file. -/
def twoHandles : Session where
  unit :=
    { keys := [⟨0x1000, 1, 7, []⟩, ⟨0x2000, 2, 7, []⟩]
      waitingrecords := [] }
  granted := []
  pending := []

theorem twoHandles_opened : Opened twoHandles where
  addrs := by decide
  unlocked := by decide
  waitingrecords := rfl
  granted := rfl
  pending := rfl

/-- One handle has bytes that the other waits for, and frees a second record of its own. -/
def waitingPackets : List Packet :=
  [.lockRecord 1 0 10 0 0 5, .lockRecord 2 5 10 0 50 6, .lockRecord64 1 20 10 0 0 7, .tick,
    .freeRecord 1 20 10 fun _ => 2, .lockRecord 2 20 5 2 0 8]

instance (ticks : UInt32 → UInt32) (s : Session) (packet : Packet) :
    Decidable ((recordMachine ticks).legal s packet) :=
  inferInstanceAs (Decidable True)

end LibretroUae.Filesys
