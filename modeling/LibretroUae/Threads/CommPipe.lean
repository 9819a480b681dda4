import LibretroUae.Lib.Ring

/-!
# LibretroUae.Threads.CommPipe

**The pipes between threads.** One thread writes values into a ring and another one takes them
out. Each sleeps on a semaphore of its own when it cannot go on, and a lock keeps them apart, but
for one case: while the reader sleeps the writer does without.

A step is one access to what both threads see, so that a run is any order in which the statements
of the two can come. What is written is kept in `sent` from the call on, what is read in `received`
once the call has returned.
-/

namespace LibretroUae.Threads

open LibretroUae.Lib (Ring)

variable {α : Type} {size : Nat}

/-- Where the writer is in `write_comm_pipe_pt`. What it does to the ring it does with the lock or
without it. -/
inductive Writer (α : Type)
  | idle
  /-- `if (p->reader_waiting)`. -/
  | entered (data : α)
  | lock (data : α)
  | testFull (data : α)
  | setWaiting (data : α)
  | unlockFull (data : α)
  | sleep (data : α)
  | relock (data : α)
  /-- `p->data[p->wrp] = data`. -/
  | put (locked : Bool) (data : α)
  /-- `p->wrp = nxwrp`. -/
  | move (locked : Bool) (data : α)
  /-- `maybe_wake_reader` looks at `reader_waiting`. -/
  | check (locked : Bool) (data : α)
  /-- It looks at `rdp`. -/
  | count (locked : Bool) (data : α)
  | wake (locked : Bool)
  | post (locked : Bool)
  | unlock
  deriving DecidableEq

/-- Where the reader is in `read_comm_pipe_pt_blocking`. -/
inductive Reader (α : Type)
  | idle
  | lock
  | testEmpty
  | setWaiting
  | unlockEmpty
  | sleep
  | relock
  | take
  /-- `p->rdp = (p->rdp + 1) % p->size`. -/
  | move (data : α)
  /-- `if (p->writer_waiting)`. -/
  | check (data : α)
  | wake (data : α)
  | post (data : α)
  | unlock (data : α)
  deriving DecidableEq

/-- A pipe with the two threads at it. The ring holds `data`, `wrp` and `rdp`. -/
structure CommPipe (α : Type) (size : Nat) where
  ring : Ring α size
  lock : Nat
  readerWait : Nat
  writerWait : Nat
  writerWaiting : Bool
  readerWaiting : Bool
  writer : Writer α
  reader : Reader α
  sent : List α
  received : List α

/-- `init_comm_pipe`. -/
def initCommPipe (slots : Nat → α) (h : 0 < size) : CommPipe α size where
  ring := .empty slots h
  lock := 1
  readerWait := 0
  writerWait := 0
  writerWaiting := false
  readerWaiting := false
  writer := .idle
  reader := .idle
  sent := []
  received := []

/-- `uae_sem_wait`, for a semaphore that has been posted `sem` times: `none` is to wait. -/
def semWait (sem : Nat) : Option Nat :=
  if sem = 0 then none else some (sem - 1)

/-- `(p->wrp - p->rdp + p->size) % p->size`. -/
def level (r : Ring α size) : Nat :=
  ((r.first : Int) - r.last + size).toNat % size

/-- The writer behind `maybe_wake_reader`. -/
def Writer.woken (locked : Bool) : Writer α :=
  if locked then .unlock else .idle

variable (noBuffer : α → Bool) (chunks : Nat)

/-- One statement of `write_comm_pipe_pt`. -/
def writerStep (p : CommPipe α size) : Option (CommPipe α size) :=
  match p.writer with
  | .idle => none
  | .entered data =>
    -- No need to do all the locking while the reader sleeps.
    some { p with writer := if p.readerWaiting then .put false data else .lock data }
  | .lock data => (semWait p.lock).map fun lock => { p with lock, writer := .testFull data }
  | .testFull data =>
    some { p with writer := if p.ring.isFull then .setWaiting data else .put true data }
  | .setWaiting data => some { p with writerWaiting := true, writer := .unlockFull data }
  | .unlockFull data => some { p with lock := p.lock + 1, writer := .sleep data }
  | .sleep data =>
    (semWait p.writerWait).map fun writerWait => { p with writerWait, writer := .relock data }
  | .relock data => (semWait p.lock).map fun lock => { p with lock, writer := .put true data }
  | .put locked data => some { p with ring := p.ring.store data, writer := .move locked data }
  | .move locked data => some { p with ring := p.ring.advance, writer := .check locked data }
  | .check locked data =>
    some { p with writer := if p.readerWaiting then .count locked data else .woken locked }
  | .count locked data =>
    some { p with
      writer :=
        if noBuffer data || chunks ≤ level p.ring then .wake locked else .woken locked }
  | .wake locked => some { p with readerWaiting := false, writer := .post locked }
  | .post locked =>
    some { p with readerWait := p.readerWait + 1, writer := .woken locked }
  | .unlock => some { p with lock := p.lock + 1, writer := .idle }

/-- One statement of `read_comm_pipe_pt_blocking`. -/
def readerStep (p : CommPipe α size) : Option (CommPipe α size) :=
  match p.reader with
  | .idle => none
  | .lock => (semWait p.lock).map fun lock => { p with lock, reader := .testEmpty }
  | .testEmpty =>
    some { p with reader := if p.ring.isEmpty then .setWaiting else .take }
  | .setWaiting => some { p with readerWaiting := true, reader := .unlockEmpty }
  | .unlockEmpty => some { p with lock := p.lock + 1, reader := .sleep }
  | .sleep =>
    (semWait p.readerWait).map fun readerWait => { p with readerWait, reader := .relock }
  | .relock => (semWait p.lock).map fun lock => { p with lock, reader := .take }
  | .take => some { p with reader := .move p.ring.front }
  | .move data => some { p with ring := p.ring.pop, reader := .check data }
  | .check data =>
    some { p with reader := if p.writerWaiting then .wake data else .unlock data }
  | .wake data => some { p with writerWaiting := false, reader := .post data }
  | .post data => some { p with writerWait := p.writerWait + 1, reader := .unlock data }
  | .unlock data =>
    some { p with lock := p.lock + 1, reader := .idle, received := p.received ++ [data] }

/-- What can happen at a pipe: a call, or the next statement of a call that has begun. -/
inductive Act (α : Type)
  | write (data : α)
  | read
  | writer
  | reader

/-- What comes of it: `none` is an act that cannot happen. -/
def step (p : CommPipe α size) : Act α → Option (CommPipe α size)
  | .write data =>
    match p.writer with
    | .idle => some { p with writer := .entered data, sent := p.sent ++ [data] }
    | _ => none
  | .read =>
    match p.reader with
    | .idle => some { p with reader := .lock }
    | _ => none
  | .writer => writerStep noBuffer chunks p
  | .reader => readerStep p

/-- One act after the other. -/
def run (p : CommPipe α size) (acts : List (Act α)) : Option (CommPipe α size) :=
  acts.foldlM (step noBuffer chunks) p

/-! ### What the two are at -/

namespace Writer

/-- Does the writer have the lock. -/
def holds : Writer α → Nat
  | testFull _ | setWaiting _ | unlockFull _ | unlock => 1
  | put locked _ | move locked _ | check locked _ | count locked _ | wake locked | post locked =>
    locked.toNat
  | _ => 0

/-- Does it wait for room, or is about to. -/
def asleep : Writer α → Nat
  | unlockFull _ | sleep _ => 1
  | _ => 0

/-- Is it about to wake the reader. -/
def posts : Writer α → Nat
  | post _ => 1
  | _ => 0

@[simp] theorem posts_woken (locked : Bool) : (woken locked : Writer α).posts = 0 := by
  cases locked <;> rfl

/-- Does it know that the reader waits. -/
def alerted : Writer α → Bool
  | put locked _ | move locked _ | check locked _ => !locked
  | count _ _ | wake _ => true
  | _ => false

/-- Has it got to have room. -/
def needsRoom : Writer α → Bool
  | put _ _ | move _ _ | relock _ => true
  | _ => false

/-- Has it moved on and not yet seen to the reader. -/
def moved : Writer α → Bool
  | check _ _ | count _ _ | wake _ => true
  | _ => false

/-- What it has still to put into the ring. -/
def hand : Writer α → List α
  | entered data | lock data | testFull data | setWaiting data | unlockFull data | sleep data
  | relock data | put _ data | move _ data => [data]
  | _ => []

end Writer

namespace Reader

/-- Does the reader have the lock. -/
def holds : Reader α → Nat
  | testEmpty | setWaiting | unlockEmpty | take | move _ | check _ | wake _ | post _ | unlock _ => 1
  | _ => 0

/-- Does it wait for a value, or is about to. -/
def asleep : Reader α → Nat
  | unlockEmpty | sleep => 1
  | _ => 0

/-- Is it about to wake the writer. -/
def posts : Reader α → Nat
  | post _ => 1
  | _ => 0

/-- Has it got to have a value. -/
def needsValue : Reader α → Bool
  | take | move _ | relock => true
  | _ => false

/-- Has it moved on and not yet seen to the writer. -/
def moved : Reader α → Bool
  | check _ | wake _ => true
  | _ => false

/-- What it has out of the ring and has not returned. -/
def hand : Reader α → List α
  | check data | wake data | post data | unlock data => [data]
  | _ => []

end Reader

end LibretroUae.Threads
