import LibretroUae.Lib.Machine

/-!
# LibretroUae.Filesys.ExamineNext

**Scans of a directory.** A client calls `ACTION_EXAMINE_NEXT` again and again; all it hands back
is the number of the entry it was given last, at first that of the directory. The first scan
reads the host directory into the list of children, and while there are scans the children are
locked: looking one up does not move it to the front, and none is flushed from the cache.

This is one directory of a unit: what is done to other directories leaves it alone. Which
numbers the hash table finds without a search, and which entries the host still has, is part
of a call.
-/

namespace LibretroUae.Filesys

open Lib

/-! ### The data -/

/-- A child, and whether it belongs to the volume that is mounted. -/
structure ExChild where
  uniq : UInt32
  nname : List UInt8
  current : Bool
  deriving DecidableEq, Repr

/-- An inode of a directory and `a_uniq`, the last number given out. -/
structure ExDir where
  uniq : UInt32
  children : List ExChild
  exnextCount : Int
  lockedChildren : Int
  aUniq : UInt32
  deriving DecidableEq, Repr

inductive ExReply
  | entry (uniq : UInt32)
  | noMoreEntries
  deriving DecidableEq, Repr

namespace ExDir

/-- `free_exkey`. -/
def freeExkey (d : ExDir) : ExDir :=
  { d with exnextCount := d.exnextCount - 1
           lockedChildren := if d.exnextCount - 1 = 0 then 0 else d.lockedChildren }

/-- `init_child_aino` for a new child. -/
def newChild (d : ExDir) (nname : List UInt8) : ExDir :=
  { d with children := ⟨d.aUniq + 1, nname, true⟩ :: d.children
           lockedChildren := if d.exnextCount ≠ 0 then d.lockedChildren + 1 else d.lockedChildren
           aUniq := d.aUniq + 1 }

/-- `lookup_child_aino_for_exnext`. -/
def lookupForExnext (d : ExDir) (nname : List UInt8) : ExDir :=
  if d.children.any fun c => c.nname = nname && c.current then d else d.newChild nname

/-- `populate_directory`; `host` is what the host lists, if it opens the directory. -/
def populate (d : ExDir) (host : Option (List (List UInt8))) : ExDir :=
  match host with
  | none => d
  | some names =>
    names.foldl lookupForExnext { d with lockedChildren := d.lockedChildren + d.children.length }

/-- The move to the front in `lookup_sub`. -/
def toFront (d : ExDir) (uniq : UInt32) : ExDir :=
  if d.lockedChildren = 0 then
    { d with children := (d.children.filter fun c => c.uniq = uniq) ++
               d.children.filter fun c => c.uniq ≠ uniq }
  else d

end ExDir

/-- The second search for a missing entry, for one before a larger number. -/
def previousEntry (uniq : UInt32) : List ExChild → Option ExChild
  | [] => none
  | c :: rest =>
    if uniq < c.uniq then some c
    else if rest.head?.any fun next => uniq ≤ next.uniq then some c
    else previousEntry uniq rest

/-- Where a scan goes on when its entry is missing. -/
def searchEntry (children : List ExChild) (uniq : UInt32) : Option ExChild :=
  match children.find? fun c => uniq < c.uniq with
  | some c => some c
  | none =>
    match previousEntry uniq children with
    | some c => some c
    | none => children.head?

/-- The children behind one. -/
def behind (children : List ExChild) (uniq : UInt32) : List ExChild :=
  (children.dropWhile fun c => c.uniq ≠ uniq).tail

namespace ExDir

/-- The child that follows a number, which is looked up. -/
def following (d : ExDir) (cached : UInt32 → Bool) (uniq : UInt32) : ExDir × Option ExChild :=
  if d.children.any fun c => c.uniq = uniq then
    let d := if cached uniq then d else d.toFront uniq
    (d, (behind d.children uniq).head?)
  else (d, searchEntry d.children uniq)

/-- The loop of `action_examine_next` from a child on: those of another volume and those that
the host has no more (`orphaned`) are passed over. -/
def examineFrom (cached existing : UInt32 → Bool) :
    Nat → ExDir → Option ExChild → Option (ExDir × ExReply)
  | _, d, none => some (d.freeExkey, .noMoreEntries)
  | 0, _, some _ => none
  | fuel + 1, d, some c =>
    if c.current && existing c.uniq then some (d, .entry c.uniq)
    else
      let next := d.following cached c.uniq
      examineFrom cached existing fuel next.1 next.2

/-- `action_examine_next` with the number of the directory. -/
def examineFirst (d : ExDir) (host : Option (List (List UInt8))) (cached existing : UInt32 → Bool) :
    Option (ExDir × ExReply) :=
  let d' := { d with exnextCount := d.exnextCount + 1 }
  let d' := if d.exnextCount = 0 then d'.populate host else d'
  examineFrom cached existing (d'.children.length + 1) d' d'.children.head?

/-- `action_examine_next` with the number of an entry. -/
def examineNext (d : ExDir) (cached existing : UInt32 → Bool) (uniq : UInt32) :
    Option (ExDir × ExReply) :=
  let next := d.following cached uniq
  examineFrom cached existing (d.children.length + 1) next.1 next.2

end ExDir

/-! ### Scans -/

/-- A scan: the entry it was given last, those that were behind it, those that have been there
since it began, and those it was given. -/
structure ExScan where
  id : Nat
  last : UInt32
  rest : List UInt32
  present : List UInt32
  returned : List UInt32
  deriving DecidableEq, Repr

/-- A directory with the scans that go on, how many were abandoned, and those that were run to
their end. -/
structure ExState where
  dir : ExDir
  scans : List ExScan
  abandoned : Nat
  finished : List ExScan
  deriving DecidableEq, Repr

inductive ExFault
  | unknownScan
  | endlessLoop
  deriving DecidableEq, Repr

/-- Calls of clients, a client that does not call again, what lookups, creations, deletions and the
cache do to the children, and a number given out in another directory. -/
inductive ExEvent
  | first (id : Nat) (host : Option (List (List UInt8))) (cached existing : UInt32 → Bool)
  | next (id : Nat) (cached existing : UInt32 → Bool)
  | abandon (id : Nat)
  | add (nname : List UInt8)
  | lookup (uniq : UInt32)
  | flush (uniqs : List UInt32)
  | delete (uniq : UInt32)
  | elsewhere

/-- A scan after a child is gone from the host. -/
def ExScan.without (sc : ExScan) (gone : UInt32 → Bool) : ExScan :=
  { sc with present := sc.present.filter fun u => !gone u }

/-- A scan after a call. -/
def ExScan.given (sc : ExScan) (children : List ExChild) (uniq : UInt32) : ExScan :=
  { sc with last := uniq, rest := (behind children uniq).map ExChild.uniq
            returned := sc.returned ++ [uniq] }

namespace ExState

/-- What a call leaves of its scan. -/
def answered (s : ExState) (sc : ExScan) (existing : UInt32 → Bool) :
    Option (ExDir × ExReply) → Except ExFault ExState
  | none => .error .endlessLoop
  | some (d, reply) =>
    let sc := sc.without fun u => !existing u
    let scans := (s.scans.filter fun x => x.id ≠ sc.id).map fun x => x.without fun u => !existing u
    match reply with
    | .entry uniq => .ok { s with dir := d, scans := sc.given d.children uniq :: scans }
    | .noMoreEntries => .ok { s with dir := d, scans, finished := sc :: s.finished }

def step (s : ExState) : ExEvent → Except ExFault ExState
  | .first id host cached existing =>
    let result := s.dir.examineFirst host cached existing
    let children := (result.map fun r => r.1.children).getD []
    s.answered ⟨id, s.dir.uniq, [], (children.filter ExChild.current).map ExChild.uniq, []⟩ existing
      result
  | .next id cached existing =>
    match s.scans.find? fun sc => sc.id == id with
    | none => .error .unknownScan
    | some sc => s.answered sc existing (s.dir.examineNext cached existing sc.last)
  | .abandon id =>
    .ok { s with scans := s.scans.filter fun sc => sc.id ≠ id, abandoned := s.abandoned + 1 }
  | .add nname => .ok { s with dir := s.dir.newChild nname }
  | .lookup uniq => .ok { s with dir := s.dir.toFront uniq }
  | .flush uniqs =>
    .ok (if s.dir.lockedChildren = 0 then
      { s with dir := { s.dir with children := s.dir.children.filter fun c => c.uniq ∉ uniqs } }
    else s)
  | .delete uniq =>
    .ok { s with dir := { s.dir with children := s.dir.children.filter fun c => c.uniq ≠ uniq }
                 scans := s.scans.map fun sc => sc.without fun u => u = uniq }
  | .elsewhere => .ok { s with dir := { s.dir with aUniq := s.dir.aUniq + 1 } }

end ExState

/-- Calls belong to scans. -/
def ExEvent.Legal (s : ExState) : ExEvent → Prop
  | .first id .. => ∀ sc ∈ s.scans, sc.id ≠ id
  | .next id .. => ∃ sc ∈ s.scans, sc.id = id
  | .abandon id => ∃ sc ∈ s.scans, sc.id = id
  | .add _ => True
  | .lookup _ => True
  | .flush _ => True
  | .delete _ => True
  | .elsewhere => True

instance ExEvent.decidableLegal (s : ExState) : (e : ExEvent) → Decidable (e.Legal s)
  | .first id .. => inferInstanceAs (Decidable (∀ sc ∈ s.scans, sc.id ≠ id))
  | .next id .. => inferInstanceAs (Decidable (∃ sc ∈ s.scans, sc.id = id))
  | .abandon id => inferInstanceAs (Decidable (∃ sc ∈ s.scans, sc.id = id))
  | .add _ => inferInstanceAs (Decidable True)
  | .lookup _ => inferInstanceAs (Decidable True)
  | .flush _ => inferInstanceAs (Decidable True)
  | .delete _ => inferInstanceAs (Decidable True)
  | .elsewhere => inferInstanceAs (Decidable True)

def exMachine : Machine ExState ExEvent ExFault where
  legal := fun s e => e.Legal s
  step := ExState.step

instance (s : ExState) (e : ExEvent) : Decidable (exMachine.legal s e) :=
  inferInstanceAs (Decidable (e.Legal s))

/-! ### What scans are for -/

/-- A scan that was run to its end was given every entry that was there all the time once. -/
def ExScan.Complete (sc : ExScan) : Prop := ∀ u ∈ sc.present, sc.returned.count u = 1

/-- The scans of a directory are right, and so are its counts. -/
structure ExState.Listed (s : ExState) : Prop where
  complete : ∀ sc ∈ s.finished, sc.Complete
  exnextCount : 0 ≤ s.dir.exnextCount
  lockedChildren : 0 ≤ s.dir.lockedChildren

/-- A scan that starts when there is no other reads the host directory. -/
def Rereads (s s' : ExState) (e : ExEvent) : Prop :=
  ∀ id names cached existing, e = .first id (some names) cached existing → s.scans = [] →
    ∀ n ∈ names, ∃ c ∈ s'.dir.children, c.nname = n ∧ c.current = true

/-- A directory nobody looks at. -/
structure ExState.Start (s : ExState) : Prop where
  scans : s.scans = []
  abandoned : s.abandoned = 0
  finished : s.finished = []
  exnextCount : s.dir.exnextCount = 0
  lockedChildren : s.dir.lockedChildren = 0
  uniqs : (s.dir.children.map ExChild.uniq).Nodup
  given : ∀ c ∈ s.dir.children, c.uniq ≤ s.dir.aUniq

end LibretroUae.Filesys
