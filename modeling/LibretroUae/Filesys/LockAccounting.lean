import LibretroUae.Filesys.Locks
import Mathlib.Data.List.Perm.Basic

/-!
# LibretroUae.Filesys.LockAccounting

**Every mark is a lock or a handle.** A session is a unit together with the locks its clients
hold. In every run in which a lock or handle is only made shared when it was exclusive, renames
leave no handle behind and inode numbers do not repeat, an inode with `elock` has one lock or
handle and `shlock` is zero, any other inode has `shlock` locks and handles, and the chain holds
the locks held.
-/

namespace LibretroUae.Filesys

open Lib

/-! ### Sessions -/

structure LockSession where
  unit : LockUnit
  /-- The locks that clients were given and have not handed back. -/
  held : List Nat
  deriving DecidableEq, Repr

/-- A packet with what the path lookups and the host make of it. -/
inductive LockPacket
  | locateObject (found : Found) (link : FsError) (mode : Int)
  | freeLock (lock : Nat)
  | copyDir (lock : Nat)
  | copyDirFh (fh : UInt32)
  | parent (lock : Nat)
  | parentFh (fh : UInt32)
  | createDir (found : Found) (host : Created)
  | findInput (found : Found) (link : FsError) (host : Created)
  | findOutput (found : Found) (link : FsError) (host : Created)
  | findWrite (found : Found) (link : FsError) (host : Created)
  | fhFromLock (lock : Nat) (link : FsError) (opened : Bool) (errno : Int)
  | endKey (fh : UInt32)
  | changeModeLock (lock : Nat) (mode : Int)
  | changeModeFh (fh : UInt32) (mode : Int)
  | renameObject (found1 found2 : Found) (r : Renaming)

/-- What happens to a unit: a packet with the free locks the message loop hands over, free
locks sent back, and the cache making and flushing inodes. -/
inductive LockEvent
  | packet (morelocks : List Nat) (p : LockPacket)
  | sendBack
  | lookup (a : Aino)
  | flush (addr : Nat)

/-- `handle_packet`. -/
def handlePacket (u : LockUnit) : LockPacket → Except LockFault (LockUnit × LockReply)
  | .locateObject found link mode => actionLock u found link mode
  | .freeLock lock => .ok (actionFreeLock u lock)
  | .copyDir lock => actionDupLock u lock
  | .copyDirFh fh => actionLockFromFh u fh
  | .parent lock => actionParent u lock
  | .parentFh fh => actionParentFh u fh
  | .createDir found host => actionCreateDir u found host
  | .findInput found link host => actionFindInput u found link host
  | .findOutput found link host => actionFindOutput u found link host
  | .findWrite found link host => actionFindWrite u found link host
  | .fhFromLock lock link opened errno => .ok (actionFhFromLock u lock link opened errno)
  | .endKey fh => actionEndKey u fh
  | .changeModeLock lock mode => .ok (actionChangeModeLock u lock mode)
  | .changeModeFh fh mode => actionChangeModeFh u fh mode
  | .renameObject found1 found2 r => actionRename u found1 found2 r

/-- The lock that a client hands back with a packet, if the packet succeeds. -/
def LockPacket.handsBack : LockPacket → Option Nat
  | .freeLock lock => some lock
  | .fhFromLock lock _ _ _ => some lock
  | _ => none

namespace LockSession

/-- The locks held after a reply. -/
def heldAfter (held : List Nat) (p : LockPacket) : LockReply → List Nat
  | .lock l => l :: held
  | .failed _ => held
  | .done => match p.handsBack with
    | none => held
    | some l => held.erase l

def step (s : LockSession) : LockEvent → Except LockFault LockSession
  | .packet morelocks p =>
    (handlePacket { s.unit with locklist := morelocks ++ s.unit.locklist } p).map fun done =>
      { unit := done.1, held := heldAfter s.held p done.2 }
  | .sendBack => .ok { s with unit := { s.unit with locklist := [] } }
  | .lookup a => .ok { s with unit := { s.unit with ainos := a :: s.unit.ainos } }
  | .flush addr => .ok { s with unit := s.unit.dispose addr }

end LockSession

/-! ### What the environment promises -/

/-- `find_aino` returns an inode of the unit. -/
def Found.Live (f : Found) (u : LockUnit) : Prop :=
  (f.err = none → f.aino ≠ none) ∧ ∀ addr, f.aino = some addr → ∃ a ∈ u.ainos, a.addr = addr

/-- A new inode has an address of its own. -/
def FreshAddr (u : LockUnit) (made : Option (Nat × UInt32)) : Prop :=
  ∀ addr uniq, made = some (addr, uniq) → ∀ a ∈ u.ainos, a.addr ≠ addr

/-- Packets use locks and handles that are there. -/
def LockPacket.Valid (u : LockUnit) (held : List Nat) : LockPacket → Prop
  | .locateObject found _ _ => found.Live u
  | .freeLock lock => lock ∈ held
  | .copyDir lock => lock ∈ held
  | .copyDirFh fh => ∃ k ∈ u.keys, k.uniq = fh
  | .parent lock => lock ∈ held
  | .parentFh fh => ∃ k ∈ u.keys, k.uniq = fh
  | .createDir found host => found.Live u ∧ FreshAddr u host.made
  | .findInput found _ host => found.Live u ∧ FreshAddr u host.made
  | .findOutput found _ host => found.Live u ∧ FreshAddr u host.made
  | .findWrite found _ host => found.Live u ∧ FreshAddr u host.made
  | .fhFromLock lock _ _ _ => lock ∈ held
  | .endKey fh => ∃ k ∈ u.keys, k.uniq = fh
  | .changeModeLock lock _ => lock ∈ held
  | .changeModeFh fh _ => ∃ k ∈ u.keys, k.uniq = fh
  | .renameObject found1 found2 r => found1.Live u ∧ found2.Live u ∧ FreshAddr u r.made ∧
    ∀ addr ∈ r.lookupFlush ++ r.notifyFlush, ∀ a ∈ u.ainos, a.addr = addr →
      a.shlock ≤ 0 ∧ a.elock = false

/-- Locks handed over are free, new inodes are unmarked, and marked ones are not flushed. -/
def LockEvent.Legal (s : LockSession) : LockEvent → Prop
  | .packet morelocks p => morelocks ≠ [] ∧ (morelocks ++ s.unit.locklist).Nodup ∧
    (∀ l ∈ morelocks, ∀ lock ∈ s.unit.locks, lock.addr ≠ l + 4) ∧ p.Valid s.unit s.held
  | .sendBack => True
  | .lookup a => (∀ b ∈ s.unit.ainos, b.addr ≠ a.addr) ∧ a.shlock = 0 ∧ a.elock = false
  | .flush addr => ∀ a ∈ s.unit.ainos, a.addr = addr → a.shlock ≤ 0 ∧ a.elock = false

def lockMachine : Machine LockSession LockEvent LockFault where
  legal := fun s e => e.Legal s
  step := LockSession.step

/-! ### What clients rely on -/

/-- The locks and handles on an inode. -/
def refs (locks : List Lock) (keys : List FileKey) (a : Aino) : Nat :=
  (locks.countP fun l => l.uniq == a.uniq) + keys.countP fun k => k.aino == a.addr

def LockUnit.refs (u : LockUnit) (a : Aino) : Nat := Filesys.refs u.locks u.keys a

/-- The marks of an inode say how often it is referred to. -/
def Counts (shlock : Int) (elock : Bool) (n : Nat) : Prop :=
  if elock then shlock = 0 ∧ n = 1 else shlock = n

instance (shlock : Int) (elock : Bool) (n : Nat) : Decidable (Counts shlock elock n) :=
  inferInstanceAs (Decidable (if elock then shlock = 0 ∧ n = 1 else shlock = n))

/-- The accounts of a unit are right: the marks of every inode, which is unmarked, locked
exclusively and deleted exactly when nothing refers to it, and the chain. -/
structure Accounted (s : LockSession) : Prop where
  marks : ∀ a ∈ s.unit.ainos, Counts a.shlock a.elock (s.unit.refs a)
  unmarked : ∀ a ∈ s.unit.ainos, s.unit.refs a = 0 ↔ a.shlock = 0 ∧ a.elock = false
  lockable : ∀ a ∈ s.unit.ainos, a.softlink = false → ∀ link,
    actionLock s.unit ⟨some a.addr, none⟩ link exclusiveLock =
      .ok (s.unit, .failed .objectInUse) ↔ s.unit.refs a ≠ 0
  deletable : ∀ a ∈ s.unit.ainos, s.unit.writeprotected = false →
    a.amigaosMode &&& fibfDelete = 0 → ∀ removed errno,
      actionDeleteObject s.unit ⟨some a.addr, none⟩ removed errno =
        .ok (s.unit, .failed .objectInUse) ↔ s.unit.refs a ≠ 0
  chain : s.unit.locks.map Lock.addr = s.held
  disjoint : ∀ l ∈ s.unit.locks, ∀ f ∈ s.unit.locklist, l.addr ≠ f + 4

/-! ### When they are right -/

/-- A new inode has a number of its own. -/
def FreshUniq (u : LockUnit) (made : Option (Nat × UInt32)) : Prop :=
  ∀ addr uniq, made = some (addr, uniq) → ∀ a ∈ u.ainos, a.uniq ≠ uniq

/-- `action_rename_object` gets as far as the host. -/
def RenameProceeds (u : LockUnit) (found1 found2 : Found) (r : Renaming) : Prop :=
  u.writeprotected = false ∧ found1.err = none ∧
    (∀ k ∈ u.keys, ¬ (found1.aino = some k.aino ∧ k.fd = true ∧ k.createmode = 2)) ∧
    (if found2.aino = found1.aino then r.exact = false
      else found2.aino ≠ none ∧ found2.err = some .objectNotAround) ∧ r.made ≠ none

/-- Only what is exclusive is made shared. When an object with open handles is renamed, the host
wants them closed first, and all of them are opened again. -/
def LockPacket.Careful (u : LockUnit) : LockPacket → Prop
  | .createDir _ host => FreshUniq u host.made
  | .findInput _ _ host => FreshUniq u host.made
  | .findOutput _ _ host => FreshUniq u host.made
  | .findWrite _ _ host => FreshUniq u host.made
  | .changeModeLock lock mode => mode = -1 ∨ ∀ uniq a,
    u.lockUniq lock = some uniq → u.lookupAino uniq = some a → a.elock = true
  | .changeModeFh fh mode => mode = -1 ∨ ∀ k a,
    u.lookupFileKey fh = some k → u.deref k.aino = .ok a → a.elock = true
  | .renameObject found1 found2 r => FreshUniq u r.made ∧
    (RenameProceeds u found1 found2 r → ∀ k ∈ u.keys, found1.aino = some k.aino →
      r.renamed = false ∧ k.fd = true ∧ r.reopened k = true ∧
      ∀ a ∈ u.ainos, a.addr = k.aino → a.vfso = false)
  | _ => True

/-- A unit after it was mounted. -/
structure LockSession.Start (s : LockSession) : Prop where
  held : s.held = []
  locks : s.unit.locks = []
  keys : s.unit.keys = []
  locklist : s.unit.locklist = []
  addrs : (s.unit.ainos.map Aino.addr).Nodup
  uniqs : (s.unit.ainos.map Aino.uniq).Nodup
  unmarked : ∀ a ∈ s.unit.ainos, a.shlock = 0 ∧ a.elock = false

def LockEvent.Careful (s : LockSession) : LockEvent → Prop
  | .packet _ p => p.Careful s.unit
  | .lookup a => ∀ b ∈ s.unit.ainos, b.uniq ≠ a.uniq
  | _ => True

def carefulLockMachine : Machine LockSession LockEvent LockFault :=
  { lockMachine with legal := fun s e => e.Legal s ∧ e.Careful s }

/-! ### Marks -/

/-- The marks are right, and every lock and handle has its inode. -/
structure Marks (ainos : List Aino) (locks : List Lock) (keys : List FileKey) : Prop where
  addrs : (ainos.map Aino.addr).Nodup
  uniqs : (ainos.map Aino.uniq).Nodup
  marks : ∀ a ∈ ainos, Counts a.shlock a.elock (refs locks keys a)
  locked : ∀ l ∈ locks, ∃ a ∈ ainos, a.uniq = l.uniq
  opened : ∀ k ∈ keys, ∃ a ∈ ainos, a.addr = k.aino

/-- `LockUnit.mark` on a list of inodes. -/
def markAinos (ainos : List Aino) (addr : Nat) (shlock : Int) (elock : Bool) : List Aino :=
  ainos.map fun a => if a.addr = addr then { a with shlock, elock } else a

theorem mem_markAinos {ainos : List Aino} {addr : Nat} {shlock : Int} {elock : Bool} {b : Aino} :
    b ∈ markAinos ainos addr shlock elock ↔
      ∃ a ∈ ainos, (if a.addr = addr then { a with shlock, elock } else a) = b :=
  List.mem_map

theorem map_addr_markAinos (ainos : List Aino) (addr : Nat) (shlock : Int) (elock : Bool) :
    (markAinos ainos addr shlock elock).map Aino.addr = ainos.map Aino.addr := by
  rw [markAinos, List.map_map]
  refine List.map_congr_left fun a _ => ?_
  dsimp only [Function.comp]
  split <;> rfl

theorem map_uniq_markAinos (ainos : List Aino) (addr : Nat) (shlock : Int) (elock : Bool) :
    (markAinos ainos addr shlock elock).map Aino.uniq = ainos.map Aino.uniq := by
  rw [markAinos, List.map_map]
  refine List.map_congr_left fun a _ => ?_
  dsimp only [Function.comp]
  split <;> rfl

section

variable {ainos : List Aino} {locks locks' : List Lock} {keys keys' : List FileKey} {a : Aino}

theorem Marks.eq_of_addr (h : Marks ainos locks keys) {b : Aino} (ha : a ∈ ainos)
    (hb : b ∈ ainos) (haddr : a.addr = b.addr) : a = b :=
  List.inj_on_of_nodup_map h.addrs ha hb haddr

theorem Marks.eq_of_uniq (h : Marks ainos locks keys) {b : Aino} (ha : a ∈ ainos)
    (hb : b ∈ ainos) (huniq : a.uniq = b.uniq) : a = b :=
  List.inj_on_of_nodup_map h.uniqs ha hb huniq

theorem refs_perm (hlocks : locks.Perm locks') (hkeys : keys.Perm keys') (a : Aino) :
    refs locks keys a = refs locks' keys' a := by
  rw [refs, refs, hlocks.countP_eq, hkeys.countP_eq]

theorem Marks.perm (h : Marks ainos locks keys) (hlocks : locks.Perm locks')
    (hkeys : keys.Perm keys') : Marks ainos locks' keys' where
  addrs := h.addrs
  uniqs := h.uniqs
  marks a ha := refs_perm hlocks hkeys a ▸ h.marks a ha
  locked l hl := h.locked l (hlocks.mem_iff.mpr hl)
  opened k hk := h.opened k (hkeys.mem_iff.mpr hk)

/-- New marks for one inode, with as many locks and handles as they say. -/
theorem Marks.update (h : Marks ainos locks keys) (ha : a ∈ ainos) {shlock : Int} {elock : Bool}
    (hothers : ∀ b ∈ ainos, b ≠ a → refs locks' keys' b = refs locks keys b)
    (hself : Counts shlock elock (refs locks' keys' a))
    (hlocked : ∀ l ∈ locks', ∃ b ∈ ainos, b.uniq = l.uniq)
    (hopened : ∀ k ∈ keys', ∃ b ∈ ainos, b.addr = k.aino) :
    Marks (markAinos ainos a.addr shlock elock) locks' keys' where
  addrs := by
    rw [map_addr_markAinos]
    exact h.addrs
  uniqs := by
    rw [map_uniq_markAinos]
    exact h.uniqs
  marks b hb := by
    obtain ⟨c, hc, rfl⟩ := mem_markAinos.mp hb
    split_ifs with haddr
    · obtain rfl := h.eq_of_addr hc ha haddr
      exact hself
    · have hne : c ≠ a := fun heq => haddr (heq ▸ rfl)
      rw [hothers c hc hne]
      exact h.marks c hc
  locked l hl := by
    obtain ⟨b, hb, huniq⟩ := hlocked l hl
    refine ⟨_, mem_markAinos.mpr ⟨b, hb, rfl⟩, ?_⟩
    split_ifs <;> exact huniq
  opened k hk := by
    obtain ⟨b, hb, haddr⟩ := hopened k hk
    refine ⟨_, mem_markAinos.mpr ⟨b, hb, rfl⟩, ?_⟩
    split_ifs <;> exact haddr

/-! ### One lock or handle more or less -/

theorem refs_cons_lock (l : Lock) (a : Aino) :
    refs (l :: locks) keys a = refs locks keys a + if l.uniq = a.uniq then 1 else 0 := by
  simp only [refs, List.countP_cons, beq_iff_eq]
  omega

theorem refs_cons_key (k : FileKey) (a : Aino) :
    refs locks (k :: keys) a = refs locks keys a + if k.aino = a.addr then 1 else 0 := by
  simp only [refs, List.countP_cons, beq_iff_eq]
  omega

theorem counts_share {shlock : Int} {elock : Bool} {n : Nat} (h : Counts shlock elock n)
    (helock : elock = false) : Counts (shlock + 1) elock (n + 1) := by
  subst helock
  simp only [Counts, Bool.false_eq_true, if_false] at h ⊢
  omega

theorem counts_exclude {shlock : Int} {elock : Bool} {n : Nat} (h : Counts shlock elock n)
    (helock : elock = false) (hshlock : shlock ≤ 0) : Counts shlock true (n + 1) := by
  subst helock
  simp only [Counts, Bool.false_eq_true, if_false, if_true] at h ⊢
  omega

theorem counts_release {shlock : Int} {elock : Bool} {n : Nat} (h : Counts shlock elock (n + 1)) :
    Counts (if elock then shlock else shlock - 1) false n := by
  cases elock <;> simp only [Counts, Bool.false_eq_true, if_false, if_true] at h ⊢ <;> omega

theorem counts_exclusive {shlock : Int} {elock : Bool} {n : Nat} (h : Counts shlock elock n)
    (hn : n ≠ 0) (hshlock : ¬ shlock > 1) : Counts 0 true n := by
  have hone : n = 1 := by
    cases elock <;> simp only [Counts, Bool.false_eq_true, if_false, if_true] at h
    · omega
    · exact h.2
  exact ⟨rfl, hone⟩

theorem counts_shared {shlock : Int} {n : Nat} (h : Counts shlock true n) :
    Counts (shlock + 1) false n := by
  simp only [Counts, Bool.false_eq_true, if_false, if_true] at h ⊢
  omega

/-- A lock is made. -/
theorem Marks.cons_lock (h : Marks ainos locks keys) (ha : a ∈ ainos) {l : Lock}
    (hl : l.uniq = a.uniq) {shlock : Int} {elock : Bool}
    (hself : Counts shlock elock (refs locks keys a + 1)) :
    Marks (markAinos ainos a.addr shlock elock) (l :: locks) keys := by
  refine h.update ha (fun b hb hne => ?_) ?_ ?_ h.opened
  · rw [refs_cons_lock, if_neg fun huniq => hne (h.eq_of_uniq hb ha (huniq.symm.trans hl)), Nat.add_zero]
  · rw [refs_cons_lock, if_pos hl]
    exact hself
  · exact List.forall_mem_cons.mpr ⟨⟨a, ha, hl.symm⟩, h.locked⟩

/-- A handle is opened. -/
theorem Marks.cons_key (h : Marks ainos locks keys) (ha : a ∈ ainos) {k : FileKey}
    (hk : k.aino = a.addr) {shlock : Int} {elock : Bool}
    (hself : Counts shlock elock (refs locks keys a + 1)) :
    Marks (markAinos ainos a.addr shlock elock) locks (k :: keys) := by
  refine h.update ha (fun b hb hne => ?_) ?_ h.locked ?_
  · rw [refs_cons_key, if_neg fun haddr => hne (h.eq_of_addr hb ha (haddr.symm.trans hk)), Nat.add_zero]
  · rw [refs_cons_key, if_pos hk]
    exact hself
  · exact List.forall_mem_cons.mpr ⟨⟨a, ha, hk.symm⟩, h.opened⟩

/-- A lock is freed. -/
theorem Marks.tail_lock {l : Lock} (h : Marks ainos (l :: locks) keys) (ha : a ∈ ainos)
    (hl : l.uniq = a.uniq) {shlock : Int} {elock : Bool}
    (hself : Counts shlock elock (refs locks keys a)) :
    Marks (markAinos ainos a.addr shlock elock) locks keys := by
  refine h.update ha (fun b hb hne => ?_) hself
    (fun l' hl' => h.locked l' (List.mem_cons_of_mem _ hl')) h.opened
  rw [refs_cons_lock, if_neg fun huniq => hne (h.eq_of_uniq hb ha (huniq.symm.trans hl)), Nat.add_zero]

/-- A handle is closed. -/
theorem Marks.tail_key {k : FileKey} (h : Marks ainos locks (k :: keys)) (ha : a ∈ ainos)
    (hk : k.aino = a.addr) {shlock : Int} {elock : Bool}
    (hself : Counts shlock elock (refs locks keys a)) :
    Marks (markAinos ainos a.addr shlock elock) locks keys := by
  refine h.update ha (fun b hb hne => ?_) hself h.locked
    fun k' hk' => h.opened k' (List.mem_cons_of_mem _ hk')
  rw [refs_cons_key, if_neg fun haddr => hne (h.eq_of_addr hb ha (haddr.symm.trans hk)), Nat.add_zero]

/-- A lock becomes a handle. -/
theorem Marks.lock_to_key {l : Lock} (h : Marks ainos (l :: locks) keys) (ha : a ∈ ainos)
    (hl : l.uniq = a.uniq) {k : FileKey} (hk : k.aino = a.addr) :
    Marks ainos locks (k :: keys) where
  addrs := h.addrs
  uniqs := h.uniqs
  marks b hb := by
    have hmarks := h.marks b hb
    rw [refs_cons_lock] at hmarks
    rw [refs_cons_key]
    have hsame : (k.aino = b.addr) ↔ (l.uniq = b.uniq) :=
      ⟨fun haddr => (h.eq_of_addr ha hb (hk.symm.trans haddr)) ▸ hl,
        fun huniq => (h.eq_of_uniq ha hb (hl.symm.trans huniq)) ▸ hk⟩
    simpa only [hsame] using hmarks
  locked l' hl' := h.locked l' (List.mem_cons_of_mem _ hl')
  opened := List.forall_mem_cons.mpr ⟨⟨a, ha, hk.symm⟩, h.opened⟩

/-- A new inode has no locks or handles. -/
theorem Marks.refs_new (h : Marks ainos locks keys) (haddr : ∀ b ∈ ainos, b.addr ≠ a.addr)
    (huniq : ∀ b ∈ ainos, b.uniq ≠ a.uniq) : refs locks keys a = 0 := by
  rw [refs, Nat.add_eq_zero_iff, List.countP_eq_zero, List.countP_eq_zero]
  constructor
  · intro l hl heq
    obtain ⟨b, hb, hbuniq⟩ := h.locked l hl
    exact huniq b hb (hbuniq.trans (eq_of_beq heq))
  · intro k hk heq
    obtain ⟨b, hb, hbaddr⟩ := h.opened k hk
    exact haddr b hb (hbaddr.trans (eq_of_beq heq))

/-- An inode is made. -/
theorem Marks.cons_aino (h : Marks ainos locks keys) (haddr : ∀ b ∈ ainos, b.addr ≠ a.addr)
    (huniq : ∀ b ∈ ainos, b.uniq ≠ a.uniq) (hshlock : a.shlock = 0) (helock : a.elock = false) :
    Marks (a :: ainos) locks keys where
  addrs := by
    rw [List.map_cons, List.nodup_cons, List.mem_map]
    exact ⟨fun ⟨b, hb, heq⟩ => haddr b hb heq, h.addrs⟩
  uniqs := by
    rw [List.map_cons, List.nodup_cons, List.mem_map]
    exact ⟨fun ⟨b, hb, heq⟩ => huniq b hb heq, h.uniqs⟩
  marks b hb := by
    rcases List.mem_cons.mp hb with rfl | hb
    · rw [h.refs_new haddr huniq, hshlock, helock]
      rfl
    · exact h.marks b hb
  locked l hl := by
    obtain ⟨b, hb, heq⟩ := h.locked l hl
    exact ⟨b, List.mem_cons_of_mem _ hb, heq⟩
  opened k hk := by
    obtain ⟨b, hb, heq⟩ := h.opened k hk
    exact ⟨b, List.mem_cons_of_mem _ hb, heq⟩

/-- An unmarked inode has no locks or handles. -/
theorem Marks.refs_unmarked (h : Marks ainos locks keys) (ha : a ∈ ainos) (hshlock : a.shlock ≤ 0)
    (helock : a.elock = false) : refs locks keys a = 0 := by
  have hmarks := h.marks a ha
  rw [helock] at hmarks
  simp only [Counts, Bool.false_eq_true, if_false] at hmarks
  omega

/-- Inodes that nothing refers to are freed. -/
theorem Marks.filter (h : Marks ainos locks keys) {p : Aino → Bool}
    (hfree : ∀ a ∈ ainos, p a = false → refs locks keys a = 0) :
    Marks (ainos.filter p) locks keys := by
  have hkept : ∀ a ∈ ainos, refs locks keys a ≠ 0 → a ∈ ainos.filter p := fun a ha hne =>
    List.mem_filter.mpr ⟨ha, by simpa using mt (hfree a ha) hne⟩
  refine ⟨h.addrs.sublist (List.filter_sublist.map _), h.uniqs.sublist (List.filter_sublist.map _),
    fun a ha => h.marks a (List.mem_filter.mp ha).1, fun l hl => ?_, fun k hk => ?_⟩
  · obtain ⟨a, ha, heq⟩ := h.locked l hl
    refine ⟨a, hkept a ha fun hzero => ?_, heq⟩
    exact List.countP_eq_zero.mp (Nat.add_eq_zero_iff.mp hzero).1 l hl (beq_iff_eq.mpr heq.symm)
  · obtain ⟨a, ha, heq⟩ := h.opened k hk
    refine ⟨a, hkept a ha fun hzero => ?_, heq⟩
    exact List.countP_eq_zero.mp (Nat.add_eq_zero_iff.mp hzero).2 k hk (beq_iff_eq.mpr heq.symm)

end

/-! ### The chain -/

/-- The chain of locks and the free list, which holds locks by the address in front of them. -/
structure Chain (locks : List Lock) (locklist : List Nat) : Prop where
  nodup : (locks.map Lock.addr).Nodup
  free : locklist.Nodup
  disjoint : ∀ l ∈ locks, ∀ f ∈ locklist, l.addr ≠ f + 4
  above : ∀ l ∈ locks, 4 ≤ l.addr

section

variable {locks : List Lock} {locklist : List Nat}

theorem Chain.make {f : Nat} (h : Chain locks (f :: locklist)) (uniq : UInt32) :
    Chain (⟨f + 4, uniq⟩ :: locks) locklist where
  nodup := by
    rw [List.map_cons, List.nodup_cons, List.mem_map]
    exact ⟨fun ⟨l, hl, heq⟩ => h.disjoint l hl f List.mem_cons_self heq, h.nodup⟩
  free := (List.nodup_cons.mp h.free).2
  disjoint := by
    refine List.forall_mem_cons.mpr ⟨fun g hg heq => ?_, fun l hl g hg => ?_⟩
    · have hfg : f = g := Nat.add_right_cancel heq
      exact (List.nodup_cons.mp h.free).1 (hfg ▸ hg)
    · exact h.disjoint l hl g (List.mem_cons_of_mem _ hg)
  above := List.forall_mem_cons.mpr ⟨Nat.le_add_left _ _, h.above⟩

/-- The lock at an address is the one that is taken out of the chain. -/
theorem Chain.perm_eraseP (h : Chain locks locklist) {l : Lock} (hl : l ∈ locks) :
    locks.Perm (l :: locks.eraseP fun l' => l'.addr == l.addr) := by
  obtain ⟨c, l₁, l₂, -, hc, hsplit, herase⟩ :=
    List.exists_of_eraseP (p := fun l' => l'.addr == l.addr) hl (beq_self_eq_true _)
  have hcl : c = l :=
    List.inj_on_of_nodup_map h.nodup (hsplit ▸ List.mem_append_right _ List.mem_cons_self) hl
      (eq_of_beq hc)
  rw [herase, hsplit, hcl]
  exact List.perm_middle

theorem Chain.erase (h : Chain locks locklist) {l : Lock} (hl : l ∈ locks) :
    Chain (locks.eraseP fun l' => l'.addr == l.addr) ((l.addr - 4) :: locklist) := by
  have hperm := h.perm_eraseP hl
  have hsub : ∀ l' ∈ locks.eraseP fun l' => l'.addr == l.addr, l' ∈ locks :=
    fun l' hl' => List.mem_of_mem_eraseP hl'
  have hsame : l.addr - 4 + 4 = l.addr := Nat.sub_add_cancel (h.above l hl)
  refine ⟨h.nodup.sublist (List.eraseP_sublist.map _), ?_, fun l' hl' => ?_,
    fun l' hl' => h.above l' (hsub l' hl')⟩
  · exact List.nodup_cons.mpr ⟨fun hf => h.disjoint l hl _ hf hsame.symm, h.free⟩
  · refine List.forall_mem_cons.mpr ⟨fun heq => ?_, h.disjoint l' (hsub l' hl')⟩
    have hnodup := (hperm.map Lock.addr).nodup_iff.mp h.nodup
    rw [List.map_cons, List.nodup_cons] at hnodup
    exact hnodup.1 (List.mem_map.mpr ⟨l', hl', heq.trans hsame⟩)

end

/-! ### The invariant -/

structure LockSession.Inv (s : LockSession) : Prop where
  marks : Marks s.unit.ainos s.unit.locks s.unit.keys
  chain : Chain s.unit.locks s.unit.locklist
  held : s.held = s.unit.locks.map Lock.addr

theorem deref_ok {u : LockUnit} {addr : Nat} {a : Aino} (h : u.deref addr = .ok a) :
    a ∈ u.ainos ∧ a.addr = addr := by
  rw [LockUnit.deref] at h
  cases hfind : u.ainos.find? fun a => a.addr == addr with
  | none =>
    rw [hfind] at h
    cases h
  | some b =>
    rw [hfind] at h
    obtain rfl := Except.ok.inj h
    exact ⟨List.mem_of_find?_eq_some hfind, by simpa using List.find?_some hfind⟩

theorem deref_of_mem {u : LockUnit} {a : Aino} (haddrs : (u.ainos.map Aino.addr).Nodup)
    (ha : a ∈ u.ainos) : u.deref a.addr = .ok a := by
  rw [LockUnit.deref]
  cases hfind : u.ainos.find? fun b => b.addr == a.addr with
  | none => exact absurd (beq_self_eq_true a.addr) (List.find?_eq_none.mp hfind a ha)
  | some b =>
    have haddr : b.addr = a.addr := by simpa using List.find?_some hfind
    rw [List.inj_on_of_nodup_map haddrs (List.mem_of_find?_eq_some hfind) ha haddr]

theorem lookupAino_some {u : LockUnit} {uniq : UInt32} {a : Aino}
    (h : u.lookupAino uniq = some a) : a ∈ u.ainos ∧ a.uniq = uniq :=
  ⟨List.mem_of_find?_eq_some h, by simpa using List.find?_some h⟩

theorem lookupFileKey_some {u : LockUnit} {uniq : UInt32} {k : FileKey}
    (h : u.lookupFileKey uniq = some k) : k ∈ u.keys :=
  List.mem_of_find?_eq_some h

theorem lockUniq_some {u : LockUnit} {lock : Nat} {uniq : UInt32}
    (h : u.lockUniq lock = some uniq) : ∃ l ∈ u.locks, l.addr = lock ∧ l.uniq = uniq := by
  obtain ⟨l, hl, huniq⟩ := Option.map_eq_some_iff.mp h
  exact ⟨l, List.mem_of_find?_eq_some hl, by simpa using List.find?_some hl, huniq⟩

section

variable {u u' : LockUnit} {held : List Nat} {a : Aino} {r : LockReply}

/-- A lock is made on an inode that gets the marks for it. -/
theorem LockSession.Inv.make (h : LockSession.Inv ⟨u, held⟩) (ha : a ∈ u.ainos) {shlock : Int}
    {elock : Bool} (hself : Counts shlock elock (u.refs a + 1))
    (hmake : (u.mark a.addr shlock elock).makeLock a.uniq = .ok (u', r)) (p : LockPacket) :
    LockSession.Inv ⟨u', heldAfter held p r⟩ := by
  rw [LockUnit.makeLock] at hmake
  cases hlist : u.locklist with
  | nil =>
    rw [show (u.mark a.addr shlock elock).locklist = [] from hlist] at hmake
    cases hmake
  | cons f rest =>
    rw [show (u.mark a.addr shlock elock).locklist = f :: rest from hlist] at hmake
    obtain ⟨rfl, rfl⟩ := Prod.mk.inj (Except.ok.inj hmake)
    have hchain : Chain u.locks (f :: rest) := hlist ▸ h.chain
    refine ⟨h.marks.cons_lock ha rfl hself, hchain.make a.uniq, ?_⟩
    exact congrArg ((f + 4) :: ·) h.held

/-- A lock is freed on an inode that loses the marks for it. -/
theorem LockSession.Inv.free (h : LockSession.Inv ⟨u, held⟩) {l : Lock} (hl : l ∈ u.locks)
    {ainos : List Aino} {keys : List FileKey}
    (hmarks : Marks ainos (u.locks.eraseP fun l' => l'.addr == l.addr) keys) :
    LockSession.Inv ⟨LockUnit.freeLock { u with ainos, keys } l.addr, held.erase l.addr⟩ := by
  have hany : (u.locks.any fun l' => l'.addr == l.addr) = true :=
    List.any_eq_true.mpr ⟨l, hl, beq_self_eq_true _⟩
  rw [LockUnit.freeLock, if_pos hany]
  refine ⟨hmarks, h.chain.erase hl, ?_⟩
  rw [show held = u.locks.map Lock.addr from h.held, List.erase_eq_eraseP', List.eraseP_map]
  rfl

/-- An inode that is not exclusively locked is locked for sharing. -/
theorem LockSession.Inv.share (h : LockSession.Inv ⟨u, held⟩) (ha : a ∈ u.ainos)
    (helock : a.elock = false)
    (hmake : (u.mark a.addr (a.shlock + 1) a.elock).makeLock a.uniq = .ok (u', r))
    (p : LockPacket) : LockSession.Inv ⟨u', heldAfter held p r⟩ :=
  h.make ha (counts_share (h.marks.marks a ha) helock) hmake p

theorem LockSession.Inv.failed (h : LockSession.Inv ⟨u, held⟩) (p : LockPacket) (e : FsError) :
    LockSession.Inv ⟨u, heldAfter held p (.failed e)⟩ := h

/-! ### The handlers -/

theorem LockSession.Inv.locateObject (h : LockSession.Inv ⟨u, held⟩) {found : Found}
    {link : FsError} {mode : Int} (hok : actionLock u found link mode = .ok (u', r))
    (p : LockPacket) : LockSession.Inv ⟨u', heldAfter held p r⟩ := by
  rw [actionLock] at hok
  cases herr : found.err with
  | some e =>
    rw [herr] at hok
    obtain ⟨rfl, rfl⟩ := Prod.mk.inj (Except.ok.inj hok)
    exact h
  | none =>
    rw [herr] at hok
    dsimp only at hok
    generalize (if mode ≠ sharedLock ∧ mode ≠ exclusiveLock then sharedLock else mode) = mode' at hok
    obtain ⟨a, hderef, hok⟩ := ok_of_bind hok
    obtain ⟨ha, -⟩ := deref_ok hderef
    split_ifs at hok with hlink hused hmode
    · obtain ⟨rfl, rfl⟩ := Prod.mk.inj (Except.ok.inj hok)
      exact h
    · obtain ⟨rfl, rfl⟩ := Prod.mk.inj (Except.ok.inj hok)
      exact h
    · have helock : a.elock = false := by simpa using fun he => hused (.inl he)
      exact h.share ha helock hok p
    · have helock : a.elock = false := by simpa using fun he => hused (.inl he)
      have hshlock : a.shlock ≤ 0 := Int.not_lt.mp fun hlt => hused (.inr ⟨hmode, hlt⟩)
      exact h.make ha (counts_exclude (h.marks.marks a ha) helock hshlock) hok p

theorem LockSession.Inv.dupLock2 (h : LockSession.Inv ⟨u, held⟩) {uniq : UInt32}
    (hok : actionDupLock2 u uniq = .ok (u', r)) (p : LockPacket) :
    LockSession.Inv ⟨u', heldAfter held p r⟩ := by
  rw [actionDupLock2] at hok
  cases hlookup : u.lookupAino uniq with
  | none =>
    rw [hlookup] at hok
    obtain ⟨rfl, rfl⟩ := Prod.mk.inj (Except.ok.inj hok)
    exact h
  | some a =>
    rw [hlookup] at hok
    dsimp only at hok
    split_ifs at hok with helock
    · obtain ⟨rfl, rfl⟩ := Prod.mk.inj (Except.ok.inj hok)
      exact h
    · exact h.share (lookupAino_some hlookup).1 (by simpa using helock) hok p

theorem LockSession.Inv.parentCommon (h : LockSession.Inv ⟨u, held⟩) {uniq : UInt32}
    {p : LockPacket} (hp : p.handsBack = none)
    (hok : actionParentCommon u uniq = .ok (u', r)) :
    LockSession.Inv ⟨u', heldAfter held p r⟩ := by
  rw [actionParentCommon] at hok
  cases hlookup : u.lookupAino uniq with
  | none =>
    rw [hlookup] at hok
    obtain ⟨rfl, rfl⟩ := Prod.mk.inj (Except.ok.inj hok)
    exact h
  | some olda =>
    cases hparent : olda.parent with
    | none =>
      simp only [hlookup, hparent] at hok
      obtain ⟨rfl, rfl⟩ := Prod.mk.inj (Except.ok.inj hok)
      rw [heldAfter, hp]
      exact h
    | some parent =>
      simp only [hlookup, hparent] at hok
      obtain ⟨a, hderef, hok⟩ := ok_of_bind hok
      split_ifs at hok with helock
      · obtain ⟨rfl, rfl⟩ := Prod.mk.inj (Except.ok.inj hok)
        exact h
      · exact h.share (deref_ok hderef).1 (by simpa using helock) hok p

theorem LockSession.Inv.freeLock (h : LockSession.Inv ⟨u, held⟩) (lock : Nat) :
    LockSession.Inv ⟨(actionFreeLock u lock).1,
      heldAfter held (.freeLock lock) (actionFreeLock u lock).2⟩ := by
  rw [actionFreeLock]
  cases hlookup : (u.lockUniq lock).bind u.lookupAino with
  | none => exact h
  | some a =>
    obtain ⟨uniq, huniq, haino⟩ := Option.bind_eq_some_iff.mp hlookup
    obtain ⟨l, hl, rfl, rfl⟩ := lockUniq_some huniq
    obtain ⟨ha, hsame⟩ := lookupAino_some haino
    have hmarks := h.marks.perm (h.chain.perm_eraseP hl) (.refl _)
    have hself := hmarks.marks a ha
    rw [refs_cons_lock, if_pos hsame.symm] at hself
    have hfreed := hmarks.tail_lock ha hsame.symm (counts_release hself)
    dsimp only
    cases helock : a.elock with
    | true =>
      rw [helock, if_pos rfl] at hfreed
      exact h.free hl hfreed
    | false =>
      rw [helock, if_neg Bool.false_ne_true] at hfreed
      exact h.free hl hfreed

theorem LockSession.Inv.fhFromLock (h : LockSession.Inv ⟨u, held⟩) (lock : Nat) (link : FsError)
    (opened : Bool) (errno : Int) :
    LockSession.Inv ⟨(actionFhFromLock u lock link opened errno).1,
      heldAfter held (.fhFromLock lock link opened errno)
        (actionFhFromLock u lock link opened errno).2⟩ := by
  rw [actionFhFromLock]
  cases hlookup : (u.lockUniq lock).bind u.lookupAino with
  | none => exact h
  | some a =>
    obtain ⟨uniq, huniq, haino⟩ := Option.bind_eq_some_iff.mp hlookup
    obtain ⟨l, hl, rfl, rfl⟩ := lockUniq_some huniq
    obtain ⟨ha, hsame⟩ := lookupAino_some haino
    dsimp only
    split_ifs with hlink hopened
    · exact h
    · have hmarks := h.marks.perm (h.chain.perm_eraseP hl) (.refl _)
      have hkey := hmarks.lock_to_key ha hsame.symm (k := ⟨u.keyUniq + 1, a.addr, true, 0⟩) rfl
      have hinv : LockSession.Inv ⟨{ u with keyUniq := u.keyUniq + 1 }, held⟩ :=
        ⟨h.marks, h.chain, h.held⟩
      exact hinv.free hl hkey
    · exact h

theorem LockSession.Inv.endKey (h : LockSession.Inv ⟨u, held⟩) {fh : UInt32}
    (hok : actionEndKey u fh = .ok (u', r)) :
    LockSession.Inv ⟨u', heldAfter held (.endKey fh) r⟩ := by
  rw [actionEndKey] at hok
  cases hlookup : u.lookupFileKey fh with
  | none =>
    rw [hlookup] at hok
    obtain ⟨rfl, rfl⟩ := Prod.mk.inj (Except.ok.inj hok)
    exact h
  | some k =>
    rw [hlookup] at hok
    obtain ⟨a, hderef, hok⟩ := ok_of_bind hok
    obtain ⟨ha, haddr⟩ := deref_ok hderef
    obtain ⟨rfl, rfl⟩ := Prod.mk.inj (Except.ok.inj hok)
    have hmarks := h.marks.perm (.refl _) (List.perm_cons_erase (lookupFileKey_some hlookup))
    have hself := hmarks.marks a ha
    rw [refs_cons_key, if_pos haddr.symm] at hself
    have hclosed := hmarks.tail_key ha haddr.symm (counts_release hself)
    cases helock : a.elock with
    | true =>
      rw [helock, if_pos rfl] at hclosed
      exact ⟨hclosed, h.chain, h.held⟩
    | false =>
      rw [helock, if_neg Bool.false_ne_true] at hclosed
      exact ⟨hclosed, h.chain, h.held⟩

/-- A handle is opened on an inode that gets the marks for it. -/
theorem LockSession.Inv.openKey (h : LockSession.Inv ⟨u, held⟩) (ha : a ∈ u.ainos) {shlock : Int}
    {elock : Bool} (hself : Counts shlock elock (u.refs a + 1)) (fd : Bool) (create : Nat) :
    LockSession.Inv ⟨(u.newKey a.addr fd create).mark a.addr shlock elock, held⟩ :=
  ⟨h.marks.cons_key ha rfl hself, h.chain, h.held⟩

/-- `openAino` on an inode that is not exclusively locked, and not locked at all if it is to be
opened exclusively. -/
theorem LockSession.Inv.openAino (h : LockSession.Inv ⟨u, held⟩) (ha : a ∈ u.ainos)
    (helock : a.elock = false) {create : Nat} (hshlock : create = 2 → a.shlock ≤ 0) {made : Bool}
    (hmade : made = true → a.shlock ≤ 0) {host : Created}
    (hok : Filesys.openAino u a made create host = .ok (u', r)) {p : LockPacket}
    (hp : p.handsBack = none) : LockSession.Inv ⟨u', heldAfter held p r⟩ := by
  rw [Filesys.openAino] at hok
  split_ifs at hok with hfail hmade' hcreate
  · obtain ⟨v, hdelete, hok⟩ := ok_of_bind hok
    obtain ⟨rfl, rfl⟩ := Prod.mk.inj (Except.ok.inj hok)
    rw [LockUnit.deleteAino] at hdelete
    cases hparent : a.parent with
    | none =>
      rw [hparent] at hdelete
      cases hdelete
    | some parent =>
      rw [hparent] at hdelete
      obtain rfl := Except.ok.inj hdelete
      refine ⟨h.marks.filter fun b hb haddr => ?_, h.chain, h.held⟩
      rw [h.marks.eq_of_addr hb ha (by simpa using haddr)]
      exact h.marks.refs_unmarked ha (hmade hmade') helock
  · obtain ⟨v, hdelete, hok⟩ := ok_of_bind hok
    obtain ⟨rfl, rfl⟩ := Prod.mk.inj (Except.ok.inj hok)
    obtain rfl := Except.ok.inj hdelete
    exact h
  · obtain ⟨rfl, rfl⟩ := Prod.mk.inj (Except.ok.inj hok)
    rw [heldAfter, hp]
    exact h.openKey ha (counts_exclude (h.marks.marks a ha) helock (hshlock hcreate)) _ _
  · obtain ⟨rfl, rfl⟩ := Prod.mk.inj (Except.ok.inj hok)
    rw [heldAfter, hp]
    exact h.openKey ha (counts_share (h.marks.marks a ha) helock) _ _

/-- The checks of `do_find` let through what is not locked exclusively, and only what is not
locked at all if it is to be opened exclusively. -/
theorem findMode_ok {mode mode' : UInt32} {create : Nat} {fallback : Bool}
    (h : findMode u a mode create fallback = .ok mode') :
    a.elock = false ∧ (create = 2 → a.shlock ≤ 0) := by
  rw [findMode] at h
  by_cases hdir : a.dir = true
  · rw [if_pos hdir] at h
    cases h
  rw [if_neg hdir] at h
  by_cases hused : a.elock = true ∨ create = 2 ∧ a.shlock > 0
  · rw [if_pos hused] at h
    cases h
  exact ⟨by simpa using fun he => hused (.inl he),
    fun hcreate => Int.not_lt.mp fun hlt => hused (.inr ⟨hcreate, hlt⟩)⟩

theorem LockSession.Inv.child (h : LockSession.Inv ⟨u, held⟩) (base : Nat) (dir : Bool)
    {addr : Nat} {uniq : UInt32} (haddr : ∀ b ∈ u.ainos, b.addr ≠ addr) (huniq : ∀ b ∈ u.ainos, b.uniq ≠ uniq) :
    LockSession.Inv ⟨{ u with ainos := childAino base addr uniq dir :: u.ainos }, held⟩ :=
  ⟨h.marks.cons_aino haddr huniq rfl rfl, h.chain, h.held⟩

theorem LockSession.Inv.doFind (h : LockSession.Inv ⟨u, held⟩) {found : Found} {link : FsError}
    {mode : UInt32} {create : Nat} {fallback : Bool} {host : Created}
    (haddr : FreshAddr u host.made) (huniq : FreshUniq u host.made)
    (hok : Filesys.doFind u found link mode create fallback host = .ok (u', r)) {p : LockPacket}
    (hp : p.handsBack = none) : LockSession.Inv ⟨u', heldAfter held p r⟩ := by
  rw [Filesys.doFind] at hok
  cases haino : found.aino with
  | none =>
    rw [haino] at hok
    obtain ⟨rfl, rfl⟩ := Prod.mk.inj (Except.ok.inj hok)
    exact h
  | some addr =>
    rw [haino] at hok
    dsimp only at hok
    by_cases hother : found.err ≠ none ∧ found.err ≠ some .objectNotAround
    · rw [if_pos hother] at hok
      obtain ⟨rfl, rfl⟩ := Prod.mk.inj (Except.ok.inj hok)
      exact h
    · rw [if_neg hother] at hok
      obtain ⟨a, hderef, hok⟩ := ok_of_bind hok
      by_cases hlink : a.softlink = true
      · rw [if_pos hlink] at hok
        obtain ⟨rfl, rfl⟩ := Prod.mk.inj (Except.ok.inj hok)
        exact h
      · rw [if_neg hlink] at hok
        cases herr : found.err with
        | none =>
          rw [herr] at hok
          dsimp only at hok
          cases hmode : findMode u a mode create fallback with
          | error e =>
            rw [hmode] at hok
            obtain ⟨rfl, rfl⟩ := Prod.mk.inj (Except.ok.inj hok)
            exact h
          | ok mode' =>
            rw [hmode] at hok
            obtain ⟨helock, hshlock⟩ := findMode_ok hmode
            exact h.openAino (deref_ok hderef).1 helock hshlock (by simp) hok hp
        | some e =>
          rw [herr] at hok
          dsimp only at hok
          split_ifs at hok with hcreate
          · obtain ⟨rfl, rfl⟩ := Prod.mk.inj (Except.ok.inj hok)
            exact h
          · cases hmade : host.made with
            | none =>
              rw [hmade] at hok
              obtain ⟨rfl, rfl⟩ := Prod.mk.inj (Except.ok.inj hok)
              exact h
            | some made =>
              rw [hmade] at hok
              have hchild := h.child addr false (haddr _ _ hmade)
                (huniq _ _ hmade)
              exact hchild.openAino List.mem_cons_self rfl (fun _ => Int.le_refl 0)
                (fun _ => Int.le_refl 0) hok hp

theorem LockSession.Inv.createDir (h : LockSession.Inv ⟨u, held⟩) {found : Found}
    {host : Created} (haddr : FreshAddr u host.made) (huniq : FreshUniq u host.made)
    (hok : actionCreateDir u found host = .ok (u', r)) (p : LockPacket) :
    LockSession.Inv ⟨u', heldAfter held p r⟩ := by
  rw [actionCreateDir] at hok
  by_cases hwrite : u.writeprotected = true
  · rw [if_pos hwrite] at hok
    obtain ⟨rfl, rfl⟩ := Prod.mk.inj (Except.ok.inj hok)
    exact h
  rw [if_neg hwrite] at hok
  split at hok
  · obtain ⟨rfl, rfl⟩ := Prod.mk.inj (Except.ok.inj hok)
    exact h
  · cases hmade : host.made with
    | none =>
      rw [hmade] at hok
      obtain ⟨rfl, rfl⟩ := Prod.mk.inj (Except.ok.inj hok)
      exact h
    | some made =>
      rw [hmade] at hok
      rename_i base _ _
      have hchild := h.child base true (haddr _ _ hmade) (huniq _ _ hmade)
      dsimp only at hok
      split_ifs at hok with hopened
      · have hzero := hchild.marks.refs_unmarked List.mem_cons_self (Int.le_refl 0) rfl
        refine hchild.make List.mem_cons_self ?_ hok p
        rw [LockUnit.refs, hzero]
        rfl
      · obtain ⟨rfl, rfl⟩ := Prod.mk.inj (Except.ok.inj hok)
        exact hchild
  · obtain ⟨rfl, rfl⟩ := Prod.mk.inj (Except.ok.inj hok)
    exact h
  · obtain ⟨rfl, rfl⟩ := Prod.mk.inj (Except.ok.inj hok)
    exact h

/-- A mode change between shared and exclusive of an object that is locked or open. -/
theorem LockSession.Inv.changeMode (h : LockSession.Inv ⟨u, held⟩) {mode : Int}
    (ha : a ∈ u.ainos) (href : u.refs a ≠ 0) (hmode : mode = -1 ∨ a.elock = true)
    {p : LockPacket} (hp : p.handsBack = none) :
    LockSession.Inv ⟨(Filesys.changeMode u a.uniq mode).1,
      heldAfter held p (Filesys.changeMode u a.uniq mode).2⟩ := by
  have hmark : ∀ {shlock : Int} {elock : Bool}, Counts shlock elock (u.refs a) →
      LockSession.Inv ⟨u.mark a.addr shlock elock, held⟩ := fun hself =>
    ⟨h.marks.update ha (fun _ _ _ => rfl) hself h.marks.locked h.marks.opened, h.chain, h.held⟩
  have hself := h.marks.marks a ha
  have hlookup : u.lookupAino a.uniq = some a := by
    cases hfind : u.lookupAino a.uniq with
    | none =>
      have hnone := List.find?_eq_none.mp hfind a ha
      exact absurd (beq_self_eq_true a.uniq) hnone
    | some b =>
      obtain ⟨hb, huniq⟩ := lookupAino_some hfind
      rw [h.marks.eq_of_uniq hb ha huniq]
  rw [Filesys.changeMode, hlookup]
  dsimp only
  split_ifs with hexclusive hused
  · exact h
  · rw [heldAfter, hp]
    exact hmark (counts_exclusive hself href hused)
  · rw [heldAfter, hp]
    rw [hmode.resolve_left hexclusive] at hself
    exact hmark (counts_shared hself)

theorem LockSession.Inv.changeModeLock (h : LockSession.Inv ⟨u, held⟩) {lock : Nat} {mode : Int}
    (hmode : (LockPacket.changeModeLock lock mode).Careful u) :
    LockSession.Inv ⟨(actionChangeModeLock u lock mode).1,
      heldAfter held (.changeModeLock lock mode) (actionChangeModeLock u lock mode).2⟩ := by
  rw [actionChangeModeLock]
  cases huniq : u.lockUniq lock with
  | none => exact h
  | some uniq =>
    obtain ⟨l, hl, -, rfl⟩ := lockUniq_some huniq
    obtain ⟨a, ha, hsame⟩ := h.marks.locked l hl
    have href : u.refs a ≠ 0 := by
      rw [LockUnit.refs, Filesys.refs]
      have hpos := List.countP_pos_iff (p := fun l => l.uniq == a.uniq).mpr
        ⟨l, hl, beq_iff_eq.mpr hsame.symm⟩
      omega
    dsimp only
    rw [← hsame]
    refine h.changeMode ha href (hmode.imp_right fun hall => ?_) rfl
    cases hfind : u.lookupAino l.uniq with
    | none => exact absurd (beq_iff_eq.mpr hsame) (List.find?_eq_none.mp hfind a ha)
    | some b =>
      obtain ⟨hb, hbuniq⟩ := lookupAino_some hfind
      obtain rfl := h.marks.eq_of_uniq hb ha (hbuniq.trans hsame.symm)
      exact hall _ _ huniq hfind

theorem LockSession.Inv.changeModeFh (h : LockSession.Inv ⟨u, held⟩) {fh : UInt32} {mode : Int}
    (hmode : (LockPacket.changeModeFh fh mode).Careful u)
    (hok : actionChangeModeFh u fh mode = .ok (u', r)) :
    LockSession.Inv ⟨u', heldAfter held (.changeModeFh fh mode) r⟩ := by
  rw [actionChangeModeFh] at hok
  cases hkey : u.lookupFileKey fh with
  | none =>
    rw [hkey] at hok
    obtain ⟨rfl, rfl⟩ := Prod.mk.inj (Except.ok.inj hok)
    exact h
  | some k =>
    rw [hkey] at hok
    obtain ⟨a, hderef, hok⟩ := ok_of_bind hok
    obtain ⟨ha, haddr⟩ := deref_ok hderef
    have hdone := Except.ok.inj hok
    have href : u.refs a ≠ 0 := by
      rw [LockUnit.refs, Filesys.refs]
      have hpos := List.countP_pos_iff (p := fun k => k.aino == a.addr).mpr
        ⟨k, lookupFileKey_some hkey, beq_iff_eq.mpr haddr.symm⟩
      omega
    have hinv := h.changeMode ha href (hmode.imp_right fun hall => hall k a hkey hderef)
      (p := .changeModeFh fh mode) rfl
    rw [hdone] at hinv
    exact hinv

/-! ### Renaming -/

end

/-- What becomes of an inode in a rename from `a1` to `a2`. -/
def takeOver (a1 a2 a : Aino) : Aino :=
  if a.addr = a2.addr then
    { a with uniq := a1.uniq, elock := a1.elock, shlock := a1.shlock, vfso := a1.vfso
             amigaosMode := a1.amigaosMode }
  else if a.parent = some a1.addr then { a with parent := some a2.addr }
  else a

/-- The inodes after a rename: the new one in the place of the old one. -/
def renamedAinos (ainos : List Aino) (a1 a2 : Aino) : List Aino :=
  (ainos.map (takeOver a1 a2)).filter fun a => a.addr ≠ a1.addr

theorem takeOver_addr (a1 a2 a : Aino) : (takeOver a1 a2 a).addr = a.addr := by
  rw [takeOver]
  split_ifs <;> rfl

/-- An inode after a rename is the new one under the number of the old one, or has its own
number and marks. -/
theorem mem_renamedAinos {ainos : List Aino} {a1 a2 b : Aino} (h : b ∈ renamedAinos ainos a1 a2) :
    ∃ c ∈ ainos, c.addr ≠ a1.addr ∧ b.addr = c.addr ∧
      ((c.addr = a2.addr ∧ b.uniq = a1.uniq ∧ b.shlock = a1.shlock ∧ b.elock = a1.elock) ∨
        (c.addr ≠ a2.addr ∧ b.uniq = c.uniq ∧ b.shlock = c.shlock ∧ b.elock = c.elock)) := by
  obtain ⟨hb, hne⟩ := List.mem_filter.mp h
  obtain ⟨c, hc, rfl⟩ := List.mem_map.mp hb
  refine ⟨c, hc, takeOver_addr a1 a2 c ▸ of_decide_eq_true hne, takeOver_addr a1 a2 c, ?_⟩
  rw [takeOver]
  split_ifs with hnew hchild
  · exact .inl ⟨hnew, rfl, rfl, rfl⟩
  · exact .inr ⟨hnew, rfl, rfl, rfl⟩
  · exact .inr ⟨hnew, rfl, rfl, rfl⟩

/-- The other way round. -/
theorem renamedAinos_mem {ainos : List Aino} {a1 c : Aino} (a2 : Aino) (hc : c ∈ ainos)
    (hne : c.addr ≠ a1.addr) : ∃ b ∈ renamedAinos ainos a1 a2, b.addr = c.addr ∧
      (c.addr = a2.addr → b.uniq = a1.uniq) ∧ (c.addr ≠ a2.addr → b.uniq = c.uniq) := by
  refine ⟨_, List.mem_filter.mpr ⟨List.mem_map.mpr ⟨c, hc, rfl⟩, ?_⟩, takeOver_addr a1 a2 c, ?_⟩
  · rw [takeOver_addr]
    exact decide_eq_true hne
  · rw [takeOver]
    split_ifs with hnew hchild
    · exact ⟨fun _ => rfl, fun hno => absurd hnew hno⟩
    · exact ⟨fun hno => absurd hno hnew, fun _ => rfl⟩
    · exact ⟨fun hno => absurd hno hnew, fun _ => rfl⟩

/-- A handle with the old inode gets the new one. -/
def retarget (a1 a2 : Nat) (k : FileKey) : FileKey :=
  if k.aino = a1 then { k with aino := a2 } else k

theorem retarget_self (a : Nat) (k : FileKey) : retarget a a k = k := by
  rw [retarget]
  split_ifs with hk
  · rw [← hk]
  · rfl

theorem map_retarget_of_ne {keys : List FileKey} {a1 a2 : Nat} (hkeys : ∀ k ∈ keys, k.aino ≠ a1) :
    keys.map (retarget a1 a2) = keys :=
  (List.map_congr_left fun k hk => if_neg (hkeys k hk)).trans (List.map_id' keys)

theorem countP_retarget_new {keys : List FileKey} {a1 a2 : Nat} (hne : a2 ≠ a1) :
    ((keys.map (retarget a1 a2)).countP fun k => k.aino == a2) =
      (keys.countP fun k => k.aino == a1) + keys.countP fun k => k.aino == a2 := by
  induction keys with
  | nil => rfl
  | cons k keys ih =>
    simp only [List.map_cons, List.countP_cons, ih, retarget, beq_iff_eq]
    by_cases hk : k.aino = a1
    · simp only [hk, if_true, if_neg hne.symm]
      omega
    · simp only [if_neg hk]
      omega

theorem countP_retarget_other {keys : List FileKey} {a1 a2 x : Nat} (h1 : x ≠ a1) (h2 : x ≠ a2) :
    ((keys.map (retarget a1 a2)).countP fun k => k.aino == x) =
      keys.countP fun k => k.aino == x := by
  induction keys with
  | nil => rfl
  | cons k keys ih =>
    simp only [List.map_cons, List.countP_cons, ih, retarget, beq_iff_eq]
    by_cases hk : k.aino = a1
    · simp only [hk, if_true, if_neg h1.symm, if_neg h2.symm]
    · simp only [if_neg hk]

section

variable {ainos : List Aino} {locks : List Lock} {keys : List FileKey} {a1 a2 : Aino}

/-- The new inode takes over the locks and handles of the old one. -/
theorem Marks.rename (h : Marks ainos locks keys) (h1 : a1 ∈ ainos) (h2 : a2 ∈ ainos)
    (hne : a2.addr ≠ a1.addr) (hnew : refs locks keys a2 = 0) :
    Marks (renamedAinos ainos a1 a2) locks (keys.map (retarget a1.addr a2.addr)) := by
  obtain ⟨hlocks2, hkeys2⟩ := Nat.add_eq_zero_iff.mp hnew
  have haddrs : ((renamedAinos ainos a1 a2).map Aino.addr).Nodup := by
    have hsame : (ainos.map (takeOver a1 a2)).map Aino.addr = ainos.map Aino.addr := by
      rw [List.map_map]
      exact List.map_congr_left fun a _ => takeOver_addr a1 a2 a
    exact (hsame ▸ h.addrs).sublist (List.filter_sublist.map Aino.addr)
  refine ⟨haddrs, (haddrs.of_map _).map_on fun b hb b' hb' huniq => ?_, fun b hb => ?_,
    fun l hl => ?_, fun k hk => ?_⟩
  · refine List.inj_on_of_nodup_map haddrs hb hb' ?_
    obtain ⟨c, hc, hcne, haddr, hcase⟩ := mem_renamedAinos hb
    obtain ⟨c', hc', hcne', haddr', hcase'⟩ := mem_renamedAinos hb'
    rw [haddr, haddr']
    rcases hcase with ⟨hc2, hu, -⟩ | ⟨hc2, hu, -⟩ <;>
      rcases hcase' with ⟨hc2', hu', -⟩ | ⟨hc2', hu', -⟩ <;> rw [hu, hu'] at huniq
    · exact hc2.trans hc2'.symm
    · exact absurd (congrArg Aino.addr (h.eq_of_uniq hc' h1 huniq.symm)) hcne'
    · exact absurd (congrArg Aino.addr (h.eq_of_uniq hc h1 huniq)) hcne
    · exact congrArg Aino.addr (h.eq_of_uniq hc hc' huniq)
  · obtain ⟨c, hc, hcne, haddr, ⟨hca, huniq, hshlock, helock⟩ |
      ⟨hcother, huniq, hshlock, helock⟩⟩ := mem_renamedAinos hb
    · have hmarks := h.marks a1 h1
      rw [hshlock, helock, refs, huniq, haddr, hca, countP_retarget_new hne, hkeys2, Nat.add_zero]
      exact hmarks
    · have hmarks := h.marks c hc
      rw [hshlock, helock, refs, huniq, haddr, countP_retarget_other hcne hcother]
      exact hmarks
  · obtain ⟨c, hc, huniq⟩ := h.locked l hl
    by_cases hc1 : c.addr = a1.addr
    · obtain ⟨b, hb, -, hself, -⟩ := renamedAinos_mem a2 h2 hne
      refine ⟨b, hb, (hself rfl).trans ?_⟩
      rw [← huniq, h.eq_of_addr hc h1 hc1]
    · obtain ⟨b, hb, -, -, hother⟩ := renamedAinos_mem a2 hc hc1
      refine ⟨b, hb, (hother fun hc2 => ?_).trans huniq⟩
      rw [h.eq_of_addr hc h2 hc2] at huniq
      exact List.countP_eq_zero.mp hlocks2 l hl (beq_iff_eq.mpr huniq.symm)
  · obtain ⟨j, hj, rfl⟩ := List.mem_map.mp hk
    rw [retarget]
    split_ifs with hj1
    · obtain ⟨b, hb, hbaddr, -⟩ := renamedAinos_mem a2 h2 hne
      exact ⟨b, hb, hbaddr⟩
    · obtain ⟨c, hc, haddr⟩ := h.opened j hj
      obtain ⟨b, hb, hbaddr, -⟩ := renamedAinos_mem a2 hc fun hc1 => hj1 (haddr.symm.trans hc1)
      exact ⟨b, hb, hbaddr.trans haddr⟩

end

section

variable {u u' : LockUnit} {held : List Nat} {r : LockReply}

/-- Disposing of inodes one after another. -/
theorem foldl_dispose (flush : List Nat) (u : LockUnit) :
    flush.foldl LockUnit.dispose u = { u with ainos := u.ainos.filter fun a => a.addr ∉ flush } := by
  induction flush generalizing u with
  | nil => simp
  | cons addr flush ih =>
    rw [List.foldl_cons, ih, LockUnit.dispose, List.filter_filter]
    simp [Bool.and_comm]

/-- Unmarked inodes are flushed from the cache. -/
theorem LockSession.Inv.flushes (h : LockSession.Inv ⟨u, held⟩) {flush : List Nat}
    (hflush : ∀ addr ∈ flush, ∀ a ∈ u.ainos, a.addr = addr → a.shlock ≤ 0 ∧ a.elock = false) :
    LockSession.Inv ⟨flush.foldl LockUnit.dispose u, held⟩ := by
  rw [foldl_dispose]
  refine ⟨h.marks.filter fun a ha hgone => ?_, h.chain, h.held⟩
  obtain ⟨hshlock, helock⟩ := hflush a.addr (by simpa using hgone) a ha rfl
  exact h.marks.refs_unmarked ha hshlock helock

theorem LockSession.Inv.dispose (h : LockSession.Inv ⟨u, held⟩) {addr : Nat}
    (hunmarked : ∀ a ∈ u.ainos, a.addr = addr → a.shlock ≤ 0 ∧ a.elock = false) :
    LockSession.Inv ⟨u.dispose addr, held⟩ :=
  h.flushes (List.forall_mem_singleton.mpr hunmarked)

theorem mem_foldl_dispose {flush : List Nat} {a : Aino}
    (ha : a ∈ (flush.foldl LockUnit.dispose u).ainos) : a ∈ u.ainos := by
  rw [foldl_dispose] at ha
  exact (List.mem_filter.mp ha).1

/-- All handles with the old inode are files and opened again. -/
theorem relockRe_eq {a1 a2 : Nat} {reopened : FileKey → Bool}
    (hkeys : ∀ k ∈ u.keys, k.aino = a1 → k.fd = true ∧ reopened k = true) :
    relockRe u a1 a2 reopened = { u with keys := u.keys.map (retarget a1 a2) } := by
  have hall : ∀ k ∈ u.keys, (if k.aino = a1 ∧ k.fd then
      if reopened k then some { k with aino := a2 } else none else some k) =
      some (retarget a1 a2 k) := by
    intro k hk
    by_cases ha1 : k.aino = a1
    · obtain ⟨hfd, hreopened⟩ := hkeys k hk ha1
      rw [if_pos ⟨ha1, hfd⟩, if_pos hreopened, retarget, if_pos ha1]
    · rw [if_neg fun hmoved => ha1 hmoved.1, retarget, if_neg ha1]
  rw [relockRe, List.filterMap_congr hall, List.filterMap_eq_map']

theorem LockSession.Inv.renameAino (h : LockSession.Inv ⟨u, held⟩) {addr1 addr2 : Nat}
    {flush : List Nat} (hne : addr2 ≠ addr1)
    (hnew : ∀ a ∈ u.ainos, a.addr = addr2 → a.shlock ≤ 0 ∧ a.elock = false)
    (hflush : ∀ addr ∈ flush, ∀ a ∈ u.ainos, a.addr = addr → a.shlock ≤ 0 ∧ a.elock = false)
    (hok : Filesys.renameAino { u with keys := u.keys.map (retarget addr1 addr2) } addr1 addr2 flush =
      .ok (u', r)) {p : LockPacket} (hp : p.handsBack = none) :
    LockSession.Inv ⟨u', heldAfter held p r⟩ := by
  obtain ⟨a1, hderef1, hok⟩ := ok_of_bind hok
  obtain ⟨a2, hderef2, hok⟩ := ok_of_bind hok
  obtain ⟨v, hdelete, hok⟩ := ok_of_bind hok
  obtain ⟨rfl, rfl⟩ := Prod.mk.inj (Except.ok.inj hok)
  have hflushed := h.flushes hflush
  have hmem := fun a (ha : a ∈ (flush.foldl LockUnit.dispose u).ainos) => mem_foldl_dispose ha
  rw [foldl_dispose] at hflushed hmem hderef1 hderef2 hdelete
  obtain ⟨h1, rfl⟩ := deref_ok hderef1
  obtain ⟨h2, rfl⟩ := deref_ok hderef2
  obtain ⟨hshlock, helock⟩ := hnew a2 (hmem a2 h2) rfl
  have hrenamed := hflushed.marks.rename h1 h2 hne
    (hflushed.marks.refs_unmarked h2 hshlock helock)
  rw [LockUnit.deleteAino] at hdelete
  cases hparent : a1.parent with
  | none =>
    rw [hparent] at hdelete
    cases hdelete
  | some parent =>
    rw [hparent] at hdelete
    obtain rfl := Except.ok.inj hdelete
    rw [heldAfter, hp]
    exact ⟨hrenamed, hflushed.chain, hflushed.held⟩

theorem LockSession.Inv.renameObject (h : LockSession.Inv ⟨u, held⟩) {found1 found2 : Found}
    {r' : Renaming} (hvalid : (LockPacket.renameObject found1 found2 r').Valid u held)
    (hcareful : (LockPacket.renameObject found1 found2 r').Careful u)
    (hok : actionRename u found1 found2 r' = .ok (u', r)) :
    LockSession.Inv ⟨u', heldAfter held (.renameObject found1 found2 r') r⟩ := by
  obtain ⟨hlive, -, haddr, hflush⟩ := hvalid
  obtain ⟨huniq, hkeys⟩ := hcareful
  rw [actionRename] at hok
  by_cases hwrite : u.writeprotected = true
  · rw [if_pos hwrite] at hok
    obtain ⟨rfl, rfl⟩ := Prod.mk.inj (Except.ok.inj hok)
    exact h
  rw [if_neg hwrite] at hok
  cases herr : found1.err with
  | some e =>
    rw [herr] at hok
    obtain ⟨rfl, rfl⟩ := Prod.mk.inj (Except.ok.inj hok)
    exact h
  | none =>
    obtain ⟨addr1, hfound⟩ := Option.ne_none_iff_exists'.mp (hlive.1 herr)
    rw [herr, hfound] at hok
    dsimp only [Option.getD_some] at hok
    by_cases hopen : (u.keys.any fun k => k.aino = addr1 ∧ k.fd ∧ k.createmode = 2) = true
    · rw [if_pos hopen] at hok
      obtain ⟨rfl, rfl⟩ := Prod.mk.inj (Except.ok.inj hok)
      exact h
    rw [if_neg hopen] at hok
    obtain ⟨a1, hderef, hok⟩ := ok_of_bind hok
    have hflushed := h.flushes fun addr hin => hflush addr (List.mem_append_left _ hin)
    have hmem := fun a (ha : a ∈ (r'.lookupFlush.foldl LockUnit.dispose u).ainos) =>
      mem_foldl_dispose ha
    have hkept : (r'.lookupFlush.foldl LockUnit.dispose u).keys = u.keys := by rw [foldl_dispose]
    generalize r'.lookupFlush.foldl LockUnit.dispose u = w at *
    obtain ⟨h1, rfl⟩ := deref_ok hderef
    by_cases hexact : found2.aino = some a1.addr ∧ r'.exact = true
    · rw [if_pos hexact] at hok
      obtain ⟨rfl, rfl⟩ := Prod.mk.inj (Except.ok.inj hok)
      exact hflushed
    rw [if_neg hexact] at hok
    by_cases hother : found2.aino ≠ some a1.addr ∧
        (found2.aino = none ∨ found2.err ≠ some .objectNotAround)
    · rw [if_pos hother] at hok
      obtain ⟨rfl, rfl⟩ := Prod.mk.inj (Except.ok.inj hok)
      exact hflushed
    rw [if_neg hother] at hok
    cases hbase : (if found2.aino = some a1.addr then a1.parent else found2.aino) with
    | none =>
      rw [hbase] at hok
      cases hok
    | some base =>
      cases hmade : r'.made with
      | none =>
        simp only [hbase, hmade] at hok
        obtain ⟨rfl, rfl⟩ := Prod.mk.inj (Except.ok.inj hok)
        exact hflushed
      | some made =>
        obtain ⟨addr2, uniq⟩ := made
        simp only [hbase, hmade] at hok
        have hfresh : ∀ b ∈ w.ainos, b.addr ≠ addr2 := fun b hb => haddr _ _ hmade b (hmem b hb)
        have hchild := hflushed.child base a1.dir hfresh
          fun b hb => huniq _ _ hmade b (hmem b hb)
        have hunmarked : ∀ a ∈ childAino base addr2 uniq a1.dir :: w.ainos, a.addr = addr2 →
            a.shlock ≤ 0 ∧ a.elock = false := by
          refine List.forall_mem_cons.mpr ⟨fun _ => ⟨Int.le_refl 0, rfl⟩, fun a ha heq => ?_⟩
          exact absurd heq (hfresh a ha)
        have hflush' : ∀ addr ∈ r'.notifyFlush,
            ∀ a ∈ childAino base addr2 uniq a1.dir :: w.ainos, a.addr = addr →
              a.shlock ≤ 0 ∧ a.elock = false := by
          refine fun addr hin => List.forall_mem_cons.mpr
            ⟨fun _ => ⟨Int.le_refl 0, rfl⟩, fun a ha heq => ?_⟩
          exact hflush addr (List.mem_append_right _ hin) a (hmem a ha) heq
        have hproceeds : RenameProceeds u found1 found2 r' := by
          refine ⟨by simpa using hwrite, herr, fun k hk hwriting => hopen ?_, ?_, by simp [hmade]⟩
          · refine List.any_eq_true.mpr ⟨k, hk, decide_eq_true ⟨?_, hwriting.2⟩⟩
            exact Option.some.inj (hwriting.1.symm.trans hfound)
          · rw [hfound]
            split_ifs with hsame
            · simpa [hsame] using hexact
            · simpa [hsame] using hother
        have hreopen : ∀ k ∈ w.keys, k.aino = a1.addr → r'.renamed = false ∧ k.fd = true ∧
            r'.reopened k = true ∧ a1.vfso = false := by
          intro k hk heq
          obtain ⟨hrenamed, hfd, hreopened, hvfso⟩ :=
            hkeys hproceeds k (hkept ▸ hk) (heq ▸ hfound)
          exact ⟨hrenamed, hfd, hreopened, hvfso a1 (hmem a1 h1) heq.symm⟩
        by_cases hdone : a1.vfso = true ∨ r'.renamed = true
        · rw [if_pos hdone] at hok
          have hsame : w.keys.map (retarget a1.addr addr2) = w.keys := by
            refine map_retarget_of_ne fun k hk heq => ?_
            obtain ⟨hrenamed, -, -, hvfso⟩ := hreopen k hk heq
            rw [hrenamed, hvfso] at hdone
            simp at hdone
          refine hchild.renameAino (hfresh a1 h1).symm hunmarked hflush' ?_ rfl
          change Filesys.renameAino { w with ainos := _, keys := w.keys.map _ } _ _ _ = _
          rw [hsame]
          exact hok
        have hmoved : ∀ x, relockRe { w with ainos := childAino base addr2 uniq a1.dir :: w.ainos }
            a1.addr x r'.reopened =
              { w with ainos := childAino base addr2 uniq a1.dir :: w.ainos
                       keys := w.keys.map (retarget a1.addr x) } :=
          fun x => relockRe_eq fun k hk heq => ⟨(hreopen k hk heq).2.1, (hreopen k hk heq).2.2.1⟩
        rw [if_neg hdone, hmoved, hmoved] at hok
        by_cases hretried : r'.retried = true
        · rw [if_pos hretried] at hok
          exact hchild.renameAino (hfresh a1 h1).symm hunmarked hflush' hok rfl
        · rw [if_neg hretried, List.map_id'' (retarget_self a1.addr)] at hok
          obtain ⟨rfl, rfl⟩ := Prod.mk.inj (Except.ok.inj hok)
          exact hchild.dispose hunmarked

end

/-! ### Runs -/

/-- A careful packet keeps the invariant. -/
theorem LockSession.Inv.packet {u u' : LockUnit} {held : List Nat} {r : LockReply}
    (h : LockSession.Inv ⟨u, held⟩) {p : LockPacket} (hvalid : p.Valid u held)
    (hcareful : p.Careful u) (hok : handlePacket u p = .ok (u', r)) :
    LockSession.Inv ⟨u', heldAfter held p r⟩ := by
  cases p with
  | locateObject found link mode => exact h.locateObject hok _
  | freeLock lock =>
    obtain ⟨rfl, rfl⟩ := Prod.mk.inj (Except.ok.inj hok)
    exact h.freeLock lock
  | copyDir lock =>
    change actionDupLock u lock = _ at hok
    rw [actionDupLock] at hok
    cases huniq : u.lockUniq lock with
    | none =>
      rw [huniq] at hok
      obtain ⟨rfl, rfl⟩ := Prod.mk.inj (Except.ok.inj hok)
      exact h
    | some uniq =>
      rw [huniq] at hok
      exact h.dupLock2 hok _
  | copyDirFh fh =>
    change actionLockFromFh u fh = _ at hok
    rw [actionLockFromFh] at hok
    cases hkey : u.lookupFileKey fh with
    | none =>
      rw [hkey] at hok
      obtain ⟨rfl, rfl⟩ := Prod.mk.inj (Except.ok.inj hok)
      exact h
    | some k =>
      rw [hkey] at hok
      obtain ⟨a, -, hok⟩ := ok_of_bind hok
      exact h.dupLock2 hok _
  | parent lock =>
    change actionParent u lock = _ at hok
    rw [actionParent] at hok
    cases huniq : u.lockUniq lock with
    | none =>
      rw [huniq] at hok
      obtain ⟨rfl, rfl⟩ := Prod.mk.inj (Except.ok.inj hok)
      exact h
    | some uniq =>
      rw [huniq] at hok
      exact h.parentCommon rfl hok
  | parentFh fh =>
    change actionParentFh u fh = _ at hok
    rw [actionParentFh] at hok
    cases hkey : u.lookupFileKey fh with
    | none =>
      rw [hkey] at hok
      obtain ⟨rfl, rfl⟩ := Prod.mk.inj (Except.ok.inj hok)
      exact h
    | some k =>
      rw [hkey] at hok
      obtain ⟨a, -, hok⟩ := ok_of_bind hok
      exact h.parentCommon rfl hok
  | createDir found host => exact h.createDir hvalid.2 hcareful hok _
  | findInput found link host => exact h.doFind hvalid.2 hcareful hok rfl
  | findOutput found link host =>
    change actionFindOutput u found link host = _ at hok
    rw [actionFindOutput] at hok
    split_ifs at hok with hwrite
    · obtain ⟨rfl, rfl⟩ := Prod.mk.inj (Except.ok.inj hok)
      exact h
    · exact h.doFind hvalid.2 hcareful hok rfl
  | findWrite found link host =>
    change actionFindWrite u found link host = _ at hok
    rw [actionFindWrite] at hok
    split_ifs at hok with hwrite
    · obtain ⟨rfl, rfl⟩ := Prod.mk.inj (Except.ok.inj hok)
      exact h
    · exact h.doFind hvalid.2 hcareful hok rfl
  | fhFromLock lock link opened errno =>
    obtain ⟨rfl, rfl⟩ := Prod.mk.inj (Except.ok.inj hok)
    exact h.fhFromLock lock link opened errno
  | endKey fh => exact h.endKey hok
  | changeModeLock lock mode =>
    obtain ⟨rfl, rfl⟩ := Prod.mk.inj (Except.ok.inj hok)
    exact h.changeModeLock hcareful
  | changeModeFh fh mode => exact h.changeModeFh hcareful hok
  | renameObject found1 found2 r' => exact h.renameObject hvalid hcareful hok

theorem LockSession.Inv.marked_iff {s : LockSession} (h : s.Inv) {a : Aino}
    (ha : a ∈ s.unit.ainos) : a.shlock > 0 ∨ a.elock = true ↔ s.unit.refs a ≠ 0 := by
  have hmarks := h.marks.marks a ha
  rw [LockUnit.refs]
  cases helock : a.elock <;> rw [helock] at hmarks <;>
    simp only [Counts, Bool.false_eq_true, if_false, if_true] at hmarks
  · simp only [Bool.false_eq_true, or_false]
    omega
  · simp [hmarks.2]

theorem LockSession.Inv.lockable {s : LockSession} (h : s.Inv) {a : Aino} (ha : a ∈ s.unit.ainos)
    (hsoftlink : a.softlink = false) (link : FsError) :
    actionLock s.unit ⟨some a.addr, none⟩ link exclusiveLock =
      .ok (s.unit, .failed .objectInUse) ↔ s.unit.refs a ≠ 0 := by
  rw [← h.marked_iff ha]
  have hlock : actionLock s.unit ⟨some a.addr, none⟩ link exclusiveLock =
      if a.elock ∨ exclusiveLock ≠ sharedLock ∧ a.shlock > 0 then
        .ok (s.unit, .failed .objectInUse)
      else (s.unit.mark a.addr a.shlock true).makeLock a.uniq := by
    change (s.unit.deref a.addr >>= _) = _
    rw [deref_of_mem h.marks.addrs ha]
    change (if a.softlink then _ else _) = _
    rw [hsoftlink]
    rfl
  rw [hlock]
  by_cases hinUse : a.shlock > 0 ∨ a.elock = true
  · rw [if_pos (hinUse.symm.imp_right fun hshlock => ⟨by decide, hshlock⟩)]
    exact iff_of_true rfl hinUse
  · rw [if_neg fun hno => hinUse (hno.symm.imp_left And.right)]
    refine iff_of_false (fun hok => ?_) hinUse
    rw [LockUnit.makeLock] at hok
    cases hlist : (s.unit.mark a.addr a.shlock true).locklist with
    | nil =>
      rw [hlist] at hok
      cases hok
    | cons l rest =>
      rw [hlist] at hok
      cases (Prod.mk.inj (Except.ok.inj hok)).2

theorem LockSession.Inv.deletable {s : LockSession} (h : s.Inv) {a : Aino} (ha : a ∈ s.unit.ainos)
    (hwrite : s.unit.writeprotected = false) (hmode : a.amigaosMode &&& fibfDelete = 0)
    (removed : Bool) (errno : Int) :
    actionDeleteObject s.unit ⟨some a.addr, none⟩ removed errno =
      .ok (s.unit, .failed .objectInUse) ↔ s.unit.refs a ≠ 0 := by
  rw [← h.marked_iff ha, actionDeleteObject, if_neg (by rw [hwrite]; decide)]
  change (s.unit.deref a.addr >>= _) = _ ↔ _
  rw [deref_of_mem h.marks.addrs ha]
  change (if a.amigaosMode &&& fibfDelete ≠ 0 then _ else _) = _ ↔ _
  rw [if_neg (not_not.mpr hmode)]
  by_cases hinUse : a.shlock > 0 ∨ a.elock = true
  · rw [if_pos hinUse]
    exact iff_of_true rfl hinUse
  · rw [if_neg hinUse]
    refine iff_of_false (fun hok => ?_) hinUse
    split_ifs at hok with hhost hchild
    · cases (Prod.mk.inj (Except.ok.inj hok)).2
    · cases (Prod.mk.inj (Except.ok.inj hok)).2
    · obtain ⟨v, -, hok⟩ := ok_of_bind hok
      cases (Prod.mk.inj (Except.ok.inj hok)).2

theorem LockSession.Inv.accounted {s : LockSession} (h : s.Inv) : Accounted s where
  marks := h.marks.marks
  unmarked a ha := by
    have hmarks := h.marks.marks a ha
    rw [LockUnit.refs]
    cases helock : a.elock <;> rw [helock] at hmarks <;>
      simp only [Counts, Bool.false_eq_true, if_false, if_true] at hmarks
    · simp only [and_true]
      omega
    · simp [hmarks.2]
  lockable _ ha := h.lockable ha
  deletable _ ha := h.deletable ha
  chain := h.held.symm
  disjoint := h.chain.disjoint

theorem LockSession.Inv.step {s s' : LockSession} {e : LockEvent} (h : s.Inv) (hlegal : e.Legal s)
    (hcareful : e.Careful s) (hstep : s.step e = .ok s') : s'.Inv := by
  cases e with
  | packet morelocks p =>
    obtain ⟨-, hnodup, hfree, hvalid⟩ := hlegal
    have hunit : LockSession.Inv
        ⟨{ s.unit with locklist := morelocks ++ s.unit.locklist }, s.held⟩ := by
      refine ⟨h.marks, ⟨h.chain.nodup, hnodup, fun l hl f hf => ?_, h.chain.above⟩, h.held⟩
      rcases List.mem_append.mp hf with hf | hf
      · exact hfree f hf l hl
      · exact h.chain.disjoint l hl f hf
    change Except.map _ (handlePacket _ p) = _ at hstep
    cases hdone : handlePacket { s.unit with locklist := morelocks ++ s.unit.locklist } p with
    | error f =>
      rw [hdone] at hstep
      cases hstep
    | ok done =>
      rw [hdone] at hstep
      obtain rfl := Except.ok.inj hstep
      exact hunit.packet hvalid hcareful hdone
  | sendBack =>
    obtain rfl := Except.ok.inj hstep
    exact ⟨h.marks, ⟨h.chain.nodup, .nil, fun _ _ _ hf => (nomatch hf), h.chain.above⟩, h.held⟩
  | lookup a =>
    obtain rfl := Except.ok.inj hstep
    obtain ⟨haddr, hshlock, helock⟩ := hlegal
    exact ⟨h.marks.cons_aino haddr hcareful hshlock helock, h.chain, h.held⟩
  | flush addr =>
    obtain rfl := Except.ok.inj hstep
    exact h.dispose hlegal

theorem LockSession.Start.inv {s : LockSession} (h : s.Start) : s.Inv := by
  refine ⟨⟨h.addrs, h.uniqs, fun a ha => ?_, ?_, ?_⟩, ⟨?_, ?_, ?_, ?_⟩, ?_⟩
  · obtain ⟨hshlock, helock⟩ := h.unmarked a ha
    simp [Counts, refs, h.locks, h.keys, hshlock, helock]
  all_goals simp [h.locks, h.keys, h.locklist, h.held]

/-- A volume with one file. -/
def oneFile : LockSession where
  unit := { ainos := [childAino 8 16 1 false, { childAino 0 8 0 true with parent := none }]
            keys := [], locks := [], locklist := [], keyUniq := 0, writeprotected := false }
  held := []

theorem oneFile_start : oneFile.Start := by
  refine ⟨rfl, rfl, rfl, rfl, by decide, by decide, by decide⟩

/-- The file locked, in a mode. -/
def lockFile (mode : Int) : LockEvent :=
  .packet [100] (.locateObject ⟨some 16, none⟩ .objectNotAround mode)

/-- The lock changed to a shared one. -/
def shareLock : LockEvent := .packet [200] (.changeModeLock 104 sharedLock)

theorem lockFile_legal (mode : Int) : (lockFile mode).Legal oneFile := by
  refine ⟨by decide, by decide, by decide, fun _ => by simp, fun addr haddr => ?_⟩
  obtain rfl := Option.some.inj haddr
  exact ⟨childAino 8 16 1 false, List.mem_cons_self, rfl⟩

/-- The file locked once, with its marks. -/
def fileLocked (shlock : Int) (elock : Bool) (locklist : List Nat) : LockSession where
  unit := { oneFile.unit with
            ainos := [{ childAino 8 16 1 false with shlock, elock },
              { childAino 0 8 0 true with parent := none }]
            locks := [⟨104, 1⟩], locklist }
  held := [104]

theorem shareLock_legal (shlock : Int) (elock : Bool) :
    shareLock.Legal (fileLocked shlock elock []) :=
  ⟨by decide, List.nodup_singleton 200, fun _ hl => by simp_all [fileLocked],
    List.mem_singleton.mpr rfl⟩

end LibretroUae.Filesys
