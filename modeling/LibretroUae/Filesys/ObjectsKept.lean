import LibretroUae.Filesys.ObjectPackets

/-!
# LibretroUae.Filesys.ObjectsKept

**Packets that fail leave the objects alone.** A lookup may cache inodes that mirror the host, and
free such inodes; a child that was made for nothing is deleted again. Two packets do not keep to
that: a directory that the host does not make stays in the cache, and a mode that the host does not
take stays in its inode.
-/

namespace LibretroUae.Filesys

open Lib

/-- The inode has an object on the host, with its attributes. -/
def Inode.Mirrors (host : ObjectHost) (x : Inode) : Prop :=
  ∃ base o, x.parent = some base ∧ host.objects base x.aname = some o ∧
    o.amigaosMode = x.amigaosMode ∧ o.comment = x.comment

/-- The inode is locked or open. -/
def Inode.Taken (x : Inode) : Prop := 0 < x.shlock ∨ x.elock = true

namespace ObjectUnit

/-- What lookups of a name in a directory find, and scans of the directory. -/
def Visible (host : ObjectHost) (u : ObjectUnit) (base : Nat) (n : ObjectName) : Prop :=
  (∃ a x, u.inodes.lookup a = some x ∧ x.parent = some base ∧ x.aname = n) ∨
    (host.objects base n).isSome = true

/-- The same names are there. Inodes have the marks that they had; those that came or went mirror
the host, and those that are taken are there. -/
structure Intact (host : ObjectHost) (u u' : ObjectUnit) : Prop where
  names : ∀ base n, Visible host u' base n ↔ Visible host u base n
  inodes : ∀ a x x', u.inodes.lookup a = some x → u'.inodes.lookup a = some x' →
    x'.amigaosMode = x.amigaosMode ∧ x'.comment = x.comment ∧ x'.shlock = x.shlock ∧
      x'.elock = x.elock
  cached : ∀ a x, u.inodes.lookup a = none → u'.inodes.lookup a = some x →
    x.Mirrors host ∧ ¬x.Taken
  dropped : ∀ a x, u.inodes.lookup a = some x → u'.inodes.lookup a = none → x.Mirrors host
  taken : ∀ a x, u.inodes.lookup a = some x → x.Taken → (u'.inodes.lookup a).isSome = true
  keys : u'.keys = u.keys

/-- When a packet that fails keeps everything: a directory that the host does not make is one that
it has, and a mode that the host does not take is the one before. -/
def Careful (host : ObjectHost) (u : ObjectUnit) : ObjectPacket → Prop
  | .createDir base name making =>
    ∀ u1 dir, u.writeprotected = false → making.nname = true → making.done = false →
      u.findAino host base name = .ok (u1, ⟨some dir, some .objectNotAround⟩) →
        (newNode dir (bstrCut name) true).Mirrors host
  | .setProtect base name mask attrs =>
    ∀ u1 a x, u.writeprotected = false → attrs = false →
      u.findAino host base name = .ok (u1, ⟨some a, none⟩) → u1.inodes.lookup a = some x →
        x.softlink = false → u1.storedMode x mask = x.amigaosMode
  | _ => True

/-- The cached files that are freed for new inodes mirror the host. -/
def FlushesMirrors (host : ObjectHost) (u : ObjectUnit) : Prop :=
  ∀ next a x, a ∈ host.flush next → u.inodes.lookup a = some x → x.dir = false → ¬x.Taken →
    x.Mirrors host

/-- Handles that a rename closes can be opened again. -/
def Reopens : ObjectPacket → Prop
  | .rename _ _ _ _ r => ∀ k, r.reopened k = true
  | _ => True

/-! ### Lookups -/

/-- What a lookup may do to the cache. -/
structure Cached (host : ObjectHost) (u u' : ObjectUnit) : Prop where
  keys : u'.keys = u.keys
  next : u.inodes.next ≤ u'.inodes.next
  kept : ∀ a x, u.inodes.lookup a = some x → u'.inodes.lookup a = some x ∨
    u'.inodes.lookup a = none ∧ x.Mirrors host ∧ ¬x.Taken
  fresh : ∀ a x, u'.inodes.lookup a = some x → u.inodes.lookup a = some x ∨
    u.inodes.next ≤ a ∧ x.Mirrors host ∧ ¬x.Taken

section

variable {host : ObjectHost} {u u' u'' : ObjectUnit}

theorem Cached.refl (host : ObjectHost) (u : ObjectUnit) : Cached host u u :=
  ⟨rfl, Nat.le_refl _, fun _ _ => .inl, fun _ _ => .inl⟩

theorem Cached.trans (h : Cached host u u') (h' : Cached host u' u'') : Cached host u u'' := by
  refine ⟨h'.keys.trans h.keys, Nat.le_trans h.next h'.next, fun a x hx => ?_, fun a x hx => ?_⟩
  · rcases h.kept a x hx with hsame | ⟨hnone, hmirror⟩
    · exact h'.kept a x hsame
    · refine .inr ⟨?_, hmirror⟩
      -- An address is not used again.
      cases hx'' : u''.inodes.lookup a with
      | none => rfl
      | some x'' =>
        rcases h'.fresh a x'' hx'' with hold | ⟨hnext, -⟩
        · cases hnone.symm.trans hold
        · exact absurd (Arena.lt_next hx) (Nat.not_lt_of_le (Nat.le_trans h.next hnext))
  · rcases h'.fresh a x hx with hx' | ⟨hnext, hmirror⟩
    · exact h.fresh a x hx'
    · exact .inr ⟨Nat.le_trans h.next hnext, hmirror⟩

theorem Cached.visible (h : Cached host u u') (base : Nat) (n : ObjectName) :
    Visible host u' base n ↔ Visible host u base n := by
  have hmirrors : ∀ x : Inode, x.Mirrors host → x.parent = some base → x.aname = n →
      (host.objects base n).isSome = true := by
    rintro x ⟨base', o, hparent, hobject, -⟩ hbase hname
    obtain rfl := Option.some.inj (hparent.symm.trans hbase)
    exact hname ▸ Option.isSome_of_eq_some hobject
  constructor
  · rintro (⟨a, x, hx, hparent, hname⟩ | hobject)
    · rcases h.fresh a x hx with hold | ⟨-, hmirror, -⟩
      · exact .inl ⟨a, x, hold, hparent, hname⟩
      · exact .inr (hmirrors x hmirror hparent hname)
    · exact .inr hobject
  · rintro (⟨a, x, hx, hparent, hname⟩ | hobject)
    · rcases h.kept a x hx with hsame | ⟨-, hmirror, -⟩
      · exact .inl ⟨a, x, hsame, hparent, hname⟩
      · exact .inr (hmirrors x hmirror hparent hname)
    · exact .inr hobject

theorem Cached.intact (h : Cached host u u') : Intact host u u' where
  names := h.visible
  inodes := fun a x x' hx hx' => by
    rcases h.kept a x hx with hsame | ⟨hnone, -⟩
    · obtain rfl := Option.some.inj (hsame.symm.trans hx')
      exact ⟨rfl, rfl, rfl, rfl⟩
    · cases hnone.symm.trans hx'
  cached := fun a x hnone hx => by
    rcases h.fresh a x hx with hold | ⟨-, hnew⟩
    · cases hnone.symm.trans hold
    · exact hnew
  dropped := fun a x hx hnone => by
    rcases h.kept a x hx with hsame | ⟨-, hmirror, -⟩
    · cases hsame.symm.trans hnone
    · exact hmirror
  taken := fun a x hx htaken => by
    rcases h.kept a x hx with hsame | ⟨-, -, hfree⟩
    · exact Option.isSome_of_eq_some hsame
    · exact absurd htaken hfree
  keys := h.keys

/-- What a lookup leaves can be flushed as what it met. -/
theorem Cached.flushesMirrors (h : Cached host u u') (hflush : u.FlushesMirrors host) :
    u'.FlushesMirrors host := by
  intro next a x ha hx hfile hfree
  rcases h.fresh a x hx with hold | ⟨-, hmirror, -⟩
  · exact hflush next a x ha hold hfile hfree
  · exact hmirror

/-- An inode that nobody has, and that the host's object stands for, may go. -/
theorem deleteNode_cached {a : Nat} {x : Inode} (hx : u.inodes.lookup a = some x)
    (hmirror : x.Mirrors host) (hfree : ¬x.Taken) : Cached host u (u.deleteNode a) := by
  refine ⟨rfl, Nat.le_refl _, fun b y hy => ?_, fun b y hy => ?_⟩
  · change (u.inodes.erase a).lookup b = _ ∨ (u.inodes.erase a).lookup b = _ ∧ _
    rw [Arena.lookup_erase]
    by_cases hb : b = a
    · obtain rfl := Option.some.inj (hy.symm.trans (hb ▸ hx))
      rw [if_pos hb]
      exact .inr ⟨rfl, hmirror, hfree⟩
    · rw [if_neg hb]
      exact .inl hy
  · change (u.inodes.erase a).lookup b = _ at hy
    rw [Arena.lookup_erase] at hy
    by_cases hb : b = a
    · rw [if_pos hb] at hy
      cases hy
    · rw [if_neg hb] at hy
      exact .inl hy

theorem flushNodes_cached {addrs : List Nat}
    (hmirrors : ∀ a ∈ addrs, ∀ x, u.inodes.lookup a = some x → x.dir = false → ¬x.Taken →
      x.Mirrors host) :
    Cached host u (u.flushNodes addrs) := by
  induction addrs generalizing u with
  | nil => exact .refl host u
  | cons a rest ih =>
    have hrest := fun b (hb : b ∈ rest) => hmirrors b (List.mem_cons_of_mem a hb)
    rw [flushNodes]
    cases hx : u.inodes.lookup a with
    | none =>
      dsimp only
      rw [if_neg Bool.false_ne_true]
      exact ih hrest
    | some x =>
      dsimp only
      split_ifs with hrecyclable
      · simp only [Bool.and_eq_true, Bool.not_eq_true', decide_eq_true_eq] at hrecyclable
        obtain ⟨⟨hfile, hshared⟩, hexclusive⟩ := hrecyclable
        have hfree : ¬x.Taken := by
          rintro (hcount | hlocked)
          · omega
          · exact Bool.false_ne_true (hexclusive.symm.trans hlocked)
        have hdelete := deleteNode_cached hx (hmirrors a List.mem_cons_self x hx hfile hfree) hfree
        refine hdelete.trans (ih fun b hb y hy hfile' hfree' => ?_)
        rcases hdelete.fresh b y hy with hold | ⟨-, hmirror, -⟩
        · exact hrest b hb y hold hfile' hfree'
        · exact hmirror
      · exact ih hrest

/-- A new child: what is flushed for it, and where it is. -/
theorem initChild_eq (hflush : u.FlushesMirrors host) (x : Inode) :
    ∃ u1, Cached host u u1 ∧
      u.initChild host x = ({ u1 with inodes := (u1.inodes.add x).1 }, u1.inodes.next) := by
  cases hdir : x.dir with
  | true =>
    refine ⟨u, .refl host u, ?_⟩
    rw [initChild, hdir]
    rfl
  | false =>
    refine ⟨_, flushNodes_cached fun a ha x => hflush u.inodes.next a x ha, ?_⟩
    rw [initChild, hdir]
    rfl

theorem initChild_cached (hflush : u.FlushesMirrors host) {x : Inode} (hx : x.Mirrors host)
    (hfree : ¬x.Taken) :
    Cached host u (u.initChild host x).1 := by
  obtain ⟨u1, hcached, heq⟩ := initChild_eq hflush x
  rw [heq]
  refine hcached.trans ⟨rfl, Nat.le_succ _, fun a y hy => .inl ?_, fun a y hy => ?_⟩
  · change (u1.inodes.add x).1.lookup a = _
    rw [Arena.lookup_add, if_neg (Nat.ne_of_lt (Arena.lt_next hy))]
    exact hy
  · change (u1.inodes.add x).1.lookup a = _ at hy
    rw [Arena.lookup_add] at hy
    by_cases ha : a = u1.inodes.next
    · rw [if_pos ha] at hy
      obtain rfl := Option.some.inj hy
      exact .inr ⟨Nat.le_of_eq ha.symm, hx, hfree⟩
    · rw [if_neg ha] at hy
      exact .inl hy

theorem lookupChild_cached {base : Nat} {rel : ObjectName} {r : Except FsError Nat}
    (hflush : u.FlushesMirrors host)
    (h : u.lookupChild host base rel = .ok (u', r)) : Cached host u u' := by
  rw [lookupChild] at h
  obtain ⟨b, -, h⟩ := ok_of_bind h
  split_ifs at h
  · obtain ⟨rfl, -⟩ := Prod.mk.inj (Except.ok.inj h)
    exact .refl host u
  cases hfind : u.inodes.find? fun x => x.parent = some base && x.aname = rel with
  | some a =>
    rw [hfind] at h
    obtain ⟨rfl, -⟩ := Prod.mk.inj (Except.ok.inj h)
    exact .refl host u
  | none =>
    rw [hfind] at h
    dsimp only at h
    cases hobject : host.objects base rel with
    | none =>
      rw [hobject] at h
      obtain ⟨rfl, -⟩ := Prod.mk.inj (Except.ok.inj h)
      exact .refl host u
    | some o =>
      rw [hobject] at h
      obtain ⟨rfl, -⟩ := Prod.mk.inj (Except.ok.inj h)
      refine initChild_cached hflush ⟨base, o, rfl, hobject, rfl, rfl⟩ ?_
      rintro (hcount | hlocked)
      · exact absurd hcount (Int.lt_irrefl 0)
      · cases hlocked

theorem getAino_cached {curr : Nat} {prev : Option Nat} {steps : List PathStep} {found : Found}
    (hflush : u.FlushesMirrors host)
    (h : u.getAino host curr prev steps = .ok (u', found)) : Cached host u u' := by
  induction steps generalizing u curr prev with
  | nil =>
    obtain ⟨rfl, -⟩ := Prod.mk.inj (Except.ok.inj h)
    exact .refl host u
  | cons step rest ih =>
    cases step with
    | up =>
      rw [getAino.eq_def] at h
      obtain ⟨x, -, h⟩ := ok_of_bind h
      exact ih hflush h
    | name n last =>
      rw [getAino.eq_def] at h
      obtain ⟨link, -, h⟩ := ok_of_bind h
      by_cases hlink : link = true
      · rw [if_pos hlink] at h
        obtain ⟨rfl, -⟩ := Prod.mk.inj (Except.ok.inj h)
        exact .refl host u
      · rw [if_neg hlink] at h
        obtain ⟨⟨u1, r⟩, hlookup, h⟩ := ok_of_bind h
        cases r with
        | error e =>
          obtain ⟨rfl, -⟩ := Prod.mk.inj (Except.ok.inj h)
          exact lookupChild_cached hflush hlookup
        | ok next =>
          have hchild := lookupChild_cached hflush hlookup
          exact hchild.trans (ih (hchild.flushesMirrors hflush) h)

theorem findAino_cached {base : Nat} {name : ObjectName} {found : Found}
    (hflush : u.FlushesMirrors host)
    (h : u.findAino host base name = .ok (u', found)) : Cached host u u' :=
  getAino_cached hflush h

theorem getAino_found {curr : Nat} {prev : Option Nat} {steps : List PathStep} {found : Found}
    (h : u.getAino host curr prev steps = .ok (u', found)) (herr : found.err = none) :
    ∃ a, found.aino = some a := by
  induction steps generalizing u curr prev with
  | nil =>
    obtain ⟨-, rfl⟩ := Prod.mk.inj (Except.ok.inj h)
    exact ⟨curr, rfl⟩
  | cons step rest ih =>
    cases step with
    | up =>
      rw [getAino.eq_def] at h
      obtain ⟨x, -, h⟩ := ok_of_bind h
      exact ih h
    | name n last =>
      rw [getAino.eq_def] at h
      obtain ⟨link, -, h⟩ := ok_of_bind h
      by_cases hlink : link = true
      · rw [if_pos hlink] at h
        obtain ⟨-, rfl⟩ := Prod.mk.inj (Except.ok.inj h)
        cases herr
      · rw [if_neg hlink] at h
        obtain ⟨⟨u1, r⟩, -, h⟩ := ok_of_bind h
        cases r with
        | error e =>
          obtain ⟨-, rfl⟩ := Prod.mk.inj (Except.ok.inj h)
          cases herr
        | ok next => exact ih h

theorem deref_ok {a : Nat} {x : Inode} (h : u.deref a = .ok x) : u.inodes.lookup a = some x := by
  rw [deref] at h
  cases hx : u.inodes.lookup a with
  | none =>
    rw [hx] at h
    cases h
  | some y =>
    rw [hx] at h
    exact congrArg some (Except.ok.inj h)

/-! ### Packets that fail -/

/-- A child that is made and deleted again. -/
theorem createChild_delete (hflush : u.FlushesMirrors host) (base : Nat) (rel : ObjectName)
    (dir : Bool) :
    Cached host u ((u.createChild host base rel dir).1.deleteNode
      (u.createChild host base rel dir).2) := by
  obtain ⟨u1, hcached, heq⟩ := initChild_eq hflush (newNode base rel dir)
  rw [createChild, heq]
  have hlookup : ∀ b, ((u1.inodes.add (newNode base rel dir)).1.erase u1.inodes.next).lookup b =
      u1.inodes.lookup b := by
    intro b
    rw [Arena.lookup_erase, Arena.lookup_add]
    by_cases hb : b = u1.inodes.next
    · rw [if_pos hb, hb, Arena.lookup_next]
    · rw [if_neg hb, if_neg hb]
  exact hcached.trans ⟨rfl, Nat.le_succ _, fun a x hx => .inl ((hlookup a).trans hx),
    fun a x hx => .inl ((hlookup a).symm.trans hx)⟩

/-- An inode that stays has to mirror something. -/
theorem createChild_intact (hflush : u.FlushesMirrors host) (h : Cached host u u') (base : Nat)
    (rel : ObjectName) (dir : Bool) :
    Intact host u (u'.createChild host base rel dir).1 ↔ (newNode base rel dir).Mirrors host := by
  constructor
  · intro hintact
    obtain ⟨u1, hcached, heq⟩ := initChild_eq (h.flushesMirrors hflush) (newNode base rel dir)
    rw [createChild, heq] at hintact
    have hnone : u.inodes.lookup u1.inodes.next = none := by
      cases hold : u.inodes.lookup u1.inodes.next with
      | none => rfl
      | some x =>
        have hnext := Nat.le_trans h.next hcached.next
        exact absurd (Arena.lt_next hold) (Nat.not_lt_of_le hnext)
    have hnew : (u1.inodes.add (newNode base rel dir)).1.lookup u1.inodes.next =
        some (newNode base rel dir) := (Arena.lookup_add _ _ _).trans (if_pos rfl)
    exact (hintact.cached _ _ hnone hnew).1
  · intro hmirror
    refine (h.trans (initChild_cached (h.flushesMirrors hflush) hmirror ?_)).intact
    rintro (hcount | hlocked)
    · exact absurd hcount (Int.lt_irrefl 0)
    · cases hlocked

/-- An inode whose mode is stored has to keep it. -/
theorem putMode_intact {a : Nat} {x : Inode} (h : Cached host u u')
    (hx : u'.inodes.lookup a = some x) (mode : UInt32) :
    Intact host u (u'.putNode a { x with amigaosMode := mode }) ↔ mode = x.amigaosMode := by
  have hput : ∀ b, (u'.inodes.put a { x with amigaosMode := mode }).lookup b =
      if b = a then some { x with amigaosMode := mode } else u'.inodes.lookup b :=
    Arena.lookup_put hx _
  have hnew : (u'.inodes.put a { x with amigaosMode := mode }).lookup a =
      some { x with amigaosMode := mode } := (hput a).trans (if_pos rfl)
  constructor
  · intro hintact
    cases hold : u.inodes.lookup a with
    | some y =>
      obtain rfl : y = x := by
        rcases h.kept a y hold with hsame | ⟨hnone, -⟩
        · exact Option.some.inj (hsame.symm.trans hx)
        · cases hnone.symm.trans hx
      exact (hintact.inodes a _ _ hold hnew).1
    | none =>
      obtain ⟨⟨base, o, hparent, hobject, hmode, -⟩, -⟩ := hintact.cached a _ hold hnew
      rcases h.fresh a x hx with hsame | ⟨-, ⟨base', o', hparent', hobject', hmode', -⟩, -⟩
      · cases hold.symm.trans hsame
      · obtain rfl := Option.some.inj (hparent.symm.trans hparent')
        obtain rfl := Option.some.inj (hobject.symm.trans hobject')
        exact hmode.symm.trans hmode'
  · rintro rfl
    have hsame : ∀ b, (u'.putNode a x).inodes.lookup b = u'.inodes.lookup b := by
      intro b
      refine (hput b).trans ?_
      by_cases hb : b = a
      · rw [if_pos hb, hb, hx]
      · rw [if_neg hb]
    refine (Cached.intact (h.trans ⟨rfl, ?_, fun b y hy => .inl ((hsame b).trans hy),
      fun b y hy => .inl ((hsame b).symm.trans hy)⟩))
    change u'.inodes.next ≤ (u'.inodes.put a x).next
    rw [Arena.put]
    split_ifs
    · exact Nat.le_refl _
    · exact Nat.le_refl _

/-! ### The packets -/

theorem createDir_intact {base : Nat} {name : ObjectName} {making : Making} {e : FsError}
    (hflush : u.FlushesMirrors host)
    (h : u.createDir host base name making = .ok (u', .failed e)) :
    Intact host u u' ↔ u.Careful host (.createDir base name making) := by
  rw [createDir] at h
  by_cases hprotected : u.writeprotected = true
  · rw [if_pos hprotected] at h
    obtain ⟨rfl, -⟩ := Prod.mk.inj (Except.ok.inj h)
    refine iff_of_true (Cached.refl host u).intact fun _ _ hwritable => ?_
    exact absurd hprotected (hwritable ▸ Bool.false_ne_true)
  rw [if_neg hprotected] at h
  obtain ⟨⟨u1, found⟩, hfind, h⟩ := ok_of_bind h
  have hcached := findAino_cached hflush hfind
  -- Elsewhere the lookup is all that was done.
  have helsewhere : u' = u1 → (∀ dir, found = ⟨some dir, some .objectNotAround⟩ →
      making.nname = true → making.done = true) →
        (Intact host u u' ↔ u.Careful host (.createDir base name making)) := by
    rintro rfl hother
    refine iff_of_true hcached.intact fun u2 dir _ hnname hdone hfind' => ?_
    obtain ⟨-, hfound⟩ := Prod.mk.inj (Except.ok.inj (hfind.symm.trans hfind'))
    cases hdone.symm.trans (hother dir hfound hnname)
  obtain ⟨aino, err⟩ := found
  cases aino with
  | none => exact helsewhere (Prod.mk.inj (Except.ok.inj h)).1.symm fun _ hfound => by cases hfound
  | some dir =>
    cases err with
    | none =>
      exact helsewhere (Prod.mk.inj (Except.ok.inj h)).1.symm fun _ hfound => by cases hfound
    | some err =>
      by_cases haround : err = .objectNotAround
      swap
      · have hfailed : (Except.ok (u1, .failed err) :
            Except ObjectFault (ObjectUnit × ObjectReply)) = .ok (u', .failed e) := by
          cases err <;> first | exact h | exact absurd rfl haround
        refine helsewhere (Prod.mk.inj (Except.ok.inj hfailed)).1.symm fun _ hfound => ?_
        cases hfound
        exact absurd rfl haround
      subst haround
      dsimp only at h
      by_cases hnname : making.nname = true
      swap
      · rw [(Bool.not_eq_true _).mp hnname] at h
        exact helsewhere (Prod.mk.inj (Except.ok.inj h)).1.symm fun _ _ hyes => absurd hyes hnname
      rw [hnname, Bool.not_true, if_neg Bool.false_ne_true] at h
      by_cases hdone : making.done = true
      · rw [hdone, Bool.not_true, if_neg Bool.false_ne_true] at h
        obtain ⟨x, -, h⟩ := ok_of_bind h
        cases h
      rw [(Bool.not_eq_true _).mp hdone, Bool.not_false, if_pos rfl] at h
      obtain ⟨rfl, -⟩ := Prod.mk.inj (Except.ok.inj h)
      refine (createChild_intact hflush hcached dir (bstrCut name) true).trans ⟨fun hmirror => ?_,
        fun hcareful => ?_⟩
      · intro u2 dir' _ _ _ hfind'
        cases Except.ok.inj (hfind.symm.trans hfind')
        exact hmirror
      · exact hcareful u1 dir ((Bool.not_eq_true _).mp hprotected) hnname
          ((Bool.not_eq_true _).mp hdone) hfind

theorem setProtect_intact {base : Nat} {name : ObjectName} {mask : UInt32} {attrs : Bool}
    {e : FsError} (hflush : u.FlushesMirrors host)
    (h : u.setProtect host base name mask attrs = .ok (u', .failed e)) :
    Intact host u u' ↔ u.Careful host (.setProtect base name mask attrs) := by
  rw [setProtect] at h
  by_cases hprotected : u.writeprotected = true
  · rw [if_pos hprotected] at h
    obtain ⟨rfl, -⟩ := Prod.mk.inj (Except.ok.inj h)
    refine iff_of_true (Cached.refl host u).intact fun _ _ _ hwritable => ?_
    exact absurd hprotected (hwritable ▸ Bool.false_ne_true)
  rw [if_neg hprotected] at h
  obtain ⟨⟨u1, ⟨aino, err⟩⟩, hfind, h⟩ := ok_of_bind h
  have hcached := findAino_cached hflush hfind
  cases err with
  | some err =>
    obtain ⟨rfl, -⟩ := Prod.mk.inj (Except.ok.inj h)
    refine iff_of_true hcached.intact fun u2 a x _ _ hfind' => ?_
    cases Except.ok.inj (hfind.symm.trans hfind')
  | none =>
    obtain ⟨a, rfl⟩ := getAino_found hfind rfl
    obtain ⟨x, hx, h⟩ := ok_of_bind h
    have hlookup := deref_ok hx
    by_cases hlink : x.softlink = true
    · rw [if_pos hlink] at h
      obtain ⟨rfl, -⟩ := Prod.mk.inj (Except.ok.inj h)
      refine iff_of_true hcached.intact fun u2 a' x' _ _ hfind' hlookup' hno => ?_
      cases Except.ok.inj (hfind.symm.trans hfind')
      obtain rfl := Option.some.inj (hlookup.symm.trans hlookup')
      cases hno.symm.trans hlink
    rw [if_neg hlink] at h
    obtain ⟨rfl, hreply⟩ := Prod.mk.inj (Except.ok.inj h)
    have hattrs : attrs = false := by
      cases attrs with
      | false => rfl
      | true => cases hreply
    refine (putMode_intact hcached hlookup _).trans ⟨fun hmode => ?_, fun hcareful => ?_⟩
    · intro u2 a' x' _ _ hfind' hlookup' _
      cases Except.ok.inj (hfind.symm.trans hfind')
      obtain rfl := Option.some.inj (hlookup.symm.trans hlookup')
      exact hmode
    · exact hcareful u1 a x ((Bool.not_eq_true _).mp hprotected) hattrs hfind hlookup
        ((Bool.not_eq_true _).mp hlink)

theorem setComment_intact {base : Nat} {name comment : ObjectName} {e : FsError}
    (hflush : u.FlushesMirrors host)
    (h : u.setComment host base name comment = .ok (u', .failed e)) : Intact host u u' := by
  rw [setComment] at h
  split_ifs at h
  · obtain ⟨rfl, -⟩ := Prod.mk.inj (Except.ok.inj h)
    exact (Cached.refl host u).intact
  · obtain ⟨rfl, -⟩ := Prod.mk.inj (Except.ok.inj h)
    exact (Cached.refl host u).intact
  all_goals
    obtain ⟨⟨u1, ⟨aino, err⟩⟩, hfind, h⟩ := ok_of_bind h
    have hcached := findAino_cached hflush hfind
    cases err with
    | some err =>
      obtain ⟨rfl, -⟩ := Prod.mk.inj (Except.ok.inj h)
      exact hcached.intact
    | none =>
      obtain ⟨x, -, h⟩ := ok_of_bind h
      split_ifs at h
      · obtain ⟨rfl, -⟩ := Prod.mk.inj (Except.ok.inj h)
        exact hcached.intact
      · cases h

theorem deleteObject_intact {base : Nat} {name : ObjectName} {removed : Bool} {errno : Int}
    {e : FsError} (hflush : u.FlushesMirrors host)
    (h : u.deleteObject host base name removed errno = .ok (u', .failed e)) :
    Intact host u u' := by
  rw [deleteObject] at h
  by_cases hprotected : u.writeprotected = true
  · rw [if_pos hprotected] at h
    obtain ⟨rfl, -⟩ := Prod.mk.inj (Except.ok.inj h)
    exact (Cached.refl host u).intact
  rw [if_neg hprotected] at h
  obtain ⟨⟨u1, ⟨aino, err⟩⟩, hfind, h⟩ := ok_of_bind h
  have hcached := findAino_cached hflush hfind
  cases err with
  | some err =>
    obtain ⟨rfl, -⟩ := Prod.mk.inj (Except.ok.inj h)
    exact hcached.intact
  | none =>
    obtain ⟨x, -, h⟩ := ok_of_bind h
    split_ifs at h
    · obtain ⟨rfl, -⟩ := Prod.mk.inj (Except.ok.inj h)
      exact hcached.intact
    · obtain ⟨rfl, -⟩ := Prod.mk.inj (Except.ok.inj h)
      exact hcached.intact
    · obtain ⟨rfl, -⟩ := Prod.mk.inj (Except.ok.inj h)
      exact hcached.intact
    · cases h
    · cases h

/-- A handle is refused only where the host refuses it; the inode is deleted if it was made. -/
theorem openNode_failed {kind : FindKind} {a : Nat} {made opened : Bool} {errno : Int} {e : FsError}
    (h : u.openNode kind a made opened errno = .ok (u', .failed e)) :
    u' = if made then u.deleteNode a else u := by
  rw [openNode.eq_def] at h
  obtain ⟨x, -, h⟩ := ok_of_bind h
  by_cases hrefused : (!x.vfso && !opened) = true
  · rw [if_pos hrefused] at h
    exact (Prod.mk.inj (Except.ok.inj h)).1.symm
  · rw [if_neg hrefused] at h
    cases h

theorem find_intact {kind : FindKind} {base : Nat} {name : ObjectName} {making : Making}
    {e : FsError} (hflush : u.FlushesMirrors host)
    (h : u.find host kind base name making = .ok (u', .failed e)) :
    Intact host u u' := by
  rw [find.eq_def] at h
  by_cases hprotected : (decide (kind ≠ .input) && u.writeprotected) = true
  · rw [if_pos hprotected] at h
    obtain ⟨rfl, -⟩ := Prod.mk.inj (Except.ok.inj h)
    exact (Cached.refl host u).intact
  rw [if_neg hprotected] at h
  obtain ⟨⟨u1, ⟨aino, err⟩⟩, hfind, h⟩ := ok_of_bind h
  have hcached := findAino_cached hflush hfind
  cases aino with
  | none =>
    obtain ⟨rfl, -⟩ := Prod.mk.inj (Except.ok.inj h)
    exact hcached.intact
  | some a =>
    dsimp only at h
    by_cases hother : err ≠ none ∧ err ≠ some .objectNotAround
    · rw [if_pos hother] at h
      obtain ⟨rfl, -⟩ := Prod.mk.inj (Except.ok.inj h)
      exact hcached.intact
    rw [if_neg hother] at h
    obtain ⟨x, -, h⟩ := ok_of_bind h
    by_cases hlink : x.softlink = true
    · rw [if_pos hlink] at h
      obtain ⟨rfl, -⟩ := Prod.mk.inj (Except.ok.inj h)
      exact hcached.intact
    rw [if_neg hlink] at h
    cases err with
    | none =>
      dsimp only at h
      cases hmode : u1.findMode kind x with
      | some err =>
        rw [hmode] at h
        obtain ⟨rfl, -⟩ := Prod.mk.inj (Except.ok.inj h)
        exact hcached.intact
      | none =>
        rw [hmode] at h
        obtain rfl := openNode_failed h
        exact hcached.intact
    | some err =>
      dsimp only at h
      by_cases hinput : kind = .input
      · rw [if_pos hinput] at h
        obtain ⟨rfl, -⟩ := Prod.mk.inj (Except.ok.inj h)
        exact hcached.intact
      rw [if_neg hinput] at h
      by_cases hnname : (!making.nname) = true
      · rw [if_pos hnname] at h
        obtain ⟨rfl, -⟩ := Prod.mk.inj (Except.ok.inj h)
        exact hcached.intact
      rw [if_neg hnname] at h
      obtain rfl := openNode_failed h
      exact (hcached.trans (createChild_delete (hcached.flushesMirrors hflush) a (bstrCut name)
        false)).intact

/-- Handles that are opened again are the handles that were there. -/
theorem relock_self (u : ObjectUnit) (a : Nat) {reopened : FileKey → Bool}
    (hreopens : ∀ k, reopened k = true) : u.relock a a reopened = u := by
  have hkeys : (u.keys.filterMap fun k =>
      if k.aino = a ∧ k.fd then
        if reopened k then some { k with aino := a } else none
      else some k) = u.keys := by
    refine (List.filterMap_congr fun k _ => ?_).trans List.filterMap_some
    by_cases hk : k.aino = a ∧ k.fd = true
    · rw [if_pos hk, if_pos (hreopens k), ← hk.1]
    · rw [if_neg hk]
  rw [relock, hkeys]

theorem renameNode_done {a1 a2 : Nat} {e : FsError} :
    u.renameNode a1 a2 ≠ .ok (u', .failed e) := by
  intro h
  rw [renameNode] at h
  obtain ⟨x1, -, h⟩ := ok_of_bind h
  obtain ⟨x2, -, h⟩ := ok_of_bind h
  cases h

theorem rename_intact {base1 base2 : Nat} {name1 name2 : ObjectName} {r : RenameHost} {e : FsError}
    (hreopens : ∀ k, r.reopened k = true)
    (hflush : u.FlushesMirrors host)
    (h : u.rename host base1 name1 base2 name2 r = .ok (u', .failed e)) : Intact host u u' := by
  rw [rename] at h
  by_cases hprotected : u.writeprotected = true
  · rw [if_pos hprotected] at h
    obtain ⟨rfl, -⟩ := Prod.mk.inj (Except.ok.inj h)
    exact (Cached.refl host u).intact
  rw [if_neg hprotected] at h
  obtain ⟨⟨u1, ⟨aino1, err1⟩⟩, hfind1, h⟩ := ok_of_bind h
  have hcached1 := findAino_cached hflush hfind1
  cases err1 with
  | some err =>
    obtain ⟨rfl, -⟩ := Prod.mk.inj (Except.ok.inj h)
    exact hcached1.intact
  | none =>
    dsimp only at h
    by_cases hopen : (u1.keys.any fun k =>
        decide (k.aino = aino1.getD 0 ∧ k.fd = true ∧ k.createmode = 2)) = true
    · rw [if_pos hopen] at h
      obtain ⟨rfl, -⟩ := Prod.mk.inj (Except.ok.inj h)
      exact hcached1.intact
    rw [if_neg hopen] at h
    obtain ⟨⟨u2, ⟨aino2, err2⟩⟩, hfind2, h⟩ := ok_of_bind h
    have hcached := hcached1.trans
      (findAino_cached (hcached1.flushesMirrors hflush) hfind2)
    obtain ⟨x1, -, h⟩ := ok_of_bind h
    dsimp only at h
    by_cases hsame : aino2 = some (aino1.getD 0) ∧ x1.aname = bstrCut name2
    · rw [if_pos hsame] at h
      cases h
    rw [if_neg hsame] at h
    by_cases hrefused : aino2 ≠ some (aino1.getD 0) ∧
        (aino2 = none ∨ err2 ≠ some .objectNotAround)
    · rw [if_pos hrefused] at h
      obtain ⟨rfl, -⟩ := Prod.mk.inj (Except.ok.inj h)
      exact hcached.intact
    rw [if_neg hrefused] at h
    cases hbase : if aino2 = some (aino1.getD 0) then x1.parent else aino2 with
    | none =>
      rw [hbase] at h
      cases h
    | some base =>
      rw [hbase] at h
      dsimp only at h
      by_cases hnname : (!r.nname) = true
      · rw [if_pos hnname] at h
        obtain ⟨rfl, -⟩ := Prod.mk.inj (Except.ok.inj h)
        exact hcached.intact
      rw [if_neg hnname] at h
      by_cases hrenamed : (x1.vfso || r.renamed) = true
      · rw [if_pos hrenamed] at h
        exact absurd h renameNode_done
      rw [if_neg hrenamed] at h
      by_cases hretried : r.retried = true
      · rw [if_pos hretried] at h
        exact absurd h renameNode_done
      rw [if_neg hretried, relock_self _ _ hreopens] at h
      -- The child that was to take over is deleted again.
      obtain ⟨rfl, -⟩ := Prod.mk.inj (Except.ok.inj h)
      exact (hcached.trans (createChild_delete (hcached.flushesMirrors hflush) base
        (bstrCut name2) x1.dir)).intact

end

/-- A host without objects. -/
def bareHost : ObjectHost := ⟨fun _ _ => none, fun _ => false, fun _ => []⟩

/-- A unit that was just mounted. -/
def mountedUnit : ObjectUnit :=
  ⟨(Arena.empty.add ⟨none, [], true, false, false, 0, none, 0, false, false⟩).1, [], 0, false, true⟩

/-- A host with two files, one of them protected from deletion; the cache is full. -/
def fullHost : ObjectHost where
  objects := fun base n =>
    if base = 0 ∧ n = ['f'] then some ⟨false, false, fibfDelete, none⟩
    else if base = 0 ∧ n = ['g'] then some ⟨false, false, 0, none⟩
    else none
  resolves := fun _ => false
  flush := fun _ => [1]

/-- A unit that has looked one of the files up. -/
def cachingUnit : ObjectUnit :=
  { mountedUnit with
    inodes := (mountedUnit.inodes.add ⟨some 0, ['g'], false, false, false, 0, none, 0, false,
      false⟩).1 }

end ObjectUnit

end LibretroUae.Filesys
