import LibretroUae.Filesys.AllEntries
import Mathlib.Data.List.TakeWhile

/-!
# LibretroUae.Filesys.Listings

**Listings that go on at the same time.** Every listing has a slot with an identifier of its own,
and what the slot has left follows what the client was given. An identifier that is given out is
larger than all before it, so a call changes no slot but its own.
-/

namespace LibretroUae.Filesys

open Lib Lib.Image

/-! ### When it works -/

/-- A new listing finds a free slot, and fewer than 2³¹ identifiers are given out. -/
def ExAllEvent.Careful (s : ExAllState) : ExAllEvent → Prop
  | .examine c => ∀ l, s.called c = some l →
    s.unit.exallid.toNat + 1 + (l.names.length - l.delivered.length) < 2 ^ 31 ∧
      (l ∉ s.active → ∃ k ∈ s.unit.exalls, k.id = 0)
  | _ => True

def carefulExAllMachine (lookup : List Byte → Option ExAllEntry) :
    Machine ExAllState ExAllEvent ExAllFault :=
  { exAllMachine lookup with legal := fun s e => e.Legal lookup s ∧ e.Careful s }

/-! ### What listings are for -/

/-- The names of entries as clients see them. -/
def anames (lookup : List Byte → Option ExAllEntry) (names : List (List Byte)) :
    List (List Byte) := names.filterMap fun n => (lookup n).map ExAllEntry.aname

/-- Listings that ended delivered each entry once, in the order of the host, the others some of
the first ones; and every call left a chain of records inside its buffer. -/
structure ExAllState.Listed (lookup : List Byte → Option ExAllEntry) (s : ExAllState) : Prop where
  ended : ∀ l ∈ s.ended, l.delivered = anames lookup l.names
  active : ∀ l ∈ s.active, l.delivered <+: anames lookup l.names
  calls : ∀ p ∈ s.calls, ∃ es : List ExAllEntry, Filled p.2 p.1.type p.1.limit p.1.exalldata es ∧
    p.2.getLong p.1.control = es.length

/-- A unit with no listing. -/
structure ExAllState.Start (s : ExAllState) : Prop where
  free : ∀ k ∈ s.unit.exalls, k.id = 0 ∧ k.fn = none
  active : s.active = []
  ended : s.ended = []
  calls : s.calls = []

/-! ### Reading names -/

section

variable {m : Image} {type limit exp : Nat} {es : List ExAllEntry}

theorem cstring_eq {p : Nat} {s : List Byte} (hs : 0 ∉ s)
    (hm : m.slice p (s.length + 1) = s ++ [0]) (hlimit : p + s.length + 1 ≤ limit) :
    cstring m limit p = s := by
  obtain ⟨n, hn⟩ : ∃ n, limit - p = s.length + 1 + n := ⟨limit - p - (s.length + 1), by omega⟩
  rw [cstring, hn, slice_add, hm, List.append_assoc, List.takeWhile_append_of_pos fun a ha => ?_]
  · rw [List.singleton_append, List.takeWhile_cons, if_neg (by decide), List.append_nil]
  · exact decide_eq_true fun h => hs (h ▸ ha)

/-- A client reads the names that were written. -/
theorem readNames_eq (h : Filled m type limit exp es) (h1 : 1 ≤ type)
    (hlimit : limit < 2 ^ 32) (hnames : ∀ e ∈ es, 0 ∉ e.aname) :
    readNames m limit es.length exp = es.map ExAllEntry.aname := by
  induction es generalizing exp with
  | nil => rfl
  | cons e es ih =>
    obtain ⟨hrecord, hname, -, hend, hlink, hrest⟩ := h
    obtain ⟨he, hes⟩ := List.forall_mem_cons.mp hnames
    have hfield : m.getLong (exp + 4) = exp + headerSize type := by
      have hrow : (1, exp + headerSize type) ∈ exallRows type exp e :=
        List.mem_filterMap.mpr ⟨(1, 1, exp + headerSize type),
          List.mem_cons_of_mem _ List.mem_cons_self, if_pos h1⟩
      have hlong := hrecord.fields _ hrow Nat.one_ne_zero
      rw [Nat.mod_eq_of_lt (by dsimp only; omega)] at hlong
      exact hlong
    rw [List.length_cons, readNames, List.map_cons, hfield,
      cstring_eq he hrecord.name (by omega)]
    congr 1
    cases es with
    | nil => rfl
    | cons a es =>
      rw [if_neg (List.cons_ne_nil _ _)] at hlink
      rw [hlink]
      exact ih hrest hes

end

/-! ### What is left of a listing -/

section

variable {lookup : List Byte → Option ExAllEntry} {l : Listing} {todo : List (List Byte)}

/-- A listing has delivered the names before those that are left. -/
def Listing.Left (lookup : List Byte → Option ExAllEntry) (l : Listing)
    (todo : List (List Byte)) : Prop :=
  ∃ names es, l.names = names ++ todo ∧ List.Forall₂ (fun n e => lookup n = some e) names es ∧
    l.delivered = es.map ExAllEntry.aname

theorem anames_eq {names : List (List Byte)} {es : List ExAllEntry}
    (h : List.Forall₂ (fun n e => lookup n = some e) names es) :
    anames lookup names = es.map ExAllEntry.aname := by
  induction h with
  | nil => rfl
  | cons he _ ih => rw [anames, List.filterMap_cons, he, List.map_cons, ← ih]; rfl

theorem exists_name {names : List (List Byte)} {es : List ExAllEntry} {e : ExAllEntry}
    (h : List.Forall₂ (fun n e => lookup n = some e) names es) (he : e ∈ es) :
    ∃ n ∈ names, lookup n = some e := by
  induction h with
  | nil => exact absurd he (List.not_mem_nil)
  | @cons n a names es hn _ ih =>
    rcases List.mem_cons.mp he with rfl | he
    · exact ⟨n, List.mem_cons_self, hn⟩
    · obtain ⟨n', hn', hlookup⟩ := ih he
      exact ⟨n', List.mem_cons_of_mem _ hn', hlookup⟩

theorem Listing.Left.initial (h : l.Left lookup todo) : l.delivered <+: anames lookup l.names := by
  obtain ⟨names, es, hnames, hall, hdelivered⟩ := h
  rw [hnames, hdelivered, anames, List.filterMap_append, ← anames, anames_eq hall]
  exact List.prefix_append _ _

theorem Listing.Left.ended (h : l.Left lookup []) : l.delivered = anames lookup l.names := by
  obtain ⟨names, es, hnames, hall, hdelivered⟩ := h
  rw [hnames, hdelivered, List.append_nil, anames_eq hall]

theorem Listing.Left.drop (h : l.Left lookup todo) : l.names.drop l.delivered.length = todo := by
  obtain ⟨names, es, hnames, hall, hdelivered⟩ := h
  rw [hnames, hdelivered, List.length_map, ← hall.length_eq, List.drop_left]

/-- What a call delivers comes off what is left. -/
theorem Listing.Left.deliver {names rest : List (List Byte)} {es : List ExAllEntry}
    (h : l.Left lookup (names ++ rest))
    (hall : List.Forall₂ (fun n e => lookup n = some e) names es) :
    Listing.Left lookup { l with delivered := l.delivered ++ es.map ExAllEntry.aname } rest := by
  obtain ⟨names', es', hnames, hall', hdelivered⟩ := h
  refine ⟨names' ++ names, es' ++ es, by rw [hnames, List.append_assoc],
    List.rel_append hall' hall, ?_⟩
  rw [hdelivered, List.map_append]

end

/-! ### Slots -/

/-- Identifiers of slots are different, and smaller than the next one. -/
structure ExAllUnit.Slots (u : ExAllUnit) : Prop where
  given : ∀ k ∈ u.exalls, k.id ≠ 0 → k.id.toNat < u.exallid.toNat
  unique : ∀ {i j : Nat} {k k' : ExAllKey}, u.exalls[i]? = some k → u.exalls[j]? = some k' →
    k.id = k'.id → k.id ≠ 0 → i = j
  free : ∀ k ∈ u.exalls, k.id = 0 → k.fn = none
  small : ∀ k ∈ u.exalls, k.id.toNat < 2 ^ 31

/-- The slot that the identifier in the control block of a listing leads to. -/
def Listing.HasSlot (lookup : List Byte → Option ExAllEntry) (l : Listing) (u : ExAllUnit)
    (m : Image) : Prop :=
  ∃ (i : Nat) (k : ExAllKey) (left : List (List Byte)), u.exalls[i]? = some k ∧ k.id ≠ 0 ∧
    m.getLong (l.control + 4) = k.id.toNat ∧ k.dirhandle = some left ∧
    l.Left lookup (k.fn.toList ++ left)

section

variable {lookup : List Byte → Option ExAllEntry} {u u' : ExAllUnit} {i : Nat} {k k' : ExAllKey}
  {l : Listing} {m m' : Image}

/-- A slot is freed or gets a new identifier. -/
theorem ExAllUnit.Slots.set (h : u.Slots) (hslots : u'.exalls = u.exalls.set i k')
    (hle : u.exallid.toNat ≤ u'.exallid.toNat)
    (hk : k'.id = 0 ∧ k'.fn = none ∨ k'.id ≠ 0 ∧ u.exallid.toNat ≤ k'.id.toNat ∧
      k'.id.toNat < u'.exallid.toNat) (hsmall : k'.id.toNat < 2 ^ 31) : u'.Slots := by
  have hget : ∀ {j : Nat} {a : ExAllKey}, u'.exalls[j]? = some a →
      i = j ∧ a = k' ∨ i ≠ j ∧ u.exalls[j]? = some a := by
    intro j a ha
    rw [hslots, List.getElem?_set] at ha
    split_ifs at ha with hij hlt
    · exact .inl ⟨hij, (Option.some.inj ha).symm⟩
    · exact .inr ⟨hij, ha⟩
  refine ⟨fun a ha hne => ?_, fun {j j'} {a a'} ha ha' heq hne => ?_, fun a ha hzero => ?_,
    fun a ha => ?_⟩
  · obtain ⟨j, hj⟩ := List.mem_iff_getElem?.mp ha
    rcases hget hj with ⟨-, rfl⟩ | ⟨-, hold⟩
    · exact (hk.resolve_left fun h => hne h.1).2.2
    · exact Nat.lt_of_lt_of_le (h.given a (List.mem_of_getElem? hold) hne) hle
  · rcases hget ha with ⟨rfl, rfl⟩ | ⟨-, hold⟩ <;> rcases hget ha' with ⟨hj, rfl⟩ | ⟨-, hold'⟩
    · exact hj
    · have hnew := (hk.resolve_left fun h => hne h.1).2.1
      have hlt := h.given a' (List.mem_of_getElem? hold') (heq ▸ hne)
      rw [heq] at hnew
      omega
    · have hnew := (hk.resolve_left fun h => hne (heq.trans h.1)).2.1
      have hlt := h.given a (List.mem_of_getElem? hold) hne
      rw [heq] at hlt
      omega
    · exact h.unique hold hold' heq hne
  · obtain ⟨j, hj⟩ := List.mem_iff_getElem?.mp ha
    rcases hget hj with ⟨-, rfl⟩ | ⟨-, hold⟩
    · exact (hk.resolve_right fun h => h.1 hzero).2
    · exact h.free a (List.mem_of_getElem? hold) hzero
  · obtain ⟨j, hj⟩ := List.mem_iff_getElem?.mp ha
    rcases hget hj with ⟨-, rfl⟩ | ⟨-, hold⟩
    · exact hsmall
    · exact h.small a (List.mem_of_getElem? hold)

/-- A listing keeps its slot when another one changes. -/
theorem Listing.HasSlot.set (h : l.HasSlot lookup u m) (hslot : u.exalls[i]? = some k)
    (hslots : u'.exalls = u.exalls.set i k') (hne : m.getLong (l.control + 4) ≠ k.id.toNat)
    (hagree : m.Agree m' (l.control + 4) 4) : l.HasSlot lookup u' m' := by
  obtain ⟨j, a, left, ha, hid, hcontrol, hleft, hrest⟩ := h
  have hij : i ≠ j := by
    rintro rfl
    obtain rfl := Option.some.inj (hslot.symm.trans ha)
    exact hne hcontrol
  refine ⟨j, a, left, ?_, hid, ?_, hleft, hrest⟩
  · rw [hslots, List.getElem?_set_ne hij, ha]
  · rw [hagree.getLong, hcontrol]

end

/-! ### The invariant -/

/-- Two listings have control blocks and identifiers of their own. -/
def Listing.Apart (m : Image) (l l' : Listing) : Prop :=
  (l.control + 8 ≤ l'.control ∨ l'.control + 8 ≤ l.control) ∧
    m.getLong (l.control + 4) ≠ m.getLong (l'.control + 4)

structure ExAllState.Inv (lookup : List Byte → Option ExAllEntry) (s : ExAllState) : Prop where
  slots : s.unit.Slots
  active : ∀ l ∈ s.active, l.HasSlot lookup s.unit s.mem
  apart : s.active.Pairwise (Listing.Apart s.mem)
  ended : ∀ l ∈ s.ended, l.delivered = anames lookup l.names
  calls : ∀ p ∈ s.calls, ∃ es : List ExAllEntry, Filled p.2 p.1.type p.1.limit p.1.exalldata es ∧
    p.2.getLong p.1.control = es.length

section

variable {lookup : List Byte → Option ExAllEntry} {s : ExAllState} {c : ExAllCall}

theorem ExAllState.Inv.listed (h : s.Inv lookup) : s.Listed lookup where
  ended := h.ended
  active l hl := by
    obtain ⟨i, k, left, -, -, -, -, hleft⟩ := h.active l hl
    exact hleft.initial
  calls := h.calls

theorem ExAllState.Start.inv (h : s.Start) : s.Inv lookup where
  slots :=
    { given := fun k hk hne => absurd (h.free k hk).1 hne
      unique := fun hk _ _ hne => absurd (h.free _ (List.mem_of_getElem? hk)).1 hne
      free := fun k hk _ => (h.free k hk).2
      small := fun k hk => (h.free k hk).1 ▸ by decide }
  active := h.active ▸ List.forall_mem_nil _
  apart := h.active ▸ .nil
  ended := h.ended ▸ List.forall_mem_nil _
  calls := h.calls ▸ List.forall_mem_nil _

/-- The other listings after a packet for one control block. -/
theorem ExAllState.Inv.others {u' : ExAllUnit} {m' : Image} {i control : Nat} {k k' : ExAllKey}
    (h : s.Inv lookup) (hslot : s.unit.exalls[i]? = some k)
    (hslots : u'.exalls = s.unit.exalls.set i k')
    (hne : ∀ l ∈ s.active, l.control ≠ control → s.mem.getLong (l.control + 4) ≠ k.id.toNat)
    (hagree : ∀ l ∈ s.active, l.control ≠ control → s.mem.Agree m' (l.control + 4) 4) :
    (∀ l ∈ s.others control, l.HasSlot lookup u' m') ∧
      (s.others control).Pairwise (Listing.Apart m') := by
  have hmem : ∀ l ∈ s.others control, l ∈ s.active ∧ l.control ≠ control := fun l hl => by
    obtain ⟨hl, hcontrol⟩ := List.mem_filter.mp hl
    exact ⟨hl, of_decide_eq_true hcontrol⟩
  refine ⟨fun l hl => ?_, (h.apart.filter _).imp_of_mem fun hl hl' hapart => ⟨hapart.1, ?_⟩⟩
  · obtain ⟨hl, hcontrol⟩ := hmem l hl
    exact (h.active l hl).set hslot hslots (hne l hl hcontrol) (hagree l hl hcontrol)
  · obtain ⟨hl, hcontrol⟩ := hmem _ hl
    obtain ⟨hl', hcontrol'⟩ := hmem _ hl'
    rw [(hagree _ hl hcontrol).getLong, (hagree _ hl' hcontrol').getLong]
    exact hapart.2

theorem ExAllState.Inv.key_ne {l l' : Listing} (h : s.Inv lookup) (hl : l ∈ s.active)
    (hl' : l' ∈ s.active) (hne : l.control ≠ l'.control) :
    s.mem.getLong (l.control + 4) ≠ s.mem.getLong (l'.control + 4) := by
  have hsymm : Std.Symm (Listing.Apart s.mem) :=
    ⟨fun _ _ hapart => ⟨hapart.1.symm, hapart.2.symm⟩⟩
  exact (h.apart.forall hl hl' fun heq => hne (congrArg Listing.control heq)).2

/-- Memory changes away from the identifiers of listings. -/
theorem ExAllState.Inv.write {m' : Image} {calls : List (ExAllCall × Image)} (h : s.Inv lookup)
    (hagree : ∀ l ∈ s.active, s.mem.Agree m' (l.control + 4) 4)
    (hcalls : ∀ p ∈ calls, ∃ es : List ExAllEntry,
      Filled p.2 p.1.type p.1.limit p.1.exalldata es ∧ p.2.getLong p.1.control = es.length) :
    ExAllState.Inv lookup { s with mem := m', calls } where
  slots := h.slots
  active l hl := by
    obtain ⟨i, k, left, hk, hne, hid, hdir, hleft⟩ := h.active l hl
    exact ⟨i, k, left, hk, hne, by rw [(hagree l hl).getLong, hid], hdir, hleft⟩
  apart := h.apart.imp_of_mem fun hl hl' hapart =>
    ⟨hapart.1, by rw [(hagree _ hl).getLong, (hagree _ hl').getLong]; exact hapart.2⟩
  ended := h.ended
  calls := hcalls

/-- A call for a listing whose slot, or a free one, is known. -/
theorem ExAllState.Inv.examine {l : Listing} {todo : List (List Byte)} {i low : Nat}
    {k k' : ExAllKey} {u' : ExAllUnit} {m' : Image} {reply : ExAllReply} {es : List ExAllEntry}
    (h : s.Inv lookup) (hc : c.Sound) (hcalled : s.called c = some l)
    (hcontrol : l.control = c.control) (hvalid : l.Valid lookup c) (hleft : l.Left lookup todo)
    (hslot : s.unit.exalls[i]? = some k)
    (hne : ∀ l ∈ s.active, l.control ≠ c.control → s.mem.getLong (l.control + 4) ≠ k.id.toNat)
    (haway : ∀ l ∈ s.active, l.control ≠ c.control → c.Away l.control 8)
    (hlow : s.unit.exallid.toNat ≤ low) (hpos : 0 < low) (hbound : low + todo.length < 2 ^ 31)
    (haction : actionExamineAll lookup s.unit s.mem c = .ok (u', m', reply))
    (hdone : RunDone lookup s.unit.exalls low s.mem c i todo u' m' reply k' es) :
    ∃ s', s.step lookup (.examine c) = .ok s' ∧ s'.Inv lookup := by
  obtain ⟨names, rest, hall, rfl, hcase⟩ := hdone.entries
  have hread : readNames m' (c.exalldata + c.exalldatasize) (m'.getLong c.control) c.exalldata =
      es.map ExAllEntry.aname := by
    rw [hdone.count]
    refine readNames_eq hdone.filled hc.type_pos hc.limit fun e he => ?_
    obtain ⟨n, hn, hlookup⟩ := exists_name hall he
    obtain ⟨before, -, hnames, -⟩ := hleft
    have hmem : n ∈ l.names := hnames ▸ List.mem_append_right before (List.mem_append_left rest hn)
    obtain ⟨e', he', hzero⟩ := hvalid.names n hmem
    obtain rfl := Option.some.inj (hlookup.symm.trans he')
    exact hzero
  have hagree : ∀ l ∈ s.active, l.control ≠ c.control → s.mem.Agree m' (l.control + 4) 4 :=
    fun l hl hne => (hdone.away _ _ (haway l hl hne)).mono (by omega) (by omega)
  obtain ⟨hothers, hapart⟩ := h.others hslot hdone.slots hne hagree
  have hcalls : ∀ p ∈ (c, m') :: s.calls, ∃ es : List ExAllEntry,
      Filled p.2 p.1.type p.1.limit p.1.exalldata es ∧ p.2.getLong p.1.control = es.length :=
    List.forall_mem_cons.mpr ⟨⟨es, hdone.filled, hdone.count⟩, h.calls⟩
  have hgiven := hdone.given
  have hle := Nat.le_trans hlow hgiven.1
  have hdeliver := hleft.deliver hall
  rcases hcase with ⟨rfl, ⟨left, hdir, rfl⟩, hge, hlt, hid⟩ | ⟨rfl, rfl, hzero, hfn⟩
  · have hnz : k'.id ≠ 0 := fun h0 => by
      rw [h0] at hge
      exact absurd hge (Nat.not_le_of_lt hpos)
    obtain ⟨hi, -⟩ := List.getElem?_eq_some_iff.mp hslot
    refine ⟨{ s with
      unit := u', mem := m', calls := (c, m') :: s.calls
      active := { l with delivered := l.delivered ++ es.map ExAllEntry.aname } ::
        s.others c.control }, ?_, ?_⟩
    · rw [ExAllState.step, haction]
      dsimp only
      rw [hcalled, hread]
    · refine ⟨h.slots.set hdone.slots hle (.inr ⟨hnz, by omega, hlt⟩) (by omega),
        List.forall_mem_cons.mpr ⟨⟨i, k', left, ?_, hnz, ?_, hdir, hdeliver⟩, hothers⟩,
        .cons (fun l' hl' => ⟨?_, ?_⟩) hapart, h.ended, hcalls⟩
      · rw [hdone.slots, List.getElem?_set_self hi]
      · rw [hcontrol, hid]
      · obtain ⟨hl', hother⟩ := List.mem_filter.mp hl'
        have hoff := (haway l' hl' (of_decide_eq_true hother)).1
        change l.control + 8 ≤ l'.control ∨ l'.control + 8 ≤ l.control
        omega
      · obtain ⟨hl', hother⟩ := List.mem_filter.mp hl'
        obtain ⟨j, a, -, ha, hanz, hacontrol, -⟩ := h.active l' hl'
        have hagiven := h.slots.given a (List.mem_of_getElem? ha) hanz
        change m'.getLong (l.control + 4) ≠ _
        rw [(hagree l' hl' (of_decide_eq_true hother)).getLong, hacontrol, hcontrol, hid]
        omega
  · refine ⟨{ s with
      unit := u', mem := m', calls := (c, m') :: s.calls, active := s.others c.control
      ended := { l with delivered := l.delivered ++ es.map ExAllEntry.aname } :: s.ended }, ?_, ?_⟩
    · rw [ExAllState.step, haction]
      dsimp only
      rw [hcalled, hread]
    · exact ⟨h.slots.set hdone.slots hle (.inl ⟨hzero, hfn⟩) (hzero ▸ by decide), hothers, hapart,
        List.forall_mem_cons.mpr ⟨hdeliver.ended, h.ended⟩, hcalls⟩

/-- A legal event that is careful is served. -/
theorem ExAllState.Inv.step (h : s.Inv lookup) {e : ExAllEvent} (hlegal : e.Legal lookup s)
    (hcareful : e.Careful s) : ∃ s', s.step lookup e = .ok s' ∧ s'.Inv lookup := by
  cases e with
  | write off bs =>
    exact ⟨_, rfl, h.write (fun l hl => agree_blit (by have hoff := hlegal l hl; omega)) h.calls⟩
  | examineEnd control =>
    obtain ⟨l, hl, rfl⟩ := hlegal
    obtain ⟨i, k, left, hk, hne, hid, hdir, hleft⟩ := h.active l hl
    have hslots := @getexall_slot s.unit i l.control k hk
      (fun j k' hk' heq => h.slots.unique hk' hk heq (heq ▸ hne)) hne
      (h.slots.small k (List.mem_of_getElem? hk))
    have hrelease : (s.unit.release i).exalls =
        s.unit.exalls.set i { k with id := 0, dirhandle := none, fn := none } := modify_slot hk _
    obtain ⟨hothers, hapart⟩ := h.others hk hrelease
      (fun l' hl' hother => hid ▸ h.key_ne hl' hl hother) (fun _ _ _ => Agree.refl s.mem _ _)
    refine ⟨{ s with unit := s.unit.release i, active := s.others l.control }, ?_,
      h.slots.set hrelease (Nat.le_refl _) (.inl ⟨rfl, rfl⟩)
        (show (0 : UInt32).toNat < 2 ^ 31 by decide), hothers, hapart, h.ended, h.calls⟩
    rw [ExAllState.step, actionExamineAllEnd_slot hid hslots]
  | examine c =>
    obtain ⟨hc, haway, hstart, hvalid⟩ := hlegal
    by_cases hactive : ∃ l ∈ s.active, l.control = c.control
    · obtain ⟨l₀, hl₀, hcontrol₀⟩ := hactive
      obtain ⟨l, hfind⟩ : ∃ l, s.active.find? (fun l => decide (l.control = c.control)) = some l :=
        Option.isSome_iff_exists.mp (List.find?_isSome.mpr ⟨l₀, hl₀, decide_eq_true hcontrol₀⟩)
      have hl := List.mem_of_find?_eq_some hfind
      have hcontrol : l.control = c.control := by simpa using List.find?_some hfind
      have hcalled : s.called c = some l := by rw [ExAllState.called, hfind, Option.some_or]
      obtain ⟨i, k, left, hk, hne, hid, hdir, hleft⟩ := h.active l hl
      have hgiven := h.slots.given k (List.mem_of_getElem? hk) hne
      have hv := hvalid l hcalled
      have hdrop := hleft.drop
      have hbound := (hcareful l hcalled).1
      rw [← List.length_drop, hdrop] at hbound
      have hsub : ∀ n ∈ k.fn.toList ++ left, n ∈ l.names := fun n hn =>
        List.mem_of_mem_drop (hdrop.symm ▸ hn)
      obtain ⟨u', m', reply, k', es, haction, hdone⟩ := actionExamineAll_next hc hk hdir
        (fun j k' hk' heq => h.slots.unique hk' hk heq (heq ▸ hne)) hne (hcontrol ▸ hid) hgiven
        (fun n hn => (hv.names n (hsub n hn)).imp fun _ he => he.1) (hdrop ▸ hv.fits) (by omega)
      exact h.examine hc hcalled hcontrol hv hleft hk
        (fun l' hl' hother => hid ▸ h.key_ne hl' hl (hcontrol ▸ hother)) haway (Nat.le_refl _)
        (by omega) (by omega) haction hdone
    · have hnone : ∀ l ∈ s.active, l.control ≠ c.control := fun l hl hcontrol =>
        hactive ⟨l, hl, hcontrol⟩
      have hfind : s.active.find? (fun l => decide (l.control = c.control)) = none :=
        List.find?_eq_none.mpr fun l hl => by simpa using hnone l hl
      rcases hstart hnone with hend | ⟨hzero, hopened⟩
      · have hcalled : s.called c = none := by
          rw [ExAllState.called, hfind, Option.none_or, if_pos hend]
        obtain ⟨m', haction, hcount, hagree⟩ :=
          @actionExamineAll_ended lookup c s.mem s.unit hc hend
        refine ⟨{ s with mem := m', calls := (c, m') :: s.calls }, ?_, ?_⟩
        · rw [ExAllState.step, haction]
          dsimp only
          rw [hcalled]
        · exact h.write (fun l hl => (hagree _ _ (haway l hl (hnone l hl))).mono (by omega) (by omega))
            (List.forall_mem_cons.mpr ⟨⟨[], trivial, hcount⟩, h.calls⟩)
      · obtain ⟨names, hnames⟩ := Option.isSome_iff_exists.mp hopened
        have hcalled : s.called c = some ⟨c.control, names, []⟩ := by
          rw [ExAllState.called, hfind, Option.none_or, if_neg (by rw [hzero]; decide), hnames]
          rfl
        have hv := hvalid _ hcalled
        obtain ⟨hbound, hfree⟩ := hcareful _ hcalled
        obtain ⟨i, k, hk, hkzero, u', m', reply, k', es, haction, hdone⟩ :=
          actionExamineAll_first hc hnames hzero (hfree fun hl => hnone _ hl rfl) h.slots.free
            (fun n hn => (hv.names n hn).imp fun _ he => he.1) hv.fits hbound
        refine h.examine hc hcalled rfl hv ⟨[], [], rfl, .nil, rfl⟩ hk (fun l hl _ => ?_) haway
          (Nat.le_succ _) (Nat.succ_pos _) hbound haction hdone
        obtain ⟨j, a, -, ha, hanz, hacontrol, -⟩ := h.active l hl
        rw [hacontrol, hkzero]
        exact fun heq => hanz (UInt32.toNat_inj.mp heq)

/-- In every careful run listings that end delivered each entry once, and calls leave chains of
records inside their buffers. -/
theorem entries_listed {s₀ : ExAllState} (hstart : s₀.Start)
    (hrun : (carefulExAllMachine lookup).Reachable s₀ s) :
    s.Listed lookup ∧ ∀ e : ExAllEvent, e.Legal lookup s → e.Careful s →
      ∃ s', s.step lookup e = .ok s' ∧ s'.Listed lookup := by
  have hinv : s.Inv lookup := by
    refine hrun.induct (fun hinv hlegal hstep => ?_) hstart.inv
    obtain ⟨s', hs', hinv'⟩ := hinv.step hlegal.1 hlegal.2
    obtain rfl := Except.ok.inj (hs'.symm.trans hstep)
    exact hinv'
  refine ⟨hinv.listed, fun e hlegal hcareful => ?_⟩
  obtain ⟨s', hs', hinv'⟩ := hinv.step hlegal hcareful
  exact ⟨s', hs', hinv'.listed⟩

end

/-! ### A directory with two files, and the identifiers used up -/

/-- A file with nothing but a name. -/
def plainFile (aname : List Byte) : Option ExAllEntry := some ⟨aname, 0, 0, 15, 0, 0, 0, []⟩

/-- The buffer has room for one record. -/
def smallCall : ExAllCall := ⟨64, 128, 12, 1, some [[97], [98]]⟩

def idleState (exallid : UInt32) : ExAllState :=
  ⟨⟨[⟨0, none, none, 0⟩, ⟨0, none, none, 0⟩], exallid⟩, fun _ => 0, [], [], []⟩

theorem idleState_start (exallid : UInt32) : (idleState exallid).Start where
  free := by simp [idleState]
  active := rfl
  ended := rfl
  calls := rfl

/-- After a call. -/
def afterCall (s : ExAllState) : ExAllState :=
  ((s.step plainFile (.examine smallCall)).toOption).getD s

theorem ok_getD {ε α : Type} {x : Except ε α} (d : α) (h : x.toOption.isSome = true) :
    x = .ok (x.toOption.getD d) := by
  cases x with
  | ok a => rfl
  | error e => cases h

theorem smallCall_sound : smallCall.Sound := by constructor <;> decide

theorem smallCall_valid {delivered : List (List Byte)} :
    Listing.Valid plainFile ⟨64, [[97], [98]], delivered⟩ smallCall where
  names n hn := by
    have hn : n = [97] ∨ n = [98] := by simpa using hn
    rcases hn with rfl | rfl <;> exact ⟨_, rfl, by decide⟩
  fits n e hn he := by
    have hn : n ∈ [[97], [98]] := List.mem_of_mem_drop (List.mem_of_head? hn)
    have hn : n = [97] ∨ n = [98] := by simpa using hn
    obtain rfl := Option.some.inj he
    rcases hn with rfl | rfl <;> decide

theorem idleState_key : Image.getLong (fun _ => 0) (smallCall.control + 4) = 0 := by decide

theorem smallCall_legal (exallid : UInt32) :
    ExAllEvent.Legal plainFile (idleState exallid) (.examine smallCall) := by
  refine ⟨smallCall_sound, List.forall_mem_nil _, fun _ => .inr ⟨idleState_key, rfl⟩, ?_⟩
  intro l hl
  have hkey : ¬ (idleState exallid).mem.getLong (smallCall.control + 4) = exallEnd.toNat := by
    change ¬ Image.getLong (fun _ => 0) (smallCall.control + 4) = _
    rw [idleState_key]
    decide
  rw [ExAllState.called, if_neg hkey] at hl
  obtain rfl := Option.some.inj hl
  exact smallCall_valid

/-- A listing that is at its first name. -/
theorem entries_listed_afterCall : (afterCall (idleState 0)).Listed plainFile ∧
    ∀ e : ExAllEvent, e.Legal plainFile (afterCall (idleState 0)) →
      e.Careful (afterCall (idleState 0)) →
      ∃ s', (afterCall (idleState 0)).step plainFile e = .ok s' ∧ s'.Listed plainFile := by
  have hstep : ((idleState 0).step plainFile (.examine smallCall)).toOption.isSome = true := by
    decide
  refine entries_listed (idleState_start 0) ⟨[.examine smallCall],
    .cons ⟨smallCall_legal 0, fun l hl => ?_⟩ (ok_getD _ hstep) (.nil _)⟩
  have hcalled : (idleState 0).called smallCall = some ⟨64, [[97], [98]], []⟩ := by decide
  obtain rfl := Option.some.inj (hcalled.symm.trans hl)
  exact ⟨by decide, fun _ => ⟨_, List.mem_cons_self, rfl⟩⟩

theorem error_of_fault {ε α : Type} {x : Except ε α} {e : ε}
    (h : (match x with | .error e => some e | .ok _ => none) = some e) : x = .error e := by
  cases x with
  | ok a => cases h
  | error e' => exact congrArg Except.error (Option.some.inj h)

/-- The identifier of the listing is negative, and the next call asks for a new slot. -/
theorem negative_faults : (idleState 0x7fffffff).Start ∧
    (exAllMachine plainFile).Run (idleState 0x7fffffff)
      [.examine smallCall, .examine smallCall] (.error .noDirhandle) := by
  have hstep : ((idleState 0x7fffffff).step plainFile (.examine smallCall)).toOption.isSome =
      true := by decide
  have hactive : (afterCall (idleState 0x7fffffff)).active = [⟨64, [[97], [98]], [[97]]⟩] := by
    decide +kernel
  have hcalled : (afterCall (idleState 0x7fffffff)).called smallCall =
      some ⟨64, [[97], [98]], [[97]]⟩ := by decide +kernel
  have hfault : (afterCall (idleState 0x7fffffff)).step plainFile (.examine smallCall) =
      .error .noDirhandle := error_of_fault (by decide)
  refine ⟨idleState_start _, .cons (smallCall_legal _)
    (ok_getD (idleState 0x7fffffff) hstep) (.fault []
      ⟨smallCall_sound, ?_, fun hnone => ?_, fun l hl => ?_⟩ hfault)⟩
  · change ∀ l ∈ (afterCall (idleState 0x7fffffff)).active, _
    rw [hactive]
    exact List.forall_mem_singleton.mpr fun hne => absurd rfl hne
  · exact absurd rfl (hnone ⟨64, [[97], [98]], [[97]]⟩ (hactive ▸ List.mem_cons_self))
  · obtain rfl := Option.some.inj (hcalled.symm.trans hl)
    exact smallCall_valid

end LibretroUae.Filesys
