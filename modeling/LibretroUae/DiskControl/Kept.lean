import LibretroUae.DiskControl.Storage
import Mathlib.Data.List.Nodup

/-!
# LibretroUae.DiskControl.Kept

**The list keeps its entries.** Every pointer of an entry is owned by it alone, so freeing one entry
leaves the others readable. Replacing an entry clears it first and compares the others then, up
to the last but one: the cleared entry is compared too unless it is the last, or the name is found
before it.
-/

namespace LibretroUae.DiskControl

open Lib

/-! ### What the list is for -/

/-- The names a client sees. -/
def addSpec (names : List CString) (filename : CString) : List CString :=
  if filename = [] ∨ filename ∈ names ∨ dcMaxSize ≤ names.length then names else names ++ [filename]

def removeSpec (names : List CString) (index : Int) : List CString :=
  if index < 0 ∨ names.length ≤ index then names else names.eraseIdx index.toNat

def replaceSpec (names : List CString) (index : Int) (filename : Option CString) : List CString :=
  if index < 0 ∨ names.length ≤ index then names
  else
    match filename with
    | none => names.eraseIdx index.toNat
    | some filename =>
      let fullPath := filename.take (retroPathMax - 1)
      if DcStorage.restarts fullPath then []
      else if fullPath ∈ names.take index.toNat then names.eraseIdx index.toNat
      else names.set index.toNat fullPath

def lineSpec (host : Host) (m3u : Playlist) (names : List CString) (saveDisk : Nat)
    (line : CString) : List CString × Nat :=
  let string := trimwhitespace line
  if strstartswith string DcStorage.specialCommand then (names, saveDisk)
  else if strstartswith string DcStorage.saveDiskTag then
    match host.saveDisk m3u.name (string.drop DcStorage.saveDiskTag.length) saveDisk with
    | none => (names, saveDisk)
    | some path => (addSpec names path, saveDisk + 1)
  else if strstartswith string ['#'] then (names, saveDisk)
  else
    let entry := DcStorage.m3uEntry string
    match DcStorage.m3uDisk host m3u.basedir entry.1 entry.2.1 entry.2.2 with
    | none => (names, saveDisk)
    | some (path, _) => (addSpec names path, saveDisk)

def linesSpec (host : Host) (m3u : Playlist) : List CString → Nat → List CString → List CString
  | names, _, [] => names
  | names, saveDisk, line :: rest =>
    linesSpec host m3u (lineSpec host m3u names saveDisk line).1
      (lineSpec host m3u names saveDisk line).2 rest

/-- What an event makes of the names: one is added at the end, taken out or replaced, or the list
starts anew; the others stay in their order. -/
def dcSpec (host : Host) (names : List CString) : DcEvent → List CString
  | .addFile none _ => names
  | .addFile (some filename) _ => addSpec names filename
  | .removeFile index => removeSpec names index
  | .replaceFile index filename => replaceSpec names index filename
  | .parseM3u none => names
  | .parseM3u (some m3u) => linesSpec host m3u [] 0 m3u.lines
  | .reset => []

namespace DcStorage

/-- The file names of the entries. -/
def names (s : DcStorage) : List CString :=
  (s.slots.take s.count).filterMap fun slot => (s.read slot.file).toOption

/-- Every entry has a name that was not freed, and no two have the same. -/
structure Kept (s : DcStorage) : Prop where
  count : s.count ≤ dcMaxSize
  named : ∀ slot ∈ s.slots.take s.count, ∃ str, s.read slot.file = .ok str
  nodup : s.names.Nodup

end DcStorage

/-! ### When it works -/

/-- An entry is replaced by what is no restart only when it is the last one, or when the new name
is one of those before it. -/
def DcEvent.Careful (s : DcStorage) : DcEvent → Prop
  | .replaceFile index (some filename) =>
    0 ≤ index → index < s.count →
      DcStorage.restarts (filename.take (retroPathMax - 1)) = true ∨ index = s.count - 1 ∨
        filename.take (retroPathMax - 1) ∈ s.names.take index.toNat
  | _ => True

def carefulDcMachine (host : Host) : Machine DcStorage DcEvent DcFault :=
  { dcMachine host with legal := fun s e => e.Legal ∧ e.Careful s }

/-! ### Owned strings -/

def DcSlot.ptrs (slot : DcSlot) : List Nat := slot.file.toList ++ slot.label.toList

namespace DcStorage

/-- The pointers of some entries and of the command are the only ones to their strings. -/
structure Owns (s : DcStorage) (live : List DcSlot) : Prop where
  slots : ∃ rest, s.slots = live ++ rest
  length : s.slots.length = dcMaxSize
  count : s.count = live.length
  distinct : (s.command.toList ++ live.flatMap DcSlot.ptrs).Nodup
  alive : ∀ p ∈ s.command.toList ++ live.flatMap DcSlot.ptrs, ∃ str, s.heap[p]? = some (some str)

/-- The entries of a list and their names. -/
structure Holds (s : DcStorage) (live : List DcSlot) (names : List CString) : Prop
    extends s.Owns live where
  named : live.map (fun slot => s.read slot.file) = names.map .ok
  nodup : names.Nodup

section

variable {s : DcStorage} {live a b : List DcSlot} {slot : DcSlot} {names : List CString}

theorem free_ok {o : Option Nat} (h : ∀ p, o = some p → ∃ str, s.heap[p]? = some (some str)) :
    ∃ heap, s.free o = .ok { s with heap } ∧ ∀ q, o ≠ some q → heap[q]? = s.heap[q]? := by
  cases o with
  | none => exact ⟨s.heap, rfl, fun _ _ => rfl⟩
  | some p =>
    obtain ⟨str, hstr⟩ := h p rfl
    refine ⟨s.heap.set p none, ?_, fun q hq => ?_⟩
    · rw [free, hstr]
    · rw [List.getElem?_set_ne fun heq => hq (congrArg some heq)]

theorem clearSlot_ok {i : Nat} (hslot : s.slots[i]? = some slot) (hdistinct : slot.ptrs.Nodup)
    (halive : ∀ p ∈ slot.ptrs, ∃ str, s.heap[p]? = some (some str)) :
    ∃ heap, s.clearSlot i = .ok { s with heap, slots := s.slots.set i emptySlot } ∧
      ∀ q, q ∉ slot.ptrs → heap[q]? = s.heap[q]? := by
  obtain ⟨heap, hfile, hsame⟩ := @free_ok s slot.file fun p hp =>
    halive p (List.mem_append_left _ (hp ▸ List.mem_singleton_self p))
  obtain ⟨heap', hlabel, hsame'⟩ := @free_ok { s with heap } slot.label fun p hp => by
    have hmem : p ∈ slot.label.toList := hp ▸ List.mem_singleton_self p
    obtain ⟨str, hstr⟩ := halive p (List.mem_append_right _ hmem)
    refine ⟨str, (hsame p fun heq => ?_).trans hstr⟩
    exact (List.nodup_append'.mp hdistinct).2.2 (heq ▸ List.mem_singleton_self p) hmem
  refine ⟨heap', ?_, fun q hq => ?_⟩
  · rw [clearSlot, hslot]
    change (s.free slot.file >>= fun s' => s'.free slot.label >>= fun s' => _) = _
    rw [hfile]
    change ((_ : DcStorage).free slot.label >>= fun s' => _) = _
    rw [hlabel]
    rfl
  · rw [hsame' q fun heq => hq (List.mem_append_right _ (heq ▸ List.mem_singleton_self q)),
      hsame q fun heq => hq (List.mem_append_left _ (heq ▸ List.mem_singleton_self q))]

theorem read_congr {s' : DcStorage} {o : Option Nat}
    (h : ∀ p, o = some p → s'.heap[p]? = s.heap[p]?) : s'.read o = s.read o := by
  cases o with
  | none => rfl
  | some p => rw [read, read, h p rfl]

theorem mem_ptrs_file {p : Nat} (h : slot.file = some p) : p ∈ slot.ptrs :=
  List.mem_append_left _ (h ▸ List.mem_singleton_self p)

/-- An entry is cleared, and the others are left as they were. -/
theorem Owns.clearSlot (h : s.Owns (a ++ slot :: b)) :
    ∃ s', s.clearSlot a.length = .ok s' ∧ s'.Owns (a ++ emptySlot :: b) ∧
      s'.command = s.command ∧ ∀ x ∈ a ++ b, s'.read x.file = s.read x.file := by
  obtain ⟨rest, hslots⟩ := h.slots
  have hdistinct := h.distinct
  have halive := h.alive
  rw [List.flatMap_append, List.flatMap_cons] at hdistinct halive
  have hget : s.slots[a.length]? = some slot := by
    rw [hslots, List.append_assoc, List.getElem?_append_right (Nat.le_refl _), Nat.sub_self]
    rfl
  have hperm := ((List.perm_append_comm_assoc (a.flatMap DcSlot.ptrs) slot.ptrs
    (b.flatMap DcSlot.ptrs)).append_left s.command.toList).trans
      (List.perm_append_comm_assoc s.command.toList slot.ptrs _)
  obtain ⟨hown, hrest, hdisjoint⟩ := List.nodup_append'.mp (hperm.nodup_iff.mp hdistinct)
  have halive' := fun p hp => halive p (hperm.mem_iff.mpr hp)
  obtain ⟨heap, hclear, hsame⟩ := clearSlot_ok hget hown fun p hp =>
    halive' p (List.mem_append_left _ hp)
  have hothers : ∀ q ∈ s.command.toList ++ (a.flatMap DcSlot.ptrs ++ b.flatMap DcSlot.ptrs),
      heap[q]? = s.heap[q]? := fun q hq => hsame q fun hin => hdisjoint hin hq
  have hset : s.slots.set a.length emptySlot = a ++ emptySlot :: b ++ rest := by
    rw [hslots, List.append_assoc, List.set_append_right _ _ (Nat.le_refl _), Nat.sub_self,
      List.append_assoc]
    rfl
  have hptrs : (a ++ emptySlot :: b).flatMap DcSlot.ptrs =
      a.flatMap DcSlot.ptrs ++ b.flatMap DcSlot.ptrs := by
    rw [List.flatMap_append, List.flatMap_cons]
    rfl
  refine ⟨_, hclear, ⟨⟨rest, hset⟩, ?_, ?_, hptrs.symm ▸ hrest, fun p hp => ?_⟩, rfl,
    fun x hx => ?_⟩
  · exact List.length_set.trans h.length
  · rw [h.count, List.length_append, List.length_append]
    rfl
  · rw [hptrs] at hp
    obtain ⟨str, hstr⟩ := halive' p (List.mem_append_right _ hp)
    exact ⟨str, (hothers p hp).trans hstr⟩
  · refine read_congr fun p hp => hothers p (List.mem_append_right _ ?_)
    rw [← List.flatMap_append]
    exact List.mem_flatMap.mpr ⟨x, hx, mem_ptrs_file hp⟩

/-! ### Resetting and removing -/

theorem Owns.clearSlots (h : s.Owns live) {n : Nat} (hn : n ≤ live.length) :
    ∃ s', s.clearSlots n = .ok s' ∧ s'.Owns (List.replicate n emptySlot ++ live.drop n) ∧
      s'.command = s.command := by
  induction n with
  | zero => exact ⟨s, rfl, h, rfl⟩
  | succ n ih =>
    obtain ⟨s', hs', hown, hcommand⟩ := ih (Nat.le_of_succ_le hn)
    rw [List.drop_eq_getElem_cons hn] at hown
    obtain ⟨s'', hs'', hown', hcommand', -⟩ := hown.clearSlot
    rw [List.length_replicate] at hs''
    refine ⟨s'', ?_, ?_, hcommand'.trans hcommand⟩
    · rw [DcStorage.clearSlots, hs']
      exact hs''
    · rw [List.replicate_succ', List.append_assoc]
      exact hown'

/-- The list is emptied. -/
theorem Owns.reset (h : s.Owns live) : ∃ s', s.reset = .ok s' ∧ s'.Holds [] [] := by
  obtain ⟨heap, hfree, hsame⟩ := @free_ok s s.command fun p hp =>
    h.alive p (List.mem_append_left _ (hp ▸ List.mem_singleton_self p))
  obtain ⟨-, hrest, hdisjoint⟩ := List.nodup_append'.mp h.distinct
  have hown : ({ s with heap, command := none } : DcStorage).Owns live :=
    { slots := h.slots
      length := h.length
      count := h.count
      distinct := hrest
      alive := fun p hp => by
        obtain ⟨str, hstr⟩ := h.alive p (List.mem_append_right _ hp)
        have hother : s.command ≠ some p := fun heq =>
          hdisjoint (heq ▸ List.mem_singleton_self p) hp
        exact ⟨str, (hsame p hother).trans hstr⟩ }
  obtain ⟨s', hs', hown', hcommand⟩ := hown.clearSlots (Nat.le_refl _)
  refine ⟨{ s' with count := 0 }, ?_, ⟨⟨⟨_, rfl⟩, hown'.length, rfl, ?_, ?_⟩, rfl, .nil⟩⟩
  · have hcleared : ({ s with heap, command := none } : DcStorage).clearSlots s.count = .ok s' :=
      h.count ▸ hs'
    rw [DcStorage.reset, hfree]
    change (({ s with heap, command := none } : DcStorage).clearSlots s.count >>= fun s => _) = _
    rw [hcleared]
    rfl
  · change (s'.command.toList ++ []).Nodup
    rw [hcommand]
    exact List.nodup_nil
  · change ∀ p ∈ s'.command.toList ++ [], _
    rw [hcommand]
    exact List.forall_mem_nil _

theorem shiftSlots_slots {rest : List DcSlot} (hslots : s.slots = a ++ slot :: b ++ rest)
    (hcount : s.count = (a ++ slot :: b).length) :
    ∃ rest', (s.shiftSlots a.length).slots = a ++ b ++ rest' ∧
      (s.shiftSlots a.length).slots.length = s.slots.length := by
  have hlength : (a ++ slot :: b).length = a.length + 1 + b.length := by
    rw [List.length_append, List.length_cons]
    omega
  rw [hlength] at hcount
  by_cases hlast : a.length = s.count - 1
  · obtain rfl : b = [] := List.eq_nil_of_length_eq_zero (by omega)
    rw [shiftSlots, if_neg (not_not_intro hlast)]
    refine ⟨slot :: rest, ?_, rfl⟩
    rw [hslots, List.append_nil, List.append_assoc]
    rfl
  · have htake : s.slots.take a.length = a := by
      rw [hslots, List.append_assoc, List.take_left]
    have hmiddle : (s.slots.take s.count).drop (a.length + 1) = b := by
      rw [hslots, hcount, ← hlength, List.take_left, ← List.drop_drop, List.drop_left]
      rfl
    rw [shiftSlots, if_pos hlast, htake, hmiddle]
    refine ⟨s.slots.drop (s.count - 1), rfl, ?_⟩
    simp only [List.length_append, List.length_drop, hslots, hcount, List.length_cons]
    omega

/-- An entry is taken out. -/
theorem Owns.removeFile (h : s.Owns (a ++ slot :: b)) :
    ∃ s', s.removeFile a.length = .ok s' ∧ s'.Owns (a ++ b) ∧
      ∀ x ∈ a ++ b, s'.read x.file = s.read x.file := by
  have hcount := h.count
  rw [List.length_append, List.length_cons] at hcount
  obtain ⟨s', hs', hown, -, hread⟩ := h.clearSlot
  obtain ⟨rest, hslots⟩ := hown.slots
  obtain ⟨rest', hshift, hlength⟩ := shiftSlots_slots hslots hown.count
  have hfields : (s'.shiftSlots a.length).heap = s'.heap ∧
      (s'.shiftSlots a.length).command = s'.command ∧
      (s'.shiftSlots a.length).count = s'.count := by
    rw [shiftSlots]
    split_ifs <;> exact ⟨rfl, rfl, rfl⟩
  obtain ⟨hheap, hcommand, hcount'⟩ := hfields
  have hptrs : (a ++ emptySlot :: b).flatMap DcSlot.ptrs = (a ++ b).flatMap DcSlot.ptrs := by
    rw [List.flatMap_append, List.flatMap_cons, List.flatMap_append]
    rfl
  refine ⟨{ s'.shiftSlots a.length with count := (s'.shiftSlots a.length).count - 1 }, ?_,
    ⟨⟨rest', hshift⟩, hlength.trans hown.length, ?_, ?_, ?_⟩, fun x hx => ?_⟩
  · rw [DcStorage.removeFile, if_neg (by omega), Int.toNat_natCast, hs']
    rfl
  · change (s'.shiftSlots a.length).count - 1 = _
    rw [hcount', hown.count, List.length_append, List.length_append, List.length_cons]
    omega
  · change ((s'.shiftSlots a.length).command.toList ++ _).Nodup
    rw [hcommand, ← hptrs]
    exact hown.distinct
  · change ∀ p ∈ (s'.shiftSlots a.length).command.toList ++ _, ∃ str,
      (s'.shiftSlots a.length).heap[p]? = _
    rw [hcommand, hheap, ← hptrs]
    exact hown.alive
  · rw [← hread x hx]
    exact read_congr fun p _ => congrArg (fun heap : List (Option CString) => heap[p]?) hheap

/-! ### New strings -/

theorem owned_extend {heap : List (Option CString)} {ptrs : List Nat} (hdistinct : ptrs.Nodup)
    (halive : ∀ p ∈ ptrs, ∃ str, heap[p]? = some (some str)) (extra : List CString) :
    (List.range' heap.length extra.length ++ ptrs).Nodup ∧
      ∀ p ∈ List.range' heap.length extra.length ++ ptrs,
        ∃ str, (heap ++ extra.map some)[p]? = some (some str) := by
  have hlt : ∀ p ∈ ptrs, p < heap.length := fun p hp => by
    obtain ⟨str, hstr⟩ := halive p hp
    exact (List.getElem?_eq_some_iff.mp hstr).1
  refine ⟨List.nodup_append'.mpr ⟨List.nodup_range', hdistinct, fun p hnew hold => ?_⟩,
    fun p hp => ?_⟩
  · have hge := (List.mem_range'_1.mp hnew).1
    have hold' := hlt p hold
    omega
  · rcases List.mem_append.mp hp with hnew | hold
    · obtain ⟨hge, hbound⟩ := List.mem_range'_1.mp hnew
      have hin : p - heap.length < extra.length := by omega
      refine ⟨extra[p - heap.length], ?_⟩
      rw [List.getElem?_append_right hge, List.getElem?_map, List.getElem?_eq_getElem hin]
      rfl
    · obtain ⟨str, hstr⟩ := halive p hold
      exact ⟨str, (List.getElem?_append_left (hlt p hold)).trans hstr⟩

theorem read_extend (h : s.Owns live) (hslot : slot ∈ live) {s' : DcStorage}
    {extra : List (Option CString)} (hheap : s'.heap = s.heap ++ extra) :
    s'.read slot.file = s.read slot.file := by
  refine read_congr fun p hp => ?_
  obtain ⟨str, hstr⟩ := h.alive p
    (List.mem_append_right _ (List.mem_flatMap.mpr ⟨slot, hslot, mem_ptrs_file hp⟩))
  rw [hheap, List.getElem?_append_left (List.getElem?_eq_some_iff.mp hstr).1]

/-- A new entry behind the others. -/
theorem Owns.push (h : s.Owns live) (hroom : s.count < dcMaxSize) {extra : List CString}
    (hnew : slot.ptrs = List.range' s.heap.length extra.length) :
    ({ s with heap := s.heap ++ extra.map some, slots := s.slots.set s.count slot,
              count := s.count + 1 } : DcStorage).Owns (live ++ [slot]) := by
  obtain ⟨rest, hslots⟩ := h.slots
  obtain ⟨hdistinct, halive⟩ := owned_extend h.distinct h.alive extra
  have hperm : (List.range' s.heap.length extra.length ++
      (s.command.toList ++ live.flatMap DcSlot.ptrs)).Perm
        (s.command.toList ++ (live ++ [slot]).flatMap DcSlot.ptrs) := by
    rw [List.flatMap_append, List.flatMap_singleton, hnew, ← List.append_assoc s.command.toList]
    exact List.perm_append_comm
  refine ⟨⟨rest.drop 1, ?_⟩, List.length_set.trans h.length, ?_, hperm.nodup_iff.mp hdistinct,
    fun p hp => halive p (hperm.mem_iff.mpr hp)⟩
  · cases rest with
    | nil =>
      have hlength := h.length
      rw [hslots, List.append_nil, ← h.count] at hlength
      omega
    | cons old rest =>
      change s.slots.set s.count slot = _
      rw [hslots, h.count, List.set_append_right _ _ (Nat.le_refl _), Nat.sub_self,
        List.append_assoc]
      rfl
  · rw [List.length_append, ← h.count]
    rfl

/-- A new entry where one was cleared. -/
theorem Owns.fill (h : s.Owns (a ++ emptySlot :: b)) {extra : List CString}
    (hnew : slot.ptrs = List.range' s.heap.length extra.length) :
    ({ s with heap := s.heap ++ extra.map some, slots := s.slots.set a.length slot } :
      DcStorage).Owns (a ++ slot :: b) := by
  obtain ⟨rest, hslots⟩ := h.slots
  obtain ⟨hdistinct, halive⟩ := owned_extend h.distinct h.alive extra
  have hperm : (List.range' s.heap.length extra.length ++
      (s.command.toList ++ (a ++ emptySlot :: b).flatMap DcSlot.ptrs)).Perm
        (s.command.toList ++ (a ++ slot :: b).flatMap DcSlot.ptrs) := by
    rw [List.flatMap_append, List.flatMap_cons, List.flatMap_append, List.flatMap_cons, ← hnew]
    refine (List.perm_append_comm_assoc _ _ _).trans (List.Perm.append_left _ ?_)
    exact List.perm_append_comm_assoc _ _ _
  refine ⟨⟨rest, ?_⟩, List.length_set.trans h.length, ?_, hperm.nodup_iff.mp hdistinct,
    fun p hp => halive p (hperm.mem_iff.mpr hp)⟩
  · change s.slots.set a.length slot = _
    rw [hslots, List.append_assoc, List.set_append_right _ _ (Nat.le_refl _), Nat.sub_self,
      List.append_assoc]
    rfl
  · rw [h.count, List.length_append, List.length_append]
    rfl

/-! ### Finding a name -/

theorem findFile_named {slots : List DcSlot}
    (h : slots.map (fun slot => s.read slot.file) = names.map .ok) (filename : CString) :
    s.findFile filename slots = .ok (decide (filename ∈ names)) := by
  induction slots generalizing names with
  | nil =>
    obtain rfl : names = [] := List.map_eq_nil_iff.mp h.symm
    rfl
  | cons slot rest ih =>
    cases names with
    | nil => cases h
    | cons name names =>
      obtain ⟨hname, hrest⟩ := List.cons.inj h
      rw [findFile, show s.read slot.file = .ok name from hname]
      change (if name = filename then _ else s.findFile filename rest) = _
      by_cases heq : name = filename
      · rw [if_pos heq, decide_eq_true (heq ▸ List.mem_cons_self)]
      · rw [if_neg heq, ih hrest]
        refine congrArg _ (decide_eq_decide.mpr ⟨List.mem_cons_of_mem _, fun hin => ?_⟩)
        exact (List.mem_cons.mp hin).resolve_left fun h => heq h.symm

/-- An entry that was cleared is in the way, unless the name is found before it. -/
theorem findFile_cleared {rest : List DcSlot}
    (h : a.map (fun slot => s.read slot.file) = names.map .ok) (filename : CString) :
    s.findFile filename (a ++ emptySlot :: rest) =
      if filename ∈ names then .ok true else .error .nullString := by
  induction a generalizing names with
  | nil =>
    obtain rfl : names = [] := List.map_eq_nil_iff.mp h.symm
    rfl
  | cons slot a ih =>
    cases names with
    | nil => cases h
    | cons name names =>
      obtain ⟨hname, hrest⟩ := List.cons.inj h
      rw [List.cons_append, findFile, show s.read slot.file = .ok name from hname]
      change (if name = filename then _ else s.findFile filename (a ++ emptySlot :: rest)) = _
      by_cases heq : name = filename
      · rw [if_pos heq, if_pos (heq ▸ List.mem_cons_self)]
      · rw [if_neg heq, ih hrest]
        refine if_congr ⟨List.mem_cons_of_mem _, fun hin => ?_⟩ rfl rfl
        exact (List.mem_cons.mp hin).resolve_left fun h => heq h.symm

/-! ### Names -/

theorem Holds.names_length (h : s.Holds live names) : names.length = live.length := by
  have hlength := congrArg List.length h.named
  rw [List.length_map, List.length_map] at hlength
  exact hlength.symm

theorem Holds.count_eq (h : s.Holds live names) : s.count = names.length :=
  h.count.trans h.names_length.symm

/-- An entry, and those before and behind it. -/
theorem Holds.split (h : s.Holds live names) {i : Nat} (hi : i < s.count) :
    ∃ a slot b na name nb, live = a ++ slot :: b ∧ names = na ++ name :: nb ∧ a.length = i ∧
      na.length = i ∧ a.map (fun slot => s.read slot.file) = na.map .ok ∧
        b.map (fun slot => s.read slot.file) = nb.map .ok := by
  have hlive : i < live.length := h.count ▸ hi
  have hnames : i < names.length := h.names_length ▸ hlive
  refine ⟨live.take i, live[i], live.drop (i + 1), names.take i, names[i], names.drop (i + 1),
    ?_, ?_, List.length_take_of_le (Nat.le_of_lt hlive),
    List.length_take_of_le (Nat.le_of_lt hnames), ?_, ?_⟩
  · rw [← List.drop_eq_getElem_cons, List.take_append_drop]
  · rw [← List.drop_eq_getElem_cons, List.take_append_drop]
  · rw [List.map_take, h.named, List.map_take]
  · rw [List.map_drop, h.named, List.map_drop]

theorem named_congr {s' : DcStorage} (hread : ∀ x ∈ live, s'.read x.file = s.read x.file)
    (h : live.map (fun slot => s.read slot.file) = names.map .ok) :
    live.map (fun slot => s'.read slot.file) = names.map .ok :=
  (List.map_congr_left hread).trans h

/-- An entry whose place is in range is taken out, and its name with it. -/
theorem removeFile_holds {na nb : List CString} {name : CString}
    (h : s.Owns (a ++ slot :: b)) (ha : a.map (fun slot => s.read slot.file) = na.map .ok)
    (hb : b.map (fun slot => s.read slot.file) = nb.map .ok) (hnodup : (na ++ name :: nb).Nodup) :
    ∃ s', s.removeFile a.length = .ok s' ∧ s'.Holds (a ++ b) (na ++ nb) := by
  obtain ⟨s', hs', hown, hread⟩ := h.removeFile
  have hless := hnodup.sublist (List.Sublist.append_left (List.sublist_cons_self name nb) na)
  refine ⟨s', hs', ⟨hown, ?_, hless⟩⟩
  rw [List.map_append, List.map_append,
    named_congr (fun x hx => hread x (List.mem_append_left _ hx)) ha,
    named_congr (fun x hx => hread x (List.mem_append_right _ hx)) hb]

theorem addFileInt_eq (host : Host) {filename : CString} (label : Option CString)
    (hname : filename ≠ []) (hroom : s.count < dcMaxSize) (hlength : s.slots.length = dcMaxSize) :
    ∃ (slot : DcSlot) (extra : List CString),
      s.addFileInt host filename label =
          .ok { s with heap := s.heap ++ (filename :: extra).map some,
                       slots := s.slots.set s.count slot, count := s.count + 1 } ∧
        slot.file = some s.heap.length ∧
          slot.ptrs = List.range' s.heap.length (filename :: extra).length := by
  have hin : s.count < s.slots.length := hlength ▸ hroom
  have hnone : s.addFileInt host filename none =
      .ok { s with heap := s.heap ++ [some filename],
                   slots := s.slots.set s.count
                     ⟨some s.heap.length, none, dcGetImageType host filename⟩,
                   count := s.count + 1 } := by
    rw [addFileInt, if_neg hname, if_pos hroom]
    exact if_pos hin
  rcases label with - | - | ⟨c, str⟩
  · exact ⟨_, [], hnone, rfl, rfl⟩
  · exact ⟨_, [], hnone, rfl, rfl⟩
  · refine ⟨⟨some s.heap.length, some (s.heap.length + 1), dcGetImageType host filename⟩,
      [c :: str], ?_, rfl, rfl⟩
    rw [addFileInt, if_neg hname, if_pos hroom]
    dsimp only [strdup]
    rw [if_pos hin, List.append_assoc, List.length_append]
    rfl

theorem Holds.addFileInt (h : s.Holds live names) (host : Host) {filename : CString}
    (label : Option CString) (hname : filename ≠ []) (hfresh : filename ∉ names)
    (hroom : s.count < dcMaxSize) :
    ∃ s' live', s.addFileInt host filename label = .ok s' ∧
      s'.Holds live' (names ++ [filename]) := by
  obtain ⟨slot, extra, heq, hfile, hptrs⟩ := addFileInt_eq host label hname hroom h.length
  refine ⟨_, live ++ [slot], heq, ⟨h.toOwns.push hroom hptrs, ?_,
    List.nodup_append'.mpr ⟨h.nodup, List.nodup_singleton _, ?_⟩⟩⟩
  · rw [List.map_append, List.map_append,
      named_congr (fun x hx => read_extend h.toOwns hx rfl) h.named, List.map_singleton,
      List.map_singleton, hfile]
    refine congrArg (fun last => _ ++ [last]) ?_
    rw [read, List.getElem?_append_right (Nat.le_refl _), Nat.sub_self]
    rfl
  · exact fun name hin hlast => hfresh (List.mem_singleton.mp hlast ▸ hin)

/-- A name is added, or nothing happens. -/
theorem Holds.addFile (h : s.Holds live names) (host : Host) (filename : CString)
    (label : Option CString) :
    ∃ s' live', s.addFile host filename label = .ok s' ∧
      s'.Holds live' (addSpec names filename) := by
  obtain ⟨rest, hslots⟩ := h.slots
  have htake : s.slots.take s.count = live := by
    rw [hslots, h.count, List.take_left]
  rw [addSpec]
  by_cases hname : filename = []
  · rw [if_pos (.inl hname), DcStorage.addFile, if_pos hname]
    exact ⟨s, live, rfl, h⟩
  rw [DcStorage.addFile, if_neg hname, htake, findFile_named h.named]
  change ∃ s' live', (if decide (filename ∈ names) = true then _ else _) = _ ∧ _
  by_cases hin : filename ∈ names
  · rw [if_pos (Or.inr (Or.inl hin)), if_pos (decide_eq_true hin)]
    exact ⟨s, live, rfl, h⟩
  rw [if_neg fun htrue => hin (of_decide_eq_true htrue)]
  by_cases hroom : s.count < dcMaxSize
  · have hnot : ¬(filename = [] ∨ filename ∈ names ∨ dcMaxSize ≤ names.length) := by
      rw [← h.count_eq]
      exact not_or.mpr ⟨hname, not_or.mpr ⟨hin, Nat.not_le_of_lt hroom⟩⟩
    rw [if_neg hnot]
    exact h.addFileInt host label hname hin hroom
  · have hfull : dcMaxSize ≤ names.length := h.count_eq ▸ Nat.le_of_not_lt hroom
    rw [if_pos (Or.inr (Or.inr hfull)), DcStorage.addFileInt, if_neg hname, if_neg hroom]
    exact ⟨s, live, rfl, h⟩

/-! ### Playlists -/

/-- The command is replaced; its old string stays allocated. -/
theorem Holds.command (h : s.Holds live names) (str : CString) :
    ({ s with heap := s.heap ++ [some str], command := some s.heap.length } :
      DcStorage).Holds live names := by
  obtain ⟨hdistinct, halive⟩ := owned_extend (List.nodup_append'.mp h.distinct).2.1
    (fun p hp => h.alive p (List.mem_append_right _ hp)) [str]
  exact ⟨⟨h.slots, h.length, h.count, hdistinct, halive⟩,
    named_congr (fun x hx => read_extend h.toOwns hx rfl) h.named, h.nodup⟩

theorem Holds.parseLine (h : s.Holds live names) (host : Host) (m3u : Playlist) (saveDisk : Nat)
    (line : CString) :
    ∃ s' live', s.parseLine host m3u saveDisk line =
        .ok (s', (lineSpec host m3u names saveDisk line).2) ∧
      s'.Holds live' (lineSpec host m3u names saveDisk line).1 := by
  rw [DcStorage.parseLine, lineSpec]
  by_cases hcommand : strstartswith (trimwhitespace line) specialCommand = true
  · simp only [if_pos hcommand]
    exact ⟨_, live, rfl, h.command _⟩
  simp only [if_neg hcommand]
  by_cases hsave : strstartswith (trimwhitespace line) saveDiskTag = true
  · simp only [if_pos hsave]
    cases host.saveDisk m3u.name ((trimwhitespace line).drop saveDiskTag.length) saveDisk with
    | none => exact ⟨s, live, rfl, h⟩
    | some path =>
      obtain ⟨s', live', hs', h'⟩ :=
        h.addFile host path (some (saveDiskLabel ++ Nat.toDigits 10 saveDisk))
      refine ⟨s', live', ?_, h'⟩
      dsimp only
      rw [hs']
      rfl
  simp only [if_neg hsave]
  by_cases hcomment : strstartswith (trimwhitespace line) ['#'] = true
  · simp only [if_pos hcomment]
    exact ⟨s, live, rfl, h⟩
  simp only [if_neg hcomment]
  cases m3uDisk host m3u.basedir (m3uEntry (trimwhitespace line)).1
      (m3uEntry (trimwhitespace line)).2.1 (m3uEntry (trimwhitespace line)).2.2 with
  | none => exact ⟨s, live, rfl, h⟩
  | some disk =>
    obtain ⟨s', live', hs', h'⟩ := h.addFile host disk.1 disk.2
    refine ⟨s', live', ?_, h'⟩
    dsimp only
    rw [hs']
    rfl

theorem Holds.parseLines (h : s.Holds live names) (host : Host) (m3u : Playlist) (saveDisk : Nat)
    (lines : List CString) :
    ∃ s' live', s.parseLines host m3u saveDisk lines = .ok s' ∧
      s'.Holds live' (linesSpec host m3u names saveDisk lines) := by
  induction lines generalizing s live names saveDisk with
  | nil => exact ⟨s, live, rfl, h⟩
  | cons line rest ih =>
    obtain ⟨s', live', hs', h'⟩ := h.parseLine host m3u saveDisk line
    obtain ⟨s'', live'', hs'', h''⟩ := ih h' (lineSpec host m3u names saveDisk line).2
    refine ⟨s'', live'', ?_, h''⟩
    rw [DcStorage.parseLines, hs']
    exact hs''

/-! ### Replacing -/

/-- The entries that the new name is compared with: those before the last one. -/
theorem take_pred {x : DcSlot} (hslots : ∃ rest, s.slots = a ++ x :: b ++ rest)
    (hcount : s.count = (a ++ x :: b).length) :
    s.slots.take (s.count - 1) = if b = [] then a else a ++ x :: b.dropLast := by
  obtain ⟨rest, hslots⟩ := hslots
  have hpred : s.slots.take (s.count - 1) = (a ++ x :: b).dropLast := by
    rw [hslots, hcount, List.take_append_of_le_length (Nat.sub_le _ _), List.dropLast_eq_take]
  rw [hpred, List.dropLast_append_of_ne_nil (List.cons_ne_nil _ _)]
  cases b with
  | nil => exact List.append_nil a
  | cons y b => rfl

/-- The new entry, in the place of the one that was cleared. -/
theorem fill_holds {na nb : List CString} {filename label : CString} {type : DcImageType}
    (h : s.Owns (a ++ emptySlot :: b)) (ha : a.map (fun slot => s.read slot.file) = na.map .ok)
    (hb : b.map (fun slot => s.read slot.file) = nb.map .ok) (hnodup : (na ++ filename :: nb).Nodup)
    {s' : DcStorage}
    (hs' : s' = { s with heap := s.heap ++ [filename, label].map some,
                         slots := s.slots.set a.length
                           ⟨some s.heap.length, some (s.heap.length + 1), type⟩ }) :
    ∃ live', s'.Holds live' (na ++ filename :: nb) := by
  have hread : ∀ x ∈ a ++ b, s'.read x.file = s.read x.file := fun x hx =>
    read_extend h (List.mem_append.mpr ((List.mem_append.mp hx).imp_right
      (List.mem_cons_of_mem _))) (congrArg DcStorage.heap hs')
  have hnew : (⟨some s.heap.length, some (s.heap.length + 1), type⟩ : DcSlot).ptrs =
      List.range' s.heap.length [filename, label].length := rfl
  refine ⟨_, hs' ▸ h.fill hnew, ?_, hnodup⟩
  rw [List.map_append, List.map_cons, List.map_append, List.map_cons,
    named_congr (fun x hx => hread x (List.mem_append_left _ hx)) ha,
    named_congr (fun x hx => hread x (List.mem_append_right _ hx)) hb]
  refine congrArg (fun x => _ ++ x :: _) ?_
  rw [hs', read, List.getElem?_append_right (Nat.le_refl _), Nat.sub_self]
  rfl

theorem Holds.cleared (h : s.Holds live names) {i : Nat} (hi : i < s.count) :
    ∃ s' a b na name nb, s.clearSlot i = .ok s' ∧ s'.Owns (a ++ emptySlot :: b) ∧
      names = na ++ name :: nb ∧ a.length = i ∧ na.length = i ∧
        a.map (fun slot => s'.read slot.file) = na.map .ok ∧
          b.map (fun slot => s'.read slot.file) = nb.map .ok := by
  obtain ⟨a, slot, b, na, name, nb, rfl, rfl, rfl, hna, ha, hb⟩ := h.split hi
  obtain ⟨s', hs', hown, -, hread⟩ := h.toOwns.clearSlot
  exact ⟨s', a, b, na, name, nb, hs', hown, rfl, rfl, hna,
    named_congr (fun x hx => hread x (List.mem_append_left _ hx)) ha,
    named_congr (fun x hx => hread x (List.mem_append_right _ hx)) hb⟩

/-- Looking for the new name after the old entry was cleared. -/
theorem findFile_others {na : List CString} (h : s.Owns (a ++ emptySlot :: b))
    (ha : a.map (fun slot => s.read slot.file) = na.map .ok) (filename : CString) :
    s.findFile filename (s.slots.take (s.count - 1)) =
      if filename ∈ na then .ok true else if b = [] then .ok false else .error .nullString := by
  rw [take_pred h.slots h.count]
  by_cases hlast : b = []
  · rw [if_pos hlast, if_pos hlast, findFile_named ha]
    by_cases hin : filename ∈ na
    · rw [if_pos hin, decide_eq_true hin]
    · rw [if_neg hin, decide_eq_false hin]
  · rw [if_neg hlast, if_neg hlast, findFile_cleared ha]

/-- A replacement in range, after the entry was cleared. -/
def replaceCleared (host : Host) (s : DcStorage) (index : Int) : Option CString →
    Except DcFault DcStorage
  | none => s.removeFile index
  | some filename =>
    if restarts (filename.take (retroPathMax - 1)) then s.reset
    else do
      let found ← s.findFile (filename.take (retroPathMax - 1)) (s.slots.take (s.count - 1))
      if found then s.removeFile index
      else
        .ok { s with heap := s.heap ++ [filename.take (retroPathMax - 1),
                               imageLabel host (filename.take (retroPathMax - 1))].map some,
                     slots := s.slots.set index.toNat
                       ⟨some s.heap.length, some (s.heap.length + 1),
                         dcGetImageType host (filename.take (retroPathMax - 1))⟩ }

theorem replaceFile_cleared (host : Host) {i : Nat} (hi : i < s.count) {s' : DcStorage}
    (hclear : s.clearSlot i = .ok s') (filename : Option CString) :
    s.replaceFile host i filename = s'.replaceCleared host i filename := by
  have hrange : ¬((i : Int) < 0 ∨ (s.count : Int) ≤ i) := by omega
  cases filename with
  | none =>
    rw [DcStorage.replaceFile, if_neg hrange, Int.toNat_natCast, hclear]
    rfl
  | some filename =>
    rw [DcStorage.replaceFile, if_neg hrange, Int.toNat_natCast, hclear]
    change (if restarts _ then _ else _) = (if restarts _ then _ else _)
    refine if_congr Iff.rfl rfl ?_
    refine congrArg (fun f => s'.findFile _ _ >>= f) (funext fun found => if_congr Iff.rfl rfl ?_)
    dsimp only [strdup]
    rw [List.append_assoc, List.length_append]
    rfl

/-- What a careful replacement leaves of the names. -/
theorem Holds.replaceFile (h : s.Holds live names) (host : Host) (index : Int)
    (filename : Option CString)
    (hcareful : ∀ name, filename = some name → 0 ≤ index → index < s.count →
      restarts (name.take (retroPathMax - 1)) = true ∨ index = s.count - 1 ∨
        name.take (retroPathMax - 1) ∈ names.take index.toNat) :
    ∃ s' live', s.replaceFile host index filename = .ok s' ∧
      s'.Holds live' (replaceSpec names index filename) := by
  by_cases hrange : index < 0 ∨ (s.count : Int) ≤ index
  · rw [DcStorage.replaceFile, if_pos hrange, replaceSpec.eq_def, ← h.count_eq, if_pos hrange]
    exact ⟨s, live, rfl, h⟩
  obtain ⟨i, rfl⟩ := Int.eq_ofNat_of_zero_le (Int.not_lt.mp (not_or.mp hrange).1)
  have hi : i < s.count := Int.ofNat_lt.mp (Int.not_le.mp (not_or.mp hrange).2)
  obtain ⟨s', a, b, na, name, nb, hclear, hown, rfl, rfl, hna, ha, hb⟩ := h.cleared hi
  have hlength : (na ++ name :: nb).length = s.count := h.count_eq.symm
  have herase : (na ++ name :: nb).eraseIdx a.length = na ++ nb := by
    rw [← hna, List.eraseIdx_append_of_length_le (Nat.le_refl _), Nat.sub_self]
    rfl
  have hremove : ∃ s'' live', s'.removeFile a.length = .ok s'' ∧
      s''.Holds live' ((na ++ name :: nb).eraseIdx a.length) := by
    obtain ⟨s'', hs'', h''⟩ := removeFile_holds hown ha hb h.nodup
    exact ⟨s'', a ++ b, hs'', herase ▸ h''⟩
  rw [replaceFile_cleared host hi hclear, replaceSpec.eq_def, hlength, if_neg hrange,
    Int.toNat_natCast]
  cases filename with
  | none => exact hremove
  | some filename =>
    rw [replaceCleared]
    dsimp only
    by_cases hrestart : restarts (filename.take (retroPathMax - 1)) = true
    · rw [if_pos hrestart, if_pos hrestart]
      obtain ⟨s'', hs'', h''⟩ := hown.reset
      exact ⟨s'', [], hs'', h''⟩
    rw [if_neg hrestart, if_neg hrestart, findFile_others hown ha, List.take_left' hna]
    by_cases hin : filename.take (retroPathMax - 1) ∈ na
    · rw [if_pos hin, if_pos hin]
      exact hremove
    rw [if_neg hin, if_neg hin]
    -- The entry is the last one, and the name is fresh.
    have hcare := (hcareful filename rfl (by omega) (by omega)).resolve_left hrestart
    rw [Int.toNat_natCast, List.take_left' hna] at hcare
    have hlast := hcare.resolve_right hin
    rw [List.length_append, List.length_cons] at hlength
    obtain rfl : nb = [] := List.eq_nil_of_length_eq_zero (by omega)
    obtain rfl : b = [] := List.map_eq_nil_iff.mp hb
    rw [if_pos rfl, ← hna, List.set_append_right _ _ (Nat.le_refl _), Nat.sub_self, hna]
    have hnodup : (na ++ [filename.take (retroPathMax - 1)]).Nodup :=
      List.nodup_append'.mpr ⟨(List.nodup_append'.mp h.nodup).1, List.nodup_singleton _,
        fun x hx hlast => hin (List.mem_singleton.mp hlast ▸ hx)⟩
    obtain ⟨live', h'⟩ := fill_holds hown ha hb hnodup rfl
    exact ⟨_, live', rfl, h'⟩

/-- Otherwise the entry that was cleared is compared. -/
theorem Holds.replaceFile_careless (h : s.Holds live names) (host : Host) {index : Int}
    {filename : CString} (hfrom : 0 ≤ index) (hto : index < s.count)
    (hrestart : restarts (filename.take (retroPathMax - 1)) ≠ true) (hlast : index ≠ s.count - 1)
    (hin : filename.take (retroPathMax - 1) ∉ names.take index.toNat) :
    s.replaceFile host index (some filename) = .error .nullString := by
  obtain ⟨i, rfl⟩ := Int.eq_ofNat_of_zero_le hfrom
  have hi : i < s.count := Int.ofNat_lt.mp hto
  obtain ⟨s', a, b, na, name, nb, hclear, hown, rfl, rfl, hna, ha, hb⟩ := h.cleared hi
  rw [Int.toNat_natCast, List.take_left' hna] at hin
  have hbehind : b ≠ [] := by
    rintro rfl
    have hlength := h.count_eq
    obtain rfl : nb = [] := List.map_eq_nil_iff.mp hb.symm
    rw [List.length_append, List.length_singleton] at hlength
    omega
  rw [replaceFile_cleared host hi hclear, replaceCleared, if_neg hrestart,
    findFile_others hown ha, if_neg hin, if_neg hbehind]
  rfl

/-! ### Every step -/

theorem Holds.names_eq (h : s.Holds live names) : s.names = names := by
  obtain ⟨rest, hslots⟩ := h.slots
  have hcomp : (fun slot : DcSlot => (s.read slot.file).toOption) =
      Except.toOption ∘ fun slot : DcSlot => s.read slot.file := rfl
  rw [DcStorage.names, hslots, h.count, List.take_left, hcomp, ← List.filterMap_map, h.named,
    List.filterMap_map]
  exact List.filterMap_some

theorem Holds.kept (h : s.Holds live names) : s.Kept where
  count := by
    obtain ⟨rest, hslots⟩ := h.slots
    have hlength := h.length
    rw [hslots, List.length_append, ← h.count] at hlength
    exact hlength ▸ Nat.le_add_right _ _
  named := by
    obtain ⟨rest, hslots⟩ := h.slots
    rw [hslots, h.count, List.take_left]
    intro slot hslot
    have hread : s.read slot.file ∈ live.map fun slot => s.read slot.file :=
      List.mem_map.mpr ⟨slot, hslot, rfl⟩
    rw [h.named] at hread
    obtain ⟨str, -, hstr⟩ := List.mem_map.mp hread
    exact ⟨str, hstr.symm⟩
  nodup := h.names_eq ▸ h.nodup

theorem holds_create : create.Holds [] [] where
  slots := ⟨_, rfl⟩
  length := rfl
  count := rfl
  distinct := List.nodup_nil
  alive := List.forall_mem_nil _
  named := rfl
  nodup := List.nodup_nil

/-- What a careful step leaves of the entries and their names. -/
theorem Holds.step (h : s.Holds live names) (host : Host) {e : DcEvent} (hcareful : e.Careful s) :
    ∃ s' live', s.step host e = .ok s' ∧ s'.Holds live' (dcSpec host names e) := by
  cases e with
  | addFile filename label =>
    cases filename with
    | none => exact ⟨s, live, rfl, h⟩
    | some filename => exact h.addFile host filename label
  | removeFile index =>
    change ∃ s' live', s.removeFile index = .ok s' ∧ s'.Holds live' (removeSpec names index)
    rw [removeSpec, ← h.count_eq]
    by_cases hrange : index < 0 ∨ (s.count : Int) ≤ index
    · rw [DcStorage.removeFile, if_pos hrange, if_pos hrange]
      exact ⟨s, live, rfl, h⟩
    obtain ⟨i, rfl⟩ := Int.eq_ofNat_of_zero_le (Int.not_lt.mp (not_or.mp hrange).1)
    obtain ⟨a, slot, b, na, name, nb, rfl, rfl, rfl, hna, ha, hb⟩ :=
      h.split (Int.ofNat_lt.mp (Int.not_le.mp (not_or.mp hrange).2))
    obtain ⟨s', hs', h'⟩ := removeFile_holds h.toOwns ha hb h.nodup
    refine ⟨s', a ++ b, hs', ?_⟩
    rw [if_neg hrange, Int.toNat_natCast, ← hna, List.eraseIdx_append_of_length_le (Nat.le_refl _),
      Nat.sub_self]
    exact h'
  | replaceFile index filename =>
    refine h.replaceFile host index filename fun name hname hfrom hto => ?_
    subst hname
    exact h.names_eq ▸ hcareful hfrom hto
  | parseM3u m3u =>
    cases m3u with
    | none => exact ⟨s, live, rfl, h⟩
    | some m3u =>
      obtain ⟨s', hs', h'⟩ := h.toOwns.reset
      obtain ⟨s'', live', hs'', h''⟩ := h'.parseLines host m3u 0 m3u.lines
      refine ⟨s'', live', ?_, h''⟩
      change (s.reset >>= fun s => s.parseLines host m3u 0 m3u.lines) = _
      rw [hs']
      exact hs''
  | reset =>
    obtain ⟨s', hs', h'⟩ := h.toOwns.reset
    exact ⟨s', [], hs', h'⟩

/-- A replacement that is not careful compares a null pointer. -/
theorem Holds.step_careless (h : s.Holds live names) (host : Host) {e : DcEvent}
    (hcareless : ¬e.Careful s) : s.step host e = .error .nullString := by
  cases e with
  | addFile => exact absurd trivial hcareless
  | removeFile => exact absurd trivial hcareless
  | parseM3u => exact absurd trivial hcareless
  | reset => exact absurd trivial hcareless
  | replaceFile index filename =>
    cases filename with
    | none => exact absurd trivial hcareless
    | some filename =>
      rw [DcEvent.Careful, h.names_eq] at hcareless
      push Not at hcareless
      obtain ⟨hfrom, hto, hrestart, hlast, hin⟩ := hcareless
      exact h.replaceFile_careless host hfrom hto hrestart hlast hin

theorem Holds.run (h : s.Holds live names) {host : Host} {es : List DcEvent}
    {r : Except DcFault DcStorage} (hrun : (carefulDcMachine host).Run s es r) :
    ∃ s' live', r = .ok s' ∧ s'.Holds live' (es.foldl (dcSpec host) names) := by
  induction hrun generalizing live names with
  | nil s => exact ⟨s, live, rfl, h⟩
  | cons hlegal hstep _ ih =>
    obtain ⟨s', live', hs', h'⟩ := h.step host hlegal.2
    obtain rfl := Except.ok.inj (hs'.symm.trans hstep)
    exact ih h'
  | fault _ hlegal hstep =>
    obtain ⟨s', live', hs', h'⟩ := h.step host hlegal.2
    cases hs'.symm.trans hstep

end

end DcStorage

open DcStorage

/-- In every run whose replacements are careful, the entries stay readable, different and in order;
the first replacement that is not careful compares a null pointer. -/
theorem list_kept (host : Host) {es : List DcEvent} {r : Except DcFault DcStorage}
    (hrun : (carefulDcMachine host).Run .create es r) :
    ∃ s, r = .ok s ∧ s.Kept ∧ s.names = es.foldl (dcSpec host) [] ∧
      ∀ e : DcEvent, ¬e.Careful s → s.step host e = .error .nullString := by
  obtain ⟨s, live, hr, h⟩ := holds_create.run hrun
  exact ⟨s, hr, h.kept, h.names_eq, fun e hcareless => h.step_careless host hcareless⟩

/-- A host without files or directories. -/
def noFiles : Host where
  pathIsValid := fun _ => false
  pathIsDirectory := fun _ => false
  pathIsAbsolute := fun _ => false
  pathBasename := id
  pathRemoveExtension := id
  pathJoin := fun _ file => file
  uncompress := fun path _ => path
  saveDisk := fun _ _ _ => none

theorem list_kept_lastReplaced :
    ∃ s, (carefulDcMachine noFiles).Run .create
        [.addFile (some ['a']) none, .addFile (some ['b']) (some ['x']),
          .replaceFile 1 (some ['c'])] (.ok s) ∧
      s.names = [['a'], ['c']] := by
  have hrun : ∃ s, (carefulDcMachine noFiles).Run .create
      [.addFile (some ['a']) none, .addFile (some ['b']) (some ['x']),
        .replaceFile 1 (some ['c'])] (.ok s) :=
    ⟨_, .cons ⟨trivial, trivial⟩ rfl (.cons ⟨trivial, trivial⟩ rfl
      (.cons ⟨(show isMulti ['c'] = false by decide), fun _ _ => .inr (.inl rfl)⟩ rfl (.nil _)))⟩
  obtain ⟨s, hrun⟩ := hrun
  obtain ⟨s', hr, -, hnames, -⟩ := list_kept noFiles hrun
  obtain rfl := Except.ok.inj hr
  exact ⟨s, hrun, hnames⟩

/-- The first of two entries is replaced by a fresh name. -/
theorem firstReplaced_nullString :
    (dcMachine noFiles).Run .create
      [.addFile (some ['a']) none, .addFile (some ['b']) none, .replaceFile 0 (some ['c'])]
      (.error .nullString) :=
  .cons trivial rfl (.cons trivial rfl (.fault _ (show isMulti ['c'] = false by decide) rfl))

end LibretroUae.DiskControl
