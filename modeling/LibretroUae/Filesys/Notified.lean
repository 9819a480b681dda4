import LibretroUae.Filesys.Notify

/-!
# LibretroUae.Filesys.Notified

**Who is notified.** A session is the table of a unit and the requests that its clients have
registered and not removed, under the names they gave. Whatever was added, removed, saved and
restored, the table files every request, one added since the last restore under its last
component and a restored one under its whole name; so a check of an object sends the requests
that denote it or its directory exactly if each of them is filed where the check looks.
-/

namespace LibretroUae.Filesys

open Lib

/-! ### Sessions -/

/-- A request as its client knows it; `restored` if the unit has been restored since. -/
structure Request where
  notifyrequest : UInt32
  fullname : Name
  restored : Bool
  deriving DecidableEq, Repr

namespace Request

/-- The part of the name that the unit keeps. -/
def part (r : Request) : Name :=
  if r.restored then afterLastSlash r.fullname
  else match partname r.fullname with
    | .ok part => part
    | .error _ => []

/-- The bucket it is filed in. -/
def bucket (r : Request) : Nat :=
  if r.restored then notifyhash r.fullname else notifyhash r.part

def notify (r : Request) : Notify :=
  { notifyrequest := r.notifyrequest, fullname := r.fullname, partname := r.part }

def restore (r : Request) : Request := { r with restored := true }

end Request

structure NotifySession where
  table : NotifyTable
  registered : List Request

inductive NotifyPacket (α : Type)
  | add (T : Nodes α) (nr : UInt32) (name : Name) (flags : UInt32)
  | remove (nr : UInt32)
  | reload (volname : Name)

variable {α : Type}

namespace NotifySession

def empty : NotifySession := { table := fun _ => [], registered := [] }

/-- Removing takes back the request that `action_remove_notify` finds. -/
def step (s : NotifySession) : NotifyPacket α → Except NotifyFault NotifySession
  | .add T nr name flags =>
    (actionAddNotify T s.table nr name flags).map fun done =>
      { table := done.1
        registered :=
          if flags &&& (nrfSendMessage ||| nrfSendSignal) = 0 then s.registered
          else ⟨nr, name, false⟩ :: s.registered }
  | .remove nr =>
    .ok { table := actionRemoveNotify s.table nr
          registered :=
            match findNotify s.table nr with
            | none => s.registered
            | some (hash, n) => s.registered.eraseP fun r => r.bucket == hash && r.notify == n }
  | .reload volname =>
    (reloadNotify volname s.table).map fun table =>
      { table, registered := s.registered.map Request.restore }

/-- The requests that a change of `a` is to be told to. -/
def due [DecidableEq α] (s : NotifySession) (T : Nodes α) (a : α) : List Request :=
  s.registered.filter fun r => (findAino T r.fullname).any fun t => t = a ∨ T.parent a = some t

end NotifySession

/-- Packets and save states of a unit. -/
def notifyMachine (α : Type) : Machine NotifySession (NotifyPacket α) NotifyFault where
  legal _ _ := True
  step := NotifySession.step

/-- Names have a character before their last colon, and a unit is restored with every name
under its volume. -/
def Named (s : NotifySession) : NotifyPacket α → Prop
  | .add _ _ name _ => ∃ part, partname name = .ok part
  | .remove _ => True
  | .reload volname => ∀ r ∈ s.registered, ∃ rest, r.fullname = volname ++ colon :: rest

def namedMachine (α : Type) : Machine NotifySession (NotifyPacket α) NotifyFault :=
  { notifyMachine α with legal := Named }

/-! ### The table files every request -/

/-- The invariant: every request is in its bucket. -/
def NotifySession.Inv (s : NotifySession) : Prop :=
  Filed Request.bucket Request.notify s.registered s.table

theorem notifyhash_lt (s : Name) : notifyhash s < notifyHashSize :=
  Nat.mod_lt _ (by decide)

theorem Request.bucket_lt (r : Request) : r.bucket < notifyHashSize := by
  rw [Request.bucket]
  split_ifs <;> exact notifyhash_lt _

theorem NotifySession.Inv.add {s : NotifySession} (h : s.Inv) (T : Nodes α) (nr : UInt32)
    {name part : Name} (flags : UInt32) (hpart : partname name = .ok part) :
    ∃ s', s.step (.add T nr name flags) = .ok s' ∧ s'.Inv := by
  simp only [NotifySession.step, actionAddNotify]
  by_cases hflags : flags &&& (nrfSendMessage ||| nrfSendSignal) = 0
  · rw [if_pos hflags, if_pos hflags]
    exact ⟨_, rfl, h⟩
  · rw [if_neg hflags, if_neg hflags, hpart]
    refine ⟨_, rfl, ?_⟩
    have hkept : Request.part ⟨nr, name, false⟩ = part := by
      simp [Request.part, hpart]
    have hfiled := Filed.cons h ⟨nr, name, false⟩
    have hbucket : Request.bucket ⟨nr, name, false⟩ = notifyhash part := by
      simp [Request.bucket, hkept]
    rw [hbucket, Request.notify, hkept] at hfiled
    exact hfiled

theorem NotifySession.Inv.remove {s : NotifySession} (h : s.Inv) (nr : UInt32) :
    ∃ s', s.step (.remove nr : NotifyPacket α) = .ok s' ∧ s'.Inv := by
  refine ⟨_, rfl, ?_⟩
  simp only [NotifySession.Inv, actionRemoveNotify]
  cases findNotify s.table nr with
  | none => exact h
  | some found => exact Filed.erase h found.1 found.2

/-! ### Save states keep names under the volume -/

theorem savedName_volume (volname rest : Name) :
    savedName volname (volname ++ colon :: rest) = .ok rest := by
  rw [savedName, if_pos ⟨by simp, by simp⟩, if_neg (by simp)]
  simp

/-- A list of requests under the volume is filed again, each under its whole name. -/
theorem foldlM_restoreNotify (volname : Name) {saved : List Notify}
    (h : ∀ n ∈ saved, ∃ rest, n.fullname = volname ++ colon :: rest) (unit : NotifyTable) :
    saved.foldlM (fun unit n => (savedName volname n.fullname).map
        (restoreNotify volname unit n.notifyrequest)) unit =
      .ok (saved.foldl (fun unit n => fileAt unit (notifyhash n.fullname)
        ({ n with partname := afterLastSlash n.fullname } :: unit (notifyhash n.fullname))) unit) := by
  induction saved generalizing unit with
  | nil => rfl
  | cons n saved ih =>
    obtain ⟨rest, hrest⟩ := h n List.mem_cons_self
    have hsaved := savedName_volume volname rest
    rw [← hrest] at hsaved
    rw [List.foldlM_cons, List.foldl_cons, hsaved]
    refine (ih (fun n hn => h n (List.mem_cons_of_mem _ hn)) _).trans ?_
    rw [restoreNotify, ← hrest]

theorem NotifySession.Inv.reload {s : NotifySession} (h : s.Inv) {volname : Name}
    (hnamed : ∀ r ∈ s.registered, ∃ rest, r.fullname = volname ++ colon :: rest) :
    ∃ s', s.step (.reload volname : NotifyPacket α) = .ok s' ∧ s'.Inv := by
  have hsaved : (savedRequests s.table).Perm (s.registered.map Request.notify) :=
    Filed.flatMap h fun r _ => r.bucket_lt
  have hunder : ∀ n ∈ savedRequests s.table, ∃ rest, n.fullname = volname ++ colon :: rest := by
    intro n hn
    obtain ⟨r, hr, rfl⟩ := List.mem_map.mp (hsaved.mem_iff.mp hn)
    exact hnamed r hr
  have hloop := foldlM_restoreNotify volname hunder fun _ => []
  refine ⟨_, congrArg (Except.map _) hloop, ?_⟩
  have hfiled := (Filed.nil (fun n : Notify => notifyhash n.fullname) fun n =>
    ({ n with partname := afterLastSlash n.fullname } : Notify)).foldl (savedRequests s.table)
  rw [List.append_nil] at hfiled
  have hrestored := filed_map.mp (hfiled.perm ((List.reverse_perm _).trans hsaved))
  rw [NotifySession.Inv, filed_map]
  exact hrestored

theorem named_invariant : (namedMachine α).Invariant NotifySession.Inv := by
  intro s packet hs hnamed
  cases packet with
  | add T nr name flags =>
    obtain ⟨part, hpart⟩ := hnamed
    exact hs.add T nr flags hpart
  | remove nr => exact hs.remove (α := α) nr
  | reload volname => exact hs.reload (α := α) hnamed

/-! ### What a check sends -/

/-- A check of `t` looks where the request is filed. -/
def Request.Meets (r : Request) (T : Nodes α) (t : α) : Prop :=
  r.part = T.aname t ∧ r.bucket = notifyhash (T.aname t)

instance (r : Request) (T : Nodes α) (t : α) : Decidable (r.Meets T t) :=
  inferInstanceAs (Decidable (_ ∧ _))

section Check

variable [DecidableEq α] {s : NotifySession}

/-- One bucket holds the requests that denote the object and are filed where it looks. -/
theorem notifyBucket_perm (h : s.Inv) (T : Nodes α) (t : α) :
    (notifyBucket T s.table t).Perm
      ((s.registered.filter fun r =>
        r.Meets T t ∧ findAino T r.fullname = some t).map Request.notify) := by
  refine ((h (notifyhash (T.aname t))).symm.filter _).trans (.of_eq ?_)
  rw [List.filter_map, List.filter_filter]
  refine congrArg _ (List.filter_congr fun r _ => Bool.eq_iff_iff.mpr ?_)
  change (decide (r.part = T.aname t ∧ findAino T r.fullname = some t) &&
    r.bucket == notifyhash (T.aname t)) = true ↔ _
  rw [Bool.and_eq_true, decide_eq_true_iff, decide_eq_true_iff, beq_iff_eq]
  exact ⟨fun ⟨⟨hpart, hfind⟩, hbucket⟩ => ⟨⟨hpart, hbucket⟩, hfind⟩,
    fun ⟨⟨hpart, hbucket⟩, hfind⟩ => ⟨⟨hpart, hfind⟩, hbucket⟩⟩

/-- A check sends those of the requests that are due that are filed where it looks. -/
theorem notifyCheck_perm (h : s.Inv) (T : Nodes α) (a : α) :
    (notifyCheck T s.table a).Perm
      (((s.due T a).filter fun r => (findAino T r.fullname).any fun t => r.Meets T t).map
        Request.notify) := by
  have hsplit : (s.due T a).filter (fun r => (findAino T r.fullname).any fun t => r.Meets T t) =
      s.registered.filter fun r =>
        decide (r.Meets T a ∧ findAino T r.fullname = some a) ||
          (T.parent a).any fun p => r.Meets T p ∧ findAino T r.fullname = some p := by
    rw [NotifySession.due, List.filter_filter]
    refine List.filter_congr fun r _ => Bool.eq_iff_iff.mpr ?_
    simp only [Bool.and_eq_true, Bool.or_eq_true, Option.any_eq_true, decide_eq_true_eq]
    constructor
    · rintro ⟨⟨t, hfind, hmeets⟩, t', hfind', hdue⟩
      obtain rfl : t = t' := Option.some.inj (hfind.symm.trans hfind')
      rcases hdue with rfl | hparent
      · exact .inl ⟨hmeets, hfind⟩
      · exact .inr ⟨t, hparent, hmeets, hfind⟩
    · rintro (⟨hmeets, hfind⟩ | ⟨p, hparent, hmeets, hfind⟩)
      · exact ⟨⟨a, hfind, hmeets⟩, a, hfind, .inl rfl⟩
      · exact ⟨⟨p, hfind, hmeets⟩, p, hfind, .inr hparent⟩
  rw [hsplit, notifyCheck]
  cases hparent : T.parent a with
  | none =>
    rw [List.append_nil]
    simpa using notifyBucket_perm h T a
  | some p =>
    have hne : p ≠ a := fun heq => T.parent_ne a (heq ▸ hparent)
    refine ((notifyBucket_perm h T a).append (notifyBucket_perm h T p)).trans ?_
    rw [← List.map_append]
    refine List.Perm.map _ (filter_append_perm_of_disjoint (fun r hr => ?_) _)
    rw [decide_eq_true_eq] at hr
    exact decide_eq_false fun hr' => hne (Option.some.inj (hr'.2.symm.trans hr.2))

/-- A check sends the requests that are due exactly if each is filed where it looks. -/
theorem notifyCheck_iff (h : s.Inv) (T : Nodes α) (a : α) :
    ((notifyCheck T s.table a).map Notify.notifyrequest).Perm
        ((s.due T a).map Request.notifyrequest) ↔
      ∀ r ∈ s.registered, ∀ t, findAino T r.fullname = some t → t = a ∨ T.parent a = some t →
        r.Meets T t := by
  have hsent := (notifyCheck_perm h T a).map Notify.notifyrequest
  rw [List.map_map] at hsent
  have hall : (∀ r ∈ s.due T a, ((findAino T r.fullname).any fun t => r.Meets T t) = true) ↔
      ∀ r ∈ s.registered, ∀ t, findAino T r.fullname = some t → t = a ∨ T.parent a = some t →
        r.Meets T t := by
    simp only [NotifySession.due, List.mem_filter, Option.any_eq_true, decide_eq_true_eq]
    constructor
    · intro hdue r hr t hfind ht
      obtain ⟨t', hfind', hmeets⟩ := hdue r ⟨hr, t, hfind, ht⟩
      obtain rfl : t = t' := Option.some.inj (hfind.symm.trans hfind')
      exact hmeets
    · rintro hmeets r ⟨hr, t, hfind, ht⟩
      exact ⟨t, hfind, hmeets r hr t hfind ht⟩
  rw [← hall, ← List.length_filter_eq_length_iff]
  constructor
  · intro hperm
    have hlength := (hsent.symm.trans hperm).length_eq
    rw [List.length_map, List.length_map] at hlength
    exact hlength
  · intro hlength
    rw [List.filter_eq_self.mpr (List.length_filter_eq_length_iff.mp hlength)] at hsent
    exact hsent

end Check

/-- Whatever is added, removed, saved and restored under names that can be kept, a check of an
object sends the requests that denote it or its directory exactly if each of them has, letter
for letter, the name of what it denotes as the part the unit keeps, and is filed under it. -/
theorem notified_iff {packets : List (NotifyPacket α)} {r : Except NotifyFault NotifySession}
    (hrun : (namedMachine α).Run .empty packets r) :
    ∃ s, r = .ok s ∧ ∀ [DecidableEq α] (T : Nodes α) (a : α),
      ((notifyCheck T s.table a).map Notify.notifyrequest).Perm
          ((s.due T a).map Request.notifyrequest) ↔
        ∀ r ∈ s.registered, ∀ t, findAino T r.fullname = some t → t = a ∨ T.parent a = some t →
          r.Meets T t := by
  obtain ⟨s, hr, hs⟩ := named_invariant.run hrun (Filed.nil _ _)
  exact ⟨s, hr, fun T a => notifyCheck_iff hs T a⟩

/-- `a` to `z` as capitals. -/
def capital (c : UInt8) : UInt8 := if 97 ≤ c ∧ c ≤ 122 then c - 32 else c

/-- The volume `Work` with a file `File`, found in any case. -/
def workFile : Nodes Bool where
  root := false
  aname a := if a then [70, 105, 108, 101] else [87, 111, 114, 107]
  parent a := if a then some false else none
  softlink _ := false
  lookupChild a name := if !a && name.map capital == [70, 73, 76, 69] then some true else none
  parent_ne := by decide

/-- A request for `Work:File` is told of the file. -/
theorem notified_iff_workFile : ∃ s : NotifySession,
    ((notifyCheck workFile s.table true).map Notify.notifyrequest).Perm
      ((s.due workFile true).map Request.notifyrequest) ∧
    (s.due workFile true).length = 1 := by
  have hrun : (namedMachine Bool).Run .empty
      [.add workFile 16 [87, 111, 114, 107, 58, 70, 105, 108, 101] 1] _ :=
    .cons ⟨_, rfl⟩ rfl (.nil _)
  obtain ⟨s, hr, hs⟩ := notified_iff hrun
  obtain rfl := Except.ok.inj hr
  exact ⟨_, (hs workFile true).mpr (by decide), by decide⟩

/-- Neither a request for `Work:FILE` nor one for the volume `Work:` is told of the file. -/
theorem notify_misses_file : ∃ s, (notifyMachine Bool).Reachable .empty s ∧
    ¬ ((notifyCheck workFile s.table true).map Notify.notifyrequest).Perm
      ((s.due workFile true).map Request.notifyrequest) := by
  have hrun : (notifyMachine Bool).Run .empty
      [.add workFile 16 [87, 111, 114, 107, 58, 70, 73, 76, 69] 1,
        .add workFile 32 [87, 111, 114, 107, 58] 1] (.ok _) :=
    .cons trivial rfl (.cons trivial rfl (.nil _))
  refine ⟨_, ⟨_, hrun⟩, fun hperm => ?_⟩
  have hlength := hperm.length_eq
  revert hlength
  decide

end LibretroUae.Filesys
