import LibretroUae.Filesys.ExamineNext
import Mathlib.Data.List.Nodup
import Mathlib.Data.List.TakeWhile

/-!
# LibretroUae.Filesys.Scans

**Each entry once.** While a scan goes on the children behind its position stay in place, and new
ones are put before it. The position itself is only a number: it is found again when the entry
is still there, and when it was deleted only if the search for a larger number happens to end
at the entry behind it.
-/

namespace LibretroUae.Filesys

open Lib

/-! ### When it works -/

/-- The entry a scan was given last is still there, or no child before it has a larger number
and the next one has, or it was the first and there is none with a larger number. -/
def ExScan.Resumes (sc : ExScan) (children : List ExChild) : Prop :=
  (∃ c ∈ children, c.uniq = sc.last) ∨
    (∀ c ∈ children, c.uniq ∉ sc.rest → c.uniq < sc.last) ∧
      match children.filter fun c => c.uniq ∈ sc.rest with
      | [] => ∀ c ∈ children, c.uniq ∈ sc.rest
      | next :: others => sc.last < next.uniq ∨
        (∀ c ∈ children, c.uniq ∈ sc.rest) ∧ ∀ c ∈ others, c.uniq < sc.last

theorem ExScan.resumes_iff {sc : ExScan} {children : List ExChild} :
    (∃ c ∈ children, c.uniq = sc.last) ∨
      (∀ c ∈ children, c.uniq ∉ sc.rest → c.uniq < sc.last) ∧
        ((∀ c ∈ children, c.uniq ∉ sc.rest) ∧ (∀ c ∈ children, c.uniq ∈ sc.rest) ∨
          ∃ next ∈ (children.filter fun c => c.uniq ∈ sc.rest).head?, sc.last < next.uniq ∨
            (∀ c ∈ children, c.uniq ∈ sc.rest) ∧
              ∀ c ∈ (children.filter fun c => c.uniq ∈ sc.rest).tail, c.uniq < sc.last) ↔
      sc.Resumes children := by
  have hnone : (∀ c ∈ children, c.uniq ∉ sc.rest) ↔
      (children.filter fun c => c.uniq ∈ sc.rest) = [] := by simp
  rw [Resumes, hnone]
  cases children.filter fun c => c.uniq ∈ sc.rest <;> simp

instance (sc : ExScan) (children : List ExChild) : Decidable (sc.Resumes children) :=
  decidable_of_iff _ ExScan.resumes_iff

/-- The host opens the directory, a scan is not the first after one that was abandoned, scans
find their place again, and numbers are not given out twice. -/
def ExEvent.Careful (s : ExState) : ExEvent → Prop
  | .first _ host _ _ => (s.scans = [] → s.abandoned = 0) ∧
    (s.dir.exnextCount = 0 → ∃ names, host = some names ∧
      s.dir.aUniq.toNat + names.length < 2 ^ 32)
  | .next id _ _ => ∀ sc ∈ s.scans, sc.id = id → sc.Resumes s.dir.children
  | .add _ | .elsewhere => s.dir.aUniq.toNat + 1 < 2 ^ 32
  | _ => True

instance ExEvent.decidableCareful (s : ExState) : (e : ExEvent) → Decidable (e.Careful s)
  | .first _ host _ _ => decidable_of_iff ((s.scans = [] → s.abandoned = 0) ∧
      (s.dir.exnextCount = 0 → host.any fun names =>
        decide (s.dir.aUniq.toNat + names.length < 2 ^ 32)))
      (by simp [ExEvent.Careful, Option.any_eq_true])
  | .next id _ _ => inferInstanceAs (Decidable (∀ sc ∈ s.scans, sc.id = id →
      sc.Resumes s.dir.children))
  | .add _ | .elsewhere => inferInstanceAs (Decidable (s.dir.aUniq.toNat + 1 < 2 ^ 32))
  | .abandon _ | .lookup _ | .flush _ | .delete _ => .isTrue trivial

def carefulExMachine : Machine ExState ExEvent ExFault :=
  { exMachine with legal := fun s e => e.Legal s ∧ e.Careful s }

instance (s : ExState) (e : ExEvent) : Decidable (carefulExMachine.legal s e) :=
  inferInstanceAs (Decidable (e.Legal s ∧ e.Careful s))

/-! ### The loop -/

theorem behind_append {front post : List ExChild} {c : ExChild}
    (hfront : ∀ a ∈ front, a.uniq ≠ c.uniq) : behind (front ++ c :: post) c.uniq = post := by
  induction front with
  | nil => simp [behind]
  | cons a front ih =>
    obtain ⟨ha, hrest⟩ := List.forall_mem_cons.mp hfront
    have hrest' := ih hrest
    rw [behind] at hrest' ⊢
    rw [List.cons_append, List.dropWhile_cons_of_pos (by simpa using ha)]
    exact hrest'

theorem toFront_of_locked {d : ExDir} (hlocked : d.lockedChildren ≠ 0) (uniq : UInt32) :
    d.toFront uniq = d := if_neg hlocked

section

variable {d : ExDir} {cached existing : UInt32 → Bool} {front post : List ExChild} {c : ExChild}

theorem following_of_mem (hlocked : d.lockedChildren ≠ 0)
    (hchildren : d.children = front ++ c :: post) (hfront : ∀ a ∈ front, a.uniq ≠ c.uniq) :
    d.following cached c.uniq = (d, post.head?) := by
  have hany : (d.children.any fun a => a.uniq = c.uniq) = true :=
    List.any_eq_true.mpr ⟨c, by simp [hchildren], by simp⟩
  rw [ExDir.following, if_pos hany, toFront_of_locked hlocked, ite_self]
  dsimp only
  rw [hchildren, behind_append hfront]

/-- The children from the first on that is of the volume and still on the host. -/
def pass (existing : UInt32 → Bool) (post : List ExChild) : List ExChild :=
  post.dropWhile fun c => !(c.current && existing c.uniq)

/-- What a call answers that goes on at the first of some children. -/
def answer (d : ExDir) (existing : UInt32 → Bool) (post : List ExChild) : ExDir × ExReply :=
  match pass existing post with
  | [] => (d.freeExkey, .noMoreEntries)
  | c :: _ => (d, .entry c.uniq)

/-- The loop ends, at the next child that can be shown. -/
theorem examineFrom_eq {fuel : Nat} (hlocked : post ≠ [] → d.lockedChildren ≠ 0)
    (huniqs : (d.children.map ExChild.uniq).Nodup) (hchildren : d.children = front ++ post)
    (hfuel : post.length ≤ fuel) :
    d.examineFrom cached existing fuel post.head? = some (answer d existing post) := by
  induction post generalizing front fuel with
  | nil => cases fuel <;> rfl
  | cons c post ih =>
    obtain ⟨fuel, rfl⟩ := Nat.exists_eq_add_of_le' (Nat.le_trans (Nat.succ_le_succ (Nat.zero_le _)) hfuel)
    rw [List.head?_cons, ExDir.examineFrom, answer, pass]
    by_cases hshown : (c.current && existing c.uniq) = true
    · rw [if_pos hshown, List.dropWhile_cons_of_neg (by simp [hshown])]
    · have hskipped : (fun c : ExChild => !(c.current && existing c.uniq)) c = true :=
        (Bool.not_eq_true' _).mpr (Bool.of_not_eq_true hshown)
      rw [if_neg hshown, List.dropWhile_cons, if_pos hskipped]
      have hfront : ∀ a ∈ front, a.uniq ≠ c.uniq := by
        rw [hchildren, List.map_append, List.map_cons] at huniqs
        exact fun a ha heq => (List.disjoint_of_nodup_append huniqs) (List.mem_map_of_mem ha)
          (heq ▸ List.mem_cons_self)
      have hlocked' := hlocked (List.cons_ne_nil _ _)
      rw [following_of_mem hlocked' hchildren hfront]
      exact ih (fun _ => hlocked') (by rw [hchildren, List.append_cons])
        (Nat.le_of_succ_le_succ hfuel)

end

theorem previousEntry_none {uniq : UInt32} {children : List ExChild}
    (hsmaller : ∀ c ∈ children, c.uniq < uniq) : previousEntry uniq children = none := by
  induction children with
  | nil => rfl
  | cons c children ih =>
    obtain ⟨hc, hrest⟩ := List.forall_mem_cons.mp hsmaller
    rw [previousEntry, if_neg (UInt32.not_lt.mpr (UInt32.le_of_lt hc)), if_neg, ih hrest]
    cases children with
    | nil => simp
    | cons next children =>
      simpa using UInt32.not_le.mpr (hrest next List.mem_cons_self)

theorem find_larger {uniq : UInt32} {before : List ExChild} (after : List ExChild)
    (hsmaller : ∀ c ∈ before, c.uniq < uniq) :
    (before ++ after).find? (fun c => uniq < c.uniq) = after.find? fun c => uniq < c.uniq := by
  have hnone : before.find? (fun c => decide (uniq < c.uniq)) = none :=
    List.find?_eq_none.mpr fun c hc => by
      simpa using UInt32.not_lt.mpr (UInt32.le_of_lt (hsmaller c hc))
  rw [List.find?_append, hnone, Option.none_or]

/-- The search ends at the next child. -/
theorem searchEntry_eq {uniq : UInt32} {before after : List ExChild} {next : ExChild}
    (hsmaller : ∀ c ∈ before, c.uniq < uniq) (hne : next.uniq ≠ uniq)
    (hnext : uniq < next.uniq ∨ before = [] ∧ ∀ c ∈ after, c.uniq < uniq) :
    searchEntry (before ++ next :: after) uniq = some next := by
  rw [searchEntry, find_larger _ hsmaller]
  by_cases hlarger : uniq < next.uniq
  · rw [List.find?_cons_of_pos (by simpa using hlarger)]
  · obtain ⟨rfl, hafter⟩ := hnext.resolve_left hlarger
    have hall : ∀ c ∈ next :: after, c.uniq < uniq := List.forall_mem_cons.mpr
      ⟨UInt32.lt_of_le_of_ne (UInt32.not_lt.mp hlarger) hne, hafter⟩
    have hnone := find_larger [] hall
    rw [List.append_nil] at hnone
    rw [hnone, List.nil_append, previousEntry_none hall]
    rfl

/-! ### One scan -/

/-- The place of a scan among the children: what it was given is before it, and what is behind
it was not given yet. -/
structure ExScan.Inv (sc : ExScan) (children : List ExChild) : Prop where
  apart : sc.last ∉ sc.rest
  placed : ∃ before here after, children = before ++ (here ++ after) ∧
    (∀ c ∈ before, c.uniq ∉ sc.rest ∧ c.uniq ≠ sc.last) ∧ (∀ c ∈ here, c.uniq = sc.last) ∧
    ∀ c ∈ after, c.uniq ∈ sc.rest ∧ c.uniq ≠ sc.last
  there : ∀ u ∈ sc.present, ∃ c ∈ children, c.uniq = u ∧ c.current = true
  behind : ∀ u ∈ sc.present, u ∈ sc.rest → sc.returned.count u = 0
  given : ∀ u ∈ sc.present, u ∉ sc.rest → sc.returned.count u = 1

/-- A scan that goes on at the first of some children. -/
structure ExScan.Ready (sc : ExScan) (children after : List ExChild) : Prop where
  there : ∀ u ∈ sc.present, ∃ c ∈ children, c.uniq = u ∧ c.current = true
  behind : ∀ u ∈ sc.present, (∃ c ∈ after, c.uniq = u) → sc.returned.count u = 0
  given : ∀ u ∈ sc.present, (¬ ∃ c ∈ after, c.uniq = u) → sc.returned.count u = 1

section

variable {sc : ExScan} {children front after : List ExChild} {existing : UInt32 → Bool}

theorem ExScan.Inv.without (h : sc.Inv children) (gone : UInt32 → Bool) :
    (sc.without gone).Inv children where
  apart := h.apart
  placed := h.placed
  there u hu := h.there u (List.mem_filter.mp hu).1
  behind u hu := h.behind u (List.mem_filter.mp hu).1
  given u hu := h.given u (List.mem_filter.mp hu).1

theorem uniq_inj (huniqs : (children.map ExChild.uniq).Nodup) {a b : ExChild} (ha : a ∈ children)
    (hb : b ∈ children) (heq : a.uniq = b.uniq) : a = b :=
  List.inj_on_of_nodup_map huniqs ha hb heq

/-- What is passed over was not there all the time. -/
theorem not_shown (hready : sc.Ready children after) (huniqs : (children.map ExChild.uniq).Nodup)
    {c : ExChild} (hc : c ∈ children) (hskipped : ¬ (c.current && existing c.uniq) = true) :
    c.uniq ∉ (sc.without fun u => !existing u).present := by
  intro hu
  obtain ⟨hu, hexisting⟩ := List.mem_filter.mp hu
  obtain ⟨a, ha, heq, hcurrent⟩ := hready.there c.uniq hu
  obtain rfl := uniq_inj huniqs ha hc heq
  exact hskipped (by simpa [hcurrent] using hexisting)

theorem pass_eq_append (existing : UInt32 → Bool) (after : List ExChild) :
    ∃ skipped, after = skipped ++ pass existing after ∧
      ∀ c ∈ skipped, ¬ (c.current && existing c.uniq) = true := by
  refine ⟨after.takeWhile fun c => !(c.current && existing c.uniq),
    (List.takeWhile_append_dropWhile).symm, fun c hc => ?_⟩
  have hskipped := List.mem_takeWhile_imp hc
  exact fun hshown => by simp [hshown] at hskipped

/-- A scan that is given its next entry. -/
theorem ExScan.Ready.given_inv (hready : sc.Ready children after)
    (huniqs : (children.map ExChild.uniq).Nodup) (hchildren : children = front ++ after)
    {c : ExChild} {post : List ExChild} (hpass : pass existing after = c :: post) :
    ((sc.without fun u => !existing u).given children c.uniq).Inv children := by
  obtain ⟨skipped, hsplit, hskipped⟩ := pass_eq_append existing after
  rw [hpass] at hsplit
  have hall : children = (front ++ skipped) ++ c :: post := by
    rw [hchildren, hsplit, List.append_assoc]
  have hmap := huniqs
  rw [hall, List.map_append, List.map_cons] at hmap
  obtain ⟨-, htail, hdisjoint⟩ := List.nodup_append'.mp hmap
  have hbefore : ∀ a ∈ front ++ skipped, a.uniq ≠ c.uniq := fun a ha heq =>
    hdisjoint (List.mem_map_of_mem ha) (heq ▸ List.mem_cons_self)
  have hrest : ((sc.without fun u => !existing u).given children c.uniq).rest =
      post.map ExChild.uniq := by
    rw [ExScan.given, hall, behind_append hbefore]
  have hafter : ∀ a ∈ post, a ∈ after := fun a ha =>
    hsplit ▸ List.mem_append_right _ (List.mem_cons_of_mem c ha)
  have hc : c.uniq ∉ post.map ExChild.uniq := (List.nodup_cons.mp htail).1
  refine ⟨hrest ▸ hc, ⟨front ++ skipped, [c], post, hall, fun a ha => ⟨fun hin => ?_, hbefore a ha⟩,
    List.forall_mem_singleton.mpr rfl, fun a ha => ⟨?_, fun heq => ?_⟩⟩, fun u hu => ?_,
    fun u hu hin => ?_, fun u hu hout => ?_⟩
  · rw [hrest] at hin
    exact hdisjoint (List.mem_map_of_mem ha) (List.mem_cons_of_mem _ hin)
  · rw [hrest]
    exact List.mem_map_of_mem ha
  · exact hc ((show a.uniq = c.uniq from heq) ▸ List.mem_map_of_mem ha)
  · exact hready.there u (List.mem_filter.mp hu).1
  · rw [hrest] at hin
    obtain ⟨a, ha, rfl⟩ := List.mem_map.mp hin
    have hne : a.uniq ≠ c.uniq := fun heq => hc (heq ▸ List.mem_map_of_mem ha)
    change (sc.returned ++ [c.uniq]).count a.uniq = 0
    rw [List.count_append, hready.behind _ (List.mem_filter.mp hu).1 ⟨a, hafter a ha, rfl⟩,
      List.count_singleton, if_neg (by simpa using hne.symm)]
  · rw [hrest] at hout
    change (sc.returned ++ [c.uniq]).count u = 1
    by_cases heq : u = c.uniq
    · subst heq
      have hc : c ∈ after := hsplit ▸ List.mem_append_right _ List.mem_cons_self
      rw [List.count_append, hready.behind _ (List.mem_filter.mp hu).1 ⟨c, hc, rfl⟩,
        List.count_singleton_self]
    · have hgone : ¬ ∃ a ∈ after, a.uniq = u := by
        rintro ⟨a, ha, rfl⟩
        rw [hsplit] at ha
        rcases List.mem_append.mp ha with ha | ha
        · refine not_shown hready huniqs ?_ (hskipped a ha) hu
          exact hall ▸ List.mem_append_left _ (List.mem_append_right _ ha)
        · rcases List.mem_cons.mp ha with rfl | ha
          · exact heq rfl
          · exact hout (List.mem_map_of_mem ha)
      rw [List.count_append, hready.given _ (List.mem_filter.mp hu).1 hgone,
        List.count_singleton, if_neg (by simpa using Ne.symm heq)]

/-- A scan that is at its end. -/
theorem ExScan.Ready.complete (hready : sc.Ready children after)
    (huniqs : (children.map ExChild.uniq).Nodup) (hchildren : children = front ++ after)
    (hpass : pass existing after = []) : (sc.without fun u => !existing u).Complete := by
  obtain ⟨skipped, hsplit, hskipped⟩ := pass_eq_append existing after
  rw [hpass, List.append_nil] at hsplit
  subst hsplit
  refine fun u hu => hready.given u (List.mem_filter.mp hu).1 ?_
  rintro ⟨a, ha, rfl⟩
  exact not_shown hready huniqs (hchildren ▸ List.mem_append_right _ ha) (hskipped a ha) hu

/-- A scan finds its place again. -/
theorem ExScan.Inv.ready (h : sc.Inv children) (hresumes : sc.Resumes children)
    (huniqs : (children.map ExChild.uniq).Nodup) :
    ∃ front after, children = front ++ after ∧ sc.Ready children after ∧
      ∀ d : ExDir, d.children = children → d.lockedChildren ≠ 0 → ∀ cached,
        d.following cached sc.last = (d, after.head?) := by
  obtain ⟨before, here, after, hsplit, hbefore, hhere, hafter⟩ := h.placed
  have hiff : ∀ u ∈ sc.present, u ∈ sc.rest ↔ ∃ c ∈ after, c.uniq = u := by
    intro u hu
    constructor
    · intro hin
      obtain ⟨c, hc, rfl, -⟩ := h.there u hu
      rw [hsplit] at hc
      rcases List.mem_append.mp hc with hc | hc
      · exact absurd hin (hbefore c hc).1
      rcases List.mem_append.mp hc with hc | hc
      · exact absurd (hhere c hc ▸ hin) h.apart
      · exact ⟨c, hc, rfl⟩
    · rintro ⟨c, hc, rfl⟩
      exact (hafter c hc).1
  refine ⟨before ++ here, after, by rw [hsplit, List.append_assoc], ⟨h.there, fun u hu hin =>
    h.behind u hu ((hiff u hu).mpr hin), fun u hu hout => h.given u hu (mt (hiff u hu).mp hout)⟩,
    fun d hd hlocked cached => ?_⟩
  cases here with
  | cons e here =>
    have hmap := huniqs
    rw [hsplit, List.map_append, List.map_append, List.map_cons] at hmap
    obtain ⟨-, hmap, -⟩ := List.nodup_append'.mp hmap
    have hnone : here = [] := by
      refine List.eq_nil_iff_forall_not_mem.mpr fun a ha => (List.nodup_cons.mp hmap).1 ?_
      refine List.mem_append_left _ (List.mem_map.mpr ⟨a, ha, ?_⟩)
      rw [hhere a (List.mem_cons_of_mem e ha), hhere e List.mem_cons_self]
    subst hnone
    rw [← hhere e List.mem_cons_self]
    refine following_of_mem hlocked (hd.trans hsplit) fun a ha => ?_
    rw [hhere e List.mem_cons_self]
    exact (hbefore a ha).2
  | nil =>
    rw [List.nil_append] at hsplit
    rcases hresumes with ⟨c, hc, heq⟩ | ⟨hsmaller, hnext⟩
    · rw [hsplit] at hc
      rcases List.mem_append.mp hc with hc | hc
      · exact absurd heq (hbefore c hc).2
      · exact absurd heq (hafter c hc).2
    have hgone : ¬ (d.children.any fun c => c.uniq = sc.last) = true := by
      rw [hd, hsplit, List.any_append, List.any_eq_false.mpr, List.any_eq_false.mpr]
      · simp
      · exact fun c hc => by simpa using (hafter c hc).2
      · exact fun c hc => by simpa using (hbefore c hc).2
    have hfilter : (children.filter fun c => c.uniq ∈ sc.rest) = after := by
      rw [hsplit, List.filter_append, List.filter_eq_nil_iff.mpr, List.filter_eq_self.mpr]
      · rfl
      · exact fun c hc => by simpa using (hafter c hc).1
      · exact fun c hc => by simpa using (hbefore c hc).1
    have hbefore' : ∀ c ∈ before, c.uniq < sc.last := fun c hc =>
      hsmaller c (hsplit ▸ List.mem_append_left _ hc) (hbefore c hc).1
    have hnone : (∀ c ∈ children, c.uniq ∈ sc.rest) → before = [] := fun hrest =>
      List.eq_nil_iff_forall_not_mem.mpr fun c hc =>
        (hbefore c hc).1 (hrest c (hsplit ▸ List.mem_append_left _ hc))
    rw [ExDir.following, if_neg hgone, hd]
    rw [hfilter] at hnext
    cases after with
    | nil =>
      rw [hsplit, hnone hnext]
      rfl
    | cons next others =>
      rw [hsplit, searchEntry_eq hbefore' (hafter next List.mem_cons_self).2
        (hnext.imp_right fun h => ⟨hnone h.1, h.2⟩)]
      rfl

end

/-! ### The directory -/

/-- The numbers of a directory. -/
structure ExDir.Numbered (d : ExDir) : Prop where
  uniqs : (d.children.map ExChild.uniq).Nodup
  bound : ∀ c ∈ d.children, c.uniq ≤ d.aUniq

section

variable {d : ExDir} {nname : List UInt8}

theorem lt_succ_aUniq (hwrap : d.aUniq.toNat + 1 < 2 ^ 32) {u : UInt32} (hu : u ≤ d.aUniq) :
    u < d.aUniq + 1 := by
  rw [UInt32.lt_iff_toNat_lt, UInt32.toNat_add, UInt32.toNat_one, Nat.mod_eq_of_lt hwrap]
  exact Nat.lt_succ_of_le (UInt32.le_iff_toNat_le.mp hu)

theorem ExDir.Numbered.newChild (h : d.Numbered) (hwrap : d.aUniq.toNat + 1 < 2 ^ 32) :
    (d.newChild nname).Numbered where
  uniqs := by
    refine List.nodup_cons.mpr ⟨fun hin => ?_, h.uniqs⟩
    obtain ⟨c, hc, heq⟩ := List.mem_map.mp hin
    exact UInt32.ne_of_lt (lt_succ_aUniq hwrap (h.bound c hc)) heq
  bound := List.forall_mem_cons.mpr ⟨UInt32.le_refl _,
    fun c hc => UInt32.le_of_lt (lt_succ_aUniq hwrap (h.bound c hc))⟩

/-- While the host directory is read every child is counted as locked. -/
structure ExDir.Populated (d : ExDir) : Prop extends d.Numbered where
  counted : d.exnextCount = 1
  locked : d.lockedChildren = d.children.length

/-- A directory with the children of another and more. -/
structure ExDir.Extends (d d' : ExDir) (names : List (List UInt8)) : Prop where
  uniq : d'.uniq = d.uniq
  children : ∀ c ∈ d.children, c ∈ d'.children
  named : ∀ n ∈ names, ∃ c ∈ d'.children, c.nname = n ∧ c.current = true

theorem populated_lookup (nname : List UInt8) (h : d.Populated) (hwrap : d.aUniq.toNat + 1 < 2 ^ 32) :
    (d.lookupForExnext nname).Populated ∧ d.Extends (d.lookupForExnext nname) [nname] ∧
      (d.lookupForExnext nname).aUniq.toNat ≤ d.aUniq.toNat + 1 := by
  rw [ExDir.lookupForExnext]
  by_cases hfound : (d.children.any fun c => c.nname = nname && c.current) = true
  · rw [if_pos hfound]
    obtain ⟨c, hc, hmatch⟩ := List.any_eq_true.mp hfound
    obtain ⟨hname, hcurrent⟩ := Bool.and_eq_true_iff.mp hmatch
    exact ⟨h, ⟨rfl, fun _ hc => hc, List.forall_mem_singleton.mpr
      ⟨c, hc, of_decide_eq_true hname, hcurrent⟩⟩, Nat.le_succ _⟩
  · rw [if_neg hfound]
    refine ⟨⟨h.toNumbered.newChild hwrap, h.counted, ?_⟩, ⟨rfl, fun c hc =>
      List.mem_cons_of_mem _ hc, List.forall_mem_singleton.mpr
        ⟨_, List.mem_cons_self, rfl, rfl⟩⟩, ?_⟩
    · change (if d.exnextCount ≠ 0 then d.lockedChildren + 1 else d.lockedChildren) = _
      rw [if_pos (by rw [h.counted]; decide), h.locked]
      rfl
    · change (d.aUniq + 1).toNat ≤ _
      rw [UInt32.toNat_add, UInt32.toNat_one, Nat.mod_eq_of_lt hwrap]

/-- Every name that the host lists has a child after it was read. -/
theorem populated_foldl {names : List (List UInt8)} (h : d.Populated)
    (hwrap : d.aUniq.toNat + names.length < 2 ^ 32) :
    (names.foldl ExDir.lookupForExnext d).Populated ∧
      d.Extends (names.foldl ExDir.lookupForExnext d) names := by
  induction names generalizing d with
  | nil => exact ⟨h, rfl, fun _ hc => hc, List.forall_mem_nil _⟩
  | cons n names ih =>
    rw [List.length_cons] at hwrap
    obtain ⟨hone, hext, hle⟩ := populated_lookup n h (by omega)
    obtain ⟨hall, hrest⟩ := ih hone (by omega)
    refine ⟨hall, hrest.uniq.trans hext.uniq, fun c hc => hrest.children c (hext.children c hc),
      List.forall_mem_cons.mpr ⟨?_, hrest.named⟩⟩
    obtain ⟨c, hc, hname⟩ := hext.named n (List.mem_singleton.mpr rfl)
    exact ⟨c, hrest.children c hc, hname⟩

end

/-! ### The state -/

structure ExState.Inv (s : ExState) : Prop extends s.dir.Numbered where
  ids : (s.scans.map ExScan.id).Nodup
  scans : ∀ sc ∈ s.scans, sc.Inv s.dir.children
  past : ∀ sc ∈ s.scans, sc.last ≤ s.dir.aUniq ∧ ∀ u ∈ sc.rest, u ≤ s.dir.aUniq
  counted : s.dir.exnextCount = s.scans.length + s.abandoned
  locked : 0 < s.dir.exnextCount → 0 < s.dir.lockedChildren
  unlocked : s.dir.exnextCount = 0 → s.dir.lockedChildren = 0
  complete : ∀ sc ∈ s.finished, sc.Complete

theorem ExState.Inv.listed {s : ExState} (h : s.Inv) : s.Listed := by
  have hcount : 0 ≤ s.dir.exnextCount := by
    rw [h.counted]
    omega
  refine ⟨h.complete, hcount, ?_⟩
  rcases Int.lt_or_eq_of_le hcount with hpos | hzero
  · exact Int.le_of_lt (h.locked hpos)
  · exact Int.le_of_eq (h.unlocked hzero.symm).symm

theorem length_others {scans : List ExScan} {sc : ExScan} (hids : (scans.map ExScan.id).Nodup)
    (hsc : sc ∈ scans) : scans.length = (scans.filter fun x => x.id ≠ sc.id).length + 1 := by
  induction scans with
  | nil => cases hsc
  | cons x scans ih =>
    obtain ⟨hx, hids⟩ := List.nodup_cons.mp hids
    by_cases heq : x.id = sc.id
    · have hall : (scans.filter fun y => y.id ≠ sc.id) = scans := by
        refine List.filter_eq_self.mpr fun y hy => decide_eq_true fun hid => hx ?_
        exact heq.trans hid.symm ▸ List.mem_map_of_mem hy
      rw [List.filter_cons_of_neg (by simpa using heq), hall, List.length_cons]
    · have hsc' := (List.mem_cons.mp hsc).resolve_left fun h => heq (h ▸ rfl)
      rw [List.filter_cons_of_pos (by simpa using heq), List.length_cons, List.length_cons,
        ← ih hids hsc']

theorem behind_subset (children : List ExChild) (uniq : UInt32) :
    ∀ c ∈ behind children uniq, c ∈ children := fun _ hc =>
  (List.dropWhile_sublist _).subset (List.mem_of_mem_tail hc)

/-- What holds of a directory and its scans when one of them is answered. -/
structure ExState.Answering (s : ExState) (sc : ExScan) (d : ExDir) (front after : List ExChild) :
    Prop extends d.Numbered where
  split : d.children = front ++ after
  ready : sc.Ready d.children after
  ids : (s.scans.map ExScan.id).Nodup
  others : ∀ x ∈ s.scans, x.id ≠ sc.id → x.Inv d.children ∧ x.last ≤ d.aUniq ∧
    ∀ u ∈ x.rest, u ≤ d.aUniq
  counted : d.exnextCount = (s.scans.filter fun x => x.id ≠ sc.id).length + 1 + s.abandoned
  locked : after ≠ [] ∨ 1 < d.exnextCount → 0 < d.lockedChildren
  complete : ∀ x ∈ s.finished, x.Complete

theorem ExState.Answering.answered {s : ExState} {sc : ExScan} {d : ExDir}
    {front after : List ExChild} (h : s.Answering sc d front after) (existing : UInt32 → Bool) :
    ∃ s', s.answered sc existing (some (answer d existing after)) = .ok s' ∧ s'.Inv ∧
      s'.dir.children = d.children := by
  have hids : (((s.scans.filter fun x => x.id ≠ sc.id).map fun x =>
      x.without fun u => !existing u).map ExScan.id).Nodup := by
    rw [List.map_map]
    exact h.ids.sublist (List.filter_sublist.map _)
  have hothers : ∀ x ∈ (s.scans.filter fun x => x.id ≠ sc.id).map (fun x =>
      x.without fun u => !existing u), x.id ≠ sc.id ∧ x.Inv d.children ∧ x.last ≤ d.aUniq ∧
        ∀ u ∈ x.rest, u ≤ d.aUniq := by
    simp only [List.forall_mem_map]
    intro x hx
    obtain ⟨hx, hid⟩ := List.mem_filter.mp hx
    obtain ⟨hinv, hpast⟩ := h.others x hx (of_decide_eq_true hid)
    exact ⟨of_decide_eq_true hid, hinv.without _, hpast⟩
  have hcounted := h.counted
  cases hpass : pass existing after with
  | nil =>
    rw [answer, hpass]
    refine ⟨_, rfl, ⟨⟨h.uniqs, h.bound⟩, hids, fun x hx => (hothers x hx).2.1,
      fun x hx => (hothers x hx).2.2, ?_, fun hpos => ?_, fun hzero => if_pos hzero,
      List.forall_mem_cons.mpr ⟨h.ready.complete h.uniqs h.split hpass, h.complete⟩⟩, rfl⟩
    · change d.exnextCount - 1 =
        ((List.map _ (s.scans.filter fun x => x.id ≠ sc.id)).length : Int) + s.abandoned
      rw [List.length_map]
      omega
    · change 0 < d.exnextCount - 1 at hpos
      change 0 < if d.exnextCount - 1 = 0 then 0 else d.lockedChildren
      rw [if_neg (by omega)]
      exact h.locked (.inr (by omega))
  | cons c post =>
    rw [answer, hpass]
    have hc : c ∈ d.children := by
      obtain ⟨skipped, hsplit, -⟩ := pass_eq_append existing after
      rw [h.split, hsplit, hpass]
      exact List.mem_append_right _ (List.mem_append_right _ List.mem_cons_self)
    have hgiven := h.ready.given_inv h.uniqs h.split hpass
    have hafter : after ≠ [] := by
      rintro rfl
      cases hpass
    refine ⟨_, rfl, ⟨⟨h.uniqs, h.bound⟩, List.nodup_cons.mpr ⟨fun hin => ?_, hids⟩,
      List.forall_mem_cons.mpr ⟨hgiven, fun x hx => (hothers x hx).2.1⟩,
      List.forall_mem_cons.mpr ⟨⟨h.bound c hc, fun u hu => ?_⟩, fun x hx => (hothers x hx).2.2⟩,
      ?_, fun _ => h.locked (.inl hafter), fun hzero => ?_, h.complete⟩, rfl⟩
    · obtain ⟨x, hx, hid⟩ := List.mem_map.mp hin
      exact (hothers x hx).1 hid
    · obtain ⟨a, ha, rfl⟩ := List.mem_map.mp hu
      exact h.bound a (behind_subset _ _ a ha)
    · change d.exnextCount =
        ((_ :: List.map _ (s.scans.filter fun x => x.id ≠ sc.id)).length : Int) + s.abandoned
      rw [List.length_cons, List.length_map]
      omega
    · change d.exnextCount = 0 at hzero
      omega

/-! ### The calls -/

section

variable {s : ExState}

/-- A scan that starts, in the directory as it is then. -/
def startScan (id : Nat) (d : ExDir) (last : UInt32) : ExScan :=
  ⟨id, last, [], (d.children.filter ExChild.current).map ExChild.uniq, []⟩

theorem startScan_ready (id : Nat) (d : ExDir) (last : UInt32) :
    (startScan id d last).Ready d.children d.children := by
  have hthere : ∀ u ∈ (startScan id d last).present, ∃ c ∈ d.children, c.uniq = u ∧
      c.current = true := by
    intro u hu
    obtain ⟨c, hc, rfl⟩ := List.mem_map.mp hu
    obtain ⟨hc, hcurrent⟩ := List.mem_filter.mp hc
    exact ⟨c, hc, rfl, hcurrent⟩
  refine ⟨hthere, fun _ _ _ => rfl, fun u hu hgone => absurd ?_ hgone⟩
  obtain ⟨c, hc, heq, -⟩ := hthere u hu
  exact ⟨c, hc, heq⟩

/-- The directory in which a scan starts. -/
theorem ExState.Inv.starting (h : s.Inv) {id : Nat} {host : Option (List (List UInt8))}
    {cached existing : UInt32 → Bool} (hlegal : (ExEvent.first id host cached existing).Legal s)
    (hcareful : (ExEvent.first id host cached existing).Careful s) :
    ∃ d, s.dir.examineFirst host cached existing =
        d.examineFrom cached existing (d.children.length + 1) d.children.head? ∧
      s.Answering (startScan id d s.dir.uniq) d [] d.children ∧
      ∀ names, host = some names → s.scans = [] →
        ∀ n ∈ names, ∃ c ∈ d.children, c.nname = n ∧ c.current = true := by
  have hnone : (s.scans.filter fun x => x.id ≠ id) = s.scans :=
    List.filter_eq_self.mpr fun x hx => decide_eq_true (hlegal x hx)
  have hcounted := h.counted
  by_cases hzero : s.dir.exnextCount = 0
  · obtain ⟨names, rfl, hwrap⟩ := hcareful.2 hzero
    have hstart : ExDir.Populated { s.dir with
        exnextCount := s.dir.exnextCount + 1
        lockedChildren := s.dir.lockedChildren + s.dir.children.length } := by
      refine ⟨⟨h.uniqs, h.bound⟩, ?_, ?_⟩
      · change s.dir.exnextCount + 1 = 1
        rw [hzero, Int.zero_add]
      · change s.dir.lockedChildren + s.dir.children.length = _
        rw [h.unlocked hzero, Int.zero_add]
    obtain ⟨hall, hext⟩ := populated_foldl hstart hwrap
    have hscans : s.scans = [] := List.length_eq_zero_iff.mp (by omega)
    refine ⟨_, ?_, ⟨hall.toNumbered, rfl, startScan_ready _ _ _, h.ids, ?_, ?_, fun hpos => ?_,
      h.complete⟩, fun _ hnames _ => ?_⟩
    · rw [ExDir.examineFirst, if_pos hzero]
      rfl
    · rw [hscans]
      exact List.forall_mem_nil _
    · rw [hall.counted, hscans]
      have habandoned := hcareful.1 hscans
      simp [habandoned]
    · rw [hall.locked]
      rw [hall.counted] at hpos
      have hne := hpos.resolve_right (by omega)
      exact Int.natCast_pos.mpr (List.length_pos_of_ne_nil hne)
    · obtain rfl := Option.some.inj hnames
      exact hext.named
  · have hpos : 0 < s.dir.exnextCount := by omega
    refine ⟨{ s.dir with exnextCount := s.dir.exnextCount + 1 }, ?_, ⟨⟨h.uniqs, h.bound⟩, rfl,
      startScan_ready _ _ _, h.ids, fun x hx _ => ⟨h.scans x hx, h.past x hx⟩, ?_,
      fun _ => h.locked hpos, h.complete⟩, fun _ _ hscans => ?_⟩
    · rw [ExDir.examineFirst, if_neg hzero]
    · change s.dir.exnextCount + 1 =
        ((s.scans.filter fun x => x.id ≠ id).length : Int) + 1 + s.abandoned
      rw [hnone]
      omega
    · rw [hscans, hcareful.1 hscans] at hcounted
      exact absurd hcounted hzero

theorem ExState.Inv.examineFirst (h : s.Inv) {id : Nat} {host : Option (List (List UInt8))}
    {cached existing : UInt32 → Bool} (hlegal : (ExEvent.first id host cached existing).Legal s)
    (hcareful : (ExEvent.first id host cached existing).Careful s) :
    ∃ s', s.step (.first id host cached existing) = .ok s' ∧ s'.Inv ∧
      Rereads s s' (.first id host cached existing) := by
  obtain ⟨d, hfirst, hanswering, hnamed⟩ := h.starting hlegal hcareful
  rw [examineFrom_eq (fun hne => Int.ne_of_gt (hanswering.locked (.inl hne))) hanswering.uniqs
    hanswering.split (Nat.le_succ _)] at hfirst
  obtain ⟨s', hs', hinv, hchildren⟩ := hanswering.answered existing
  have hsame : (answer d existing d.children).1.children = d.children := by
    rw [answer]
    split <;> rfl
  refine ⟨s', ?_, hinv, ?_⟩
  · change s.answered ⟨id, s.dir.uniq, [], _, []⟩ existing _ = _
    rw [hfirst, Option.map_some, Option.getD_some, hsame]
    exact hs'
  · rintro id' names cached' existing' heq hscans n hn
    injection heq with _ hhost
    rw [hchildren]
    exact hnamed names hhost hscans n hn

theorem ExState.Inv.examineNext (h : s.Inv) {id : Nat} {cached existing : UInt32 → Bool}
    (hlegal : (ExEvent.next id cached existing).Legal s)
    (hcareful : (ExEvent.next id cached existing).Careful s) :
    ∃ s', s.step (.next id cached existing) = .ok s' ∧ s'.Inv := by
  obtain ⟨sc₀, hsc₀, hid₀⟩ := hlegal
  cases hfind : s.scans.find? fun sc => sc.id == id with
  | none => exact absurd (beq_iff_eq.mpr hid₀) (List.find?_eq_none.mp hfind sc₀ hsc₀)
  | some sc =>
    have hsc := List.mem_of_find?_eq_some hfind
    have hid : sc.id = id := by simpa using List.find?_some hfind
    obtain ⟨front, after, hsplit, hready, hfollow⟩ := (h.scans sc hsc).ready (hcareful sc hsc hid) h.uniqs
    have hlength := length_others h.ids hsc
    have hcounted := h.counted
    have hlocked : 0 < s.dir.lockedChildren := h.locked (by omega)
    have hanswering : s.Answering sc s.dir front after :=
      ⟨⟨h.uniqs, h.bound⟩, hsplit, hready, h.ids, fun x hx _ => ⟨h.scans x hx, h.past x hx⟩,
        by omega, fun _ => hlocked, h.complete⟩
    obtain ⟨s', hs', hinv, -⟩ := hanswering.answered existing
    refine ⟨s', ?_, hinv⟩
    rw [ExState.step, hfind]
    dsimp only
    rw [ExDir.examineNext, hfollow s.dir rfl (by omega)]
    dsimp only
    rw [examineFrom_eq (fun _ => by omega) h.uniqs hsplit (by rw [hsplit, List.length_append]; omega)]
    exact hs'

/-! ### What others do to the children -/

/-- Without scans the children may be moved and dropped. -/
theorem ExState.Inv.rearrange (h : s.Inv) (hlocked : s.dir.lockedChildren = 0)
    {children : List ExChild} (huniqs : (children.map ExChild.uniq).Nodup)
    (hmem : ∀ c ∈ children, c ∈ s.dir.children) :
    ExState.Inv { s with dir := { s.dir with children } } := by
  have hcounted := h.counted
  have hscans : s.scans = [] := by
    refine List.length_eq_zero_iff.mp (Nat.eq_zero_of_not_pos fun hpos => ?_)
    have hlocked' := h.locked (by omega)
    omega
  refine ⟨⟨huniqs, fun c hc => h.bound c (hmem c hc)⟩, h.ids, ?_, h.past, h.counted, h.locked,
    h.unlocked, h.complete⟩
  change ∀ sc ∈ s.scans, _
  rw [hscans]
  exact List.forall_mem_nil _

theorem ExState.Inv.lookup (h : s.Inv) (uniq : UInt32) :
    ExState.Inv { s with dir := s.dir.toFront uniq } := by
  rw [ExDir.toFront]
  split_ifs with hlocked
  · have hperm : ((s.dir.children.filter fun c => c.uniq = uniq) ++
        s.dir.children.filter fun c => c.uniq ≠ uniq).Perm s.dir.children := by
      have hperm := List.filter_append_perm (fun c : ExChild => decide (c.uniq = uniq)) s.dir.children
      simpa only [ne_eq, decide_not] using hperm
    exact h.rearrange hlocked ((hperm.map _).nodup_iff.mpr h.uniqs) fun c hc => hperm.mem_iff.mp hc
  · exact h

theorem ExState.Inv.add (h : s.Inv) (nname : List UInt8) (hwrap : s.dir.aUniq.toNat + 1 < 2 ^ 32) :
    ExState.Inv { s with dir := s.dir.newChild nname } := by
  have hnumbered : (s.dir.newChild nname).Numbered := h.toNumbered.newChild hwrap
  have hle : ∀ u, u ≤ s.dir.aUniq → u ≤ s.dir.aUniq + 1 := fun u hu =>
    UInt32.le_of_lt (lt_succ_aUniq hwrap hu)
  have hcounted := h.counted
  refine ⟨hnumbered, h.ids, fun sc hsc => ?_, fun sc hsc => ⟨hle _ (h.past sc hsc).1,
    fun u hu => hle u ((h.past sc hsc).2 u hu)⟩, h.counted, fun hpos => ?_, fun hzero => ?_,
    h.complete⟩
  · obtain ⟨before, here, after, hsplit, hbefore, hhere, hafter⟩ := (h.scans sc hsc).placed
    have hnew := h.past sc hsc
    refine ⟨(h.scans sc hsc).apart, ⟨⟨s.dir.aUniq + 1, nname, true⟩ :: before, here, after, ?_,
      List.forall_mem_cons.mpr ⟨⟨fun hin => ?_, fun heq => ?_⟩, hbefore⟩, hhere, hafter⟩,
      fun u hu => ?_, (h.scans sc hsc).behind, (h.scans sc hsc).given⟩
    · exact congrArg _ hsplit
    · exact absurd (lt_succ_aUniq hwrap (hnew.2 _ hin)) (UInt32.lt_irrefl _)
    · exact UInt32.ne_of_lt (lt_succ_aUniq hwrap hnew.1) heq.symm
    · obtain ⟨c, hc, heq⟩ := (h.scans sc hsc).there u hu
      exact ⟨c, List.mem_cons_of_mem _ hc, heq⟩
  · change 0 < if s.dir.exnextCount ≠ 0 then s.dir.lockedChildren + 1 else s.dir.lockedChildren
    have hlocked := h.locked hpos
    split_ifs <;> omega
  · exact (if_neg (not_not.mpr hzero)).trans (h.unlocked hzero)

theorem ExState.Inv.elsewhere (h : s.Inv) (hwrap : s.dir.aUniq.toNat + 1 < 2 ^ 32) :
    ExState.Inv { s with dir := { s.dir with aUniq := s.dir.aUniq + 1 } } := by
  have hle : ∀ u, u ≤ s.dir.aUniq → u ≤ s.dir.aUniq + 1 := fun u hu =>
    UInt32.le_of_lt (lt_succ_aUniq hwrap hu)
  exact ⟨⟨h.uniqs, fun c hc => hle _ (h.bound c hc)⟩, h.ids, h.scans, fun sc hsc =>
    ⟨hle _ (h.past sc hsc).1, fun u hu => hle u ((h.past sc hsc).2 u hu)⟩, h.counted, h.locked,
    h.unlocked, h.complete⟩

theorem ExState.Inv.delete (h : s.Inv) (uniq : UInt32) :
    ExState.Inv { s with
      dir := { s.dir with children := s.dir.children.filter fun c => c.uniq ≠ uniq }
      scans := s.scans.map fun sc => sc.without fun u => u = uniq } := by
  refine ⟨⟨h.uniqs.sublist (List.filter_sublist.map _), fun c hc =>
    h.bound c (List.mem_filter.mp hc).1⟩, ?_, ?_, ?_, ?_, h.locked, h.unlocked, h.complete⟩
  · change ((s.scans.map _).map ExScan.id).Nodup
    rw [List.map_map]
    exact h.ids
  · change ∀ sc ∈ s.scans.map _, _
    simp only [List.forall_mem_map]
    intro sc hsc
    obtain ⟨before, here, after, hsplit, hbefore, hhere, hafter⟩ := (h.scans sc hsc).placed
    refine ⟨(h.scans sc hsc).apart, ⟨before.filter fun c => c.uniq ≠ uniq,
      here.filter fun c => c.uniq ≠ uniq, after.filter fun c => c.uniq ≠ uniq, ?_,
      fun c hc => hbefore c (List.mem_filter.mp hc).1, fun c hc => hhere c (List.mem_filter.mp hc).1,
      fun c hc => hafter c (List.mem_filter.mp hc).1⟩, fun u hu => ?_,
      fun u hu => (h.scans sc hsc).behind u (List.mem_filter.mp hu).1,
      fun u hu => (h.scans sc hsc).given u (List.mem_filter.mp hu).1⟩
    · rw [hsplit, List.filter_append, List.filter_append]
    · obtain ⟨hu, hne⟩ := List.mem_filter.mp hu
      obtain ⟨c, hc, rfl, hcurrent⟩ := (h.scans sc hsc).there u hu
      exact ⟨c, List.mem_filter.mpr ⟨hc, by simpa using hne⟩, rfl, hcurrent⟩
  · change ∀ sc ∈ s.scans.map _, _
    simp only [List.forall_mem_map]
    exact h.past
  · change s.dir.exnextCount = ((s.scans.map _).length : Int) + s.abandoned
    rw [List.length_map]
    exact h.counted

/-! ### Runs -/

theorem ExState.Inv.step (h : s.Inv) {e : ExEvent} (hlegal : e.Legal s) (hcareful : e.Careful s) :
    ∃ s', s.step e = .ok s' ∧ s'.Inv ∧ Rereads s s' e := by
  cases e with
  | first id host cached existing => exact h.examineFirst hlegal hcareful
  | next id cached existing =>
    obtain ⟨s', hs', hinv⟩ := h.examineNext hlegal hcareful
    exact ⟨s', hs', hinv, fun _ _ _ _ heq => nomatch heq⟩
  | abandon id =>
    obtain ⟨sc, hsc, rfl⟩ := hlegal
    have hlength := length_others h.ids hsc
    have hcounted := h.counted
    refine ⟨_, rfl, ⟨⟨h.uniqs, h.bound⟩, h.ids.sublist (List.filter_sublist.map _), fun x hx =>
      h.scans x (List.mem_filter.mp hx).1, fun x hx => h.past x (List.mem_filter.mp hx).1, ?_,
      h.locked, h.unlocked, h.complete⟩, fun _ _ _ _ heq => nomatch heq⟩
    change s.dir.exnextCount =
      ((s.scans.filter fun x => x.id ≠ sc.id).length : Int) + (s.abandoned + 1 : Nat)
    omega
  | add nname => exact ⟨_, rfl, h.add nname hcareful, fun _ _ _ _ heq => nomatch heq⟩
  | lookup uniq => exact ⟨_, rfl, h.lookup uniq, fun _ _ _ _ heq => nomatch heq⟩
  | flush uniqs =>
    refine ⟨_, rfl, ?_, fun _ _ _ _ heq => nomatch heq⟩
    split_ifs with hlocked
    · exact h.rearrange hlocked (h.uniqs.sublist (List.filter_sublist.map _))
        fun c hc => (List.mem_filter.mp hc).1
    · exact h
  | delete uniq => exact ⟨_, rfl, h.delete uniq, fun _ _ _ _ heq => nomatch heq⟩
  | elsewhere => exact ⟨_, rfl, h.elsewhere hcareful, fun _ _ _ _ heq => nomatch heq⟩

theorem ExState.Start.inv (h : s.Start) : s.Inv := by
  refine ⟨⟨h.uniqs, h.given⟩, ?_, ?_, ?_, ?_, fun hpos => ?_, fun _ => h.lockedChildren, ?_⟩
  · rw [h.scans]
    exact List.nodup_nil
  · rw [h.scans]
    exact List.forall_mem_nil _
  · rw [h.scans]
    exact List.forall_mem_nil _
  · rw [h.scans, h.abandoned, h.exnextCount]
    rfl
  · rw [h.exnextCount] at hpos
    exact absurd hpos (Int.lt_irrefl 0)
  · rw [h.finished]
    exact List.forall_mem_nil _

/-- In every careful run scans that end were given each entry once, the counts are right, calls
return, and a scan that starts alone reads the host directory. -/
theorem scans_listed {s₀ s : ExState} (hstart : s₀.Start)
    (hrun : carefulExMachine.Reachable s₀ s) :
    s.Listed ∧ ∀ e : ExEvent, e.Legal s → e.Careful s →
      ∃ s', s.step e = .ok s' ∧ s'.Listed ∧ Rereads s s' e := by
  have hinv : s.Inv := by
    refine hrun.induct (fun hinv hlegal hstep => ?_) hstart.inv
    obtain ⟨s', hs', hinv', -⟩ := hinv.step hlegal.1 hlegal.2
    obtain rfl := Except.ok.inj (hs'.symm.trans hstep)
    exact hinv'
  refine ⟨hinv.listed, fun e hlegal hcareful => ?_⟩
  obtain ⟨s', hs', hinv', hrereads⟩ := hinv.step hlegal hcareful
  exact ⟨s', hs', hinv'.listed, hrereads⟩

end

/-! ### A directory with three files, and one of them deleted -/

def unread : ExState := ⟨⟨1, [], 0, 0, 1⟩, [], 0, []⟩

theorem unread_start : unread.Start :=
  ⟨rfl, rfl, rfl, rfl, rfl, List.nodup_nil, List.forall_mem_nil _⟩

def everything : UInt32 → Bool := fun _ => true

def startEvent (names : List (List UInt8)) : ExEvent := .first 0 (some names) everything everything

def nextEvent : ExEvent := .next 0 everything everything

/-- A client reads two files while another one starts, a third file comes and one goes. -/
def overlappingEvents : List ExEvent :=
  [startEvent [[65], [66]], nextEvent, .first 1 none everything everything, .add [67],
    .next 1 everything everything, nextEvent, .elsewhere, .delete 3, .next 1 everything everything]

theorem scans_listed_overlapping : ∃ s, carefulExMachine.exec unread overlappingEvents = some s ∧
    s.finished.length = 2 ∧ s.Listed ∧ ∀ e : ExEvent, e.Legal s → e.Careful s →
      ∃ s', s.step e = .ok s' ∧ s'.Listed ∧ Rereads s s' e := by
  have hended : (carefulExMachine.exec unread overlappingEvents).any
      (fun s => s.finished.length = 2) = true := by decide +kernel
  obtain ⟨s, hexec, hlength⟩ := (Option.any_eq_true _ _).mp hended
  exact ⟨s, hexec, of_decide_eq_true hlength,
    scans_listed unread_start (Machine.reachable_of_exec hexec)⟩

/-- The second of three files is deleted when it was just given. -/
def deletingEvents : List ExEvent :=
  [startEvent [[65], [66], [67]], nextEvent, .delete 3, nextEvent, nextEvent, nextEvent]

def deleting : ExState :=
  ⟨⟨1, [⟨4, [67], true⟩, ⟨2, [65], true⟩], 0, 0, 4⟩, [], 0, [⟨0, 2, [], [4, 2], [4, 3, 4, 2]⟩]⟩

/-- The first file is given again. -/
theorem deleting_repeats : unread.Start ∧ exMachine.Reachable unread deleting ∧
    ¬ deleting.Listed := by
  have hexec : exMachine.exec unread deletingEvents = some deleting := by decide
  refine ⟨unread_start, Machine.reachable_of_exec hexec, fun h => ?_⟩
  have htwice := h.complete _ List.mem_cons_self 4 List.mem_cons_self
  revert htwice
  decide

end LibretroUae.Filesys
