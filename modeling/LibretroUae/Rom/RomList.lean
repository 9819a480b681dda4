import LibretroUae.Rom.Keyring
import Mathlib.Data.List.Basic

/-!
# LibretroUae.Rom.RomList

**Cleaning up the list of ROMs.** Consecutive entries of the ROM table with the same group number
are the parts of one ROM. A part that was found is of use only with all the others, and the scan
over the table takes the parts of an incomplete ROM out of the list. The entry behind an incomplete
ROM is stepped over unseen.
-/

namespace LibretroUae.Rom

/-- A ROM that was found: its file, and its place in the ROM table. -/
structure RomListEntry where
  path : String
  rd : Nat

/-- `romlist_getrl`, as the place in the list. -/
def romlistGetrl (rl : List RomListEntry) (rd : Nat) : Option Nat := rl.findIdx? (·.rd == rd)

/-- The entry of a place of the table taken out of the list, by moving down those behind it. -/
def romlistRemove (rl : List RomListEntry) (rd : Nat) : List RomListEntry :=
  match romlistGetrl rl rd with
  | none => rl
  | some p => rl.eraseIdx p

section

variable (roms : List RomData)

/-- The group number of a place; the unnamed entry at the end has none. -/
def grp (i : Nat) : Int :=
  match roms[i]? with
  | none => 0
  | some rd => rd.group >>> (16 : Nat)

/-- The first loop of `romlist_cleanup`: to the end of the group, and whether all of it is there. -/
def scanGroup (rl : List RomListEntry) (g : Int) (j : Nat) (ok : Bool) : Nat × Bool :=
  if j < roms.length ∧ grp roms j = g ∧ 0 < g then
    scanGroup rl g (j + 1) (if romlistGetrl rl j = none then false else ok)
  else (j, ok)
termination_by roms.length - j

/-- The second loop: out of the list with all from `i` to `j`. -/
def removeGroup (rl : List RomListEntry) (i j : Nat) : Nat × List RomListEntry :=
  if i < j ∧ i < roms.length then removeGroup (romlistRemove rl i) (i + 1) j else (i, rl)
termination_by j - i

/-- What is done at place `i`, and the place where that ends. -/
def cleanupAt (rl : List RomListEntry) (i : Nat) : Nat × List RomListEntry :=
  let s := scanGroup roms rl (grp roms i) i true
  if s.2 = false then removeGroup roms rl i s.1 else (i, rl)

theorem le_removeGroup (rl : List RomListEntry) (i j : Nat) : i ≤ (removeGroup roms rl i j).1 := by
  fun_induction removeGroup roms rl i j with
  | case1 rl i h ih => exact Nat.le_of_succ_le ih
  | case2 rl i h => exact Nat.le_refl i

theorem le_cleanupAt (rl : List RomListEntry) (i : Nat) : i ≤ (cleanupAt roms rl i).1 := by
  simp only [cleanupAt]
  split_ifs with h
  · exact le_removeGroup roms rl i _
  · exact Nat.le_refl i

/-- The outer loop of `romlist_cleanup`. -/
def cleanupFrom (rl : List RomListEntry) (i : Nat) : List RomListEntry :=
  if i < roms.length then
    let r := cleanupAt roms rl i
    if r.1 < roms.length then cleanupFrom r.2 (r.1 + 1) else r.2
  else rl
termination_by roms.length - i
decreasing_by
  have := le_cleanupAt roms rl i
  omega

def romlistCleanup (rl : List RomListEntry) : List RomListEntry := cleanupFrom roms rl 0

end

/-! ### The list -/

/-- The entry of a place of the table is in the list. -/
def Present (rl : List RomListEntry) (k : Nat) : Prop := ∃ e ∈ rl, e.rd = k

/-- At most one entry per place of the table. -/
def OnePerEntry (rl : List RomListEntry) : Prop := (rl.map (·.rd)).Nodup

section

variable {roms : List RomData} {rl rl' : List RomListEntry} {a b c d i j k : Nat}

theorem romlistGetrl_eq_none : romlistGetrl rl k = none ↔ ¬ Present rl k := by
  simp [romlistGetrl, Present, List.findIdx?_eq_none_iff]

theorem romlistRemove_eq (rl : List RomListEntry) (k : Nat) :
    romlistRemove rl k = rl.eraseP (·.rd == k) := by
  rw [List.eraseP_eq_eraseIdx]
  rfl

theorem romlistRemove_sublist (rl : List RomListEntry) (k : Nat) :
    (romlistRemove rl k).Sublist rl := by
  rw [romlistRemove_eq]
  exact List.eraseP_sublist

theorem OnePerEntry.sublist (h : OnePerEntry rl) (hsub : rl'.Sublist rl) : OnePerEntry rl' :=
  List.Nodup.sublist (hsub.map _) h

theorem mem_romlistRemove (h : OnePerEntry rl) {e : RomListEntry} :
    e ∈ romlistRemove rl k ↔ e ∈ rl ∧ e.rd ≠ k := by
  rw [romlistRemove_eq]
  induction rl with
  | nil => simp
  | cons x rest ih =>
    have hx : x.rd ∉ rest.map (·.rd) := (List.nodup_cons.mp h).1
    have hrest : OnePerEntry rest := (List.nodup_cons.mp h).2
    by_cases hk : x.rd = k
    · rw [List.eraseP_cons_of_pos (by simpa using hk), List.mem_cons]
      constructor
      · intro he
        refine ⟨Or.inr he, fun hek => hx ?_⟩
        rw [hk, ← hek]
        exact List.mem_map_of_mem he
      · rintro ⟨rfl | he, hne⟩
        · exact absurd hk hne
        · exact he
    · rw [List.eraseP_cons_of_neg (by simpa using hk), List.mem_cons, List.mem_cons, ih hrest]
      constructor
      · rintro (rfl | ⟨he, hne⟩)
        · exact ⟨Or.inl rfl, hk⟩
        · exact ⟨Or.inr he, hne⟩
      · rintro ⟨rfl | he, hne⟩
        · exact Or.inl rfl
        · exact Or.inr ⟨he, hne⟩

/-- The second loop takes out exactly the entries of the group. -/
theorem removeGroup_spec (roms : List RomData) (h : OnePerEntry rl) (hij : i ≤ j)
    (hj : j ≤ roms.length) :
    (removeGroup roms rl i j).1 = j ∧ ((removeGroup roms rl i j).2).Sublist rl ∧
      ∀ e, e ∈ (removeGroup roms rl i j).2 ↔ e ∈ rl ∧ ¬ (i ≤ e.rd ∧ e.rd < j) := by
  fun_induction removeGroup roms rl i j with
  | case1 rl i hlt ih =>
    obtain ⟨hend, hsub, hmem⟩ := ih (h.sublist (romlistRemove_sublist rl i)) hlt.1
    refine ⟨hend, hsub.trans (romlistRemove_sublist rl i), fun e => ?_⟩
    rw [hmem, mem_romlistRemove h, and_assoc]
    refine and_congr_right fun _ => ?_
    omega
  | case2 rl i hlt =>
    refine ⟨by omega, List.Sublist.refl rl, fun e => (and_iff_left ?_).symm⟩
    omega

/-! ### Groups -/

/-- The places from `a` to `b` are the parts of one ROM. -/
structure IsGroup (roms : List RomData) (a b : Nat) : Prop where
  lt : a < b
  le : b ≤ roms.length
  pos : 0 < grp roms a
  same : ∀ m, a ≤ m → m < b → grp roms m = grp roms a
  first : a = 0 ∨ grp roms (a - 1) ≠ grp roms a
  last : b = roms.length ∨ grp roms b ≠ grp roms a

theorem grp_of_ge (h : roms.length ≤ i) : grp roms i = 0 := by
  rw [grp, List.getElem?_eq_none h]

theorem IsGroup.le_first (hab : IsGroup roms a b) (hcd : IsGroup roms c d) {m : Nat}
    (ha : a ≤ m) (hb : m < b) (hc : c ≤ m) (hd : m < d) : c ≤ a := by
  by_contra hlt
  rcases hcd.first with h0 | hne
  · exact hlt (h0 ▸ Nat.zero_le a)
  · refine hne ?_
    rw [hab.same (c - 1) (by omega) (by omega), ← hab.same m ha hb, hcd.same m hc hd]

theorem IsGroup.le_last (hab : IsGroup roms a b) (hcd : IsGroup roms c d) {m : Nat}
    (ha : a ≤ m) (hb : m < b) (hc : c ≤ m) (hd : m < d) : d ≤ b := by
  by_contra hlt
  have hle := hcd.le
  rcases hab.last with hlen | hne
  · omega
  · refine hne ?_
    rw [hcd.same b (by omega) (by omega), ← hcd.same m hc hd, hab.same m ha hb]

/-- A place is in one group only. -/
theorem IsGroup.eq (hab : IsGroup roms a b) (hcd : IsGroup roms c d) {m : Nat}
    (ha : a ≤ m) (hb : m < b) (hc : c ≤ m) (hd : m < d) : a = c ∧ b = d :=
  ⟨Nat.le_antisymm (hcd.le_first hab hc hd ha hb) (hab.le_first hcd ha hb hc hd),
    Nat.le_antisymm (hcd.le_last hab hc hd ha hb) (hab.le_last hcd ha hb hc hd)⟩

theorem exists_first (roms : List RomData) (i : Nat) :
    ∃ a ≤ i, (∀ m, a ≤ m → m ≤ i → grp roms m = grp roms i) ∧
      (a = 0 ∨ grp roms (a - 1) ≠ grp roms i) := by
  induction i with
  | zero =>
    refine ⟨0, Nat.le_refl 0, fun m _ hm => ?_, Or.inl rfl⟩
    rw [Nat.le_zero.mp hm]
  | succ i ih =>
    by_cases heq : grp roms i = grp roms (i + 1)
    · obtain ⟨a, hle, hsame, hfirst⟩ := ih
      rw [heq] at hsame hfirst
      refine ⟨a, Nat.le_succ_of_le hle, fun m ha hm => ?_, hfirst⟩
      rcases Nat.le_succ_iff.mp hm with hm | rfl
      · exact hsame m ha hm
      · rfl
    · refine ⟨i + 1, Nat.le_refl _, fun m ha hm => ?_, Or.inr heq⟩
      rw [Nat.le_antisymm hm ha]

theorem exists_last (hi : i < roms.length) :
    ∃ b, i < b ∧ b ≤ roms.length ∧ (∀ m, i ≤ m → m < b → grp roms m = grp roms i) ∧
      (b = roms.length ∨ grp roms b ≠ grp roms i) := by
  obtain ⟨n, hn⟩ := Nat.exists_eq_add_of_lt hi
  induction n generalizing i with
  | zero =>
    refine ⟨i + 1, Nat.lt_succ_self i, hi, fun m hm hlt => ?_, Or.inl hn.symm⟩
    rw [Nat.le_antisymm (Nat.le_of_lt_succ hlt) hm]
  | succ n ih =>
    by_cases heq : grp roms (i + 1) = grp roms i
    · obtain ⟨b, hlt, hle, hsame, hlast⟩ := ih (show i + 1 < roms.length by omega) (by omega)
      rw [heq] at hsame hlast
      refine ⟨b, by omega, hle, fun m hm hmb => ?_, hlast⟩
      rcases Nat.eq_or_lt_of_le hm with rfl | hm
      · rfl
      · exact hsame m hm hmb
    · refine ⟨i + 1, Nat.lt_succ_self i, hi, fun m hm hlt => ?_, Or.inr heq⟩
      rw [Nat.le_antisymm (Nat.le_of_lt_succ hlt) hm]

/-- A place with a group number is in a group. -/
theorem exists_group (hpos : 0 < grp roms i) : ∃ a b, IsGroup roms a b ∧ a ≤ i ∧ i < b := by
  have hi : i < roms.length := by
    by_contra hge
    rw [grp_of_ge (Nat.le_of_not_lt hge)] at hpos
    exact absurd hpos (by decide)
  obtain ⟨a, ha, hsame, hfirst⟩ := exists_first roms i
  obtain ⟨b, hb, hle, hsame', hlast⟩ := exists_last hi
  have hai : grp roms a = grp roms i := hsame a (Nat.le_refl a) ha
  refine ⟨a, b, ⟨by omega, hle, hai ▸ hpos, fun m hm hmb => ?_, hai ▸ hfirst, hai ▸ hlast⟩, ha, hb⟩
  rcases Nat.le_total m i with hmi | him
  · rw [hsame m hm hmi, hai]
  · rw [hsame' m him hmb, hai]

theorem IsGroup.pos_at (h : IsGroup roms a b) (ha : a ≤ i) (hb : i < b) : 0 < grp roms i :=
  h.same i ha hb ▸ h.pos

/-- The first loop ends where the group ends, and has seen whether a part is missing. -/
theorem scanGroup_spec (rl : List RomListEntry) (ok : Bool) (h : IsGroup roms a b) (ha : a ≤ j)
    (hb : j ≤ b) :
    (scanGroup roms rl (grp roms a) j ok).1 = b ∧
      ((scanGroup roms rl (grp roms a) j ok).2 = true ↔
        ok = true ∧ ∀ m, j ≤ m → m < b → Present rl m) := by
  obtain ⟨n, hn⟩ := Nat.exists_eq_add_of_le hb
  induction n generalizing j ok with
  | zero =>
    obtain rfl : j = b := by omega
    have hend : ¬ (j < roms.length ∧ grp roms j = grp roms a ∧ 0 < grp roms a) := by
      rintro ⟨hlt, heq, -⟩
      rcases h.last with hlen | hne
      · omega
      · exact hne heq
    rw [scanGroup, if_neg hend]
    exact ⟨rfl, (and_iff_left fun m h1 h2 => absurd h2 (Nat.not_lt_of_le h1)).symm⟩
  | succ n ih =>
    have hlt : j < b := by omega
    have hle := h.le
    rw [scanGroup, if_pos ⟨by omega, h.same j ha hlt, h.pos⟩]
    obtain ⟨hend, hok⟩ := ih (if romlistGetrl rl j = none then false else ok)
      (Nat.le_succ_of_le ha) hlt (by omega)
    refine ⟨hend, hok.trans ?_⟩
    by_cases hj : Present rl j
    · rw [if_neg (fun hnone => romlistGetrl_eq_none.mp hnone hj)]
      refine and_congr_right fun _ => ⟨fun hall m hm hmb => ?_, fun hall m hm => hall m (by omega)⟩
      rcases Nat.eq_or_lt_of_le hm with rfl | hm
      · exact hj
      · exact hall m hm hmb
    · rw [if_pos (romlistGetrl_eq_none.mpr hj)]
      exact iff_of_false (fun hno => absurd hno.1 (by decide)) fun hall =>
        hj (hall.2 j (Nat.le_refl j) hlt)

/-! ### What the scan sees -/

/-- A place is stepped over when a part is missing of the ROM that ends before it, other than its
first part if that was stepped over itself. -/
def SteppedOver (roms : List RomData) (rl : List RomListEntry) (k : Nat) : Prop :=
  ∃ a, ∃ _ : a < k, IsGroup roms a k ∧
    ∃ m, a ≤ m ∧ m < k ∧ (SteppedOver roms rl a → a < m) ∧ ¬ Present rl m
termination_by k

/-- A part of the ROM is missing among those that are seen. -/
def SeenMissing (roms : List RomData) (rl : List RomListEntry) (a b : Nat) : Prop :=
  ∃ m, a ≤ m ∧ m < b ∧ (SteppedOver roms rl a → a < m) ∧ ¬ Present rl m

theorem steppedOver_iff :
    SteppedOver roms rl k ↔ ∃ a, IsGroup roms a k ∧ SeenMissing roms rl a k := by
  rw [SteppedOver]
  constructor
  · rintro ⟨a, -, hgroup, hmissing⟩
    exact ⟨a, hgroup, hmissing⟩
  · rintro ⟨a, hgroup, hmissing⟩
    exact ⟨a, hgroup.lt, hgroup, hmissing⟩

/-- The place is a seen part of a ROM that is seen to be incomplete. -/
def Removed (roms : List RomData) (rl : List RomListEntry) (k : Nat) : Prop :=
  ∃ a b, IsGroup roms a b ∧ a ≤ k ∧ k < b ∧ (SteppedOver roms rl a → a < k) ∧
    SeenMissing roms rl a b

theorem removed_iff (h : IsGroup roms a b) (ha : a ≤ k) (hb : k < b) :
    Removed roms rl k ↔ (SteppedOver roms rl a → a < k) ∧ SeenMissing roms rl a b := by
  constructor
  · rintro ⟨c, d, hcd, hc, hd, hseen, hmissing⟩
    obtain ⟨rfl, rfl⟩ := h.eq hcd ha hb hc hd
    exact ⟨hseen, hmissing⟩
  · rintro ⟨hseen, hmissing⟩
    exact ⟨a, b, h, ha, hb, hseen, hmissing⟩

/-- The scan stands at `i`, with the seen parts of incomplete ROMs before it out of the list. -/
structure ScanAt (roms : List RomData) (rl : List RomListEntry) (i : Nat)
    (rl' : List RomListEntry) : Prop where
  sub : rl'.Sublist rl
  mem : ∀ e, e ∈ rl' ↔ e ∈ rl ∧ ¬ (e.rd < i ∧ Removed roms rl e.rd)
  place : ∀ a b, IsGroup roms a b → a ≤ i → i < b → (SteppedOver roms rl a → a < i) ∧
    ∀ m, a ≤ m → m < i → (SteppedOver roms rl a → a < m) → ¬ SeenMissing roms rl a b

theorem ScanAt.present (h : ScanAt roms rl i rl') (hk : i ≤ k) : Present rl' k ↔ Present rl k := by
  constructor
  · rintro ⟨e, he, rfl⟩
    exact ⟨e, ((h.mem e).mp he).1, rfl⟩
  · rintro ⟨e, he, rfl⟩
    exact ⟨e, (h.mem e).mpr ⟨he, fun hlt => absurd hlt.1 (Nat.not_lt_of_le hk)⟩, rfl⟩

/-- One place on, where nothing of this one is to be removed. -/
theorem ScanAt.next (h : ScanAt roms rl i rl') (hno : ¬ Removed roms rl i)
    (hplace : ∀ a b, IsGroup roms a b → a ≤ i → i < b → ¬ SeenMissing roms rl a b) :
    ScanAt roms rl (i + 1) rl' := by
  refine ⟨h.sub, fun e => ?_, fun c d hcd hc hd => ?_⟩
  · rw [h.mem]
    refine and_congr_right fun _ => not_congr ⟨fun hr => ⟨by omega, hr.2⟩, fun hr => ⟨?_, hr.2⟩⟩
    rcases Nat.lt_succ_iff_lt_or_eq.mp hr.1 with hlt | heq
    · exact hlt
    · exact absurd (heq ▸ hr.2) hno
  · rcases Nat.lt_or_ge i c with hlt | hge
    · obtain rfl : c = i + 1 := by omega
      refine ⟨fun hover => ?_, fun m hm hmi => absurd hm (Nat.not_le_of_lt hmi)⟩
      obtain ⟨a, ha, hmissing⟩ := steppedOver_iff.mp hover
      exact absurd hmissing (hplace a _ ha (Nat.le_of_lt_succ ha.lt) (Nat.lt_succ_self i))
    · exact ⟨fun _ => by omega, fun _ _ _ _ => hplace c d hcd hge (by omega)⟩

/-- A group that starts inside the next place behind another starts right there. -/
theorem IsGroup.first_of_next (hab : IsGroup roms a b) (hcd : IsGroup roms c d) (hc : c ≤ b)
    (hd : b < d) : c = b := by
  by_contra hne
  have hlt := hab.lt
  have hcb : c < b := Nat.lt_of_le_of_ne hc hne
  have heq := hab.eq hcd (m := b - 1) (by omega) (by omega) (by omega) (by omega)
  omega

/-- One group on, with all of it from `i` on out of the list. -/
theorem ScanAt.skip {rl'' : List RomListEntry} (h : ScanAt roms rl i rl')
    (hab : IsGroup roms a b) (ha : a ≤ i) (hb : i < b) (hmissing : SeenMissing roms rl a b)
    (hsub : rl''.Sublist rl') (hmem : ∀ e, e ∈ rl'' ↔ e ∈ rl' ∧ ¬ (i ≤ e.rd ∧ e.rd < b)) :
    ScanAt roms rl (b + 1) rl'' := by
  have hover : SteppedOver roms rl b := steppedOver_iff.mpr ⟨a, hab, hmissing⟩
  have hseen : SteppedOver roms rl a → a < i := (h.place a b hab ha hb).1
  have hstays : ¬ Removed roms rl b := by
    rintro ⟨c, d, hcd, hc, hd, hs, -⟩
    obtain rfl := hab.first_of_next hcd hc hd
    exact Nat.lt_irrefl c (hs hover)
  have hgoes : ∀ k, i ≤ k → k < b → Removed roms rl k := fun k hk hkb =>
    ⟨a, b, hab, Nat.le_trans ha hk, hkb, fun hs => Nat.lt_of_lt_of_le (hseen hs) hk, hmissing⟩
  refine ⟨hsub.trans h.sub, fun e => ?_, fun c d hcd hc hd => ?_⟩
  · rw [hmem, h.mem, and_assoc]
    refine and_congr_right fun _ => ?_
    constructor
    · rintro ⟨hbefore, hin⟩ ⟨hlt, hr⟩
      rcases Nat.lt_succ_iff_lt_or_eq.mp hlt with hlt | heq
      · exact hbefore ⟨by omega, hr⟩
      · exact hstays (heq ▸ hr)
    · intro hno
      exact ⟨fun hr => hno ⟨by omega, hr.2⟩, fun hin => hno ⟨by omega, hgoes _ hin.1 hin.2⟩⟩
  · rcases Nat.lt_or_ge b c with hlt | hge
    · obtain rfl : c = b + 1 := by omega
      refine ⟨fun hs => ?_, fun m hm hmi => absurd hm (Nat.not_le_of_lt hmi)⟩
      -- a group of one place that is stepped over shows nothing missing
      obtain ⟨c', hc', m, hm, hmb, hsm, -⟩ := steppedOver_iff.mp hs
      obtain rfl := hab.first_of_next hc' (Nat.le_of_lt_succ hc'.lt) (Nat.lt_succ_self b)
      have := hsm hover
      omega
    · obtain rfl := hab.first_of_next hcd hge (by omega)
      refine ⟨fun _ => Nat.lt_succ_self c, fun m hm hmi hs => ?_⟩
      have := hs hover
      omega

/-- What is done at one place. -/
theorem cleanupAt_step (hone : OnePerEntry rl) (h : ScanAt roms rl i rl') :
    ScanAt roms rl ((cleanupAt roms rl' i).1 + 1) (cleanupAt roms rl' i).2 := by
  rw [cleanupAt]
  by_cases hpos : 0 < grp roms i
  · obtain ⟨a, b, hab, ha, hb⟩ := exists_group hpos
    obtain ⟨hend, hok⟩ := scanGroup_spec rl' true hab ha (Nat.le_of_lt hb)
    rw [hab.same i ha hb]
    by_cases hall : ∀ m, i ≤ m → m < b → Present rl' m
    · have htrue := hok.mpr ⟨rfl, hall⟩
      -- a part that is missing here, or was missing further up where the scan has been
      have hcomplete : ¬ SeenMissing roms rl a b := by
        intro hmissing
        obtain ⟨m, hm, hmb, hs, habsent⟩ := id hmissing
        rcases Nat.lt_or_ge m i with hlt | hge
        · exact (h.place a b hab ha hb).2 m hm hlt hs hmissing
        · exact habsent ((h.present hge).mp (hall m hge hmb))
      rw [htrue, if_neg (by decide)]
      refine h.next (fun hr => hcomplete ((removed_iff hab ha hb).mp hr).2) ?_
      intro c d hcd hc hd
      obtain ⟨rfl, rfl⟩ := hab.eq hcd ha hb hc hd
      exact hcomplete
    · have hfalse := Bool.eq_false_iff.mpr fun ht => hall (hok.mp ht).2
      push Not at hall
      obtain ⟨m, hm, hmb, habsent⟩ := hall
      have hmissing : SeenMissing roms rl a b :=
        ⟨m, Nat.le_trans ha hm, hmb, fun hs => Nat.lt_of_lt_of_le ((h.place a b hab ha hb).1 hs) hm,
          fun hp => habsent ((h.present hm).mpr hp)⟩
      obtain ⟨hstop, hsub, hmem⟩ :=
        removeGroup_spec roms (hone.sublist h.sub) (Nat.le_of_lt hb) hab.le
      rw [hfalse, if_pos rfl, hend, hstop]
      exact h.skip hab ha hb hmissing hsub hmem
  · have hscan : scanGroup roms rl' (grp roms i) i true = (i, true) := by
      rw [scanGroup, if_neg fun hc => hpos hc.2.2]
    rw [hscan, if_neg (show ¬ (i, true).2 = false from Bool.noConfusion)]
    have hout : ∀ a b, IsGroup roms a b → a ≤ i → i < b → False :=
      fun a b hab ha hb => hpos (hab.pos_at ha hb)
    exact h.next (fun ⟨a, b, hab, ha, hb, _⟩ => hout a b hab ha hb)
      fun a b hab ha hb => (hout a b hab ha hb).elim

/-- The whole scan. -/
theorem cleanupFrom_spec (hone : OnePerEntry rl) (h : ScanAt roms rl i rl') :
    (cleanupFrom roms rl' i).Sublist rl ∧
      ∀ e, e ∈ cleanupFrom roms rl' i ↔ e ∈ rl ∧ ¬ Removed roms rl e.rd := by
  have hfinal {j : Nat} {l : List RomListEntry} (hl : ScanAt roms rl j l) (hj : roms.length ≤ j) :
      l.Sublist rl ∧ ∀ e, e ∈ l ↔ e ∈ rl ∧ ¬ Removed roms rl e.rd := by
    refine ⟨hl.sub, fun e => (hl.mem e).trans (and_congr_right fun _ => not_congr ?_)⟩
    refine and_iff_right_of_imp ?_
    rintro ⟨a, b, hab, -, hb, -⟩
    have := hab.le
    omega
  fun_induction cleanupFrom roms rl' i with
  | case1 rl' i hlt r hr ih => exact ih (cleanupAt_step hone h)
  | case2 rl' i hlt r hr =>
    exact hfinal (cleanupAt_step hone h) (Nat.le_succ_of_le (Nat.le_of_not_lt hr))
  | case3 rl' i hge => exact hfinal h (Nat.le_of_not_lt hge)

theorem romlistCleanup_spec (roms : List RomData) (hone : OnePerEntry rl) :
    (romlistCleanup roms rl).Sublist rl ∧
      ∀ e, e ∈ romlistCleanup roms rl ↔ e ∈ rl ∧ ¬ Removed roms rl e.rd := by
  refine cleanupFrom_spec hone ⟨List.Sublist.refl rl, fun e => ?_, fun a b _ ha _ => ?_⟩
  · exact (and_iff_left fun h => Nat.not_lt_zero _ h.1).symm
  · obtain rfl : a = 0 := Nat.le_zero.mp ha
    refine ⟨fun hs => ?_, fun m _ hm => absurd hm (Nat.not_lt_zero m)⟩
    obtain ⟨c, hc, -⟩ := steppedOver_iff.mp hs
    exact absurd hc.lt (Nat.not_lt_zero c)

/-! ### All or none -/

/-- The list holds each ROM with all of its parts or with none, complete ones with all of them, and
single entries as before, in the order it had. -/
structure CleanedUp (roms : List RomData) (rl rl' : List RomListEntry) : Prop where
  whole : ∀ a b, IsGroup roms a b → (∀ k, a ≤ k → k < b → Present rl' k) ∨
    ∀ k, a ≤ k → k < b → ¬ Present rl' k
  kept : ∀ a b, IsGroup roms a b → (∀ k, a ≤ k → k < b → Present rl k) →
    ∀ k, a ≤ k → k < b → Present rl' k
  ungrouped : ∀ e ∈ rl, ¬ 0 < grp roms e.rd → e ∈ rl'
  order : rl'.Sublist rl

theorem present_romlistCleanup (hone : OnePerEntry rl) :
    Present (romlistCleanup roms rl) k ↔ Present rl k ∧ ¬ Removed roms rl k := by
  have hmem := (romlistCleanup_spec roms hone).2
  constructor
  · rintro ⟨e, he, rfl⟩
    exact ⟨⟨e, ((hmem e).mp he).1, rfl⟩, ((hmem e).mp he).2⟩
  · rintro ⟨⟨e, he, rfl⟩, hno⟩
    exact ⟨e, (hmem e).mpr ⟨he, hno⟩, rfl⟩

/-- The seen parts of an incomplete ROM are all gone. A first part that was stepped over is left. -/
theorem present_of_seenMissing (hone : OnePerEntry rl) (h : IsGroup roms a b)
    (hmissing : SeenMissing roms rl a b) (ha : a ≤ k) (hb : k < b) :
    Present (romlistCleanup roms rl) k ↔ Present rl k ∧ k = a ∧ SteppedOver roms rl a := by
  rw [present_romlistCleanup hone, removed_iff h ha hb]
  refine and_congr_right fun _ => ⟨fun hno => ?_, ?_⟩
  · by_cases hs : SteppedOver roms rl a
    · have hle : ¬ a < k := fun hlt => hno ⟨fun _ => hlt, hmissing⟩
      exact ⟨Nat.le_antisymm (Nat.le_of_not_lt hle) ha, hs⟩
    · exact absurd ⟨fun h => absurd h hs, hmissing⟩ hno
  · rintro ⟨rfl, hs⟩ ⟨hlt, -⟩
    exact Nat.lt_irrefl k (hlt hs)

/-- Nothing of a ROM is taken out that is seen to be complete. -/
theorem present_of_not_seenMissing (hone : OnePerEntry rl) (h : IsGroup roms a b)
    (hmissing : ¬ SeenMissing roms rl a b) (ha : a ≤ k) (hb : k < b) :
    Present (romlistCleanup roms rl) k ↔ Present rl k := by
  rw [present_romlistCleanup hone, removed_iff h ha hb]
  exact and_iff_left fun hr => hmissing hr.2

/-- A ROM stays with all parts or none exactly when its first part is not stepped over, or is there
exactly when the others are. -/
theorem whole_iff (hone : OnePerEntry rl) (h : IsGroup roms a b) :
    ((∀ k, a ≤ k → k < b → Present (romlistCleanup roms rl) k) ∨
      ∀ k, a ≤ k → k < b → ¬ Present (romlistCleanup roms rl) k) ↔
    (SteppedOver roms rl a → a + 1 < b →
      (Present rl a ↔ ∀ k, a < k → k < b → Present rl k)) := by
  have hlt := h.lt
  by_cases hmissing : SeenMissing roms rl a b
  · have hpart {k : Nat} := @present_of_seenMissing roms rl a b k hone h hmissing
    obtain ⟨m, hm, hmb, hs, habsent⟩ := hmissing
    constructor
    · intro hwhole hover htail
      have hnotall : ¬ ∀ k, a < k → k < b → Present rl k :=
        fun hall => habsent (hall m (hs hover) hmb)
      refine iff_of_false (fun hp => ?_) hnotall
      have hfirst := (hpart (Nat.le_refl a) hlt).mpr ⟨hp, rfl, hover⟩
      rcases hwhole with hall | hnone
      · have := ((hpart (Nat.le_succ a) htail).mp (hall (a + 1) (Nat.le_succ a) htail)).2.1
        omega
      · exact hnone a (Nat.le_refl a) hlt hfirst
    · refine fun hcond => Or.inr fun k hk hkb hp => ?_
      obtain ⟨hpk, rfl, hover⟩ := (hpart hk hkb).mp hp
      have := hs hover
      exact habsent ((hcond hover (by omega)).mp hpk m this hmb)
  · have hpart {k : Nat} := @present_of_not_seenMissing roms rl a b k hone h hmissing
    have hseen : ∀ m, a ≤ m → m < b → (SteppedOver roms rl a → a < m) → Present rl m := by
      intro m hm hmb hs
      by_contra habsent
      exact hmissing ⟨m, hm, hmb, hs, habsent⟩
    constructor
    · intro hwhole hover htail
      have htails : ∀ k, a < k → k < b → Present rl k :=
        fun k hk hkb => hseen k (Nat.le_of_lt hk) hkb fun _ => hk
      refine iff_of_true ?_ htails
      rcases hwhole with hall | hnone
      · exact (hpart (Nat.le_refl a) hlt).mp (hall a (Nat.le_refl a) hlt)
      · have := (hpart (Nat.le_succ a) htail).mpr (htails (a + 1) (Nat.lt_succ_self a) htail)
        exact absurd this (hnone (a + 1) (Nat.le_succ a) htail)
    · intro hcond
      by_cases hfirst : Present rl a
      · refine Or.inl fun k hk hkb => (hpart hk hkb).mpr ?_
        rcases Nat.eq_or_lt_of_le hk with rfl | hk
        · exact hfirst
        · exact hseen k (Nat.le_of_lt hk) hkb fun _ => hk
      · -- a first part that is missing was stepped over, and was the only one
        have hover : SteppedOver roms rl a := by
          by_contra hno
          exact hfirst (hseen a (Nat.le_refl a) hlt fun hs => absurd hs hno)
        have hsingle : ¬ a + 1 < b := fun htail => hfirst ((hcond hover htail).mpr
          fun k hk hkb => hseen k (Nat.le_of_lt hk) hkb fun _ => hk)
        refine Or.inr fun k hk hkb hp => ?_
        obtain rfl : k = a := by omega
        exact hfirst ((hpart hk hkb).mp hp)

/-- The cleanup is exact if and only if every ROM whose first part is stepped over has that part
just when it has all the others. -/
theorem romlistCleanup_cleanedUp (roms : List RomData) (rl : List RomListEntry)
    (hone : OnePerEntry rl) :
    CleanedUp roms rl (romlistCleanup roms rl) ↔
      ∀ a b, IsGroup roms a b → SteppedOver roms rl a → a + 1 < b →
        (Present rl a ↔ ∀ k, a < k → k < b → Present rl k) := by
  constructor
  · exact fun h a b hab => (whole_iff hone hab).mp (h.whole a b hab)
  · intro hcond
    obtain ⟨hsub, hmem⟩ := romlistCleanup_spec roms hone
    refine ⟨fun a b hab => (whole_iff hone hab).mpr (hcond a b hab), ?_, ?_, hsub⟩
    · intro a b hab hall k ha hb
      have hcomplete : ¬ SeenMissing roms rl a b :=
        fun ⟨m, hm, hmb, _, habsent⟩ => habsent (hall m hm hmb)
      exact (present_of_not_seenMissing hone hab hcomplete ha hb).mpr (hall k ha hb)
    · intro e he hno
      refine (hmem e).mpr ⟨he, ?_⟩
      rintro ⟨a, b, hab, ha, hb, -⟩
      exact hno (hab.pos_at ha hb)

end

/-- The two dumps of the A1000 bootstrap ROM in parts: the whole, and its even and its odd half. -/
def a1000Bootstrap : List RomData :=
  [{ size := 8192, cloanto := 0, type := 0, group := 0x10001, crc32 := 0x62f11c04
     sha1 := [0xc87f9fad, 0xa4ee4e69, 0xf3cca0c3, 0x6193be82, 0x2b9f5fe6] },
   { size := 4096, cloanto := 0, type := 0x0a000000, group := 0x20001, crc32 := 0x42553bc4
     sha1 := [0x8855a97f, 0x7a44e3f6, 0x2d1c88d9, 0x38fee1f4, 0xc606af5b] },
   { size := 4096, cloanto := 0, type := 0x0c000000, group := 0x20002, crc32 := 0x8e5b9a37
     sha1 := [0xd10f1564, 0xb99f5ffe, 0x108fa042, 0x362e877f, 0x569de2c3] }]

/-- A list with both halves. -/
def bothHalves : List RomListEntry := [⟨"252180-01.bin", 2⟩, ⟨"252179-01.bin", 1⟩]

/-- Both halves stay. -/
theorem romlistCleanup_bothHalves :
    CleanedUp a1000Bootstrap bothHalves (romlistCleanup a1000Bootstrap bothHalves) := by
  have hone : OnePerEntry bothHalves := by
    rw [OnePerEntry]
    decide
  refine (romlistCleanup_cleanedUp a1000Bootstrap bothHalves hone).mpr ?_
  intro a b hab _ htail
  have hle : b ≤ 3 := hab.le
  obtain ⟨rfl, -⟩ | rfl : a = 1 ∧ b = 3 ∨ a = 0 := by omega
  · refine iff_of_true ⟨_, List.mem_cons_of_mem _ (List.mem_singleton.mpr rfl), rfl⟩ ?_
    intro k hk hkb
    exact ⟨_, List.mem_cons_self, (show 2 = k by omega)⟩
  · exact absurd (hab.same 1 (by decide) htail) (by decide)

/-- A list with nothing but the even half. -/
def evenHalf : List RomListEntry := [⟨"252179-01.bin", 1⟩]

/-- The even half stays without the odd one. -/
theorem romlistCleanup_evenHalf :
    ¬ CleanedUp a1000Bootstrap evenHalf (romlistCleanup a1000Bootstrap evenHalf) := by
  have hstays : romlistCleanup a1000Bootstrap evenHalf = evenHalf := by
    have hgrp : grp a1000Bootstrap 0 = 1 ∧ grp a1000Bootstrap 1 = 2 ∧ grp a1000Bootstrap 2 = 2 ∧
      grp a1000Bootstrap 3 = 0 ∧ a1000Bootstrap.length = 3 := by decide
    have hget : romlistGetrl evenHalf 0 = none ∧ romlistGetrl evenHalf 1 = some 0 ∧
      romlistGetrl evenHalf 2 = none := by decide
    simp [romlistCleanup, cleanupFrom, cleanupAt, scanGroup, removeGroup, romlistRemove, hgrp, hget]
  have hgroup : IsGroup a1000Bootstrap 1 3 := by
    refine ⟨by decide, by decide, by decide, fun m h1 h3 => ?_, Or.inr (by decide), Or.inl rfl⟩
    obtain rfl | rfl : m = 1 ∨ m = 2 := by omega
    · rfl
    · rfl
  intro h
  rw [hstays] at h
  rcases h.whole 1 3 hgroup with hall | hnone
  · obtain ⟨e, he, hrd⟩ := hall 2 (by decide) (by decide)
    obtain rfl := List.mem_singleton.mp he
    cases hrd
  · exact hnone 1 (by decide) (by decide) ⟨_, List.mem_singleton.mpr rfl, rfl⟩

end LibretroUae.Rom
