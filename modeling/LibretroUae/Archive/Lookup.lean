import LibretroUae.Archive.Tree
import Mathlib.Logic.Function.Iterate

/-!
# LibretroUae.Archive.Lookup

**Every node is found by its own path.** The walk of `get_znode` never leaves a directory that it
has entered, so it finds a node when, on the way from the root, no sibling of a node has a name
that differs from the node's in case only. Trees with that property, in which only directories
have nodes below them and no node passes for the root, are good. They stay good while the names
that are added keep it so; the names `znode_alloc` makes up are checked against the letters of
their siblings only and do not.
-/

namespace LibretroUae.Archive

/-! ### Names -/

theorem lower_eq_separator {c : UInt8} (hc : lower c = separator) : c = separator := by
  unfold lower separator at *
  split at hc
  · rename_i hupper
    obtain ⟨hlo, hhi⟩ := hupper
    rw [UInt8.le_iff_toNat_le] at hlo hhi
    rw [← UInt8.toNat_inj, UInt8.toNat_add] at hc
    simp at hlo hhi hc
    omega
  · exact hc

theorem fold_append (n m : Name) : fold (n ++ m) = fold n ++ fold m := List.map_append

theorem fold_length {n m : Name} (h : fold n = fold m) : n.length = m.length := by
  simpa [fold] using congrArg List.length h

theorem separator_mem_of_fold {n m : Name} (h : fold n = fold m) (hn : separator ∈ n) :
    separator ∈ m := by
  have hmem : lower separator ∈ fold m := h ▸ List.mem_map_of_mem hn
  obtain ⟨c, hc, hlower⟩ := List.mem_map.mp hmem
  exact lower_eq_separator (hlower.trans (by decide)) ▸ hc

/-- A path with its last component. -/
theorem fold_path_inj {q q' n n' : Name} (hn : separator ∉ n) (hn' : separator ∉ n')
    (h : fold (q ++ separator :: n) = fold (q' ++ separator :: n')) :
    fold q = fold q' ∧ fold n = fold n' := by
  have hfold : fold q ++ separator :: fold n = fold q' ++ separator :: fold n' := by
    simpa [fold, lower, separator] using h
  have notMem : ∀ {n : Name}, separator ∉ n → separator ∉ fold n := fun hn hmem => by
    obtain ⟨c, hc, hlower⟩ := List.mem_map.mp hmem
    exact hn (lower_eq_separator hlower ▸ hc)
  rcases List.append_eq_append_iff.mp hfold with ⟨a, ha, hsep⟩ | ⟨a, ha, hsep⟩
  all_goals cases a with
  | nil => simp_all
  | cons x a =>
    obtain ⟨-, htail⟩ := List.cons.inj hsep
    first
      | exact absurd (by rw [htail]; simp) (notMem hn)
      | exact absurd (by rw [htail]; simp) (notMem hn')

theorem begins_of_fold {zpath path : Name} (h : fold zpath = fold path) : begins zpath path := by
  have hlen := fold_length h
  refine ⟨Nat.le_of_eq hlen, Or.inl (by simp [hlen]), ?_⟩
  rw [hlen, List.take_length, h]

theorem getElem?_separator {x y : Option UInt8} (h : x.map lower = y.map lower)
    (hx : x = some separator) : y = some separator := by
  subst hx
  obtain ⟨c, rfl, hc⟩ := Option.map_eq_some_iff.mp h.symm
  rw [lower_eq_separator (hc.trans (by decide))]

theorem begins_congr {zpath path path' : Name} (h : fold path = fold path') :
    begins zpath path ↔ begins zpath path' := by
  have hlen := fold_length h
  have htake : fold (path.take zpath.length) = fold (path'.take zpath.length) := by
    simpa [fold] using congrArg (List.take zpath.length) h
  have hnone : path[zpath.length]? = none ↔ path'[zpath.length]? = none := by
    simp [hlen]
  have hlower : path[zpath.length]?.map lower = path'[zpath.length]?.map lower := by
    simpa [fold] using congrArg (·[zpath.length]?) h
  have hsep : path[zpath.length]? = some separator ↔ path'[zpath.length]? = some separator :=
    ⟨getElem?_separator hlower, getElem?_separator hlower.symm⟩
  rw [begins, begins, hlen, htake, hnone, hsep]

theorem begins_append {q rest : Name} (hrest : rest = [] ∨ rest.head? = some separator) :
    begins q (q ++ rest) := by
  refine ⟨by simp, ?_, by simp⟩
  rw [List.getElem?_append_right (Nat.le_refl _), Nat.sub_self, ← List.head?_eq_getElem?]
  rcases hrest with rfl | hrest
  · exact Or.inl rfl
  · exact Or.inr hrest

/-- A component ends where the next separator is, so another one of the same directory does not
begin the path. -/
theorem not_begins_sibling {q n m rest : Name} (hn : separator ∉ n) (hm : separator ∉ m)
    (hne : fold n ≠ fold m) (hrest : rest = [] ∨ rest.head? = some separator) :
    ¬ begins (q ++ separator :: n) (q ++ separator :: m ++ rest) := by
  rintro ⟨hle, hend, htake⟩
  have hpath : q ++ separator :: m ++ rest = (q ++ [separator]) ++ (m ++ rest) := by simp
  have hn' : q ++ separator :: n = (q ++ [separator]) ++ n := by simp
  rw [hpath, hn', List.length_append] at hend htake
  rw [List.getElem?_append_right (Nat.le_add_right _ _), Nat.add_sub_cancel_left] at hend
  rw [List.take_length_add_append, fold_append (q ++ [separator]), fold_append (q ++ [separator]),
    List.append_cancel_left_eq] at htake
  rcases Nat.lt_trichotomy n.length m.length with hlt | heq | hgt
  · -- the other component goes on
    rw [List.getElem?_append_left hlt, List.getElem?_eq_getElem hlt] at hend
    rcases hend with hend | hend
    · simp at hend
    · exact hm (Option.some.inj hend ▸ List.getElem_mem hlt)
  · rw [heq, List.take_left] at htake
    exact hne htake.symm
  · -- the separator behind it would be a character of the name
    have hmem : separator ∈ (m ++ rest).take n.length := by
      rcases hrest with rfl | hrest
      · simp at hle
        omega
      · obtain ⟨r, rfl⟩ := List.head?_eq_some_iff.mp hrest
        rw [List.take_append]
        have hpos : 0 < n.length - m.length := Nat.sub_pos_of_lt hgt
        simp [List.take_cons hpos]
    exact hn (separator_mem_of_fold htake hmem)

/-! ### Good trees -/

namespace Zvolume

variable {zv : Zvolume}

structure Good (zv : Zvolume) : Prop where
  root : zv.parent 0 = none ∧ zv.isDir 0 ∧ zv.name 0 ≠ [] ∧ zv.fullname 0 = zv.name 0
  hasParent : ∀ i, 0 < i → i < zv.nodes.length → ∃ p, zv.parent i = some p
  below : ∀ i p, zv.parent i = some p → p < i ∧ zv.isDir p
  slashFree : ∀ i p, zv.parent i = some p → separator ∉ zv.name i
  notRoot : ∀ i, zv.parent i = some 0 → zv.name i ≠ zv.name 0
  fullname : ∀ i p, zv.parent i = some p →
    zv.fullname i = zv.recurparent p ++ separator :: zv.name i
  distinct : ∀ i j p, zv.parent i = some p → zv.parent j = some p →
    fold (zv.name i) = fold (zv.name j) → i = j

theorem lt_length_of_parent {i p : Nat} (h : zv.parent i = some p) : i < zv.nodes.length := by
  obtain ⟨zn, hzn, -⟩ := Option.bind_eq_some_iff.mp h
  exact (List.getElem?_eq_some_iff.mp hzn).1

theorem isDir_lt {i : Nat} (h : zv.isDir i) : i < zv.nodes.length := by
  obtain ⟨zn, hzn, -⟩ := Option.map_eq_some_iff.mp h
  exact (List.getElem?_eq_some_iff.mp hzn).1

theorem Good.recurparent_ne_nil (hg : zv.Good) (i : Nat) (hi : i < zv.nodes.length) :
    zv.recurparent i ≠ [] := by
  rw [recurparent]
  cases hp : zv.parent i with
  | none =>
    rcases Nat.eq_zero_or_pos i with rfl | hpos
    · exact hg.root.2.2.1
    · obtain ⟨p, hp'⟩ := hg.hasParent i hpos hi
      rw [hp] at hp'
      cases hp'
  | some p =>
    have hroot : ¬ (p = 0 ∧ zv.name i = zv.name 0) := by
      rintro ⟨rfl, hname⟩
      exact hg.notRoot i hp hname
    have hlt := (hg.below i p hp).1
    have ih := Good.recurparent_ne_nil hg p (Nat.lt_trans hlt hi)
    simp [hroot, hlt, ih]
termination_by i

theorem Good.recurparent_eq (hg : zv.Good) {i p : Nat} (hp : zv.parent i = some p) :
    zv.recurparent i = zv.recurparent p ++ separator :: zv.name i := by
  have hroot : ¬ (p = 0 ∧ zv.name i = zv.name 0) := by
    rintro ⟨rfl, hname⟩
    exact hg.notRoot i hp hname
  have hlt := (hg.below i p hp).1
  have hne := hg.recurparent_ne_nil p (Nat.lt_trans hlt (lt_length_of_parent hp))
  rw [recurparent, hp]
  simp [hroot, hlt, hne]

theorem Good.recurparent_zero (hg : zv.Good) : zv.recurparent 0 = zv.name 0 := by
  rw [recurparent, hg.root.1]

theorem Good.fullname_eq (hg : zv.Good) {i : Nat} (hi : i < zv.nodes.length) :
    zv.fullname i = zv.recurparent i := by
  rcases Nat.eq_zero_or_pos i with rfl | hpos
  · rw [hg.recurparent_zero, hg.root.2.2.2]
  · obtain ⟨p, hp⟩ := hg.hasParent i hpos hi
    rw [hg.fullname i p hp, hg.recurparent_eq hp]

/-! ### The way from the root -/

/-- A node and those above it. -/
inductive Below (zv : Zvolume) : Nat → Nat → Prop
  | refl (z : Nat) : Below zv z z
  | step {a b z : Nat} (hp : zv.parent b = some a) (hz : Below zv b z) : Below zv a z

theorem Below.snoc {a p z : Nat} (h : zv.Below a p) (hp : zv.parent z = some p) :
    zv.Below a z := by
  induction h with
  | refl => exact .step hp (.refl z)
  | step hb _ ih => exact .step hb (ih hp)

theorem Good.below_zero (hg : zv.Good) (z : Nat) (hz : z < zv.nodes.length) :
    zv.Below 0 z := by
  rcases Nat.eq_zero_or_pos z with rfl | hpos
  · exact .refl 0
  · obtain ⟨p, hp⟩ := hg.hasParent z hpos hz
    have hlt := (hg.below z p hp).1
    exact (Good.below_zero hg p (Nat.lt_trans hlt hz)).snoc hp
termination_by z

theorem Good.below_le (hg : zv.Good) {a z : Nat} (h : zv.Below a z) : a ≤ z := by
  induction h with
  | refl => exact Nat.le_refl _
  | step hp _ ih => exact Nat.le_of_lt (Nat.lt_of_lt_of_le (hg.below _ _ hp).1 ih)

theorem Good.below_recurparent (hg : zv.Good) {a z : Nat} (h : zv.Below a z) :
    ∃ rest, zv.recurparent z = zv.recurparent a ++ rest ∧
      (rest = [] ∨ rest.head? = some separator) := by
  induction h with
  | refl => exact ⟨[], by simp, Or.inl rfl⟩
  | @step a b z hp _ ih =>
    obtain ⟨rest, hz, -⟩ := ih
    refine ⟨separator :: zv.name b ++ rest, ?_, Or.inr rfl⟩
    rw [hz, hg.recurparent_eq hp]
    simp

theorem range_find_le {p : Nat → Bool} {n j : Nat} (hj : j < n) (hp : p j = true) :
    ∃ i, (List.range n).find? p = some i ∧ i ≤ j ∧ p i = true := by
  cases hfind : (List.range n).find? p with
  | none =>
    have hnone := List.find?_range_eq_none.mp hfind j hj
    simp [hp] at hnone
  | some i =>
    obtain ⟨hi, -, hmin⟩ := List.find?_range_eq_some.mp hfind
    refine ⟨i, rfl, Nat.le_of_not_lt fun hlt => ?_, hi⟩
    simpa [hp] using hmin j hlt

theorem child_le {a b : Nat} (hb : zv.parent b = some a) :
    ∃ c, zv.child a = some c ∧ c ≤ b ∧ zv.parent c = some a := by
  obtain ⟨c, hc, hle, hp⟩ := range_find_le (p := fun j => zv.parent j == some a)
    (lt_length_of_parent hb) (by simpa using hb)
  exact ⟨c, hc, hle, by simpa using hp⟩

theorem sibling_le {a b : Nat} (hab : a < b) (hb : zv.parent b = zv.parent a)
    (hlt : b < zv.nodes.length) :
    ∃ c, zv.sibling a = some c ∧ a < c ∧ c ≤ b ∧ zv.parent c = zv.parent a := by
  obtain ⟨c, hc, hle, hp⟩ := range_find_le
    (p := fun j => a < j && zv.parent j == zv.parent a) hlt (by simp [hab, hb])
  obtain ⟨hac, hpar⟩ : a < c ∧ zv.parent c = zv.parent a := by simpa using hp
  exact ⟨c, hc, hac, hle, hpar⟩

/-- An earlier sibling of a node above the one looked for is passed by. -/
theorem Good.passes (hg : zv.Good) {i a p z : Nat} (hi : zv.parent i = some p)
    (ha : zv.parent a = some p) (hia : i ≠ a) (hz : zv.Below a z) :
    ¬ begins (zv.recurparent i) (zv.recurparent z) := by
  obtain ⟨rest, hrest, hhead⟩ := hg.below_recurparent hz
  rw [hrest, hg.recurparent_eq hi, hg.recurparent_eq ha]
  exact not_begins_sibling (hg.slashFree i p hi) (hg.slashFree a p ha)
    (fun hfold => hia (hg.distinct i a p hi ha hfold)) hhead

/-- From an earlier sibling of a node on the way, the walk arrives. -/
theorem Good.walk_arrives (hg : zv.Good) {z : Nat} (hz : z < zv.nodes.length) :
    ∀ fuel i a, i ≤ a → zv.parent i = zv.parent a → zv.Below a z → z < i + fuel →
      zv.walk (zv.recurparent z) fuel (some i) = some z
  | 0, i, a, hia, _, hbelow, hfuel => by
    have hle := hg.below_le hbelow
    omega
  | fuel + 1, i, a, hia, hpar, hbelow, hfuel => by
    have hle := hg.below_le hbelow
    rcases Nat.eq_or_lt_of_le hia with rfl | hlt
    · cases hbelow with
      | refl =>
        have hself := @begins_of_fold (zv.recurparent z) _ rfl
        rw [walk]
        simp [hself]
      | step hb hz' =>
        -- a directory on the way is entered
        rename_i b
        have hdir := (hg.below b i hb).2
        obtain ⟨rest, hrest, hhead⟩ := hg.below_recurparent (.step hb hz')
        have hlen : (zv.recurparent z).length ≠ (zv.recurparent i).length := by
          obtain ⟨rest', hrest', -⟩ := hg.below_recurparent hz'
          rw [hrest', hg.recurparent_eq hb]
          simp
        have hbegins : begins (zv.recurparent i) (zv.recurparent z) :=
          hrest ▸ begins_append hhead
        obtain ⟨c, hc, hcb, hcp⟩ := child_le hb
        have hic := (hg.below c i hcp).1
        rw [walk]
        simp only [hdir, hbegins, hlen, if_true, if_false, hc]
        exact Good.walk_arrives hg hz fuel c b hcb (hcp.trans hb.symm) hz' (by omega)
    · -- an earlier sibling is passed by, whether it is a file or a directory
      have hpos : 0 < a := Nat.lt_of_le_of_lt (Nat.zero_le i) hlt
      have ha : a < zv.nodes.length := Nat.lt_of_le_of_lt hle hz
      obtain ⟨p, hp⟩ := hg.hasParent a hpos ha
      have hnot := hg.passes (hpar.trans hp) hp (Nat.ne_of_lt hlt) hbelow
      obtain ⟨c, hc, hic, hca, hcp⟩ := sibling_le hlt hpar.symm ha
      have hfold : fold (zv.recurparent i) ≠ fold (zv.recurparent z) :=
        fun h => hnot (begins_of_fold h)
      have ih := Good.walk_arrives hg hz fuel c a hca (hcp.trans hpar) hbelow (by omega)
      rw [walk]
      simp [hnot, hfold, hc, ih]

theorem Good.getZnode_recurparent (hg : zv.Good) {z : Nat} (hz : z < zv.nodes.length) :
    zv.getZnode (zv.recurparent z) = some z :=
  hg.walk_arrives hz _ 0 0 (Nat.le_refl 0) rfl (hg.below_zero z hz) (by omega)

theorem Good.getZnode_fullname (hg : zv.Good) {z : Nat} (hz : z < zv.nodes.length) :
    zv.getZnode (zv.fullname z) = some z := by
  rw [hg.fullname_eq hz, hg.getZnode_recurparent hz]

/-! ### Looking for a child -/

theorem walk_congr (zv : Zvolume) {path path' : Name} (h : fold path = fold path') :
    ∀ fuel i, zv.walk path fuel i = zv.walk path' fuel i
  | _, none => by rw [walk, walk]
  | 0, some _ => by rw [walk, walk]
  | fuel + 1, some i => by
    rw [walk, walk]
    simp only [begins_congr h, fold_length h, h, walk_congr zv h fuel]

theorem child_lt {i j : Nat} (h : zv.child i = some j) : j < zv.nodes.length :=
  List.mem_range.mp (List.mem_of_find?_eq_some h)

theorem sibling_lt {i j : Nat} (h : zv.sibling i = some j) : j < zv.nodes.length :=
  List.mem_range.mp (List.mem_of_find?_eq_some h)

theorem Good.child_gt (hg : zv.Good) {i j : Nat} (h : zv.child i = some j) : i < j := by
  have hp : zv.parent j = some i := by simpa using List.find?_some h
  exact (hg.below j i hp).1

theorem sibling_gt {i j : Nat} (h : zv.sibling i = some j) : i < j := by
  have hp : i < j ∧ zv.parent j = zv.parent i := by simpa using List.find?_some h
  exact hp.1

/-- The walk ends: one round for every node is enough. -/
theorem Good.walk_fuel (hg : zv.Good) (path : Name) : ∀ {fuel fuel' : Nat} (i : Option Nat),
    (∀ k, i = some k → k < zv.nodes.length ∧ zv.nodes.length ≤ k + fuel ∧
      zv.nodes.length ≤ k + fuel') →
      zv.walk path fuel i = zv.walk path fuel' i
  | _, _, none, _ => by rw [walk, walk]
  | 0, _, some i, h => by
    obtain ⟨hi, hfuel, -⟩ := h i rfl
    exact absurd hi (Nat.not_lt_of_le hfuel)
  | _ + 1, 0, some i, h => by
    obtain ⟨hi, -, hfuel⟩ := h i rfl
    exact absurd hi (Nat.not_lt_of_le hfuel)
  | fuel + 1, fuel' + 1, some i, h => by
    obtain ⟨-, hfuel, hfuel'⟩ := h i rfl
    have hchild := @Good.walk_fuel hg path fuel fuel' (zv.child i)
      fun k hk => by
        have hgt := hg.child_gt hk
        exact ⟨child_lt hk, by omega, by omega⟩
    have hsibling := @Good.walk_fuel hg path fuel fuel' (zv.sibling i)
      fun k hk => by
        have hgt := sibling_gt hk
        exact ⟨sibling_lt hk, by omega, by omega⟩
    rw [walk, walk, hchild, hsibling]

theorem Good.getZnode_fuel (hg : zv.Good) (path : Name) {fuel : Nat}
    (hfuel : zv.nodes.length ≤ fuel) : zv.walk path fuel (some 0) = zv.getZnode path := by
  refine hg.walk_fuel path (some 0) ?_
  rintro k ⟨⟩
  exact ⟨isDir_lt hg.root.2.1, by omega, by omega⟩

/-- What the walk returns has the path, up to case. -/
theorem walk_some {path : Name} {z : Nat} : ∀ fuel (i : Option Nat),
    (∀ k, i = some k → k < zv.nodes.length) → zv.walk path fuel i = some z →
      z < zv.nodes.length ∧ fold (zv.recurparent z) = fold path
  | _, none, _, hz => by simp [walk] at hz
  | 0, some _, _, hz => by simp [walk] at hz
  | fuel + 1, some i, hi, hz => by
    simp only [walk] at hz
    split at hz
    · split at hz
      · rename_i hbegins
        split at hz
        · rename_i hlen
          obtain rfl := Option.some.inj hz
          refine ⟨hi i rfl, ?_⟩
          rw [← hbegins.2.2, ← hlen, List.take_length]
        · exact walk_some fuel _ (fun _ => child_lt) hz
      · exact walk_some fuel _ (fun _ => sibling_lt) hz
    · split at hz
      · rename_i hfold
        obtain rfl := Option.some.inj hz
        exact ⟨hi i rfl, hfold⟩
      · exact walk_some fuel _ (fun _ => sibling_lt) hz

/-- The path of a node, up to case, is the path of no other. -/
theorem Good.recurparent_inj (hg : zv.Good) {i j : Nat} (hi : i < zv.nodes.length)
    (hj : j < zv.nodes.length) (h : fold (zv.recurparent i) = fold (zv.recurparent j)) :
    i = j := by
  have hfind := hg.getZnode_recurparent hi
  rw [getZnode, walk_congr zv h] at hfind
  exact Option.some.inj (hfind.symm.trans (hg.getZnode_recurparent hj))

theorem Good.getZnode_child (hg : zv.Good) {i : Nat} {c : Name} (hi : i < zv.nodes.length)
    (hc : separator ∉ c) (j : Nat) :
    zv.getZnode (zv.recurparent i ++ separator :: c) = some j ↔
      zv.parent j = some i ∧ fold (zv.name j) = fold c := by
  have hroot := isDir_lt hg.root.2.1
  constructor
  · intro hfind
    obtain ⟨hj, hfold⟩ := walk_some _ _ (by rintro k ⟨⟩; exact hroot) hfind
    rcases Nat.eq_zero_or_pos j with rfl | hpos
    · -- the path of the root is shorter
      obtain ⟨rest, hrest, -⟩ := hg.below_recurparent (hg.below_zero i hi)
      have hlen := fold_length hfold
      rw [hrest] at hlen
      simp at hlen
    · obtain ⟨p, hp⟩ := hg.hasParent j hpos hj
      rw [hg.recurparent_eq hp] at hfold
      obtain ⟨hparent, hname⟩ := fold_path_inj (hg.slashFree j p hp) hc hfold
      have hplt := Nat.lt_trans (hg.below j p hp).1 hj
      exact ⟨hg.recurparent_inj hplt hi hparent ▸ hp, hname⟩
  · -- the path of the child, in another case
    rintro ⟨hp, hname⟩
    have hfold : fold (zv.recurparent j) = fold (zv.recurparent i ++ separator :: c) := by
      rw [hg.recurparent_eq hp, fold_append, fold_append]
      simp [fold] at hname ⊢
      exact hname
    rw [getZnode, ← walk_congr zv hfold]
    exact hg.getZnode_recurparent (lt_length_of_parent hp)

theorem Good.getZnode_none (hg : zv.Good) {i : Nat} {c : Name} (hi : i < zv.nodes.length)
    (hc : separator ∉ c) (hnew : ∀ j, zv.parent j = some i → fold (zv.name j) ≠ fold c) :
    zv.getZnode (zv.recurparent i ++ separator :: c) = none := by
  cases hfind : zv.getZnode (zv.recurparent i ++ separator :: c) with
  | none => rfl
  | some j =>
    obtain ⟨hp, hname⟩ := (hg.getZnode_child hi hc j).mp hfind
    exact absurd hname (hnew j hp)

/-! ### One node more -/

/-- The volume with a child of this name. -/
def withChild (zv : Zvolume) (i : Nat) (type : ZnodeType) (t : Name) : Zvolume :=
  ⟨zv.nodes ++ [⟨type, t, zv.recurparent i ++ separator :: t, some i⟩]⟩

section

variable {i : Nat} {type : ZnodeType} {t : Name}

theorem withChild_length : (zv.withChild i type t).nodes.length = zv.nodes.length + 1 := by
  simp [withChild]

theorem withChild_old {j : Nat} (hj : j < zv.nodes.length) :
    (zv.withChild i type t).nodes[j]? = zv.nodes[j]? :=
  List.getElem?_append_left hj

theorem withChild_new : (zv.withChild i type t).nodes[zv.nodes.length]? =
    some ⟨type, t, zv.recurparent i ++ separator :: t, some i⟩ := by
  simp [withChild]

theorem withChild_name {j : Nat} (hj : j < zv.nodes.length) :
    (zv.withChild i type t).name j = zv.name j := by
  rw [name, withChild_old hj, name]

theorem withChild_fullname {j : Nat} (hj : j < zv.nodes.length) :
    (zv.withChild i type t).fullname j = zv.fullname j := by
  rw [fullname, withChild_old hj, fullname]

theorem withChild_parent_old {j : Nat} (hj : j < zv.nodes.length) :
    (zv.withChild i type t).parent j = zv.parent j := by
  rw [parent, withChild_old hj, parent]

theorem withChild_isDir {j : Nat} (hj : zv.isDir j) : (zv.withChild i type t).isDir j := by
  rw [isDir, withChild_old (isDir_lt hj)]
  exact hj

theorem withChild_parent {j p : Nat} (h : (zv.withChild i type t).parent j = some p) :
    (j < zv.nodes.length ∧ zv.parent j = some p) ∨ (j = zv.nodes.length ∧ p = i) := by
  have hlt := lt_length_of_parent h
  rw [withChild_length] at hlt
  rcases Nat.lt_succ_iff_lt_or_eq.mp hlt with hj | rfl
  · exact Or.inl ⟨hj, withChild_parent_old hj ▸ h⟩
  · rw [parent, withChild_new] at h
    exact Or.inr ⟨rfl, (Option.some.inj h).symm⟩

theorem Good.withChild_recurparent (hg : zv.Good) (j : Nat) (hj : j < zv.nodes.length) :
    (zv.withChild i type t).recurparent j = zv.recurparent j := by
  have hzero : 0 < zv.nodes.length := Nat.lt_of_le_of_lt (Nat.zero_le j) hj
  rw [recurparent, recurparent, withChild_parent_old hj, withChild_name hj, withChild_name hzero]
  cases hp : zv.parent j with
  | none => rfl
  | some p =>
    have hlt := (hg.below j p hp).1
    simp only [Good.withChild_recurparent hg p (Nat.lt_trans hlt hj)]
termination_by j

theorem withChild_name_new : (zv.withChild i type t).name zv.nodes.length = t := by
  rw [name, withChild_new]
  rfl

/-- A name that no sibling has in any case, without a separator and, below the root, other than
the root's. -/
structure Fits (zv : Zvolume) (i : Nat) (t : Name) : Prop where
  slashFree : separator ∉ t
  new : ∀ j, zv.parent j = some i → fold (zv.name j) ≠ fold t
  notRoot : i = 0 → t ≠ zv.name 0

theorem Good.withChild (hg : zv.Good) (hdir : zv.isDir i) (ht : zv.Fits i t) :
    (zv.withChild i type t).Good := by
  have hi := isDir_lt hdir
  have hzero := isDir_lt hg.root.2.1
  constructor
  · obtain ⟨hp, hd, hn, hf⟩ := hg.root
    exact ⟨(withChild_parent_old hzero).trans hp, withChild_isDir hd,
      (withChild_name hzero).symm ▸ hn,
      (withChild_fullname hzero).trans (hf.trans (withChild_name hzero).symm)⟩
  · intro j hpos hj
    rw [withChild_length] at hj
    rcases Nat.lt_succ_iff_lt_or_eq.mp hj with hj | rfl
    · exact withChild_parent_old hj ▸ hg.hasParent j hpos hj
    · exact ⟨i, by rw [parent, withChild_new]; rfl⟩
  · intro j p hp
    rcases withChild_parent hp with ⟨-, hp⟩ | ⟨rfl, rfl⟩
    · exact ⟨(hg.below j p hp).1, withChild_isDir (hg.below j p hp).2⟩
    · exact ⟨hi, withChild_isDir hdir⟩
  · intro j p hp
    rcases withChild_parent hp with ⟨hj, hp⟩ | ⟨rfl, rfl⟩
    · exact (withChild_name hj).symm ▸ hg.slashFree j p hp
    · exact withChild_name_new.symm ▸ ht.slashFree
  · intro j hp
    rw [withChild_name hzero]
    rcases withChild_parent hp with ⟨hj, hp⟩ | ⟨rfl, hi0⟩
    · exact (withChild_name hj).symm ▸ hg.notRoot j hp
    · exact withChild_name_new.symm ▸ ht.notRoot hi0.symm
  · intro j p hp
    rcases withChild_parent hp with ⟨hj, hp⟩ | ⟨rfl, rfl⟩
    · have hlt := Nat.lt_trans (hg.below j p hp).1 hj
      rw [withChild_fullname hj, withChild_name hj, hg.withChild_recurparent p hlt,
        hg.fullname j p hp]
    · rw [withChild_name_new, hg.withChild_recurparent p hi, Zvolume.fullname, withChild_new]
      rfl
  · intro j k p hj hk hfold
    rcases withChild_parent hj with ⟨hjlt, hj⟩ | ⟨rfl, rfl⟩ <;>
      rcases withChild_parent hk with ⟨hklt, hk⟩ | ⟨rfl, hpi⟩
    · rw [withChild_name hjlt, withChild_name hklt] at hfold
      exact hg.distinct j k p hj hk hfold
    · rw [withChild_name hjlt, withChild_name_new] at hfold
      exact absurd hfold (ht.new j (hpi ▸ hj))
    · rw [withChild_name_new, withChild_name hklt] at hfold
      exact absurd hfold.symm (ht.new k hk)
    · rfl

end

/-! ### Free names -/

theorem mem_childNames {i : Nat} {n : Name} :
    n ∈ zv.childNames i ↔ ∃ j, zv.parent j = some i ∧ zv.name j = n := by
  constructor
  · intro hmem
    obtain ⟨j, hj, hn⟩ := List.mem_map.mp hmem
    exact ⟨j, by simpa using (List.mem_filter.mp hj).2, hn⟩
  · rintro ⟨j, hp, hn⟩
    refine List.mem_map.mpr ⟨j, List.mem_filter.mpr ⟨?_, by simpa using hp⟩, hn⟩
    exact List.mem_range.mpr (lt_length_of_parent hp)

/-- The name that a sequence of changes ends with, when the siblings have all the earlier ones. -/
theorem freeName_tried (siblings : List Name) : ∀ (m fuel : Nat) (t : Name),
    (∀ k < m, nextName^[k] t ∈ siblings) → nextName^[m] t ∉ siblings → m < fuel →
      freeName siblings fuel t = some (nextName^[m] t)
  | _, 0, _, _, _, hfuel => absurd hfuel (Nat.not_lt_zero _)
  | 0, fuel + 1, t, _, hfree, _ => by
    have hfree' : t ∉ siblings := hfree
    rw [freeName, if_neg hfree']
    rfl
  | m + 1, fuel + 1, t, htaken, hfree, hfuel => by
    have ht : t ∈ siblings := htaken 0 (Nat.succ_pos m)
    rw [freeName, if_pos ht]
    exact freeName_tried siblings m fuel (nextName t)
      (fun k hk => htaken (k + 1) (Nat.succ_lt_succ hk)) hfree (Nat.lt_of_succ_lt_succ hfuel)

theorem Fits.not_mem {i : Nat} {t : Name} (ht : zv.Fits i t) : t ∉ zv.childNames i := by
  intro hmem
  obtain ⟨j, hp, hn⟩ := mem_childNames.mp hmem
  exact ht.new j hp (hn ▸ rfl)

theorem znodeAllocChild_tried {m fuel i : Nat} {type : ZnodeType} {t : Name}
    (htaken : ∀ k < m, nextName^[k] t ∈ zv.childNames i)
    (hfits : zv.Fits i (nextName^[m] t)) (hfuel : m < fuel) :
    zv.znodeAllocChild fuel i type t =
      some (zv.withChild i type (nextName^[m] t), zv.nodes.length) := by
  rw [znodeAllocChild, freeName_tried _ m fuel t htaken hfits.not_mem hfuel]
  rfl

/-! ### Calls that keep a tree good -/

/-- A directory below the root is not made with the name of the root. -/
def NotRootName (zv : Zvolume) (i : Nat) (c : Name) : Prop :=
  i = 0 → c = zv.name 0 → ∃ j, zv.parent j = some i ∧ fold (zv.name j) = fold c

/-- What exists of the directories of a path are directories, and `atEnd` holds of the last one if
all exist. -/
def DirsOk (zv : Zvolume) (atEnd : Nat → Prop) : Nat → List Name → Prop
  | i, [] => atEnd i
  | i, c :: cs => zv.NotRootName i c ∧
    ∀ j, zv.parent j = some i → fold (zv.name j) = fold c → zv.isDir j ∧ DirsOk zv atEnd j cs

/-- The first name tried that no sibling has fits. -/
def FileOk (zv : Zvolume) (i : Nat) (t : Name) : Prop :=
  ∃ m, (∀ k < m, nextName^[k] t ∈ zv.childNames i) ∧ zv.Fits i (nextName^[m] t)

def CallOk (zv : Zvolume) : Call → Prop
  | .adddir path =>
    zv.DirsOk (fun i => zv.NotRootName i (splitPath (stripSeparator path)).2) 0
      (splitPath (stripSeparator path)).1
  | .addfile path =>
    zv.DirsOk (fun i => (splitPath path).2 ≠ [] → zv.FileOk i (splitPath path).2) 0
      (splitPath path).1

/-- Every call meets its condition in the state that the calls before it lead to. -/
def CallsOk : Zvolume → List Call → Prop
  | _, [] => True
  | zv, c :: cs => zv.CallOk c ∧ ∀ fuel zv', zv.call fuel c = some zv' → CallsOk zv' cs

end Zvolume

theorem splitPath_slashFree : ∀ path : Name,
    (∀ c ∈ (splitPath path).1, separator ∉ c) ∧ separator ∉ (splitPath path).2
  | [] => by simp [splitPath]
  | c :: cs => by
    obtain ⟨hdirs, hlast⟩ := splitPath_slashFree cs
    have hc : isSeparator c = false → c ≠ separator := by
      rintro h rfl
      cases h
    rw [splitPath]
    cases hsep : isSeparator c <;> rcases hsplit : splitPath cs with ⟨dirs, last⟩
    · rw [hsplit] at hdirs hlast
      cases dirs with
      | nil => simpa [Ne.symm (hc hsep)] using hlast
      | cons d dirs => simpa [Ne.symm (hc hsep), hlast] using hdirs
    · rw [hsplit] at hdirs hlast
      simpa [hlast] using hdirs

namespace Zvolume

variable {zv : Zvolume}

/-- Nothing is below a directory that was just made. -/
structure Fresh (zv : Zvolume) (i : Nat) : Prop where
  notRoot : i ≠ 0
  childless : ∀ j, zv.parent j ≠ some i

theorem Fresh.fits {i : Nat} {t : Name} (hf : zv.Fresh i) (ht : separator ∉ t) : zv.Fits i t :=
  ⟨ht, fun j hj => absurd hj (hf.childless j), fun h => absurd h hf.notRoot⟩

theorem Fresh.notRootName {i : Nat} (hf : zv.Fresh i) (c : Name) : zv.NotRootName i c :=
  fun h => absurd h hf.notRoot

theorem Good.fresh_withChild {i : Nat} {type : ZnodeType} {t : Name} (hg : zv.Good)
    (hdir : zv.isDir i) : (zv.withChild i type t).Fresh zv.nodes.length := by
  refine ⟨Nat.ne_of_gt (isDir_lt hg.root.2.1), fun j hj => ?_⟩
  rcases withChild_parent hj with ⟨hjlt, hj⟩ | ⟨-, hi⟩
  · exact absurd (hg.below j _ hj).1 (Nat.not_lt_of_lt hjlt)
  · exact absurd (isDir_lt hdir) (hi ▸ Nat.lt_irrefl _)

theorem Good.znodeAdddir (hg : zv.Good) {i : Nat} {c : Name} (hdir : zv.isDir i)
    (hc : separator ∉ c) (hroot : zv.NotRootName i c) :
    ∃ zv' j, (∀ fuel, 0 < fuel → zv.znodeAdddir fuel i c = some (zv', j)) ∧ zv'.Good ∧
      ((zv' = zv ∧ zv.parent j = some i ∧ fold (zv.name j) = fold c) ∨
        (zv'.isDir j ∧ zv'.Fresh j)) := by
  by_cases hex : ∃ j, zv.parent j = some i ∧ fold (zv.name j) = fold c
  · obtain ⟨j, hj⟩ := hex
    have hfind := (hg.getZnode_child (isDir_lt hdir) hc j).mpr hj
    refine ⟨zv, j, fun fuel _ => ?_, hg, Or.inl ⟨rfl, hj⟩⟩
    rw [Zvolume.znodeAdddir, hfind]
  · have hnew : ∀ j, zv.parent j = some i → fold (zv.name j) ≠ fold c :=
      fun j hp hfold => hex ⟨j, hp, hfold⟩
    have hfits : zv.Fits i c := ⟨hc, hnew, fun h0 hname => hex (hroot h0 hname)⟩
    refine ⟨zv.withChild i .dir c, zv.nodes.length, fun fuel hfuel => ?_,
      hg.withChild hdir hfits, Or.inr ⟨?_, hg.fresh_withChild hdir⟩⟩
    · rw [Zvolume.znodeAdddir, hg.getZnode_none (isDir_lt hdir) hc hnew]
      exact znodeAllocChild_tried (m := 0) (by simp) hfits hfuel
    · rw [isDir, withChild_new]
      rfl

/-- Below a fresh directory every component is made. -/
theorem Good.addDirs_fresh : ∀ {zv : Zvolume} {i : Nat} (cs : List Name), zv.Good →
    zv.isDir i → zv.Fresh i → (∀ c ∈ cs, separator ∉ c) →
      ∃ zv' i', (∀ fuel, 0 < fuel → addDirs fuel zv i cs = some (zv', i')) ∧ zv'.Good ∧
        zv'.isDir i' ∧ zv'.Fresh i'
  | zv, i, [], hg, hdir, hf, _ => ⟨zv, i, fun _ _ => rfl, hg, hdir, hf⟩
  | zv, i, c :: cs, hg, hdir, hf, hcs => by
    obtain ⟨zv', j, hadd, hg', hj⟩ :=
      hg.znodeAdddir hdir (hcs c List.mem_cons_self) (hf.notRootName c)
    rcases hj with ⟨-, hp, -⟩ | ⟨hdir', hf'⟩
    · exact absurd hp (hf.childless j)
    · obtain ⟨zv'', i'', hdirs, hres⟩ := addDirs_fresh cs hg' hdir' hf'
        fun d hd => hcs d (List.mem_cons_of_mem c hd)
      refine ⟨zv'', i'', fun fuel hfuel => ?_, hres⟩
      simp [addDirs, hadd fuel hfuel, hdirs fuel hfuel]

theorem Good.addDirs_spec (hg : zv.Good) {atEnd : Nat → Prop} : ∀ {i : Nat} (cs : List Name),
    zv.isDir i → (∀ c ∈ cs, separator ∉ c) → zv.DirsOk atEnd i cs →
      ∃ zv' i', (∀ fuel, 0 < fuel → addDirs fuel zv i cs = some (zv', i')) ∧ zv'.Good ∧
        zv'.isDir i' ∧ ((zv' = zv ∧ atEnd i') ∨ zv'.Fresh i')
  | i, [], hdir, _, hend => ⟨zv, i, fun _ _ => rfl, hg, hdir, Or.inl ⟨rfl, hend⟩⟩
  | i, c :: cs, hdir, hcs, ⟨hroot, hex⟩ => by
    have hcs' : ∀ d ∈ cs, separator ∉ d := fun d hd => hcs d (List.mem_cons_of_mem c hd)
    obtain ⟨zv', j, hadd, hg', hj⟩ := hg.znodeAdddir hdir (hcs c List.mem_cons_self) hroot
    rcases hj with ⟨hsame, hp, hname⟩ | ⟨hdir', hf'⟩
    · rw [hsame] at hadd
      obtain ⟨hdirj, hok⟩ := hex j hp hname
      obtain ⟨zv'', i'', hdirs, hres⟩ := hg.addDirs_spec cs hdirj hcs' hok
      refine ⟨zv'', i'', fun fuel hfuel => ?_, hres⟩
      simp [Zvolume.addDirs, hadd fuel hfuel, hdirs fuel hfuel]
    · obtain ⟨zv'', i'', hdirs, hg'', hdir'', hf''⟩ := Good.addDirs_fresh cs hg' hdir' hf' hcs'
      refine ⟨zv'', i'', fun fuel hfuel => ?_, hg'', hdir'', Or.inr hf''⟩
      simp [Zvolume.addDirs, hadd fuel hfuel, hdirs fuel hfuel]

/-- One call ends, and the tree stays good. -/
theorem Good.call (hg : zv.Good) {c : Call} (hok : zv.CallOk c) :
    ∃ zv', (∃ least, ∀ fuel, least ≤ fuel → zv.call fuel c = some zv') ∧ zv'.Good := by
  cases c with
  | adddir path =>
    obtain ⟨hslash, hlast⟩ := splitPath_slashFree (stripSeparator path)
    obtain ⟨zv₁, i, hdirs, hg₁, hdir, hend⟩ := hg.addDirs_spec _ hg.root.2.1 hslash hok
    have hroot : zv₁.NotRootName i (splitPath (stripSeparator path)).2 := by
      rcases hend with ⟨rfl, hend⟩ | hf
      · exact hend
      · exact hf.notRootName _
    -- the last component may be a file that exists: nothing is added below it
    obtain ⟨zv₂, j, hadd, hg₂, -⟩ := hg₁.znodeAdddir hdir hlast hroot
    by_cases hpath : path = []
    · exact ⟨zv, ⟨0, fun fuel _ => by simp [Zvolume.call, zvolumeAdddirAbs, hpath]⟩, hg⟩
    · refine ⟨zv₂, ⟨1, fun fuel hfuel => ?_⟩, hg₂⟩
      simp [Zvolume.call, zvolumeAdddirAbs, hpath, hdirs fuel hfuel, hadd fuel hfuel]
  | addfile path =>
    obtain ⟨hslash, hlast⟩ := splitPath_slashFree path
    obtain ⟨zv₁, i, hdirs, hg₁, hdir, hend⟩ := hg.addDirs_spec _ hg.root.2.1 hslash hok
    by_cases hempty : (splitPath path).2 = []
    · refine ⟨zv₁, ⟨1, fun fuel hfuel => ?_⟩, hg₁⟩
      simp [Zvolume.call, zvolumeAddfileAbs, hempty, hdirs fuel hfuel]
    · have hfile : zv₁.FileOk i (splitPath path).2 := by
        rcases hend with ⟨rfl, hend⟩ | hf
        · exact hend hempty
        · exact ⟨0, by simp, hf.fits hlast⟩
      obtain ⟨m, htaken, hfits⟩ := hfile
      refine ⟨zv₁.withChild i .file (nextName^[m] (splitPath path).2),
        ⟨m + 1, fun fuel hfuel => ?_⟩, hg₁.withChild hdir hfits⟩
      have hfuel' : 0 < fuel := Nat.lt_of_lt_of_le (Nat.succ_pos m) hfuel
      simp [Zvolume.call, zvolumeAddfileAbs, hempty, hdirs fuel hfuel',
        znodeAllocChild_tried htaken hfits hfuel]

theorem Good.run : ∀ {zv : Zvolume} (calls : List Call), zv.Good → zv.CallsOk calls →
    ∃ zv', (∃ least, ∀ fuel, least ≤ fuel → zv.run fuel calls = some zv') ∧ zv'.Good
  | zv, [], hg, _ => ⟨zv, ⟨0, fun _ _ => rfl⟩, hg⟩
  | zv, c :: cs, hg, ⟨hok, hrest⟩ => by
    obtain ⟨zv₁, ⟨least, hcall⟩, hg₁⟩ := hg.call hok
    have hok₁ := hrest least zv₁ (hcall least (Nat.le_refl _))
    obtain ⟨zv₂, ⟨least', hrun⟩, hg₂⟩ := Good.run cs hg₁ hok₁
    refine ⟨zv₂, ⟨max least least', fun fuel hfuel => ?_⟩, hg₂⟩
    have hle := Nat.max_le.mp hfuel
    simp [Zvolume.run, hcall fuel hle.1, hrun fuel hle.2]

end Zvolume

theorem zvolumeAlloc_good {name : Name} (hname : name ≠ []) (hstart : rootStart name = 0) :
    (zvolumeAlloc name).Good := by
  have hparent : ∀ i p, (zvolumeAlloc name).parent i ≠ some p := by
    intro i p hp
    have hlt := Zvolume.lt_length_of_parent hp
    obtain rfl : i = 0 := Nat.lt_one_iff.mp hlt
    cases hp
  constructor
  · exact ⟨rfl, rfl, by simpa [Zvolume.name, zvolumeAlloc, hstart] using hname,
      by simp [Zvolume.name, Zvolume.fullname, zvolumeAlloc, hstart]⟩
  · intro i hpos hi
    exact absurd hi (Nat.not_lt_of_le hpos)
  all_goals intros; exact absurd ‹_› (hparent _ _)

/-- Calls that meet their conditions end, and leave a tree in which siblings have different names
and every node is found by its full name. -/
theorem archiveLookup {name : Name} {calls : List Call} (hname : name ≠ [])
    (hstart : rootStart name = 0) (hok : (zvolumeAlloc name).CallsOk calls) :
    ∃ zv, (∃ least, ∀ fuel, least ≤ fuel → (zvolumeAlloc name).run fuel calls = some zv) ∧
      (∀ i j p, zv.parent i = some p → zv.parent j = some p → zv.name i = zv.name j → i = j) ∧
      ∀ i < zv.nodes.length, zv.getZnode (zv.fullname i) = some i := by
  obtain ⟨zv, hrun, hg⟩ := (zvolumeAlloc_good hname hstart).run calls hok
  refine ⟨zv, hrun, fun i j p hi hj heq => ?_, fun i hi => hg.getZnode_fullname hi⟩
  exact hg.distinct i j p hi hj (congrArg fold heq)

/-- Two files of one name, the second of which is renamed. -/
theorem archiveLookup_twice :
    ∃ zv, (∃ least, ∀ fuel, least ≤ fuel →
        (zvolumeAlloc [0x76]).run fuel [.addfile [0x61], .addfile [0x61]] = some zv) ∧
      (∀ i j p, zv.parent i = some p → zv.parent j = some p → zv.name i = zv.name j → i = j) ∧
      ∀ i < zv.nodes.length, zv.getZnode (zv.fullname i) = some i := by
  have hchildless : ∀ j p, (zvolumeAlloc [0x76]).parent j ≠ some p := fun j p hp => by
    obtain rfl : j = 0 := Nat.lt_one_iff.mp (Zvolume.lt_length_of_parent hp)
    cases hp
  have hfits : (zvolumeAlloc [0x76]).Fits 0 [0x61] :=
    ⟨by decide, fun j hj => absurd hj (hchildless j 0), fun _ => by decide⟩
  refine archiveLookup (by decide) (by decide)
    ⟨fun _ => ⟨0, by simp, hfits⟩, fun fuel zv' hcall => ⟨fun _ => ?_, fun _ _ _ => trivial⟩⟩
  have hpos : 0 < fuel := Nat.pos_of_ne_zero (by rintro rfl; cases hcall)
  obtain rfl : (zvolumeAlloc [0x76]).withChild 0 .file [0x61] = zv' := by
    have halloc := @Zvolume.znodeAllocChild_tried _ 0 fuel 0 .file [0x61] (by simp) hfits hpos
    simpa [Zvolume.call, Zvolume.zvolumeAddfileAbs, splitPath, isSeparator, Zvolume.addDirs,
      halloc] using hcall
  refine ⟨1, fun k hk => ?_, by decide, fun j hj => ?_, fun _ => by decide +kernel⟩
  · obtain rfl : k = 0 := Nat.lt_one_iff.mp hk
    decide +kernel
  · rcases Zvolume.withChild_parent hj with ⟨-, hj⟩ | ⟨rfl, -⟩
    · exact absurd hj (hchildless j 0)
    · rw [Zvolume.withChild_name_new]
      decide

/-- The second file has the name of the first in the other case: its path is the first one's. -/
theorem archiveLookup_otherCase :
    ∃ zv, (zvolumeAlloc [0x76]).run 1 [.addfile [0x61], .addfile [0x41]] = some zv ∧
      zv.fullname 2 = [0x76, 0x2f, 0x41] ∧ zv.getZnode (zv.fullname 2) = some 1 :=
  ⟨_, rfl, by decide +kernel, by decide +kernel⟩

end LibretroUae.Archive
