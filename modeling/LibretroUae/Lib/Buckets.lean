import Mathlib.Data.List.Perm.Basic

/-!
# LibretroUae.Lib.Buckets

**Lists filed in buckets.** A hash table that keeps its elements in lists, one for each value
of a hash, files a list of elements if each bucket holds those with its hash, in some order.
Elements are filed one at a time, taken out of their bucket, and read back bucket by bucket.
-/

namespace LibretroUae.Lib

variable {α β : Type} {f : α → Nat}

/-- Erasing an element that a filter drops does not show through the filter. -/
theorem filter_eraseP_of_not {p q : α → Bool} (h : ∀ x, q x = true → p x = false)
    (l : List α) : (l.eraseP q).filter p = l.filter p := by
  induction l with
  | nil => rfl
  | cons x l ih =>
    cases hx : q x with
    | true => rw [List.eraseP_cons_of_pos hx, List.filter_cons_of_neg (by simp [h x hx])]
    | false =>
      rw [List.eraseP_cons_of_neg (by simp [hx]), List.filter_cons, List.filter_cons, ih]

/-- Two filters that no element passes both of. -/
theorem filter_append_perm_of_disjoint {p q : α → Bool} (h : ∀ x, p x = true → q x = false)
    (l : List α) : (l.filter p ++ l.filter q).Perm (l.filter fun x => p x || q x) := by
  induction l with
  | nil => exact .nil
  | cons x l ih =>
    simp only [List.filter_cons]
    cases hp : p x with
    | true =>
      rw [h x hp]
      exact ih.cons x
    | false =>
      cases hq : q x with
      | true => exact List.perm_middle.trans (ih.cons x)
      | false => exact ih

/-- Replaces the list of one bucket. -/
def fileAt (buckets : Nat → List α) (h : Nat) (l : List α) : Nat → List α :=
  fun i => if i = h then l else buckets i

@[simp] theorem fileAt_self (buckets : Nat → List α) (h : Nat) (l : List α) :
    fileAt buckets h l h = l := if_pos rfl

theorem fileAt_of_ne {buckets : Nat → List α} {h i : Nat} (l : List α) (hi : i ≠ h) :
    fileAt buckets h l i = buckets i := if_neg hi

/-- The buckets hold the elements of `l`, each under its hash and as `g` shows it. -/
def Filed (f : α → Nat) (g : α → β) (l : List α) (buckets : Nat → List β) : Prop :=
  ∀ h, ((l.filter fun x => f x == h).map g).Perm (buckets h)

variable {g : α → β} {l : List α} {buckets : Nat → List β}

theorem Filed.nil (f : α → Nat) (g : α → β) : Filed f g [] fun _ => [] := fun _ => .nil

/-- A new element goes in front of its bucket. -/
theorem Filed.cons (hl : Filed f g l buckets) (x : α) :
    Filed f g (x :: l) (fileAt buckets (f x) (g x :: buckets (f x))) := by
  intro h
  by_cases hx : h = f x
  · subst hx
    rw [fileAt_self, List.filter_cons, if_pos (beq_self_eq_true (f x))]
    exact (hl (f x)).cons (g x)
  · rw [fileAt_of_ne _ hx, List.filter_cons, if_neg fun heq => hx (eq_of_beq heq).symm]
    exact hl h

/-- Elements filed one after another. -/
theorem Filed.foldl (xs : List α) (hl : Filed f g l buckets) :
    Filed f g (xs.reverse ++ l)
      (xs.foldl (fun b x => fileAt b (f x) (g x :: b (f x))) buckets) := by
  induction xs generalizing l buckets with
  | nil => exact hl
  | cons x xs ih =>
    rw [List.reverse_cons, List.append_assoc]
    exact ih (hl.cons x)

theorem Filed.perm (hl : Filed f g l buckets) {l' : List α} (h : l.Perm l') :
    Filed f g l' buckets :=
  fun i => ((h.filter _).map g).symm.trans (hl i)

/-- Filing what a map shows. -/
theorem filed_map {γ : Type} {k : γ → α} {l : List γ} :
    Filed f g (l.map k) buckets ↔ Filed (f ∘ k) (g ∘ k) l buckets := by
  refine forall_congr' fun h => ?_
  rw [List.filter_map, List.map_map]
  rfl

/-- An element is taken out of its bucket. -/
theorem Filed.erase [DecidableEq β] (hl : Filed f g l buckets) (h : Nat) (n : β) :
    Filed f g (l.eraseP fun x => f x == h && g x == n)
      (fileAt buckets h ((buckets h).erase n)) := by
  intro i
  by_cases hi : i = h
  · subst hi
    have hcomm : (fun x => f x == i && g x == n) = fun x => ((· == n) ∘ g) x && f x == i :=
      funext fun x => Bool.and_comm _ _
    rw [fileAt_self, hcomm, ← List.eraseP_filter, ← List.eraseP_map, ← List.erase_eq_eraseP']
    exact (hl i).erase n
  · rw [fileAt_of_ne _ hi, filter_eraseP_of_not]
    · exact hl i
    · intro x hx
      rw [Bool.and_eq_true] at hx
      rw [eq_of_beq hx.1]
      exact beq_eq_false_iff_ne.mpr (Ne.symm hi)

theorem filter_lt_append_perm (f : α → Nat) (n : Nat) (l : List α) :
    ((l.filter fun x => f x < n) ++ l.filter fun x => f x == n).Perm
      (l.filter fun x => f x < n + 1) := by
  induction l with
  | nil => exact .nil
  | cons x l ih =>
    simp only [List.filter_cons, beq_iff_eq, decide_eq_true_eq]
    rcases Nat.lt_trichotomy (f x) n with hlt | heq | hgt
    · rw [if_pos hlt, if_neg (Nat.ne_of_lt hlt), if_pos (Nat.lt_succ_of_lt hlt)]
      exact ih.cons x
    · rw [if_neg (Nat.not_lt.mpr (Nat.le_of_eq heq.symm)), if_pos heq,
        if_pos (Nat.lt_succ_of_le (Nat.le_of_eq heq))]
      exact List.perm_middle.trans (ih.cons x)
    · rw [if_neg (Nat.not_lt.mpr (Nat.le_of_lt hgt)), if_neg (Nat.ne_of_gt hgt),
        if_neg (Nat.not_lt.mpr hgt)]
      exact ih

/-- Bucket by bucket, every element with a hash below `n` shows up once. -/
theorem flatMap_filter_perm (f : α → Nat) (n : Nat) (l : List α) :
    ((List.range n).flatMap fun h => l.filter fun x => f x == h).Perm
      (l.filter fun x => f x < n) := by
  induction n with
  | zero => simp
  | succ n ih =>
    rw [List.range_succ, List.flatMap_append, List.flatMap_singleton]
    exact (ih.append_right _).trans (filter_lt_append_perm f n l)

/-- What is read back bucket by bucket is what was filed. -/
theorem Filed.flatMap (hl : Filed f g l buckets) {n : Nat} (hn : ∀ x ∈ l, f x < n) :
    ((List.range n).flatMap buckets).Perm (l.map g) := by
  have hall : l.filter (fun x => f x < n) = l :=
    List.filter_eq_self.mpr fun x hx => decide_eq_true (hn x hx)
  have hbuckets : ((List.range n).flatMap buckets).Perm
      ((List.range n).flatMap fun h => (l.filter fun x => f x == h).map g) :=
    .flatMap_left _ fun h _ => (hl h).symm
  rw [← List.map_flatMap] at hbuckets
  have hperm := flatMap_filter_perm f n l
  rw [hall] at hperm
  exact hbuckets.trans (hperm.map g)

end LibretroUae.Lib
