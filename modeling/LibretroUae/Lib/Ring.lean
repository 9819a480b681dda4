import Mathlib.Tactic.Common
import Mathlib.Data.List.Basic

/-!
# LibretroUae.Lib.Ring

**Ring buffers with two indexes.** Values are written at `first` and taken at `last`. Equal indexes
mean an empty ring, so one slot always stays free. What the ring holds is read off as a list in the
order of its values, and `push` and `pop` are the two ends of that list.
-/

namespace LibretroUae.Lib

/-- A ring of `n` slots. -/
structure Ring (α : Type) (n : Nat) where
  slots : Nat → α
  first : Nat
  last : Nat
  first_lt : first < n
  last_lt : last < n

namespace Ring

variable {α : Type} {n : Nat}

/-- The index behind `i`. -/
def next (n i : Nat) : Nat := if i + 1 = n then 0 else i + 1

theorem next_lt {i : Nat} (h : i < n) : next n i < n := by
  unfold next
  split_ifs <;> omega

theorem next_eq_mod {i : Nat} (h : i < n) : next n i = (i + 1) % n := by
  unfold next
  split_ifs with hend
  · rw [hend, Nat.mod_self]
  · rw [Nat.mod_eq_of_lt (by omega)]

def empty (slots : Nat → α) (h : 0 < n) : Ring α n := ⟨slots, 0, 0, h, h⟩

def isEmpty (r : Ring α n) : Bool := r.first == r.last

def isFull (r : Ring α n) : Bool := next n r.first == r.last

def push (r : Ring α n) (x : α) : Ring α n where
  slots := fun i => if i = r.first then x else r.slots i
  first := next n r.first
  last := r.last
  first_lt := next_lt r.first_lt
  last_lt := r.last_lt

def front (r : Ring α n) : α := r.slots r.last

def pop (r : Ring α n) : Ring α n where
  slots := r.slots
  first := r.first
  last := next n r.last
  first_lt := r.first_lt
  last_lt := next_lt r.last_lt

/-- The number of values in the ring. -/
def count (r : Ring α n) : Nat :=
  if r.last ≤ r.first then r.first - r.last else r.first + n - r.last

/-- The values in the ring, the oldest in front. -/
def contents (r : Ring α n) : List α :=
  (List.range r.count).map fun i => r.slots ((r.last + i) % n)

@[simp] theorem length_contents (r : Ring α n) : r.contents.length = r.count := by
  simp [contents]

@[simp] theorem contents_empty (slots : Nat → α) (h : 0 < n) :
    (empty slots h).contents = [] := rfl

theorem count_lt (r : Ring α n) : r.count < n := by
  have hfirst := r.first_lt
  have hlast := r.last_lt
  unfold count
  split_ifs <;> omega

theorem isEmpty_iff {r : Ring α n} : r.isEmpty = true ↔ r.contents = [] := by
  have hfirst := r.first_lt
  have hlast := r.last_lt
  rw [← List.length_eq_zero_iff, length_contents, isEmpty, beq_iff_eq, count]
  split_ifs <;> omega

theorem isFull_iff {r : Ring α n} : r.isFull = true ↔ r.count + 1 = n := by
  have hfirst := r.first_lt
  have hlast := r.last_lt
  rw [isFull, beq_iff_eq, next, count]
  split_ifs <;> omega

theorem count_push {r : Ring α n} (x : α) (h : r.isFull = false) :
    (r.push x).count = r.count + 1 := by
  have hfirst := r.first_lt
  have hlast := r.last_lt
  rw [isFull, beq_eq_false_iff_ne, next] at h
  simp only [count, push, next]
  split_ifs at h ⊢ <;> omega

theorem count_pop {r : Ring α n} (h : r.isEmpty = false) : r.count = r.pop.count + 1 := by
  have hfirst := r.first_lt
  have hlast := r.last_lt
  rw [isEmpty, beq_eq_false_iff_ne] at h
  simp only [count, pop, next]
  split_ifs <;> omega

/-- The free slot comes right behind the values. -/
theorem first_eq (r : Ring α n) : (r.last + r.count) % n = r.first := by
  have hfirst := r.first_lt
  have hlast := r.last_lt
  unfold count
  split_ifs with hle
  · rw [Nat.add_sub_cancel' hle, Nat.mod_eq_of_lt hfirst]
  · rw [Nat.add_sub_cancel' (by omega), Nat.add_mod_right, Nat.mod_eq_of_lt hfirst]

/-- No value stands in the free slot. -/
theorem index_ne_first (r : Ring α n) {i : Nat} (hi : i < r.count) :
    (r.last + i) % n ≠ r.first := by
  intro heq
  rw [← r.first_eq] at heq
  have hdvd : n ∣ (r.last + r.count) - (r.last + i) :=
    Nat.dvd_of_mod_eq_zero (Nat.sub_mod_eq_zero_of_mod_eq heq.symm)
  have hlt := r.count_lt
  have hle := Nat.le_of_dvd (by omega) hdvd
  omega

/-- A value goes behind the others. -/
theorem contents_push {r : Ring α n} (x : α) (h : r.isFull = false) :
    (r.push x).contents = r.contents ++ [x] := by
  unfold contents
  rw [count_push x h, List.range_succ, List.map_append]
  congr 1
  · apply List.map_congr_left
    intro i hi
    exact if_neg (r.index_ne_first (List.mem_range.mp hi))
  · simp only [push, List.map_cons, List.map_nil, r.first_eq, if_true]

/-- The oldest value goes first. -/
theorem contents_pop {r : Ring α n} (h : r.isEmpty = false) :
    r.contents = r.front :: r.pop.contents := by
  unfold contents
  rw [count_pop h, List.range_succ_eq_map, List.map_cons, List.map_map]
  congr 1
  · simp only [front, Nat.add_zero, Nat.mod_eq_of_lt r.last_lt]
  · apply List.map_congr_left
    intro i _
    simp only [pop, Function.comp, next_eq_mod r.last_lt, Nat.mod_add_mod]
    congr 2
    omega

/-! ### Pushing in two steps -/

/-- Writes a value into the free slot, where it does not count yet. -/
def store (r : Ring α n) (x : α) : Ring α n :=
  { r with slots := fun i => if i = r.first then x else r.slots i }

/-- Counts what is in the free slot. -/
def advance (r : Ring α n) : Ring α n :=
  { r with first := next n r.first, first_lt := next_lt r.first_lt }

@[simp] theorem count_store (r : Ring α n) (x : α) : (r.store x).count = r.count := rfl

@[simp] theorem isEmpty_store (r : Ring α n) (x : α) : (r.store x).isEmpty = r.isEmpty := rfl

@[simp] theorem isFull_store (r : Ring α n) (x : α) : (r.store x).isFull = r.isFull := rfl

@[simp] theorem store_first (r : Ring α n) (x : α) :
    (r.store x).slots (r.store x).first = x := if_pos rfl

@[simp] theorem contents_store (r : Ring α n) (x : α) : (r.store x).contents = r.contents := by
  apply List.map_congr_left
  intro i hi
  exact if_neg (r.index_ne_first (List.mem_range.mp hi))

theorem advance_eq (r : Ring α n) : r.advance = r.push (r.slots r.first) := by
  have hslots : (fun i => if i = r.first then r.slots r.first else r.slots i) = r.slots := by
    funext i
    by_cases hi : i = r.first
    · rw [if_pos hi, hi]
    · rw [if_neg hi]
  rw [push, hslots, advance]

theorem contents_advance {r : Ring α n} (h : r.isFull = false) :
    r.advance.contents = r.contents ++ [r.slots r.first] := by
  rw [advance_eq, contents_push _ h]

/-- A ring that had a value is not full without it. -/
theorem isFull_pop {r : Ring α n} (h : r.isEmpty = false) : r.pop.isFull = false := by
  have hlt := r.count_lt
  have hcount := count_pop h
  rw [← Bool.not_eq_true, isFull_iff]
  omega

end Ring

end LibretroUae.Lib
