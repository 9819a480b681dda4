import Mathlib.Data.List.AList

/-!
# LibretroUae.Lib.Arena

**Cells with addresses.** An arena hands out addresses that it never handed out before, so a cell
that is looked up again is the same one.
-/

namespace LibretroUae.Lib

/-- Cells by their addresses, which are below the next one. -/
structure Arena (α : Type) where
  cells : AList fun _ : Nat => α
  next : Nat
  bound : ∀ a ∈ cells, a < next

namespace Arena

variable {α : Type} {s : Arena α} {a : Nat} {x : α}

def empty : Arena α := ⟨∅, 0, nofun⟩

def lookup (s : Arena α) (a : Nat) : Option α := s.cells.lookup a

/-- A new cell and its address. -/
def add (s : Arena α) (x : α) : Arena α × Nat :=
  (⟨s.cells.insert s.next x, s.next + 1, fun a ha => by
    rcases (AList.mem_insert _).mp ha with rfl | hold
    · exact Nat.lt_succ_self _
    · exact Nat.lt_succ_of_lt (s.bound a hold)⟩, s.next)

/-- Stores a cell that is there. -/
def put (s : Arena α) (a : Nat) (x : α) : Arena α :=
  if h : a ∈ s.cells then
    ⟨s.cells.insert a x, s.next, fun b hb => by
      rcases (AList.mem_insert _).mp hb with rfl | hold
      · exact s.bound _ h
      · exact s.bound b hold⟩
  else s

def erase (s : Arena α) (a : Nat) : Arena α :=
  ⟨s.cells.erase a, s.next, fun b hb => s.bound b (AList.mem_erase.mp hb).2⟩

/-- A cell with a property. -/
def find? (s : Arena α) (p : α → Bool) : Option Nat :=
  (s.cells.entries.find? fun e => p e.2).map Sigma.fst

theorem lookup_next (s : Arena α) : s.lookup s.next = none :=
  AList.lookup_eq_none.mpr fun hin => Nat.lt_irrefl _ (s.bound _ hin)

theorem lt_next (h : s.lookup a = some x) : a < s.next :=
  s.bound a (AList.lookup_isSome.mp (Option.isSome_of_eq_some h))

theorem lookup_add (s : Arena α) (x : α) (b : Nat) :
    (s.add x).1.lookup b = if b = s.next then some x else s.lookup b := by
  by_cases hb : b = s.next
  · rw [if_pos hb, hb]
    exact AList.lookup_insert _
  · rw [if_neg hb]
    exact AList.lookup_insert_ne hb

theorem lookup_put {y : α} (h : s.lookup a = some y) (x : α) (b : Nat) :
    (s.put a x).lookup b = if b = a then some x else s.lookup b := by
  rw [put, dif_pos (AList.lookup_isSome.mp (Option.isSome_of_eq_some h))]
  by_cases hb : b = a
  · rw [if_pos hb, hb]
    exact AList.lookup_insert _
  · rw [if_neg hb]
    exact AList.lookup_insert_ne hb

theorem lookup_erase (s : Arena α) (a b : Nat) :
    (s.erase a).lookup b = if b = a then none else s.lookup b := by
  by_cases hb : b = a
  · rw [if_pos hb, hb]
    exact AList.lookup_erase _ _
  · rw [if_neg hb]
    exact AList.lookup_erase_ne hb

theorem find?_some {p : α → Bool} (h : s.find? p = some a) : ∃ x, s.lookup a = some x ∧ p x := by
  obtain ⟨e, he, rfl⟩ := Option.map_eq_some_iff.mp h
  have hp : p e.2 = true :=
    @List.find?_some _ (fun e : Sigma fun _ : Nat => α => p e.2) _ _ he
  exact ⟨e.2, AList.mem_lookup_iff.mpr (List.mem_of_find?_eq_some he), hp⟩

theorem find?_none {p : α → Bool} (h : s.find? p = none) (hx : s.lookup a = some x) : ¬p x := by
  have hentry : (⟨a, x⟩ : Sigma fun _ : Nat => α) ∈ s.cells.entries := AList.mem_lookup_iff.mp hx
  exact List.find?_eq_none.mp (Option.map_eq_none_iff.mp h) _ hentry

end Arena

end LibretroUae.Lib
