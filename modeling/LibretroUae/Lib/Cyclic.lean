import Mathlib.Data.List.Chain

/-!
# LibretroUae.Lib.Cyclic

**Cyclic sequences.** A relation holds between neighbours all the way round. Where the sequence
starts does not matter, and from there it is a list whose end is followed by its head.
-/

namespace LibretroUae.Lib

variable {α : Type} {R : α → α → Prop} {m : Nat → α} {len off : Nat}

/-- `R` holds between neighbours of the first `len` values, and from the last to the first. -/
def Cyclic (R : α → α → Prop) (m : Nat → α) (len : Nat) : Prop :=
  ∀ i < len, R (m i) (m ((i + 1) % len))

theorem cyclic_rotate (off : Nat) :
    Cyclic R m len ↔ ∀ i < len, R (m ((off + i) % len)) (m ((off + i + 1) % len)) := by
  constructor
  · intro h i hi
    have hlt : (off + i) % len < len := Nat.mod_lt _ (Nat.zero_lt_of_lt hi)
    have hnext := h _ hlt
    rwa [Nat.mod_add_mod] at hnext
  · intro h i hi
    have hpos := Nat.zero_lt_of_lt hi
    have hback : (off + (i + len - off % len) % len) % len = i := by
      have hle := (Nat.mod_lt off hpos).le
      rw [Nat.add_mod_mod, ← Nat.mod_add_mod, Nat.add_comm, Nat.sub_add_cancel (by omega),
        Nat.add_mod_right, Nat.mod_eq_of_lt hi]
    have hnext := h _ (Nat.mod_lt (i + len - off % len) hpos)
    rwa [hback, ← Nat.mod_add_mod, hback] at hnext

/-- A list stands in a cyclic sequence from `off` on. -/
def StandsAt (m : Nat → α) (len off : Nat) (l : List α) : Prop :=
  ∀ i (hi : i < l.length), m ((off + i) % len) = l[i]

/-- A cyclic sequence as a list that is followed by its head. -/
theorem cyclic_iff_isChain {l : List α} (hlen : l.length = len) (h : StandsAt m len off l) :
    Cyclic R m len ↔ (l ++ l.head?.toList).IsChain R := by
  subst hlen
  rw [cyclic_rotate off, List.isChain_iff_getElem]
  cases l with
  | nil => simp
  | cons x xs =>
    have hwrap : ∀ i (hi : i < (x :: xs).length), ∀ hi' : i + 1 < ((x :: xs) ++ [x]).length,
        m ((off + i + 1) % (x :: xs).length) = ((x :: xs) ++ [x])[i + 1] := by
      intro i hi hi'
      by_cases hlast : i + 1 < (x :: xs).length
      · rw [List.getElem_append_left hlast, Nat.add_assoc]
        exact h (i + 1) hlast
      · have hend : i + 1 = (x :: xs).length := by omega
        have h0 := h 0 (Nat.succ_pos _)
        rw [Nat.add_zero] at h0
        have hwhole : (off + i + 1) % (x :: xs).length = off % (x :: xs).length := by
          rw [Nat.add_assoc, hend, Nat.add_mod_right]
        rw [hwhole, h0, List.getElem_append_right (by omega)]
        simp
    have hhead : (x :: xs).head?.toList = [x] := rfl
    simp only [hhead]
    constructor
    · intro hall i hi
      have hi' : i < (x :: xs).length := by
        rw [List.length_append, List.length_singleton] at hi
        omega
      have hnext := hall i hi'
      rw [h i hi', hwrap i hi' hi] at hnext
      rwa [List.getElem_append_left hi']
    · intro hall i hi
      have hi' : i + 1 < ((x :: xs) ++ [x]).length := by
        rw [List.length_append, List.length_singleton]
        omega
      have hnext := hall i hi'
      rw [List.getElem_append_left hi] at hnext
      rwa [h i hi, hwrap i hi hi']

end LibretroUae.Lib
