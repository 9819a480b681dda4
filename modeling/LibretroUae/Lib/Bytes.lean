import Mathlib.Tactic.Common
import Mathlib.Tactic.Ring

/-!
# LibretroUae.Lib.Bytes

**Bytes and big-endian words.** Writers are byte lists; a reader consumes a prefix
of a byte list and fails when the list is too short.

Each reader undoes its writer in front of every suffix, and is stated for a reader
followed by the rest of a program (`u16_bind`), so that a decoder applied to the
bytes of an encoder runs by rewriting, one field at a time.
-/

namespace LibretroUae.Lib

abbrev Byte := BitVec 8

/-- The byte of `v` at bit `shift`. -/
def byteAt {w : Nat} (v : BitVec w) (shift : Nat) : Byte := (v >>> shift).setWidth 8

/-- A 16-bit word, high byte first. -/
def be16 (v : BitVec 16) : List Byte := [byteAt v 8, byteAt v 0]

/-- A 32-bit word, high byte first. -/
def be32 (v : BitVec 32) : List Byte := [byteAt v 24, byteAt v 16, byteAt v 8, byteAt v 0]

@[simp] theorem length_be16 (v : BitVec 16) : (be16 v).length = 2 := rfl
@[simp] theorem length_be32 (v : BitVec 32) : (be32 v).length = 4 := rfl

/-- The word of two bytes, high byte first. -/
def word16 (b1 b0 : Byte) : BitVec 16 := (b1.setWidth 16 <<< 8) ||| b0.setWidth 16

/-- The word of four bytes, high byte first. -/
def word32 (b3 b2 b1 b0 : Byte) : BitVec 32 :=
  (b3.setWidth 32 <<< 24) ||| (b2.setWidth 32 <<< 16) ||| (b1.setWidth 32 <<< 8) |||
    b0.setWidth 32

/-- A byte put back where it came from has the bits it was taken from. -/
theorem getLsbD_byteAt_shift {w : Nat} (v : BitVec w) (s i : Nat) (hi : i < w) :
    ((byteAt v s).setWidth w <<< s).getLsbD i =
      (decide (s ≤ i ∧ i < s + 8) && v.getLsbD i) := by
  simp only [byteAt, BitVec.getLsbD_shiftLeft, BitVec.getLsbD_setWidth,
    BitVec.getLsbD_ushiftRight, hi, decide_true, Bool.true_and]
  by_cases hs : s ≤ i
  · have hlt : ¬ i < s := by omega
    have hsub : i - s < w := by omega
    have hadd : s + (i - s) = i := by omega
    have hiff : i - s < 8 ↔ i < s + 8 := by omega
    simp [hs, hlt, hsub, hadd, hiff]
  · have hlt : i < s := by omega
    simp [hs, hlt]

/-- Splitting a 16-bit word and putting it together again. -/
theorem word16_byteAt (v : BitVec 16) : word16 (byteAt v 8) (byteAt v 0) = v := by
  apply BitVec.eq_of_getLsbD_eq
  intro i hi
  have h0 := getLsbD_byteAt_shift v 0 i hi
  rw [BitVec.shiftLeft_zero] at h0
  rw [word16, BitVec.getLsbD_or, getLsbD_byteAt_shift v 8 i hi, h0]
  cases v.getLsbD i with
  | false => simp
  | true =>
    simp only [Bool.and_true, ← Bool.decide_or, decide_eq_true_eq]
    omega

/-- Putting two bytes together and splitting the word again. -/
theorem be16_word16 (b1 b0 : Byte) : be16 (word16 b1 b0) = [b1, b0] := by
  have h8 : byteAt (word16 b1 b0) 8 = b1 := by
    apply BitVec.eq_of_getLsbD_eq
    intro i hi
    have hlt : ¬ 8 + i < 8 := by omega
    have h16 : i < 16 := by omega
    have h816 : 8 + i < 16 := by omega
    simp [-BitVec.getLsbD_eq_getElem, byteAt, word16, hi, hlt, h16, h816]
  have h0 : byteAt (word16 b1 b0) 0 = b0 := by
    apply BitVec.eq_of_getLsbD_eq
    intro i hi
    simp [-BitVec.getLsbD_eq_getElem, byteAt, word16]
  rw [be16, h8, h0]

/-- Splitting a 32-bit word and putting it together again. -/
theorem word32_byteAt (v : BitVec 32) :
    word32 (byteAt v 24) (byteAt v 16) (byteAt v 8) (byteAt v 0) = v := by
  apply BitVec.eq_of_getLsbD_eq
  intro i hi
  have h0 := getLsbD_byteAt_shift v 0 i hi
  rw [BitVec.shiftLeft_zero] at h0
  rw [word32, BitVec.getLsbD_or, BitVec.getLsbD_or, BitVec.getLsbD_or,
    getLsbD_byteAt_shift v 24 i hi, getLsbD_byteAt_shift v 16 i hi, getLsbD_byteAt_shift v 8 i hi, h0]
  cases v.getLsbD i with
  | false => simp
  | true =>
    simp only [Bool.and_true, ← Bool.decide_or, decide_eq_true_eq]
    omega

theorem getLsbD_word32 (b3 b2 b1 b0 : Byte) {i : Nat} (hi : i < 32) :
    (word32 b3 b2 b1 b0).getLsbD i =
      if i < 8 then b0.getLsbD i else if i < 16 then b1.getLsbD (i - 8)
      else if i < 24 then b2.getLsbD (i - 16) else b3.getLsbD (i - 24) := by
  have hge : ∀ (b : Byte) {j : Nat}, 8 ≤ j → b.getLsbD j = false :=
    fun b _ hj => BitVec.getLsbD_of_ge b _ hj
  simp only [word32, BitVec.getLsbD_or, BitVec.getLsbD_shiftLeft, BitVec.getLsbD_setWidth, hi,
    decide_true, Bool.true_and]
  split_ifs with h0 h1 h2
  · have h1 : i < 16 := by omega
    have h2 : i < 24 := by omega
    simp [-BitVec.getLsbD_eq_getElem, h0, h1, h2]
  · have h2 : i < 24 := by omega
    have hlt : i - 8 < 32 := by omega
    simp [-BitVec.getLsbD_eq_getElem, h0, h1, h2, hlt, hge b0 (by omega : 8 ≤ i)]
  · have hlt : i - 16 < 32 := by omega
    simp [-BitVec.getLsbD_eq_getElem, h1, h2, hlt, hge b0 (by omega : 8 ≤ i),
      hge b1 (by omega : 8 ≤ i - 8)]
  · have hlt : i - 24 < 32 := by omega
    simp [-BitVec.getLsbD_eq_getElem, h2, hlt, hge b0 (by omega : 8 ≤ i),
      hge b1 (by omega : 8 ≤ i - 8), hge b2 (by omega : 8 ≤ i - 16)]

/-- Putting four bytes together and splitting the word again. -/
theorem be32_word32 (b3 b2 b1 b0 : Byte) : be32 (word32 b3 b2 b1 b0) = [b3, b2, b1, b0] := by
  have hbyte : ∀ {s : Nat} {b : Byte}, s + 8 ≤ 32 →
      (∀ i < 8, (word32 b3 b2 b1 b0).getLsbD (s + i) = b.getLsbD i) →
      byteAt (word32 b3 b2 b1 b0) s = b := by
    intro s b hs h
    apply BitVec.eq_of_getLsbD_eq
    intro i hi
    rw [byteAt, BitVec.getLsbD_setWidth, BitVec.getLsbD_ushiftRight, h i hi]
    simp [hi]
  have h24 : byteAt (word32 b3 b2 b1 b0) 24 = b3 := by
    refine hbyte (by decide) (fun i hi => ?_)
    rw [getLsbD_word32 _ _ _ _ (by omega), if_neg (by omega), if_neg (by omega),
      if_neg (by omega), Nat.add_sub_cancel_left]
  have h16 : byteAt (word32 b3 b2 b1 b0) 16 = b2 := by
    refine hbyte (by decide) (fun i hi => ?_)
    rw [getLsbD_word32 _ _ _ _ (by omega), if_neg (by omega), if_neg (by omega),
      if_pos (by omega), Nat.add_sub_cancel_left]
  have h8 : byteAt (word32 b3 b2 b1 b0) 8 = b1 := by
    refine hbyte (by decide) (fun i hi => ?_)
    rw [getLsbD_word32 _ _ _ _ (by omega), if_neg (by omega), if_pos (by omega),
      Nat.add_sub_cancel_left]
  have h0 : byteAt (word32 b3 b2 b1 b0) 0 = b0 := by
    refine hbyte (by decide) (fun i hi => ?_)
    rw [getLsbD_word32 _ _ _ _ (by omega), if_pos (by omega), Nat.zero_add]
  rw [be32, h24, h16, h8, h0]

/-- The second and the third byte of a word. -/
theorem byteAt_word32 (b3 b2 b1 b0 : Byte) :
    byteAt (word32 b3 b2 b1 b0) 16 = b2 ∧ byteAt (word32 b3 b2 b1 b0) 8 = b1 := by
  have h := be32_word32 b3 b2 b1 b0
  simp only [be32, List.cons.injEq] at h
  exact ⟨h.2.1, h.2.2.1⟩

/-- A byte masked out of a word and shifted down. -/
theorem ushiftRight_and_byte (v : BitVec 32) {s : Nat} (hs : s ≤ 24) :
    (v &&& ((0xff : BitVec 32) <<< s)) >>> s = (byteAt v s).setWidth 32 := by
  have hmask : ∀ i < 32, (0xff : BitVec 32).getLsbD i = decide (i < 8) := by decide
  apply BitVec.eq_of_getLsbD_eq
  intro i hi
  rw [BitVec.getLsbD_ushiftRight, BitVec.getLsbD_and, BitVec.getLsbD_setWidth, byteAt,
    BitVec.getLsbD_setWidth, BitVec.getLsbD_ushiftRight, BitVec.getLsbD_shiftLeft,
    Nat.add_sub_cancel_left, hmask i hi]
  rcases Nat.lt_or_ge i 8 with h8 | h8
  · have h32 : s + i < 32 := by omega
    simp [-BitVec.getLsbD_eq_getElem, h8, hi, h32]
  · have hge : ¬ i < 8 := by omega
    simp [-BitVec.getLsbD_eq_getElem, hge]

/-- Bytes in groups of four as big-endian words; a rest of fewer than four is dropped. -/
def words32 : List Byte → List (BitVec 32)
  | b3 :: b2 :: b1 :: b0 :: bs => word32 b3 b2 b1 b0 :: words32 bs
  | _ => []

/-- The words of whole groups are those bytes. -/
theorem flatMap_be32_words32 (n : Nat) : ∀ {bs : List Byte}, bs.length = 4 * n →
    (words32 bs).flatMap be32 = bs ∧ (words32 bs).length = n := by
  induction n with
  | zero =>
    intro bs h
    rw [List.eq_nil_of_length_eq_zero h]
    exact ⟨rfl, rfl⟩
  | succ n ih =>
    intro bs h
    match bs, h with
    | b3 :: b2 :: b1 :: b0 :: bs, h =>
      have hrest : bs.length = 4 * n := by
        simp only [List.length_cons] at h
        omega
      obtain ⟨hbytes, hlen⟩ := ih hrest
      refine ⟨?_, ?_⟩
      · rw [words32, List.flatMap_cons, be32_word32, hbytes]
        rfl
      · rw [words32, List.length_cons, hlen]

theorem length_flatMap_be32 (ws : List (BitVec 32)) : (ws.flatMap be32).length = 4 * ws.length := by
  induction ws with
  | nil => rfl
  | cons w ws ih =>
    rw [List.flatMap_cons, List.length_append, ih, length_be32, List.length_cons]
    omega

/-- Reads from the front of a byte list. -/
abbrev Reader := StateT (List Byte) Option

namespace Reader

/-- The next byte. -/
def u8 : Reader Byte := fun
  | [] => none
  | b :: rest => some (b, rest)

/-- The next 16-bit word, high byte first. -/
def u16 : Reader (BitVec 16) := do
  let b1 ← u8
  let b0 ← u8
  return word16 b1 b0

/-- The next 32-bit word, high byte first. -/
def u32 : Reader (BitVec 32) := do
  let b3 ← u8
  let b2 ← u8
  let b1 ← u8
  let b0 ← u8
  return word32 b3 b2 b1 b0

/-- The next 32-bit words. -/
def u32s : Nat → Reader (List (BitVec 32))
  | 0 => return []
  | n + 1 => do
    let v ← u32
    let vs ← u32s n
    return v :: vs

variable {α : Type}

@[simp] theorem run_pure (a : α) (rest : List Byte) :
    (pure a : Reader α).run rest = some (a, rest) := rfl

/-- A reader whose first part is known goes on with what that part leaves. -/
theorem bind_run {β : Type} {x : Reader β} {b : β} {bs rest : List Byte}
    (h : x.run bs = some (b, rest)) (f : β → Reader α) : (x >>= f).run bs = (f b).run rest := by
  rw [StateT.run_bind, h]
  rfl

@[simp] theorem u8_bind (f : Byte → Reader α) (b : Byte) (rest : List Byte) :
    (u8 >>= f).run (b :: rest) = (f b).run rest := rfl

@[simp] theorem u16_bind (f : BitVec 16 → Reader α) (v : BitVec 16) (rest : List Byte) :
    (u16 >>= f).run (be16 v ++ rest) = (f v).run rest := by
  have h : (u16 >>= f).run (be16 v ++ rest) = (f (word16 (byteAt v 8) (byteAt v 0))).run rest := rfl
  rw [h, word16_byteAt]

@[simp] theorem u32_bind (f : BitVec 32 → Reader α) (v : BitVec 32) (rest : List Byte) :
    (u32 >>= f).run (be32 v ++ rest) = (f v).run rest := by
  have h : (u32 >>= f).run (be32 v ++ rest) =
    (f (word32 (byteAt v 24) (byteAt v 16) (byteAt v 8) (byteAt v 0))).run rest := rfl
  rw [h, word32_byteAt]

theorem u32s_run (vs : List (BitVec 32)) (rest : List Byte) :
    (u32s vs.length).run (vs.flatMap be32 ++ rest) = some (vs, rest) := by
  induction vs with
  | nil => rfl
  | cons v vs ih => rw [List.length_cons, u32s, List.flatMap_cons, List.append_assoc, u32_bind,
      bind_run ih, run_pure]

theorem u32s_bind (f : List (BitVec 32) → Reader α) {n : Nat} (vs : List (BitVec 32))
    (rest : List Byte) (hn : vs.length = n) :
    (u32s n >>= f).run (vs.flatMap be32 ++ rest) = (f vs).run rest :=
  bind_run (hn ▸ u32s_run vs rest) f

end Reader

end LibretroUae.Lib
