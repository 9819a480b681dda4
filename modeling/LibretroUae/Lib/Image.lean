import LibretroUae.Lib.Bytes
import Mathlib.Algebra.BigOperators.Group.Finset.Basic
import Mathlib.Tactic.Ring

/-!
# LibretroUae.Lib.Image

**Byte images.** An image is a byte at every address. Writers put a list of bytes
or a big-endian longword somewhere and leave every other address alone; readers take
a slice or a longword. The lemmas say what a reader sees after a write: the written
bytes at the same place, the old ones at a disjoint place.
-/

namespace LibretroUae.Lib

/-- A byte at every address. -/
abbrev Image := Nat → Byte

namespace Image

variable {m m' : Image} {off off' len n : Nat} {bs : List Byte}

/-- `bs` written at `off`. -/
def blit (m : Image) (off : Nat) (bs : List Byte) : Image := fun i =>
  if off ≤ i ∧ i < off + bs.length then bs.getD (i - off) 0 else m i

/-- The `len` bytes at `off`. -/
def slice (m : Image) (off len : Nat) : List Byte := (List.range len).map fun i => m (off + i)

/-- The big-endian longword at `off`. -/
def getLong (m : Image) (off : Nat) : Nat :=
  (m off).toNat * 2 ^ 24 + (m (off + 1)).toNat * 2 ^ 16 + (m (off + 2)).toNat * 2 ^ 8 +
    (m (off + 3)).toNat

/-- The four bytes of a longword. -/
def longBytes (v : Nat) : List Byte :=
  [.ofNat 8 (v / 2 ^ 24), .ofNat 8 (v / 2 ^ 16), .ofNat 8 (v / 2 ^ 8), .ofNat 8 v]

/-- The longword `v` written at `off`. -/
def putLong (m : Image) (off v : Nat) : Image := m.blit off (longBytes v)

/-- `m` and `m'` hold the same `len` bytes at `off`. -/
def Agree (m m' : Image) (off len : Nat) : Prop := ∀ i, off ≤ i → i < off + len → m' i = m i

/-! ### Slices -/

@[simp] theorem length_slice (m : Image) (off len : Nat) : (m.slice off len).length = len := by
  simp [slice]

theorem getElem_slice (m : Image) (off len : Nat) {i : Nat} (hi : i < (m.slice off len).length) :
    (m.slice off len)[i] = m (off + i) := by
  simp [slice]

theorem slice_add (m : Image) (off a b : Nat) :
    m.slice off (a + b) = m.slice off a ++ m.slice (off + a) b := by
  simp [slice, List.range_add, Nat.add_assoc]

theorem slice_zero (m : Image) (off : Nat) : m.slice off 0 = [] := rfl

theorem Agree.slice (h : Agree m m' off len) : m'.slice off len = m.slice off len := by
  refine List.map_congr_left fun i hi => h _ (Nat.le_add_right _ _) ?_
  have := List.mem_range.mp hi
  omega

theorem agree_of_slice (h : m'.slice off len = m.slice off len) : Agree m m' off len := by
  intro i hle hlt
  have hi : i - off < len := by omega
  have h1 := getElem_slice m' off len (i := i - off) (by simpa using hi)
  have h2 := getElem_slice m off len (i := i - off) (by simpa using hi)
  simp only [h] at h1
  rw [h1] at h2
  rwa [Nat.add_sub_cancel' hle] at h2

theorem Agree.refl (m : Image) (off len : Nat) : Agree m m off len := fun _ _ _ => rfl

theorem Agree.symm (h : Agree m m' off len) : Agree m' m off len := fun i h1 h2 => (h i h1 h2).symm

theorem Agree.trans {m'' : Image} (h : Agree m m' off len) (h' : Agree m' m'' off len) :
    Agree m m'' off len := fun i h1 h2 => (h' i h1 h2).trans (h i h1 h2)

theorem Agree.mono (h : Agree m m' off len) (h1 : off ≤ off') (h2 : off' + n ≤ off + len) :
    Agree m m' off' n := fun i h3 h4 => h i (by omega) (by omega)

/-! ### Writes -/

theorem blit_of_lt {i : Nat} (h : i < off) : m.blit off bs i = m i := by
  rw [blit, if_neg (by omega)]

theorem blit_of_ge {i : Nat} (h : off + bs.length ≤ i) : m.blit off bs i = m i := by
  rw [blit, if_neg (by omega)]

theorem blit_nil (m : Image) (off : Nat) : m.blit off [] = m := by
  funext i
  rw [blit, if_neg]
  simp only [List.length_nil]
  omega

/-- A slice of an image written somewhere. -/
theorem blit_slice_apply (m m' : Image) (off src len a : Nat) :
    m.blit off (m'.slice src len) a =
      if off ≤ a ∧ a < off + len then m' (src + (a - off)) else m a := by
  rw [blit, length_slice]
  split_ifs with hi
  · have hlt : a - off < (m'.slice src len).length := by
      rw [length_slice]
      omega
    rw [List.getD_eq_getElem?_getD, List.getElem?_eq_getElem hlt, Option.getD_some, getElem_slice]
  · rfl

/-- A slice written where it was read. -/
theorem blit_slice_same (m m' : Image) (off len a : Nat) :
    m.blit off (m'.slice off len) a = if off ≤ a ∧ a < off + len then m' a else m a := by
  rw [blit_slice_apply]
  split_ifs with hi
  · rw [Nat.add_sub_cancel' hi.1]
  · rfl

/-- Bytes written where they were read. -/
theorem blit_slice (m : Image) (off len : Nat) : m.blit off (m.slice off len) = m := by
  funext i
  rw [blit_slice_same, ite_self]

/-- A second write of the same length at the same place wins. -/
theorem blit_blit {bs' : List Byte} (h : bs.length = bs'.length) :
    (m.blit off bs').blit off bs = m.blit off bs := by
  funext i
  by_cases hi : off ≤ i ∧ i < off + bs.length
  · rw [blit, if_pos hi, blit, if_pos hi]
  · rw [blit, if_neg hi, blit, if_neg (h ▸ hi), blit, if_neg hi]

/-- A write leaves every disjoint range as it was. -/
theorem agree_blit (h : off' + len ≤ off ∨ off + bs.length ≤ off') :
    Agree m (m.blit off bs) off' len := by
  intro i h1 h2
  rcases h with h | h
  · exact blit_of_lt (by omega)
  · exact blit_of_ge (by omega)

/-- Writing in two parts. -/
theorem blit_append (m : Image) (off : Nat) (a b : List Byte) :
    (m.blit off a).blit (off + a.length) b = m.blit off (a ++ b) := by
  funext j
  simp only [blit, List.length_append, List.getD_eq_getElem?_getD]
  by_cases h1 : off + a.length ≤ j ∧ j < off + a.length + b.length
  · rw [if_pos h1, if_pos (by omega), List.getElem?_append_right (by omega)]
    congr 2
    omega
  · rw [if_neg h1]
    by_cases h2 : off ≤ j ∧ j < off + a.length
    · rw [if_pos h2, if_pos (by omega), List.getElem?_append_left (by omega)]
    · rw [if_neg h2, if_neg (by omega)]

theorem slice_blit (m : Image) (off : Nat) (bs : List Byte) :
    (m.blit off bs).slice off bs.length = bs := by
  refine List.ext_getElem (by simp) fun i h1 h2 => ?_
  rw [getElem_slice, blit, if_pos ⟨by omega, by omega⟩, Nat.add_sub_cancel_left]
  simp [h2]

/-- Part of what was written. -/
theorem slice_blit_part (m : Image) (off a : Nat) {b : Nat} (bs : List Byte)
    (h : a + b ≤ bs.length) : (m.blit off bs).slice (off + a) b = (bs.drop a).take b := by
  refine List.ext_getElem (by simp; omega) fun i h1 h2 => ?_
  have hi : i < b := by simpa using h1
  rw [getElem_slice, blit, if_pos ⟨by omega, by omega⟩]
  have hsub : off + a + i - off = a + i := by omega
  rw [hsub]
  simp [List.getD_eq_getElem?_getD, show a + i < bs.length by omega]

@[simp] theorem length_longBytes (v : Nat) : (longBytes v).length = 4 := rfl

theorem agree_putLong {v : Nat} (h : off' + len ≤ off ∨ off + 4 ≤ off') :
    Agree m (m.putLong off v) off' len := agree_blit h

theorem Agree.getLong (h : Agree m m' off 4) : m'.getLong off = m.getLong off := by
  rw [Image.getLong, Image.getLong, h off (by omega) (by omega), h (off + 1) (by omega) (by omega),
    h (off + 2) (by omega) (by omega), h (off + 3) (by omega) (by omega)]

theorem getLong_putLong (m : Image) (off v : Nat) :
    (m.putLong off v).getLong off = v % 2 ^ 32 := by
  have h : ∀ k < 4, m.putLong off v (off + k) = (longBytes v).getD k 0 := by
    intro k hk
    rw [putLong, blit, if_pos ⟨by omega, by simp; omega⟩, Nat.add_sub_cancel_left]
  have h0 := h 0 (by omega)
  rw [Nat.add_zero] at h0
  rw [getLong, h0, h 1 (by omega), h 2 (by omega), h 3 (by omega)]
  simp only [longBytes, List.getD_cons_zero, List.getD_cons_succ, BitVec.toNat_ofNat]
  omega

theorem getLong_lt (m : Image) (off : Nat) : m.getLong off < 2 ^ 32 := by
  have h0 := (m off).isLt
  have h1 := (m (off + 1)).isLt
  have h2 := (m (off + 2)).isLt
  have h3 := (m (off + 3)).isLt
  rw [getLong]
  omega

/-- Longwords at aligned places are disjoint. -/
theorem getLong_putLong_of_ne {p k j v : Nat} (h : k ≠ j) :
    (m.putLong (p + k * 4) v).getLong (p + j * 4) = m.getLong (p + j * 4) :=
  (agree_putLong (by omega)).getLong

/-! ### Tables of longwords -/

/-- Writes the longwords of a table, each at its index from `p`. -/
def putLongs (m : Image) (p : Nat) (rows : List (Nat × Nat)) : Image :=
  rows.foldl (fun m row => m.putLong (p + row.1 * 4) row.2) m

/-- The value a table gives to an index; later rows win. -/
def field (rows : List (Nat × Nat)) (j : Nat) : Option Nat := rows.reverse.lookup j

/-- In a table with one row for an index that row counts. -/
theorem field_of_mem {rows : List (Nat × Nat)} {row : Nat × Nat}
    (hrows : (rows.map Prod.fst).Nodup) (hrow : row ∈ rows) : field rows row.1 = some row.2 := by
  rw [field]
  have hnodup : (rows.reverse.map Prod.fst).Nodup := by
    rw [List.map_reverse]
    exact List.nodup_reverse.mpr hrows
  have hmem := List.mem_reverse.mpr hrow
  generalize rows.reverse = l at hnodup hmem
  induction l with
  | nil => cases hmem
  | cons r l ih =>
    obtain ⟨hr, htail⟩ := List.nodup_cons.mp hnodup
    rcases List.mem_cons.mp hmem with rfl | htail'
    · exact List.lookup_cons_self
    · have hne : (row.1 == r.1) = false :=
        beq_eq_false_iff_ne.mpr fun heq => hr (heq ▸ List.mem_map_of_mem htail')
      obtain ⟨j, v⟩ := r
      rw [List.lookup_cons, hne]
      exact ih htail htail'

theorem getLong_putLongs (m : Image) (p : Nat) (rows : List (Nat × Nat)) (j : Nat) :
    (m.putLongs p rows).getLong (p + j * 4) =
      ((field rows j).map (· % 2 ^ 32)).getD (m.getLong (p + j * 4)) := by
  induction rows using List.reverseRecOn with
  | nil => rfl
  | append_singleton rows row ih =>
    rw [putLongs, List.foldl_append, List.foldl_cons, List.foldl_nil, field, List.reverse_append,
      List.reverse_cons, List.reverse_nil, List.nil_append, List.singleton_append]
    rw [putLongs, field] at ih
    obtain ⟨k, v⟩ := row
    by_cases hk : k = j
    · subst hk
      rw [getLong_putLong, List.lookup_cons, beq_self_eq_true]
      rfl
    · have hbeq : (j == k) = false := beq_eq_false_iff_ne.mpr (Ne.symm hk)
      rw [getLong_putLong_of_ne hk, ih, List.lookup_cons, hbeq]

/-- A table of fewer than `n` longwords writes nothing outside its `4 * n` bytes. -/
theorem agree_putLongs {p : Nat} {rows : List (Nat × Nat)} (hrows : ∀ row ∈ rows, row.1 < n)
    (h : off + len ≤ p ∨ p + n * 4 ≤ off) : Agree m (m.putLongs p rows) off len := by
  induction rows using List.reverseRecOn with
  | nil => exact Agree.refl _ _ _
  | append_singleton rows row ih =>
    have hrow := hrows row (by simp)
    rw [putLongs, List.foldl_append, List.foldl_cons, List.foldl_nil]
    refine (ih fun r hr => hrows r (by simp [hr])).trans (agree_putLong ?_)
    omega

/-! ### Sums of longwords -/

/-- The sum of the `n` longwords at `off`. -/
def longSum (m : Image) (off n : Nat) : Nat := ∑ i ∈ Finset.range n, m.getLong (off + i * 4)

theorem Agree.longSum (h : Agree m m' off (4 * n)) : m'.longSum off n = m.longSum off n := by
  refine Finset.sum_congr rfl fun i hi => (h.mono (by omega) ?_).getLong
  have := Finset.mem_range.mp hi
  omega

/-- Replacing one longword moves the sum by the difference. -/
theorem longSum_putLong (m : Image) (off v : Nat) {k : Nat} (hk : k < n) :
    (m.putLong (off + k * 4) v).longSum off n + m.getLong (off + k * 4) =
      m.longSum off n + v % 2 ^ 32 := by
  have hmem := Finset.mem_range.mpr hk
  rw [Image.longSum, Image.longSum, ← Finset.add_sum_erase _ _ hmem, ← Finset.add_sum_erase _ _ hmem,
    getLong_putLong]
  have hrest : ∑ i ∈ (Finset.range n).erase k, (m.putLong (off + k * 4) v).getLong (off + i * 4) =
      ∑ i ∈ (Finset.range n).erase k, m.getLong (off + i * 4) :=
    Finset.sum_congr rfl fun i hi => getLong_putLong_of_ne (Finset.ne_of_mem_erase hi).symm
  rw [hrest]
  ring

end Image

end LibretroUae.Lib
