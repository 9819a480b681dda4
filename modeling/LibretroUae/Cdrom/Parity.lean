import LibretroUae.Lib.Bytes
import LibretroUae.Lib.Crc
import LibretroUae.Lib.Loop
import LibretroUae.Lib.ParityCode
import Mathlib.Tactic.IntervalCases

/-!
# LibretroUae.Cdrom.Parity

**The parity bytes of a data sector.** The 2064 bytes behind the sync mark are 86 columns of 24
bytes, to each of which two bytes of P parity are added; the 2236 bytes are then 52 diagonals of 43,
each with two bytes of Q parity. Products are looked up by their logarithms.

The tables of `encode_L2_P` and `encode_L2_Q` hold what makes a column and its parity a good word of
`Lib.ParityCode`: column by column the parity is that word's, whatever the data.
-/

namespace LibretroUae.Cdrom

open Lib
open Lib.Crc (shiftUp)

/-- `rs_l12_alog`. -/
def rsL12Alog : List Nat :=
  [1, 2, 4, 8, 16, 32, 64, 128, 29, 58, 116, 232, 205, 135, 19, 38, 76, 152, 45, 90, 180, 117, 234,
  201, 143, 3, 6, 12, 24, 48, 96, 192, 157, 39, 78, 156, 37, 74, 148, 53, 106, 212, 181, 119, 238,
  193, 159, 35, 70, 140, 5, 10, 20, 40, 80, 160, 93, 186, 105, 210, 185, 111, 222, 161, 95, 190,
  97, 194, 153, 47, 94, 188, 101, 202, 137, 15, 30, 60, 120, 240, 253, 231, 211, 187, 107, 214,
  177, 127, 254, 225, 223, 163, 91, 182, 113, 226, 217, 175, 67, 134, 17, 34, 68, 136, 13, 26, 52,
  104, 208, 189, 103, 206, 129, 31, 62, 124, 248, 237, 199, 147, 59, 118, 236, 197, 151, 51, 102,
  204, 133, 23, 46, 92, 184, 109, 218, 169, 79, 158, 33, 66, 132, 21, 42, 84, 168, 77, 154, 41,
  82, 164, 85, 170, 73, 146, 57, 114, 228, 213, 183, 115, 230, 209, 191, 99, 198, 145, 63, 126,
  252, 229, 215, 179, 123, 246, 241, 255, 227, 219, 171, 75, 150, 49, 98, 196, 149, 55, 110, 220,
  165, 87, 174, 65, 130, 25, 50, 100, 200, 141, 7, 14, 28, 56, 112, 224, 221, 167, 83, 166, 81,
  162, 89, 178, 121, 242, 249, 239, 195, 155, 43, 86, 172, 69, 138, 9, 18, 36, 72, 144, 61, 122,
  244, 245, 247, 243, 251, 235, 203, 139, 11, 22, 44, 88, 176, 125, 250, 233, 207, 131, 27, 54,
  108, 216, 173, 71, 142]

/-- `rs_l12_log`. -/
def rsL12Log : List Nat :=
  [0, 0, 1, 25, 2, 50, 26, 198, 3, 223, 51, 238, 27, 104, 199, 75, 4, 100, 224, 14, 52, 141, 239,
  129, 28, 193, 105, 248, 200, 8, 76, 113, 5, 138, 101, 47, 225, 36, 15, 33, 53, 147, 142, 218,
  240, 18, 130, 69, 29, 181, 194, 125, 106, 39, 249, 185, 201, 154, 9, 120, 77, 228, 114, 166, 6,
  191, 139, 98, 102, 221, 48, 253, 226, 152, 37, 179, 16, 145, 34, 136, 54, 208, 148, 206, 143,
  150, 219, 189, 241, 210, 19, 92, 131, 56, 70, 64, 30, 66, 182, 163, 195, 72, 126, 110, 107, 58,
  40, 84, 250, 133, 186, 61, 202, 94, 155, 159, 10, 21, 121, 43, 78, 212, 229, 172, 115, 243, 167,
  87, 7, 112, 192, 247, 140, 128, 99, 13, 103, 74, 222, 237, 49, 197, 254, 24, 227, 165, 153, 119,
  38, 184, 180, 124, 17, 68, 146, 217, 35, 32, 137, 46, 55, 63, 209, 91, 149, 188, 207, 205, 144,
  135, 151, 178, 220, 252, 190, 97, 242, 86, 211, 171, 20, 42, 93, 158, 132, 60, 57, 83, 71, 109,
  65, 162, 31, 45, 67, 216, 183, 123, 164, 118, 196, 23, 73, 236, 127, 12, 111, 246, 108, 161, 59,
  82, 41, 157, 85, 170, 251, 96, 134, 177, 187, 204, 62, 90, 203, 89, 95, 176, 156, 169, 160, 81,
  11, 245, 22, 235, 122, 117, 44, 215, 79, 174, 213, 233, 230, 231, 173, 232, 116, 214, 244, 234,
  168, 80, 88, 175]

/-- `DQ`. -/
def dq : List Nat × List Nat :=
  (
    [190, 96, 250, 132, 59, 81, 159, 154, 200, 7, 111, 245, 10, 20, 41, 156, 168, 79, 173, 231,
    229, 171, 210, 240, 17, 67, 215, 43, 120, 8, 199, 74, 102, 220, 251, 95, 175, 87, 166, 113,
    75, 198, 25],
    [97, 251, 133, 60, 82, 160, 155, 201, 8, 112, 246, 11, 21, 42, 157, 169, 80, 174, 232, 230,
    172, 211, 241, 18, 68, 216, 44, 121, 9, 200, 75, 103, 221, 252, 96, 176, 88, 167, 114, 76,
    199, 26, 1])

/-- `DP`. -/
def dp : List Nat × List Nat :=
  (
    [231, 229, 171, 210, 240, 17, 67, 215, 43, 120, 8, 199, 74, 102, 220, 251, 95, 175, 87, 166,
    113, 75, 198, 25],
    [230, 172, 211, 241, 18, 68, 216, 44, 121, 9, 200, 75, 103, 221, 252, 96, 176, 88, 167, 114,
    76, 199, 26, 1])

/-- What is looked up for a logarithm. -/
def alog (k : Nat) : Byte := BitVec.ofNat 8 (rsL12Alog.getD k 0)

/-! ### Products by logarithms -/

theorem alog_succ : ∀ k < 254, alog (k + 1) = shiftUp 0x1d (alog k) := by
  decide +kernel

theorem alog_ne_one : ∀ k < 255, 0 < k → alog k ≠ 1 := by
  decide +kernel

/-- Every byte but zero is a power. -/
theorem alog_log : ∀ a : Fin 256, (a : Nat) ≠ 0 → rsL12Log.getD a 0 < 255 ∧
    alog (rsL12Log.getD a 0) = BitVec.ofNat 8 a := by
  decide +kernel

theorem alog_eq {k : Nat} (hk : k < 255) : alog k = (shiftUp 0x1d)^[k] 1 := by
  induction k with
  | zero => rfl
  | succ k ih =>
    rw [alog_succ k (Nat.lt_of_succ_lt_succ hk), ih (Nat.lt_of_succ_lt hk),
      Function.iterate_succ_apply']

theorem exists_log (a : Byte) (ha : a ≠ 0) :
    rsL12Log.getD a.toNat 0 < 255 ∧ (shiftUp 0x1d)^[rsL12Log.getD a.toNat 0] 1 = a := by
  have hne : a.toNat ≠ 0 := fun h => ha (BitVec.eq_of_toNat_eq h)
  obtain ⟨hlt, hlog⟩ := alog_log ⟨a.toNat, a.isLt⟩ hne
  refine ⟨hlt, ?_⟩
  rw [← alog_eq hlt, hlog]
  exact BitVec.ofNat_toNat 8 a

theorem shiftUp_period (a : Byte) : (shiftUp 0x1d)^[255] a = a := by
  by_cases ha : a = 0
  · subst ha
    exact Function.iterate_fixed Crc.shiftUp_zero 255
  · obtain ⟨-, hlog⟩ := exists_log a ha
    have hone : (shiftUp (0x1d : Byte))^[255] 1 = 1 := by
      rw [Function.iterate_succ_apply', ← alog_eq (by decide)]
      decide
    rw [← hlog, ← Function.iterate_add_apply, Nat.add_comm, Function.iterate_add_apply, hone]

theorem shiftUp_injective : Function.Injective (shiftUp (0x1d : Byte)) := by
  have hback : Function.LeftInverse (shiftUp (0x1d : Byte))^[254] (shiftUp 0x1d) := fun a => by
    rw [← Function.iterate_succ_apply, shiftUp_period]
  exact hback.injective

/-- The factor of the parity: a shift of a byte with the polynomial's lower bits. -/
def factor : Factor 8 255 where
  mul := shiftUp 0x1d
  mul_xor := Crc.shiftUp_xor
  pos := by decide
  period := shiftUp_period
  free := by
    intro k a hpos hk hfix
    by_contra ha
    obtain ⟨-, hlog⟩ := exists_log a ha
    rw [← hlog, ← Function.iterate_add_apply, Nat.add_comm, Function.iterate_add_apply] at hfix
    have hone := shiftUp_injective.iterate _ hfix
    rw [← alog_eq hk] at hone
    exact alog_ne_one k hk hpos hone

/-! ### Encoding -/

/-- A buffer of bytes. -/
abbrev Buffer := Nat → Byte

/-- `sum`, taken back below the order. -/
def wrapLog (sum : Nat) : Nat := if sum ≥ 255 then sum - 255 else sum

/-- What is looked up for a byte that is not zero, and an exponent. -/
def product (data : Byte) (exponent : Nat) : Byte :=
  alog (wrapLog (rsL12Log.getD data.toNat 0 + exponent))

/-- A byte is added to the two parity bytes of its column. -/
def addParity (d : List Nat × List Nat) (i : Nat) (data : Byte) (p0 p1 : Nat) (f : Buffer) :
    Buffer :=
  if data ≠ 0 then
    let f := Function.update f p0 (f p0 ^^^ product data (d.1.getD i 0))
    Function.update f p1 (f p1 ^^^ product data (d.2.getD i 0))
  else f

/-- Columns of bytes in pairs, the lower byte first, with their parity behind the data. -/
structure Layout where
  /-- The bytes of a column. -/
  rows : Nat
  /-- The pairs of columns. -/
  pairs : Nat
  /-- Where byte `i` of the columns `2 * j + b` is. -/
  pos : Nat → Nat → Nat → Nat
  /-- Where the parity begins. -/
  base : Nat
  d : List Nat × List Nat
  pos_lt : ∀ j < pairs, ∀ i < rows, ∀ b < 2, pos j i b < base
  exponent_lt : ∀ i < rows, d.1.getD i 0 < 254 ∧ d.2.getD i 0 < 255
  short : rows + 1 < 255
  parity0 : ∀ i < rows, 1 ^^^ alog (d.1.getD i 0) ^^^ alog (d.2.getD i 0) = 0
  parity1 : ∀ i < rows,
    alog (rows + 1 - i) ^^^ alog (d.1.getD i 0 + 1) ^^^ alog (d.2.getD i 0) = 0

namespace Layout

variable (l : Layout)

/-- A parity byte of a column. -/
def cell (h c : Nat) : Nat := l.base + 2 * l.pairs * h + c

/-- A round of the inner loop: LSB and MSB. -/
def round (j i : Nat) (f : Buffer) : Buffer :=
  let f := addParity l.d i (f (l.pos j i 0)) (l.cell 0 (2 * j)) (l.cell 1 (2 * j)) f
  addParity l.d i (f (l.pos j i 1)) (l.cell 0 (2 * j + 1)) (l.cell 1 (2 * j + 1)) f

/-- `memset`, and the two loops. -/
def encode (inout : Buffer) : Buffer :=
  loop (fun j => loop (l.round j) l.rows) l.pairs
    fun k => if l.base ≤ k ∧ k < l.base + 4 * l.pairs then 0 else inout k

/-- The bytes of a column and its parity. -/
def symbols (f : Buffer) (c i : Nat) : Byte :=
  if i < l.rows then f (l.pos (c / 2) i (c % 2)) else f (l.cell (i - l.rows) c)

end Layout

/-- `encode_L2_P`. -/
def layoutP : Layout where
  rows := 24
  pairs := 43
  pos j i b := 2 * j + i * 2 * 43 + b
  base := 4 + 1024 * 2 + 4 + 8
  d := dp
  pos_lt := by omega
  exponent_lt := by decide
  short := by decide
  parity0 := by decide
  parity1 := by decide

/-- `encode_L2_Q`. -/
def layoutQ : Layout where
  rows := 43
  pairs := 26
  pos j i b := (j * 43 * 2 + i * 2 * 44 + b) % (4 + 1024 * 2 + 4 + 8 + 43 * 2 * 2)
  base := 4 + 1024 * 2 + 4 + 8 + 43 * 2 * 2
  d := dq
  pos_lt _ _ _ _ _ _ := Nat.mod_lt _ (by decide)
  exponent_lt := by decide
  short := by decide
  parity0 := by decide
  parity1 := by decide

def encodeL2P (inout : Buffer) : Buffer := layoutP.encode inout

def encodeL2Q (inout : Buffer) : Buffer := layoutQ.encode inout

/-! ### What a round adds -/

theorem product_eq {data : Byte} (hdata : data ≠ 0) {e : Nat} (he : e < 255) :
    product data e = factor.pow e data := by
  obtain ⟨hlt, hlog⟩ := exists_log data hdata
  have hwrap : ∀ sum < 255 + 255, alog (wrapLog sum) = factor.pow sum 1 := by
    intro sum hsum
    rw [wrapLog]
    split
    · next hge =>
      have hback : factor.pow 255 1 = 1 := shiftUp_period 1
      have hsplit : sum = sum - 255 + 255 := (Nat.sub_add_cancel hge).symm
      rw [alog_eq (Nat.sub_lt_left_of_lt_add hge hsum)]
      conv_rhs => rw [hsplit, Factor.pow_add, hback]
      rfl
    · next hlt => exact alog_eq (Nat.lt_of_not_le hlt)
  rw [product, hwrap _ (Nat.add_lt_add hlt he), Nat.add_comm, Factor.pow_add]
  exact congrArg _ hlog

theorem addParity_apply {d : List Nat × List Nat} {i : Nat} (h0 : d.1.getD i 0 < 255)
    (h1 : d.2.getD i 0 < 255) (data : Byte) {p0 p1 : Nat} (hp : p0 ≠ p1) (f : Buffer) (k : Nat) :
    addParity d i data p0 p1 f k =
      if k = p0 then f k ^^^ factor.pow (d.1.getD i 0) data
      else if k = p1 then f k ^^^ factor.pow (d.2.getD i 0) data
      else f k := by
  rw [addParity]
  by_cases hdata : data = 0
  · subst hdata
    simp [Factor.pow_apply_zero]
  · rw [if_pos hdata, product_eq hdata h0, product_eq hdata h1]
    simp only [Function.update_apply, if_neg (Ne.symm hp)]
    split_ifs with hk1 hk0
    · exact absurd (hk0.symm.trans hk1) hp
    · rw [hk1]
    · next hk0 => rw [hk0]
    · rfl

namespace Layout

variable (l : Layout)

def exponent (h i : Nat) : Nat := if h = 0 then l.d.1.getD i 0 else l.d.2.getD i 0

theorem cell_inj {h h' c c' : Nat} (hh : h < 2) (hh' : h' < 2) (hc : c < 2 * l.pairs)
    (hc' : c' < 2 * l.pairs) (heq : l.cell h c = l.cell h' c') : h = h' ∧ c = c' := by
  simp only [cell] at heq
  interval_cases h <;> interval_cases h' <;> simp at heq ⊢ <;> omega

theorem le_cell (h c : Nat) : l.base ≤ l.cell h c := by
  rw [cell, Nat.add_assoc]
  exact Nat.le_add_right _ _

theorem cell_lt {h c : Nat} (hh : h < 2) (hc : c < 2 * l.pairs) :
    l.cell h c < l.base + 4 * l.pairs := by
  interval_cases h <;> simp only [cell] <;> omega

/-- Neither among the data nor behind the parity is anything changed. -/
def Outside (k : Nat) : Prop := k < l.base ∨ l.base + 4 * l.pairs ≤ k

variable {l} {i : Nat} (hi : i < l.rows)

include hi

theorem addParity_cell (data : Byte) {c₀ : Nat} (hc₀ : c₀ < 2 * l.pairs) (f : Buffer) {h c : Nat}
    (hh : h < 2) (hc : c < 2 * l.pairs) :
    addParity l.d i data (l.cell 0 c₀) (l.cell 1 c₀) f (l.cell h c) =
      if c = c₀ then f (l.cell h c) ^^^ factor.pow (l.exponent h i) data else f (l.cell h c) := by
  obtain ⟨h0, h1⟩ := l.exponent_lt i hi
  have hne : l.cell 0 c₀ ≠ l.cell 1 c₀ := fun heq =>
    absurd (l.cell_inj (by decide) (by decide) hc₀ hc₀ heq).1 (by decide)
  rw [addParity_apply (Nat.lt_succ_of_lt h0) h1 data hne]
  by_cases hcc : c = c₀
  · subst hcc
    interval_cases h
    · simp [exponent]
    · simp [exponent, hne.symm]
  · have hother : ∀ h' < 2, l.cell h c ≠ l.cell h' c₀ := fun h' hh' heq =>
      hcc (l.cell_inj hh hh' hc hc₀ heq).2
    rw [if_neg (hother 0 (by decide)), if_neg (hother 1 (by decide)), if_neg hcc]

theorem addParity_outside (data : Byte) {c₀ : Nat} (hc₀ : c₀ < 2 * l.pairs) (f : Buffer) {k : Nat}
    (hk : l.Outside k) : addParity l.d i data (l.cell 0 c₀) (l.cell 1 c₀) f k = f k := by
  obtain ⟨h0, h1⟩ := l.exponent_lt i hi
  have hne : l.cell 0 c₀ ≠ l.cell 1 c₀ := fun heq =>
    absurd (l.cell_inj (by decide) (by decide) hc₀ hc₀ heq).1 (by decide)
  have hother : ∀ h < 2, k ≠ l.cell h c₀ := by
    rintro h hh rfl
    have hlt := l.cell_lt hh hc₀
    have hge := l.le_cell h c₀
    rcases hk with hk | hk <;> omega
  rw [addParity_apply (Nat.lt_succ_of_lt h0) h1 data hne, if_neg (hother 0 (by decide)),
    if_neg (hother 1 (by decide))]

variable {j : Nat} (hj : j < l.pairs)

include hj

theorem round_outside (f : Buffer) {k : Nat} (hk : l.Outside k) : l.round j i f k = f k := by
  rw [round, addParity_outside hi _ (by omega) _ hk, addParity_outside hi _ (by omega) _ hk]

/-- A round adds a byte to the parity of each of its two columns. -/
theorem round_cell (f : Buffer) {h c : Nat} (hh : h < 2) (hc : c < 2 * l.pairs) :
    l.round j i f (l.cell h c) =
      if c / 2 = j then
        f (l.cell h c) ^^^ factor.pow (l.exponent h i) (f (l.pos j i (c % 2)))
      else f (l.cell h c) := by
  rw [round, addParity_cell hi _ (by omega) _ hh hc, addParity_cell hi _ (by omega) _ hh hc,
    addParity_outside hi _ (by omega) _ (.inl (l.pos_lt j hj i hi 1 (by decide)))]
  by_cases hcj : c / 2 = j
  · rcases Nat.mod_two_eq_zero_or_one c with hmod | hmod
    · have hlow : c = 2 * j := by omega
      simp [hlow]
    · have hhigh : c = 2 * j + 1 := by omega
      have hdiv : (2 * j + 1) / 2 = j := by omega
      simp [hhigh, hdiv]
  · have hlow : c ≠ 2 * j := by omega
    have hhigh : c ≠ 2 * j + 1 := by omega
    simp [hcj, hlow, hhigh]

omit hi

/-! ### The loops -/

/-- The sum that a parity byte is. -/
def paritySum (l : Layout) (f : Buffer) (h c n : Nat) : Byte :=
  xorSum (fun i => factor.pow (l.exponent h i) (f (l.pos (c / 2) i (c % 2)))) n

theorem loop_round {m : Nat} (hm : m ≤ l.rows) (f : Buffer) :
    (∀ k, l.Outside k → loop (l.round j) m f k = f k) ∧
    ∀ h < 2, ∀ c < 2 * l.pairs, loop (l.round j) m f (l.cell h c) =
      if c / 2 = j then f (l.cell h c) ^^^ l.paritySum f h c m else f (l.cell h c) := by
  induction m with
  | zero =>
    refine ⟨fun _ _ => rfl, fun h _ c _ => ?_⟩
    simp [loop, paritySum]
  | succ m ih =>
    obtain ⟨houtside, hcell⟩ := ih (Nat.le_of_succ_le hm)
    refine ⟨fun k hk => ?_, fun h hh c hc => ?_⟩
    · rw [loop_succ, round_outside hm hj _ hk, houtside k hk]
    · rw [loop_succ, round_cell hm hj _ hh hc, hcell h hh c hc]
      by_cases hcj : c / 2 = j
      · have hdata := houtside (l.pos j m (c % 2))
          (.inl (l.pos_lt j hj m hm _ (Nat.mod_lt c (by decide))))
        rw [if_pos hcj, if_pos hcj, if_pos hcj, hdata, paritySum, paritySum, xorSum_succ, hcj,
          BitVec.xor_assoc]
      · simp only [if_neg hcj]

omit hj

theorem loop_loop_round {m : Nat} (hm : m ≤ l.pairs) (f : Buffer) :
    (∀ k, l.Outside k → loop (fun j => loop (l.round j) l.rows) m f k = f k) ∧
    ∀ h < 2, ∀ c < 2 * l.pairs, loop (fun j => loop (l.round j) l.rows) m f (l.cell h c) =
      if c / 2 < m then f (l.cell h c) ^^^ l.paritySum f h c l.rows else f (l.cell h c) := by
  induction m with
  | zero => exact ⟨fun _ _ => rfl, fun h _ c _ => by simp [loop]⟩
  | succ m ih =>
    obtain ⟨houtside, hcell⟩ := ih (Nat.le_of_succ_le hm)
    obtain ⟨hround, hadded⟩ :=
      loop_round hm (Nat.le_refl l.rows) (loop (fun j => loop (l.round j) l.rows) m f)
    refine ⟨fun k hk => ?_, fun h hh c hc => ?_⟩
    · rw [loop_succ, hround k hk, houtside k hk]
    · have hsum : l.paritySum (loop (fun j => loop (l.round j) l.rows) m f) h c l.rows =
          l.paritySum f h c l.rows := by
        refine xorSum_congr fun i hi => ?_
        rw [houtside _ (.inl (l.pos_lt _ (by omega) i hi _ (Nat.mod_lt c (by decide))))]
      rw [loop_succ, hadded h hh c hc, hcell h hh c hc, hsum]
      by_cases hcm : c / 2 = m
      · simp [hcm]
      · have hiff : c / 2 < m + 1 ↔ c / 2 < m := by omega
        simp only [if_neg hcm, hiff]

theorem encode_outside (f : Buffer) {k : Nat} (hk : l.Outside k) : l.encode f k = f k := by
  rw [encode, (loop_loop_round (Nat.le_refl _) _).1 k hk, if_neg]
  rintro ⟨hge, hlt⟩
  rcases hk with hk | hk
  · exact absurd hk (Nat.not_lt_of_le hge)
  · exact absurd hlt (Nat.not_lt_of_le hk)

theorem encode_cell (f : Buffer) {h c : Nat} (hh : h < 2) (hc : c < 2 * l.pairs) :
    l.encode f (l.cell h c) = l.paritySum f h c l.rows := by
  have hj : c / 2 < l.pairs := by omega
  rw [encode, (loop_loop_round (Nat.le_refl _) _).2 h hh c hc, if_pos hj,
    if_pos ⟨l.le_cell h c, l.cell_lt hh hc⟩]
  refine (BitVec.zero_xor).trans (xorSum_congr fun i hi => ?_)
  have hlt := l.pos_lt _ hj i hi _ (Nat.mod_lt c (by decide))
  exact congrArg _ (if_neg fun h => Nat.not_lt_of_le h.1 hlt)

/-! ### Columns -/

/-- What holds of one holds of every byte. -/
theorem pow_sum_eq_zero {x y z : Nat}
    (h : factor.pow x 1 ^^^ factor.pow y 1 ^^^ factor.pow z 1 = 0) (a : Byte) :
    factor.pow x a ^^^ factor.pow y a ^^^ factor.pow z a = 0#8 := by
  by_cases ha : a = 0
  · subst ha
    have hzero : ∀ k, factor.pow k (0 : Byte) = 0#8 := factor.pow_apply_zero
    rw [hzero, hzero, hzero]
    rfl
  · obtain ⟨-, hlog⟩ := exists_log a ha
    replace hlog : factor.pow (rsL12Log.getD a.toNat 0) 1 = a := hlog
    generalize rsL12Log.getD a.toNat 0 = k at hlog
    rw [← hlog, factor.pow_comm x, factor.pow_comm y, factor.pow_comm z, ← factor.pow_xor,
      ← factor.pow_xor, h]
    exact factor.pow_apply_zero k

/-- Every column with its parity is a good word. -/
theorem encode_codeword (l : Layout) (f : Buffer) {c : Nat} (hc : c < 2 * l.pairs) :
    factor.Codeword (l.symbols (l.encode f) c) (l.rows + 2) := by
  have hj : c / 2 < l.pairs := by omega
  have hdata : ∀ i < l.rows, l.symbols (l.encode f) c i = f (l.pos (c / 2) i (c % 2)) := by
    intro i hi
    rw [symbols, if_pos hi]
    exact encode_outside f (.inl (l.pos_lt _ hj i hi _ (Nat.mod_lt c (by decide))))
  have hparity : ∀ h < 2, l.symbols (l.encode f) c (l.rows + h) =
      xorSum (fun i => factor.pow (l.exponent h i) (l.symbols (l.encode f) c i)) l.rows := by
    intro h hh
    have hcell : l.rows + h - l.rows = h := Nat.add_sub_cancel_left ..
    rw [symbols, if_neg (Nat.not_lt_of_le (Nat.le_add_right ..)), hcell, encode_cell f hh hc]
    exact xorSum_congr fun i hi => by rw [hdata i hi]
  refine Factor.codeword_of_parity ?_ ?_ (hparity 0 (by decide)) (hparity 1 (by decide))
  · intro i hi a
    have hone := l.parity0 i hi
    obtain ⟨h0, h1⟩ := l.exponent_lt i hi
    rw [alog_eq (Nat.lt_succ_of_lt h0), alog_eq h1] at hone
    exact @pow_sum_eq_zero 0 _ _ hone a
  · intro i hi a
    have hone := l.parity1 i hi
    have hshort := l.short
    obtain ⟨h0, h1⟩ := l.exponent_lt i hi
    rw [alog_eq (by omega), alog_eq (Nat.succ_lt_succ h0), alog_eq h1] at hone
    exact pow_sum_eq_zero hone a

end Layout

end LibretroUae.Cdrom
