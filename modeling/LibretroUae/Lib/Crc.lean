import Mathlib.Tactic.Common
import Mathlib.Data.BitVec
import Mathlib.Data.List.GetD

/-!
# LibretroUae.Lib.Crc

**Cyclic redundancy checks.** A register of `w` bits is shifted up bit by bit; when the bit that
leaves it differs from the message's, the polynomial is added. The register is linear in both, so
that bytes can be shifted at once out of a table, and what two messages of one length leave differs
by what their difference leaves.

A polynomial with its last bit set loses nothing: a difference of at most `w` bits in a row is never
shifted out again, `feedBits_burst`.
-/

namespace LibretroUae.Lib

namespace Crc

variable {w : Nat} (poly : BitVec w)

/-- One shift of the register, the bit of the message being zero. -/
def shiftUp (c : BitVec w) : BitVec w := (c <<< 1) ^^^ (if c.msb then poly else 0)

/-- One bit of the message. -/
def feed (c : BitVec w) (bit : Bool) : BitVec w :=
  (c <<< 1) ^^^ (if c.msb ^^ bit then poly else 0)

def feedBits (c : BitVec w) (bits : List Bool) : BitVec w := bits.foldl (feed poly) c

/-- `n` shifts. -/
def shiftsUp (n : Nat) (c : BitVec w) : BitVec w := (shiftUp poly)^[n] c

variable {poly}

theorem feed_false (c : BitVec w) : feed poly c false = shiftUp poly c := by
  rw [feed, shiftUp, Bool.xor_false]

theorem ite_xor (p : BitVec w) (a b : Bool) :
    (if a ^^ b then p else 0) = (if a then p else 0) ^^^ (if b then p else 0) := by
  cases a <;> cases b <;> simp

/-- The register and the message are added up alike. -/
theorem feed_xor (c d : BitVec w) (x y : Bool) :
    feed poly (c ^^^ d) (x ^^ y) = feed poly c x ^^^ feed poly d y := by
  have hbit : ((c.msb ^^ d.msb) ^^ (x ^^ y)) = ((c.msb ^^ x) ^^ (d.msb ^^ y)) := by
    cases c.msb <;> cases d.msb <;> cases x <;> cases y <;> rfl
  rw [feed, BitVec.shiftLeft_xor_distrib, BitVec.msb_xor, hbit, ite_xor, feed, feed]
  ac_rfl

theorem shiftUp_xor (c d : BitVec w) :
    shiftUp poly (c ^^^ d) = shiftUp poly c ^^^ shiftUp poly d := by
  simpa only [feed_false, Bool.xor_false] using feed_xor c d false false

theorem shiftsUp_xor (n : Nat) (c d : BitVec w) :
    shiftsUp poly n (c ^^^ d) = shiftsUp poly n c ^^^ shiftsUp poly n d := by
  induction n generalizing c d with
  | zero => rfl
  | succ n ih =>
    simp only [shiftsUp, Function.iterate_succ_apply, shiftUp_xor] at ih ⊢
    exact ih _ _

/-! ### Differences -/

/-- The difference of two messages, bit by bit. -/
def difference (xs ys : List Bool) : List Bool := List.zipWith (· ^^ ·) xs ys

/-- What two messages leave differs by what their difference leaves. -/
theorem feedBits_difference {xs ys : List Bool} (h : xs.length = ys.length) (c d : BitVec w) :
    feedBits poly c xs ^^^ feedBits poly d ys = feedBits poly (c ^^^ d) (difference xs ys) := by
  induction xs generalizing ys c d with
  | nil =>
    obtain rfl := List.eq_nil_of_length_eq_zero h.symm
    rfl
  | cons x xs ih =>
    cases ys with
    | nil => cases h
    | cons y ys =>
      have hstep := ih (Nat.succ.inj h) (feed poly c x) (feed poly d y)
      rw [← feed_xor] at hstep
      exact hstep

theorem shiftUp_zero : shiftUp poly 0 = 0 := by
  simp [shiftUp]

/-- Zeros leave an empty register empty. -/
theorem feedBits_replicate_zero (n : Nat) : feedBits poly 0 (List.replicate n false) = 0 := by
  induction n with
  | zero => rfl
  | succ n ih =>
    rw [List.replicate_succ, feedBits, List.foldl_cons, feed_false, shiftUp_zero]
    exact ih

/-- The register whose upper bits are `bits`. -/
def Upper (c : BitVec w) (bits : List Bool) : Prop := ∀ i < w, c.getMsbD i = bits.getD i false

/-- The bits of one more, behind the one that leaves the register. -/
theorem upper_cons (hw : 0 < w) (hpoly : poly.getLsbD 0 = true) (c : BitVec w) (x : Bool)
    {bits : List Bool} (hlen : bits.length < w) :
    Upper (feed poly c x) bits ↔ Upper c (x :: bits) := by
  have hlast : (feed poly c x).getMsbD (w - 1) = (c.msb ^^ x) := by
    rw [BitVec.getMsbD_eq_getLsbD, feed, BitVec.getLsbD_xor, BitVec.getLsbD_shiftLeft]
    have hlt : w - 1 < w := by omega
    cases c.msb ^^ x <;> simp [hlt, hpoly]
  have hshift : (c.msb ^^ x) = false →
      ∀ i < w - 1, (feed poly c x).getMsbD i = c.getMsbD (i + 1) := by
    intro hx i hi
    rw [feed, hx]
    simp [BitVec.getMsbD_shiftLeft]
  constructor
  · intro h i hi
    have hx : (c.msb ^^ x) = false := by
      rw [← hlast, h (w - 1) (by omega)]
      exact List.getD_eq_default _ _ (by omega)
    cases i with
    | zero =>
      rw [← BitVec.msb_eq_getMsbD_zero]
      exact bne_eq_false_iff_eq.mp hx
    | succ i => rw [← hshift hx i (by omega), h i (by omega), List.getD_cons_succ]
  · intro h i hi
    have hx : (c.msb ^^ x) = false := by
      rw [bne_eq_false_iff_eq, BitVec.msb_eq_getMsbD_zero]
      exact h 0 hw
    by_cases hi' : i < w - 1
    · rw [hshift hx i hi', h (i + 1) (by omega), List.getD_cons_succ]
    · obtain rfl : i = w - 1 := by omega
      rw [hlast, hx]
      exact (List.getD_eq_default _ _ (by omega)).symm

/-- As long as the message is not longer than the register, there is only one register that it
empties: the one that holds its bits. -/
theorem feedBits_eq_zero (hpoly : poly.getLsbD 0 = true) {bits : List Bool} (c : BitVec w)
    (hlen : bits.length ≤ w) : feedBits poly c bits = 0 ↔ Upper c bits := by
  induction bits generalizing c with
  | nil =>
    refine ⟨fun h i _ => ?_, fun h => BitVec.eq_of_getMsbD_eq fun i hi => ?_⟩
    · rw [show c = 0 from h]
      simp
    · exact (h i hi).trans (by simp)
  | cons x bits ih =>
    rw [List.length_cons] at hlen
    exact (ih (feed poly c x) (by omega)).trans (upper_cons (by omega) hpoly c x hlen)

theorem Upper.eq_zero {c : BitVec w} {bits : List Bool} (h : Upper c bits)
    (hzero : ∀ i < w, bits.getD i false = false) : c = 0 :=
  BitVec.eq_of_getMsbD_eq fun i hi => ((h i hi).trans (hzero i hi)).trans (by simp)

theorem pos_of_poly (hpoly : poly.getLsbD 0 = true) : 0 < w := by
  rcases Nat.eq_zero_or_pos w with rfl | hw
  · simp at hpoly
  · exact hw

/-- What is in the register is not shifted out by zeros. -/
theorem eq_zero_of_replicate (hpoly : poly.getLsbD 0 = true) {n : Nat} {c : BitVec w}
    (h : feedBits poly c (List.replicate n false) = 0) : c = 0 := by
  induction n generalizing c with
  | zero => exact h
  | succ n ih =>
    have hone : feedBits poly c [false] = 0 := ih h
    have hupper := (@feedBits_eq_zero w poly hpoly [false] c (pos_of_poly hpoly)).mp hone
    exact hupper.eq_zero fun i _ => by cases i <;> rfl

theorem feedBits_append (c : BitVec w) (xs ys : List Bool) :
    feedBits poly c (xs ++ ys) = feedBits poly (feedBits poly c xs) ys := List.foldl_append

/-! ### Bursts -/

/-- Messages of one length that differ in at most `n` bits in a row. -/
def Burst (n : Nat) (xs ys : List Bool) : Prop :=
  xs.length = ys.length ∧ ∃ a, ∀ i, xs.getD i false ≠ ys.getD i false → a ≤ i ∧ i < a + n

theorem getD_difference {xs ys : List Bool} (h : xs.length = ys.length) (i : Nat) :
    (difference xs ys).getD i false = (xs.getD i false ^^ ys.getD i false) := by
  induction xs generalizing ys i with
  | nil =>
    obtain rfl := List.eq_nil_of_length_eq_zero h.symm
    rfl
  | cons x xs ih =>
    cases ys with
    | nil => cases h
    | cons y ys =>
      cases i with
      | zero => rfl
      | succ i => exact ih (Nat.succ.inj h) i

theorem eq_replicate_of_getD {bits : List Bool} (h : ∀ i, bits.getD i false = false) :
    bits = List.replicate bits.length false := by
  refine List.eq_replicate_iff.mpr ⟨rfl, fun b hb => ?_⟩
  obtain ⟨i, hi, rfl⟩ := List.mem_iff_getElem.mp hb
  rw [← List.getD_eq_getElem bits false hi, h]

theorem eq_of_difference {xs ys : List Bool} (hlen : xs.length = ys.length)
    (h : ∀ i, (difference xs ys).getD i false = false) : xs = ys := by
  refine List.ext_getElem hlen fun i hx hy => ?_
  have hbit := h i
  rw [getD_difference hlen, bne_eq_false_iff_eq] at hbit
  rwa [List.getD_eq_getElem _ _ hx, List.getD_eq_getElem _ _ hy] at hbit

/-- A burst that fits the register changes what is left in it. -/
theorem feedBits_burst (hpoly : poly.getLsbD 0 = true) {xs ys : List Bool}
    (hburst : Burst w xs ys) {c : BitVec w} (h : feedBits poly c xs = feedBits poly c ys) :
    xs = ys := by
  obtain ⟨hlen, a, hwithin⟩ := hburst
  have hzero : feedBits poly 0 (difference xs ys) = 0 := by
    have hdiff := @feedBits_difference w poly _ _ hlen c c
    rwa [h, BitVec.xor_self, BitVec.xor_self, eq_comm] at hdiff
  have houtside : ∀ i, ¬ (a ≤ i ∧ i < a + w) → (difference xs ys).getD i false = false := by
    intro i hi
    rw [getD_difference hlen, bne_eq_false_iff_eq]
    exact Decidable.not_not.mp fun hne => hi (hwithin i hne)
  generalize hd : difference xs ys = d at hzero houtside
  -- the bits before the burst, those of it and those behind it
  have hfirst : d.take a = List.replicate (d.take a).length false :=
    eq_replicate_of_getD fun i => by
      rw [List.getD_eq_getElem?_getD, List.getElem?_take]
      split_ifs with hi
      · rw [← List.getD_eq_getElem?_getD]
        exact houtside i (by omega)
      · rfl
  have hlast : d.drop (a + w) = List.replicate (d.drop (a + w)).length false :=
    eq_replicate_of_getD fun i => by
      rw [List.getD_eq_getElem?_getD, List.getElem?_drop, ← List.getD_eq_getElem?_getD]
      exact houtside (a + w + i) (by omega)
  have hsplit : d = d.take a ++ ((d.drop a).take w ++ d.drop (a + w)) := by
    rw [← List.drop_drop, List.take_append_drop, List.take_append_drop]
  rw [hsplit, feedBits_append, hfirst, feedBits_replicate_zero, feedBits_append, hlast] at hzero
  have hupper := (feedBits_eq_zero hpoly 0 (by rw [List.length_take]; omega)).mp
    (eq_zero_of_replicate hpoly hzero)
  refine eq_of_difference hlen fun i => ?_
  rw [hd]
  by_cases hi : a ≤ i ∧ i < a + w
  · have hbit := hupper (i - a) (by omega)
    rw [List.getD_eq_getElem?_getD, List.getElem?_take, if_pos (by omega), List.getElem?_drop,
      ← List.getD_eq_getElem?_getD, Nat.add_sub_cancel' hi.1] at hbit
    rw [← hbit]
    simp
  · exact houtside i hi

/-! ### Bytes at once -/

/-- The bits of a byte, the highest one first. -/
def byteBits (byte : BitVec 8) : List Bool := (List.range 8).map byte.getMsbD

/-- A byte in the upper bits of the register. -/
def upperByte (w : Nat) (byte : BitVec 8) : BitVec w := (byte.setWidth w) <<< (w - 8)

theorem getMsbD_upperByte (hw : 8 ≤ w) (byte : BitVec 8) {i : Nat} (hi : i < w) :
    (upperByte w byte).getMsbD i = byte.getMsbD i := by
  rw [upperByte, BitVec.getMsbD_eq_getLsbD, BitVec.getMsbD_eq_getLsbD, BitVec.getLsbD_shiftLeft,
    BitVec.getLsbD_setWidth]
  by_cases hi' : i < 8
  · have hindex : w - 1 - i - (w - 8) = 8 - 1 - i := by omega
    have h1 : w - 1 - i < w := by omega
    have h2 : ¬ w - 1 - i < w - 8 := by omega
    have h3 : 8 - 1 - i < w := by omega
    simp [hi, hi', hindex, h1, h2, h3]
  · have h2 : w - 1 - i < w - 8 := by omega
    simp [hi', h2]

theorem upper_upperByte (hw : 8 ≤ w) (byte : BitVec 8) :
    Upper (upperByte w byte) (byteBits byte) := by
  intro i hi
  rw [getMsbD_upperByte hw byte hi, byteBits]
  by_cases hi' : i < 8
  · simp [List.getD_eq_getElem?_getD, hi']
  · rw [List.getD_eq_default _ _ (by simpa using hi')]
    exact BitVec.getMsbD_of_ge _ _ (by omega)

theorem feedBits_zeros (n : Nat) (c : BitVec w) :
    feedBits poly c (List.replicate n false) = shiftsUp poly n c := by
  induction n generalizing c with
  | zero => rfl
  | succ n ih =>
    rw [List.replicate_succ, feedBits, List.foldl_cons, feed_false]
    exact ih _

theorem difference_self (bits : List Bool) :
    difference bits bits = List.replicate bits.length false := by
  induction bits with
  | nil => rfl
  | cons bit bits ih =>
    rw [List.length_cons, List.replicate_succ, ← ih, difference, List.zipWith_cons_cons,
      Bool.xor_self, difference]

/-- A byte is shifted in by eight shifts of the register with the byte added to its upper bits. -/
theorem feedBits_byteBits (hpoly : poly.getLsbD 0 = true) (hw : 8 ≤ w) (c : BitVec w)
    (byte : BitVec 8) :
    feedBits poly c (byteBits byte) = shiftsUp poly 8 (c ^^^ upperByte w byte) := by
  have hlen : (byteBits byte).length = 8 := rfl
  have hupper : feedBits poly (upperByte w byte) (byteBits byte) = 0#w :=
    (feedBits_eq_zero hpoly _ (hlen ▸ hw)).mpr (upper_upperByte hw byte)
  have hdiff := @feedBits_difference w poly _ _ (Eq.refl (byteBits byte).length) c
    (upperByte w byte)
  rwa [hupper, BitVec.xor_zero, difference_self, feedBits_zeros, hlen] at hdiff

/-- Zeros leave the register without adding the polynomial. -/
theorem shiftsUp_of_zeros {n : Nat} {c : BitVec w} (h : ∀ i < n, c.getMsbD i = false) :
    shiftsUp poly n c = c <<< n := by
  induction n generalizing c with
  | zero => exact (BitVec.shiftLeft_zero c).symm
  | succ n ih =>
    have hmsb : c.msb = false := (BitVec.msb_eq_getMsbD_zero c).trans (h 0 (Nat.succ_pos n))
    have hshift : shiftUp poly c = c <<< 1 := by
      rw [shiftUp, hmsb]
      exact BitVec.xor_zero
    have hrest : shiftsUp poly n (c <<< 1) = c <<< 1 <<< n := by
      refine ih fun i hi => ?_
      rw [BitVec.getMsbD_shiftLeft]
      exact h (i + 1) (Nat.succ_lt_succ hi)
    rw [shiftsUp, Function.iterate_succ_apply, hshift]
    exact hrest.trans (by rw [← BitVec.shiftLeft_add, Nat.add_comm])

theorem shiftLeft_upperByte (hw : 8 ≤ w) (byte : BitVec 8) : upperByte w byte <<< 8 = 0#w := by
  rw [upperByte, ← BitVec.shiftLeft_add, Nat.sub_add_cancel hw]
  exact BitVec.shiftLeft_eq_zero (Nat.le_refl w)

theorem setWidth_upperByte (hw : 8 ≤ w) (byte : BitVec 8) :
    (upperByte w byte >>> (w - 8)).setWidth 8 = byte := by
  apply BitVec.eq_of_getLsbD_eq
  intro i hi
  have h1 : w - 8 + i < w := by omega
  have h2 : i < w := by omega
  simp [upperByte, hi, h1, h2]

/-- The register moves up by a byte, and its upper byte is looked up. -/
theorem shiftsUp_eight (hw : 8 ≤ w) (c : BitVec w) :
    shiftsUp poly 8 c =
      (c <<< 8) ^^^ shiftsUp poly 8 (upperByte w ((c >>> (w - 8)).setWidth 8)) := by
  have hupper : ∀ i < 8,
      (upperByte w ((c >>> (w - 8)).setWidth 8)).getMsbD i = c.getMsbD i := by
    intro i hi
    have hindex : w - 8 + (8 - 1 - i) = w - 1 - i := by omega
    have hlt : i < w := by omega
    have hbit : 7 - i < 8 := by omega
    rw [getMsbD_upperByte hw _ hlt, BitVec.getMsbD_eq_getLsbD, BitVec.getMsbD_eq_getLsbD]
    simp [hi, hlt, hindex, hbit]
  generalize htop : upperByte w ((c >>> (w - 8)).setWidth 8) = top at hupper ⊢
  have hlow : shiftsUp poly 8 (c ^^^ top) = (c ^^^ top) <<< 8 :=
    shiftsUp_of_zeros fun i hi => by rw [BitVec.getMsbD_xor, hupper i hi, Bool.xor_self]
  have hgone : top <<< 8 = 0#w := htop ▸ shiftLeft_upperByte hw _
  rw [shiftsUp_xor, BitVec.shiftLeft_xor_distrib, hgone, BitVec.xor_zero] at hlow
  rw [← hlow, BitVec.xor_assoc, BitVec.xor_self, BitVec.xor_zero]

/-- A byte is shifted in by a look at the table. -/
theorem feedBits_lookup (hpoly : poly.getLsbD 0 = true) (hw : 8 ≤ w) (c : BitVec w)
    (byte : BitVec 8) :
    feedBits poly c (byteBits byte) =
      (c <<< 8) ^^^ shiftsUp poly 8 (upperByte w ((c >>> (w - 8)).setWidth 8 ^^^ byte)) := by
  rw [feedBits_byteBits hpoly hw, shiftsUp_eight hw, BitVec.shiftLeft_xor_distrib,
    shiftLeft_upperByte hw, BitVec.xor_zero, BitVec.ushiftRight_xor_distrib, BitVec.setWidth_xor,
    setWidth_upperByte hw]

/-- The bits of a message. -/
def messageBits (bytes : List (BitVec 8)) : List Bool := bytes.flatMap byteBits

theorem feedBits_messageBits (c : BitVec w) (bytes : List (BitVec 8)) :
    feedBits poly c (messageBits bytes) =
      bytes.foldl (fun c byte => feedBits poly c (byteBits byte)) c := by
  induction bytes generalizing c with
  | nil => rfl
  | cons byte bytes ih =>
    rw [messageBits, List.flatMap_cons, feedBits_append, List.foldl_cons]
    exact ih _

theorem byteBits_injective : Function.Injective byteBits := by
  intro a b h
  refine BitVec.eq_of_getMsbD_eq fun i hi => ?_
  have hbit := congrArg (fun bits => bits.getD i false) h
  simpa [byteBits, List.getD_eq_getElem?_getD, hi] using hbit

theorem messageBits_injective : Function.Injective messageBits := by
  intro xs ys h
  induction xs generalizing ys with
  | nil =>
    cases ys with
    | nil => rfl
    | cons y ys => cases h
  | cons x xs ih =>
    cases ys with
    | nil => cases h
    | cons y ys =>
      simp only [messageBits, List.flatMap_cons] at h
      obtain ⟨hbyte, hrest⟩ := List.append_inj h rfl
      rw [byteBits_injective hbyte, ih hrest]

/-! ### Registers that are shifted down -/

/-- One shift of a register that is turned round: the bit leaves it below. -/
def shiftDown (poly c : BitVec w) : BitVec w :=
  (c >>> 1) ^^^ (if c.getLsbD 0 then poly else 0)

theorem reverse_shiftDown (c : BitVec w) :
    (shiftDown poly c).reverse = shiftUp poly.reverse c.reverse := by
  apply BitVec.eq_of_getMsbD_eq
  intro i hi
  rw [shiftDown, shiftUp, BitVec.getMsbD_reverse, BitVec.msb_reverse]
  cases c.getLsbD 0 <;> simp [BitVec.getMsbD_reverse, Nat.add_comm]

theorem reverse_xor (c d : BitVec w) : (c ^^^ d).reverse = c.reverse ^^^ d.reverse := by
  apply BitVec.eq_of_getLsbD_eq
  intro i _
  simp [-BitVec.getLsbD_eq_getElem, BitVec.getLsbD_reverse]

theorem reverse_ushiftRight (c : BitVec w) (n : Nat) : (c >>> n).reverse = c.reverse <<< n := by
  apply BitVec.eq_of_getMsbD_eq
  intro i hi
  simp [BitVec.getMsbD_reverse, Nat.add_comm]

theorem reverse_setWidth (hw : 8 ≤ w) (byte : BitVec 8) :
    (byte.setWidth w).reverse = upperByte w byte.reverse := by
  apply BitVec.eq_of_getMsbD_eq
  intro i hi
  rw [getMsbD_upperByte hw _ hi, BitVec.getMsbD_reverse, BitVec.getMsbD_reverse,
    BitVec.getLsbD_setWidth, decide_eq_true hi, Bool.true_and]

theorem reverse_shiftsDown (n : Nat) (c : BitVec w) :
    ((shiftDown poly)^[n] c).reverse = shiftsUp poly.reverse n c.reverse := by
  induction n generalizing c with
  | zero => rfl
  | succ n ih =>
    rw [Function.iterate_succ_apply, ih, reverse_shiftDown, shiftsUp, shiftsUp,
      Function.iterate_succ_apply]

/-- The lower byte of a register is what is looked up. -/
theorem toNat_and_byte (hw : 8 ≤ w) (v : BitVec w) : (v &&& 0xff).toNat = (v.setWidth 8).toNat := by
  have hlt : 255 < 2 ^ w := Nat.lt_of_lt_of_le (by decide) (Nat.pow_le_pow_right (by decide) hw)
  have hmask : (0xff : BitVec w).toNat = 2 ^ 8 - 1 := Nat.mod_eq_of_lt hlt
  rw [BitVec.toNat_and, BitVec.toNat_setWidth, hmask, Nat.and_two_pow_sub_one_eq_mod]

theorem setWidth_reverse (hw : 8 ≤ w) (c : BitVec w) :
    (c.reverse >>> (w - 8)).setWidth 8 = (c.setWidth 8).reverse := by
  apply BitVec.eq_of_getLsbD_eq
  intro i hi
  have hlt : w - 8 + i < w := by omega
  have hindex : w - 1 - (w - 8 + i) = 8 - 1 - i := by omega
  have hbit : 8 - 1 - i < 8 := by omega
  simp only [BitVec.getLsbD_setWidth, BitVec.getLsbD_ushiftRight, BitVec.getLsbD_reverse,
    BitVec.getMsbD_eq_getLsbD, hi, hlt, hindex, hbit, decide_true, Bool.true_and]

/-- A byte is shifted in by a look at the table of a register that is turned round, the lowest bit
of the byte first. -/
theorem reverse_lookup (hpoly : poly.reverse.getLsbD 0 = true) (hw : 8 ≤ w) (c : BitVec w)
    (byte : BitVec 8) :
    ((shiftDown poly)^[8] ((c.setWidth 8 ^^^ byte).setWidth w) ^^^ (c >>> 8)).reverse =
      feedBits poly.reverse c.reverse (byteBits byte.reverse) := by
  rw [reverse_xor, reverse_shiftsDown, reverse_setWidth hw, reverse_xor, ← setWidth_reverse hw,
    reverse_ushiftRight, feedBits_lookup hpoly hw, BitVec.xor_comm]

end Crc

end LibretroUae.Lib
