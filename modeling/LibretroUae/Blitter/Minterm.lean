import LibretroUae.Blitter.Area

/-!
# LibretroUae.Blitter.Minterm

**The logic functions.** `blit_func` is a switch over all 256 minterms with an expression for each,
which `genblitter` has shortened. They are listed as they stand there and compute what the
minterms say, so that `blitFunc` stands for them.
-/

namespace LibretroUae.Blitter

/-- The expressions in `blit_func`. -/
inductive Logic
  | zero
  | ones
  | srca
  | srcb
  | srcc
  | not (x : Logic)
  | and (x y : Logic)
  | or (x y : Logic)
  | xor (x y : Logic)

namespace Logic

def eval (a b c : UInt32) : Logic → UInt32
  | zero => 0
  | ones => 0xffffffff
  | srca => a
  | srcb => b
  | srcc => c
  | not x => ~~~x.eval a b c
  | and x y => x.eval a b c &&& y.eval a b c
  | or x y => x.eval a b c ||| y.eval a b c
  | xor x y => x.eval a b c ^^^ y.eval a b c

/-- A bit of what the expression computes. -/
def bit (a b c : Bool) : Logic → Bool
  | zero => false
  | ones => true
  | srca => a
  | srcb => b
  | srcc => c
  | not x => !x.bit a b c
  | and x y => x.bit a b c && y.bit a b c
  | or x y => x.bit a b c || y.bit a b c
  | xor x y => x.bit a b c ^^ y.bit a b c

/-- The expressions are computed bit by bit. -/
theorem getLsbD_eval (a b c : UInt32) (x : Logic) {i : Nat} (hi : i < 32) :
    (x.eval a b c).toBitVec.getLsbD i =
      x.bit (a.toBitVec.getLsbD i) (b.toBitVec.getLsbD i) (c.toBitVec.getLsbD i) := by
  induction x with
  | zero => exact BitVec.getLsbD_zero
  | ones =>
    rw [show eval a b c ones = UInt32.ofBitVec (BitVec.allOnes 32) from rfl,
      UInt32.toBitVec_ofBitVec, BitVec.getLsbD_allOnes, decide_eq_true hi]
    rfl
  | srca => rfl
  | srcb => rfl
  | srcc => rfl
  | not x ih =>
    rw [eval, UInt32.toBitVec_not, BitVec.getLsbD_not, ih, decide_eq_true hi, Bool.true_and, bit]
  | and x y ihx ihy => rw [eval, UInt32.toBitVec_and, BitVec.getLsbD_and, ihx, ihy, bit]
  | or x y ihx ihy => rw [eval, UInt32.toBitVec_or, BitVec.getLsbD_or, ihx, ihy, bit]
  | xor x y ihx ihy => rw [eval, UInt32.toBitVec_xor, BitVec.getLsbD_xor, ihx, ihy, bit]

end Logic

/-- What `blit_func` returns, from minterm 0 on. -/
def blitOps : List Logic :=
  [.zero, .not (.or (.or .srca .srcb) .srcc), .and .srcc (.not (.or .srca .srcb)),
    .not (.or .srca .srcb), .and .srcb (.not (.or .srca .srcc)), .not (.or .srca .srcc),
    .and (.not .srca) (.xor .srcb .srcc), .not (.or .srca (.and .srcb .srcc)),
    .and (.and (.not .srca) .srcb) .srcc, .not (.or .srca (.xor .srcb .srcc)),
    .and (.not .srca) .srcc, .not (.or .srca (.and .srcb (.not .srcc))), .and (.not .srca) .srcb,
    .not (.or .srca (.and (.not .srcb) .srcc)), .and (.not .srca) (.or .srcb .srcc), .not .srca,
    .and .srca (.not (.or .srcb .srcc)), .not (.or .srcb .srcc),
    .and (.not .srcb) (.xor .srca .srcc), .not (.or .srcb (.and .srca .srcc)),
    .and (.not .srcc) (.xor .srca .srcb), .not (.or .srcc (.and .srca .srcb)),
    .xor .srca (.or (.and .srca .srcb) (.xor .srcb .srcc)),
    .not (.xor .srca (.and (.xor .srca .srcb) (.xor .srca .srcc))),
    .and (.xor .srca .srcb) (.xor .srca .srcc), .xor .srcb (.or (.not .srcc) (.and .srca .srcb)),
    .xor .srca (.or .srcc (.and .srca .srcb)), .xor .srca (.or .srcc (.not (.xor .srca .srcb))),
    .xor .srca (.or .srcb (.and .srca .srcc)), .xor .srca (.or .srcb (.not (.xor .srca .srcc))),
    .xor .srca (.or .srcb .srcc), .not (.and .srca (.or .srcb .srcc)),
    .and (.and .srca (.not .srcb)) .srcc, .not (.or .srcb (.xor .srca .srcc)),
    .and (.not .srcb) .srcc, .not (.or .srcb (.and .srca (.not .srcc))),
    .and (.xor .srca .srcb) (.xor .srcb .srcc), .xor .srca (.or (.not .srcc) (.and .srca .srcb)),
    .xor .srcb (.or .srcc (.and .srca .srcb)), .not (.xor .srca (.and .srcc (.xor .srca .srcb))),
    .and .srcc (.xor .srca .srcb), .not (.xor (.xor .srca .srcb) (.or .srcc (.and .srca .srcb))),
    .and .srcc (.not (.and .srca .srcb)),
    .not (.xor .srca (.and (.xor .srca .srcb) (.xor .srcb .srcc))),
    .xor .srcb (.and .srca (.or .srcb .srcc)), .xor .srca (.or .srcb (.not .srcc)),
    .xor .srca (.or .srcb (.xor .srca .srcc)), .not (.and .srca (.or .srcb (.not .srcc))),
    .and .srca (.not .srcb), .not (.or .srcb (.and (.not .srca) .srcc)),
    .and (.not .srcb) (.or .srca .srcc), .not .srcb, .xor .srcb (.or .srca (.and .srcb .srcc)),
    .xor .srcb (.or .srca (.not (.xor .srcb .srcc))), .xor .srcb (.or .srca .srcc),
    .not (.and .srcb (.or .srca .srcc)), .xor .srca (.and .srcb (.or .srca .srcc)),
    .xor .srcb (.or .srca (.not .srcc)), .xor .srcb (.or .srca (.xor .srcb .srcc)),
    .not (.and .srcb (.or .srca (.not .srcc))), .xor .srca .srcb,
    .xor .srca (.or .srcb (.not (.or .srca .srcc))),
    .xor .srca (.or .srcb (.xor .srca (.or .srca .srcc))), .not (.and .srca .srcb),
    .and (.and .srca .srcb) (.not .srcc), .not (.or .srcc (.xor .srca .srcb)),
    .and (.xor .srca .srcc) (.xor .srcb .srcc), .xor .srca (.or (.not .srcb) (.and .srca .srcc)),
    .and .srcb (.not .srcc), .not (.or .srcc (.and .srca (.not .srcb))),
    .xor .srcc (.or .srcb (.and .srca .srcc)), .not (.xor .srca (.and .srcb (.xor .srca .srcc))),
    .and .srcb (.xor .srca .srcc), .not (.xor (.xor .srca .srcc) (.or .srcb (.and .srca .srcc))),
    .xor .srcc (.and .srca (.or .srcb .srcc)), .xor .srca (.or (.not .srcb) .srcc),
    .and .srcb (.not (.and .srca .srcc)),
    .xor .srca (.or (.xor .srca .srcb) (.not (.xor .srca .srcc))),
    .xor .srca (.or .srcc (.xor .srca .srcb)), .not (.and .srca (.or (.not .srcb) .srcc)),
    .and .srca (.not .srcc), .not (.or .srcc (.and (.not .srca) .srcb)),
    .xor .srcc (.or .srca (.and .srcb .srcc)), .not (.xor .srcb (.and .srca (.xor .srcb .srcc))),
    .and (.not .srcc) (.or .srca .srcb), .not .srcc, .xor .srcc (.or .srca .srcb),
    .not (.and .srcc (.or .srca .srcb)), .xor .srca (.and .srcc (.or .srca .srcb)),
    .xor .srcc (.or .srca (.not .srcb)), .xor .srca .srcc,
    .xor .srca (.or .srcc (.not (.or .srca .srcb))), .xor .srcc (.or .srca (.xor .srcb .srcc)),
    .not (.and .srcc (.or .srca (.not .srcb))),
    .xor .srca (.or .srcc (.xor .srca (.or .srca .srcb))), .not (.and .srca .srcc),
    .and .srca (.xor .srcb .srcc), .not (.xor (.xor .srcb .srcc) (.or .srca (.and .srcb .srcc))),
    .xor .srcc (.and .srcb (.or .srca .srcc)), .xor .srcb (.or (.not .srca) .srcc),
    .xor .srcb (.and .srcc (.or .srca .srcb)), .xor .srcc (.or (.not .srca) .srcb),
    .xor .srcb .srcc, .xor .srcb (.or .srcc (.not (.or .srca .srcb))),
    .xor (.and .srca .srcb) (.and .srcc (.or .srca .srcb)), .not (.xor (.xor .srca .srcb) .srcc),
    .xor .srcc (.and .srca .srcb), .not (.xor (.xor .srca .srcb) (.and .srcc (.or .srca .srcb))),
    .xor .srcb (.and .srca .srcc), .not (.xor (.xor .srca .srcc) (.and .srcb (.or .srca .srcc))),
    .or (.and (.not .srca) .srcb) (.xor .srcb .srcc), .or (.not .srca) (.xor .srcb .srcc),
    .and .srca (.not (.and .srcb .srcc)),
    .not (.xor .srca (.or (.xor .srca .srcb) (.xor .srca .srcc))),
    .xor .srcb (.or .srcc (.xor .srca .srcb)), .not (.and .srcb (.or (.not .srca) .srcc)),
    .xor .srcc (.or .srcb (.xor .srca .srcc)), .not (.and .srcc (.or (.not .srca) .srcb)),
    .xor .srcb (.or .srcc (.xor .srca (.and .srca .srcb))), .not (.and .srcb .srcc),
    .xor .srca (.and .srcb .srcc), .not (.xor (.xor .srcb .srcc) (.and .srca (.or .srcb .srcc))),
    .or (.and .srca (.not .srcb)) (.xor .srca .srcc), .or (.not .srcb) (.xor .srca .srcc),
    .or (.xor .srca .srcb) (.and .srca (.not .srcc)), .or (.not .srcc) (.xor .srca .srcb),
    .or (.xor .srca .srcb) (.xor .srca .srcc), .not (.and (.and .srca .srcb) .srcc),
    .and (.and .srca .srcb) .srcc, .not (.or (.xor .srca .srcb) (.xor .srca .srcc)),
    .and .srcc (.not (.xor .srca .srcb)), .xor .srca (.or (.not .srcb) (.and .srca (.not .srcc))),
    .and .srcb (.not (.xor .srca .srcc)), .xor .srca (.or (.not .srcc) (.and .srca (.not .srcb))),
    .xor (.xor .srcb .srcc) (.and .srca (.or .srcb .srcc)), .not (.xor .srca (.and .srcb .srcc)),
    .and .srcb .srcc, .xor .srcb (.and (.not .srcc) (.or (.not .srca) .srcb)),
    .and .srcc (.or (.not .srca) .srcb), .xor .srca (.or (.not .srcb) (.xor .srca .srcc)),
    .and .srcb (.or (.not .srca) .srcc), .xor .srca (.or (.not .srcc) (.xor .srca .srcb)),
    .xor .srca (.or (.xor .srca .srcb) (.xor .srca .srcc)), .or (.not .srca) (.and .srcb .srcc),
    .and .srca (.not (.xor .srcb .srcc)), .xor .srcb (.or (.not .srcc) (.and (.not .srca) .srcb)),
    .xor (.xor .srca .srcc) (.and .srcb (.or .srca .srcc)), .not (.xor .srcb (.and .srca .srcc)),
    .xor (.xor .srca .srcb) (.and .srcc (.or .srca .srcb)), .not (.xor .srcc (.and .srca .srcb)),
    .xor (.xor .srca .srcb) .srcc, .xor (.xor .srca .srcb) (.or .srcc (.not (.or .srca .srcb))),
    .xor .srcb (.and (.not .srcc) (.or .srca .srcb)), .not (.xor .srcb .srcc),
    .xor .srcc (.and .srca (.not .srcb)), .not (.xor .srcb (.and .srcc (.or .srca .srcb))),
    .xor .srcb (.and .srca (.not .srcc)), .not (.xor .srcc (.and .srcb (.or .srca .srcc))),
    .xor (.xor .srcb .srcc) (.or .srca (.and .srcb .srcc)), .not (.and .srca (.xor .srcb .srcc)),
    .and .srca .srcc, .xor .srca (.and (.not .srcc) (.or .srca (.not .srcb))),
    .and .srcc (.or .srca (.not .srcb)), .xor .srcb (.or (.not .srca) (.xor .srcb .srcc)),
    .xor .srca (.and (.not .srcc) (.or .srca .srcb)), .not (.xor .srca .srcc),
    .xor .srcc (.and (.not .srca) .srcb), .not (.xor .srca (.and .srcc (.or .srca .srcb))),
    .and .srcc (.or .srca .srcb), .not (.xor .srcc (.or .srca .srcb)), .srcc,
    .or .srcc (.not (.or .srca .srcb)), .xor .srcb (.and .srca (.xor .srcb .srcc)),
    .not (.xor .srcc (.or .srca (.and .srcb .srcc))), .or .srcc (.and (.not .srca) .srcb),
    .or (.not .srca) .srcc, .and .srca (.or (.not .srcb) .srcc),
    .not (.xor .srca (.or .srcc (.xor .srca .srcb))),
    .xor .srca (.and (.xor .srca .srcc) (.xor .srcb .srcc)), .or (.not .srcb) (.and .srca .srcc),
    .xor .srca (.and .srcb (.not .srcc)), .not (.xor .srcc (.and .srca (.or .srcb .srcc))),
    .xor (.xor .srca .srcc) (.or .srcb (.and .srca .srcc)), .not (.and .srcb (.xor .srca .srcc)),
    .xor .srca (.and .srcb (.xor .srca .srcc)), .not (.xor .srcc (.or .srcb (.and .srca .srcc))),
    .or .srcc (.and .srca (.not .srcb)), .or (.not .srcb) .srcc,
    .or (.xor .srca .srcb) (.and .srca .srcc), .or (.xor .srca .srcb) (.not (.xor .srca .srcc)),
    .or .srcc (.xor .srca .srcb), .or .srcc (.not (.and .srca .srcb)), .and .srca .srcb,
    .xor .srca (.and (.not .srcb) (.or .srca (.not .srcc))),
    .xor .srca (.and (.not .srcb) (.or .srca .srcc)), .not (.xor .srca .srcb),
    .and .srcb (.or .srca (.not .srcc)), .not (.xor .srcb (.or .srca (.xor .srcb .srcc))),
    .xor .srcb (.and (.not .srca) .srcc), .not (.xor .srca (.and .srcb (.or .srca .srcc))),
    .and .srcb (.or .srca .srcc), .not (.xor .srcb (.or .srca .srcc)),
    .xor .srcc (.and .srca (.xor .srcb .srcc)), .not (.xor .srcb (.or .srca (.and .srcb .srcc))),
    .srcb, .or .srcb (.not (.or .srca .srcc)), .or .srcb (.and (.not .srca) .srcc),
    .or (.not .srca) .srcb, .and .srca (.or .srcb (.not .srcc)),
    .not (.xor .srca (.or .srcb (.xor .srca .srcc))), .xor .srca (.and (.not .srcb) .srcc),
    .not (.xor .srcb (.and .srca (.or .srcb .srcc))),
    .xor .srca (.and (.xor .srca .srcb) (.xor .srcb .srcc)), .or (.not .srcc) (.and .srca .srcb),
    .xor (.xor .srca .srcb) (.or .srcc (.and .srca .srcb)), .not (.and .srcc (.xor .srca .srcb)),
    .xor .srca (.and .srcc (.xor .srca .srcb)), .not (.xor .srcb (.or .srcc (.and .srca .srcb))),
    .or (.and .srca .srcb) (.xor .srca .srcc), .not (.and (.xor .srca .srcb) (.xor .srcb .srcc)),
    .or .srcb (.and .srca (.not .srcc)), .or .srcb (.not .srcc), .or .srcb (.xor .srca .srcc),
    .or .srcb (.not (.and .srca .srcc)), .and .srca (.or .srcb .srcc),
    .not (.xor .srca (.or .srcb .srcc)), .xor .srcc (.and .srcb (.xor .srca .srcc)),
    .not (.xor .srca (.or .srcb (.and .srca .srcc))), .xor .srcb (.and .srcc (.xor .srca .srcb)),
    .not (.xor .srca (.or .srcc (.and .srca .srcb))), .or (.and .srca .srcb) (.xor .srcb .srcc),
    .not (.and (.xor .srca .srcb) (.xor .srca .srcc)),
    .xor .srca (.and (.xor .srca .srcb) (.xor .srca .srcc)),
    .xor (.xor .srca .srcb) (.or (.not .srcc) (.and .srca .srcb)), .or .srcc (.and .srca .srcb),
    .or .srcc (.not (.xor .srca .srcb)), .or .srcb (.and .srca .srcc),
    .or .srcb (.not (.xor .srca .srcc)), .or .srcb .srcc, .or (.or (.not .srca) .srcb) .srcc,
    .srca, .or .srca (.not (.or .srcb .srcc)), .or .srca (.and (.not .srcb) .srcc),
    .or .srca (.not .srcb), .or .srca (.and .srcb (.not .srcc)), .or .srca (.not .srcc),
    .or .srca (.xor .srcb .srcc), .or .srca (.not (.and .srcb .srcc)),
    .or .srca (.and .srcb .srcc), .or .srca (.not (.xor .srcb .srcc)), .or .srca .srcc,
    .or (.or .srca (.not .srcb)) .srcc, .or .srca .srcb, .or (.or .srca .srcb) (.not .srcc),
    .or (.or .srca .srcb) .srcc, .ones]

/-- `blit_func` as it stands in the source. -/
def blitSwitch (srca srcb srcc : UInt32) (mt : UInt8) : UInt32 :=
  (blitOps.getD mt.toNat .zero).eval srca srcb srcc

/-- The place of a bit's sources in a minterm. -/
def place (a b c : Bool) : Nat := 4 * a.toNat + 2 * b.toNat + c.toNat

/-- Each expression computes the minterms that its number lists. -/
theorem bit_blitOps : ∀ mt < 256, ∀ a b c : Bool,
    (blitOps.getD mt .zero).bit a b c = mt.testBit (place a b c) := by
  decide +kernel

theorem getLsbD_select (positive : Bool) (src : UInt32) {i : Nat} (hi : i < 32) :
    (select positive src).toBitVec.getLsbD i = (positive == src.toBitVec.getLsbD i) := by
  cases positive with
  | true => simp [select]
  | false => simp [select, hi]

/-- A bit of some of the minterms. -/
theorem getLsbD_minterms (a b c : UInt32) (mt : Nat) {i : Nat} (hi : i < 32) (ks : List Nat) :
    ∀ acc : UInt32, (ks.foldl (fun acc k =>
      if mt.testBit k then
        acc ||| (select (k.testBit 2) a &&& select (k.testBit 1) b &&& select (k.testBit 0) c)
      else acc) acc).toBitVec.getLsbD i =
        (acc.toBitVec.getLsbD i || ks.any fun k => mt.testBit k &&
          ((k.testBit 2 == a.toBitVec.getLsbD i) && (k.testBit 1 == b.toBitVec.getLsbD i) &&
            (k.testBit 0 == c.toBitVec.getLsbD i))) := by
  induction ks with
  | nil => exact fun acc => (Bool.or_false _).symm
  | cons k ks ih =>
    intro acc
    rw [List.foldl_cons, ih, List.any_cons, ← Bool.or_assoc]
    congr 1
    cases mt.testBit k with
    | false => simp
    | true =>
      simp only [if_true, UInt32.toBitVec_or, UInt32.toBitVec_and, BitVec.getLsbD_or,
        BitVec.getLsbD_and, getLsbD_select _ _ hi, Bool.true_and]

/-- Of the minterms the sources of a bit choose one. -/
theorem any_minterm (mt : Nat) (a b c : Bool) :
    ((List.range 8).any fun k => mt.testBit k &&
      ((k.testBit 2 == a) && (k.testBit 1 == b) && (k.testBit 0 == c))) =
        mt.testBit (place a b c) := by
  cases a <;> cases b <;> cases c <;>
    simp [List.range_succ, place, Nat.testBit, Nat.shiftRight_eq_div_pow]

/-- A bit of the result is the minterm that its sources choose. -/
theorem getLsbD_blitFunc (a b c : UInt32) (mt : UInt8) {i : Nat} (hi : i < 32) :
    (blitFunc a b c mt).toBitVec.getLsbD i = mt.toNat.testBit
      (place (a.toBitVec.getLsbD i) (b.toBitVec.getLsbD i) (c.toBitVec.getLsbD i)) := by
  rw [blitFunc, getLsbD_minterms a b c mt.toNat hi, any_minterm]
  simp

/-- The switch computes the minterms, whatever the sources. -/
theorem blitSwitch_eq_blitFunc (a b c : UInt32) (mt : UInt8) :
    blitSwitch a b c mt = blitFunc a b c mt := by
  apply UInt32.toBitVec_inj.mp
  apply BitVec.eq_of_getLsbD_eq
  intro i hi
  rw [blitSwitch, Logic.getLsbD_eval a b c _ hi, bit_blitOps _ mt.toNat_lt,
    getLsbD_blitFunc _ _ _ _ hi]

end LibretroUae.Blitter
