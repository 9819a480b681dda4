import Mathlib.Logic.Function.Basic
import Mathlib.Tactic.Positivity

/-!
# LibretroUae.Cpu.Bitfield

**The bit fields of the 68020.** `getBitfield` fetches the one to five bytes that hold the field
and keeps, in `bdata`, what lies around it; `putBitfield` writes the bytes back with a value in its
place. Memory is read as one stream of bits (`bitAt`), the highest bit of each byte first: a field
of `width` bits at `offset` is a stretch of it, and the five sizes of access only cut the stretch
in different places (`IsPiece`).
-/

namespace LibretroUae.Cpu.Bitfield

/-! ### The source -/

/-- The memory of the machine; an address past the last one comes round to the first. -/
abbrev Memory := BitVec 32 → BitVec 8

def getByte (m : Memory) (addr : BitVec 32) : BitVec 32 := (m addr).setWidth 32

def getWord (m : Memory) (addr : BitVec 32) : BitVec 32 :=
  getByte m addr <<< 8 ||| getByte m (addr + 1)

def getLong (m : Memory) (addr : BitVec 32) : BitVec 32 :=
  getWord m addr <<< 16 ||| getWord m (addr + 2)

/-- `put_byte`, which takes the low byte of the value. -/
def putByte (m : Memory) (addr v : BitVec 32) : Memory := Function.update m addr (v.setWidth 8)

def putWord (m : Memory) (addr v : BitVec 32) : Memory :=
  putByte (putByte m addr (v >>> 8)) (addr + 1) v

def putLong (m : Memory) (addr v : BitVec 32) : Memory :=
  putWord (putWord m addr (v >>> 16)) (addr + 2) v

/-- The unmodified data around a field: `uae_u32 bdata[2]`. -/
structure Bdata where
  first : BitVec 32
  second : BitVec 32
  deriving DecidableEq, Repr

/-- `mask` of `get_bitfield`. -/
def fieldMask (width : Nat) : BitVec 32 := (0xffffffff : BitVec 32) <<< (32 - width)

/-- `offset & 7`. -/
def bitOffset (offset : BitVec 32) : Nat := (offset &&& 7).toNat

/-- `get_bitfield`: the field in the highest bits, and what is around it. -/
def getBitfield (m : Memory) (src : BitVec 32) (bdata : Bdata) (offset : BitVec 32) (width : Nat) :
    BitVec 32 × Bdata :=
  let offset := bitOffset offset
  let mask := fieldMask width
  match (offset + width + 7) >>> 3 with
  | 1 =>
    let tmp := getByte m src
    (tmp <<< (24 + offset), { bdata with first := tmp &&& ~~~(mask >>> (24 + offset)) })
  | 2 =>
    let tmp := getWord m src
    (tmp <<< (16 + offset), { bdata with first := tmp &&& ~~~(mask >>> (16 + offset)) })
  | 3 =>
    let tmp := getWord m src
    let tmp' := getByte m (src + 2)
    (tmp <<< (16 + offset) ||| tmp' <<< (8 + offset),
      { first := tmp &&& ~~~(mask >>> (16 + offset)),
        second := tmp' &&& ~~~(mask >>> (8 + offset)) })
  | 4 =>
    let tmp := getLong m src
    (tmp <<< offset, { bdata with first := tmp &&& ~~~(mask >>> offset) })
  | 5 =>
    let tmp := getLong m src
    let tmp' := getByte m (src + 4)
    (tmp <<< offset ||| tmp' >>> (8 - offset),
      { first := tmp &&& ~~~(mask >>> offset),
        second := tmp' &&& ~~~(mask <<< (8 - offset)) })
  | _ => (0, bdata)

/-- `put_bitfield`. -/
def putBitfield (m : Memory) (dst : BitVec 32) (bdata : Bdata) (val : BitVec 32)
    (offset : BitVec 32) (width : Nat) : Memory :=
  let offset := bitOffset offset + width
  match (offset + 7) >>> 3 with
  | 1 => putByte m dst (bdata.first ||| val <<< (8 - offset))
  | 2 => putWord m dst (bdata.first ||| val <<< (16 - offset))
  | 3 =>
    let m := putWord m dst (bdata.first ||| val >>> (offset - 16))
    putByte m (dst + 2) (bdata.second ||| val <<< (24 - offset))
  | 4 => putLong m dst (bdata.first ||| val <<< (32 - offset))
  | 5 =>
    let m := putLong m dst (bdata.first ||| val >>> (offset - 32))
    putByte m (dst + 4) (bdata.second ||| val <<< (40 - offset))
  | _ => m

/-! ### Memory as a stream of bits -/

/-- Bit `q` of the stream that starts at `addr`. -/
def bitAt (m : Memory) (addr : BitVec 32) (q : Nat) : Bool :=
  (m (addr + BitVec.ofNat 32 (q / 8))).getMsbD (q % 8)

theorem bitAt_offset (m : Memory) (addr : BitVec 32) (n q : Nat) :
    bitAt m (addr + BitVec.ofNat 32 n) q = bitAt m addr (8 * n + q) := by
  have hdiv : (8 * n + q) / 8 = n + q / 8 := by omega
  have hmod : (8 * n + q) % 8 = q % 8 := by omega
  rw [bitAt, bitAt, hdiv, hmod, BitVec.add_assoc, BitVec.ofNat_add]

theorem getLsbD_getByte (m : Memory) (addr : BitVec 32) {i : Nat} (hi : i < 8) :
    (getByte m addr).getLsbD i = bitAt m addr (7 - i) := by
  have hdiv : (7 - i) / 8 = 0 := by omega
  have hmod : (7 - i) % 8 = 7 - i := by omega
  have hback : 7 - (7 - i) = i := by omega
  have hlt : 7 - i < 8 := by omega
  have hi' : i < 32 := by omega
  rw [bitAt, hdiv, hmod, BitVec.getMsbD_eq_getLsbD, hback]
  simp [getByte, hlt, hi', -BitVec.getLsbD_eq_getElem]

theorem getLsbD_getByte_high (m : Memory) (addr : BitVec 32) {i : Nat} (hi : 8 ≤ i) :
    (getByte m addr).getLsbD i = false := by
  simp [getByte, BitVec.getLsbD_of_ge _ _ hi]

theorem getLsbD_getWord (m : Memory) (addr : BitVec 32) {i : Nat} (hi : i < 16) :
    (getWord m addr).getLsbD i = bitAt m addr (15 - i) := by
  rw [getWord, BitVec.getLsbD_or, BitVec.getLsbD_shiftLeft]
  by_cases hlow : i < 8
  · have hq : 15 - i = 8 * 1 + (7 - i) := by omega
    rw [getLsbD_getByte m _ hlow, hq, ← bitAt_offset]
    simp [hlow]
  · have hq : 15 - i = 7 - (i - 8) := by omega
    rw [getLsbD_getByte m addr (by omega : i - 8 < 8), getLsbD_getByte_high m _ (by omega), hq]
    simp [hlow]
    omega

theorem getLsbD_getWord_high (m : Memory) (addr : BitVec 32) {i : Nat} (hi : 16 ≤ i) :
    (getWord m addr).getLsbD i = false := by
  rw [getWord, BitVec.getLsbD_or, BitVec.getLsbD_shiftLeft,
    getLsbD_getByte_high m addr (by omega : 8 ≤ i - 8), getLsbD_getByte_high m _ (by omega)]
  simp

theorem getLsbD_getLong (m : Memory) (addr : BitVec 32) {i : Nat} (hi : i < 32) :
    (getLong m addr).getLsbD i = bitAt m addr (31 - i) := by
  rw [getLong, BitVec.getLsbD_or, BitVec.getLsbD_shiftLeft]
  by_cases hlow : i < 16
  · have hq : 31 - i = 8 * 2 + (15 - i) := by omega
    rw [getLsbD_getWord m _ hlow, hq, ← bitAt_offset]
    simp [hlow]
  · have hq : 31 - i = 15 - (i - 16) := by omega
    rw [getLsbD_getWord m addr (by omega : i - 16 < 16), getLsbD_getWord_high m _ (by omega), hq]
    simp [hlow, hi]

/-- `m'` is `m` with the lowest `l` bits of `v` stored from byte `n` of the stream at `src`. -/
structure Stores (m' m : Memory) (src : BitVec 32) (n l : Nat) (v : BitVec 32) : Prop where
  stored : ∀ q < 40, bitAt m' src q =
    if 8 * n ≤ q ∧ q < 8 * n + l then v.getLsbD (8 * n + l - 1 - q) else bitAt m src q
  frame : ∀ x, (∀ i < 5, x ≠ src + BitVec.ofNat 32 i) → m' x = m x

theorem add_ofNat_inj {src : BitVec 32} {i j : Nat} (hi : i < 5) (hj : j < 5)
    (h : src + BitVec.ofNat 32 i = src + BitVec.ofNat 32 j) : i = j := by
  have h' : BitVec.ofNat 32 i = BitVec.ofNat 32 j := by simpa using h
  have hnat := congrArg BitVec.toNat h'
  rw [BitVec.toNat_ofNat, BitVec.toNat_ofNat, Nat.mod_eq_of_lt (by omega),
    Nat.mod_eq_of_lt (by omega)] at hnat
  exact hnat

theorem putByte_stores (m : Memory) (src : BitVec 32) {n : Nat} (hn : n < 5) (v : BitVec 32) :
    Stores (putByte m (src + BitVec.ofNat 32 n) v) m src n 8 v where
  stored := by
    intro q hq
    by_cases hbyte : q / 8 = n
    · have hin : 8 * n ≤ q ∧ q < 8 * n + 8 := by omega
      have hbit : 8 * n + 8 - 1 - q = 7 - q % 8 := by omega
      have hlt : q % 8 < 8 := by omega
      have hlt' : 7 - q % 8 < 8 := by omega
      rw [if_pos hin, hbit, bitAt, hbyte, putByte, Function.update_self,
        BitVec.getMsbD_eq_getLsbD]
      simp [hlt, hlt']
    · have hout : ¬ (8 * n ≤ q ∧ q < 8 * n + 8) := by omega
      have hne : src + BitVec.ofNat 32 (q / 8) ≠ src + BitVec.ofNat 32 n :=
        fun h => hbyte (add_ofNat_inj (by omega) hn h)
      rw [if_neg hout, bitAt, putByte, Function.update_of_ne hne, ← bitAt]
  frame := by
    intro x hx
    rw [putByte, Function.update_of_ne (hx n hn)]

/-- Two stores next to each other are one store of both widths. -/
theorem Stores.join {m'' m' m : Memory} {src : BitVec 32} {n a b : Nat} {v : BitVec 32}
    (hfirst : Stores m' m src n (8 * a) (v >>> (8 * b)))
    (hsecond : Stores m'' m' src (n + a) (8 * b) v) :
    Stores m'' m src n (8 * a + 8 * b) v where
  stored := by
    intro q hq
    rw [hsecond.stored q hq, hfirst.stored q hq]
    by_cases hlow : 8 * (n + a) ≤ q ∧ q < 8 * (n + a) + 8 * b
    · have hin : 8 * n ≤ q ∧ q < 8 * n + (8 * a + 8 * b) := by omega
      have hbit : 8 * (n + a) + 8 * b - 1 - q = 8 * n + (8 * a + 8 * b) - 1 - q := by omega
      rw [if_pos hlow, if_pos hin, hbit]
    · rw [if_neg hlow]
      by_cases hhigh : 8 * n ≤ q ∧ q < 8 * n + 8 * a
      · have hin : 8 * n ≤ q ∧ q < 8 * n + (8 * a + 8 * b) := by omega
        have hbit : 8 * b + (8 * n + 8 * a - 1 - q) = 8 * n + (8 * a + 8 * b) - 1 - q := by omega
        rw [if_pos hhigh, if_pos hin, BitVec.getLsbD_ushiftRight, hbit]
      · have hout : ¬ (8 * n ≤ q ∧ q < 8 * n + (8 * a + 8 * b)) := by omega
        rw [if_neg hhigh, if_neg hout]
  frame := by
    intro x hx
    rw [hsecond.frame x hx, hfirst.frame x hx]

theorem putWord_stores (m : Memory) (src : BitVec 32) {n : Nat} (hn : n < 4) (v : BitVec 32) :
    Stores (putWord m (src + BitVec.ofNat 32 n) v) m src n 16 v := by
  have haddr : src + BitVec.ofNat 32 n + 1 = src + BitVec.ofNat 32 (n + 1) := by
    rw [BitVec.add_assoc, BitVec.ofNat_add]
    rfl
  have hfirst := putByte_stores m src (by omega : n < 5) (v >>> (8 * 1))
  have hsecond := putByte_stores (putByte m (src + BitVec.ofNat 32 n) (v >>> (8 * 1))) src
    (by omega : n + 1 < 5) v
  rw [← haddr] at hsecond
  exact Stores.join (a := 1) (b := 1) hfirst hsecond

theorem putLong_stores (m : Memory) (src : BitVec 32) {n : Nat} (hn : n < 2) (v : BitVec 32) :
    Stores (putLong m (src + BitVec.ofNat 32 n) v) m src n 32 v := by
  have haddr : src + BitVec.ofNat 32 n + 2 = src + BitVec.ofNat 32 (n + 2) := by
    rw [BitVec.add_assoc, BitVec.ofNat_add]
    rfl
  have hfirst := putWord_stores m src (by omega : n < 4) (v >>> (8 * 2))
  have hsecond := putWord_stores (putWord m (src + BitVec.ofNat 32 n) (v >>> (8 * 2))) src
    (by omega : n + 2 < 4) v
  rw [← haddr] at hsecond
  exact Stores.join (a := 2) (b := 2) hfirst hsecond

/-! ### One piece of a field -/

/-- The stream with `val` in the `width` bits at `o`. -/
def fieldBit (m : Memory) (src : BitVec 32) (o width : Nat) (val : BitVec 32) (q : Nat) : Bool :=
  if o ≤ q ∧ q < o + width then val.getLsbD (o + width - 1 - q) else bitAt m src q

theorem getLsbD_fieldMask {width i : Nat} :
    (fieldMask width).getLsbD i = decide (32 - width ≤ i ∧ i < 32) := by
  have hones : (0xffffffff : BitVec 32) = BitVec.allOnes 32 := by decide
  rw [fieldMask, hones, BitVec.getLsbD_shiftLeft, BitVec.getLsbD_allOnes]
  by_cases hlow : i < 32 - width
  · have hout : ¬ (32 - width ≤ i ∧ i < 32) := by omega
    rw [decide_eq_false hout]
    simp [hlow]
  · have hiff : (32 - width ≤ i ∧ i < 32) ↔ i < 32 := by omega
    have hlt : i < 32 → i - (32 - width) < 32 := fun h => by omega
    simp only [hiff, hlow, decide_false, Bool.not_false, Bool.and_true]
    by_cases hhigh : i < 32
    · simp [hhigh, hlt hhigh]
    · simp [hhigh]

/-- The mask of an access that ends at bit `p ≤ 32` of the stream. -/
theorem getLsbD_mask_right {width o p i : Nat} (hwidth : 1 ≤ width ∧ width ≤ 32) (hp : p ≤ 32)
    (hi : i < p) :
    (fieldMask width >>> (32 - p + o)).getLsbD i =
      decide (o ≤ p - 1 - i ∧ p - 1 - i < o + width) := by
  rw [BitVec.getLsbD_ushiftRight, getLsbD_fieldMask, decide_eq_decide]
  omega

/-- The mask of the last byte of five. -/
theorem getLsbD_mask_left {width o i : Nat} (hwidth : 1 ≤ width ∧ width ≤ 32) (ho : o ≤ 7)
    (hi : i < 8) :
    (fieldMask width <<< (8 - o)).getLsbD i =
      decide (o ≤ 40 - 1 - i ∧ 40 - 1 - i < o + width) := by
  rw [BitVec.getLsbD_shiftLeft, getLsbD_fieldMask]
  by_cases hlow : i < 8 - o
  · have hout : ¬ (o ≤ 40 - 1 - i ∧ 40 - 1 - i < o + width) := by omega
    simp [hlow, hout]
  · have hiff : (32 - width ≤ i - (8 - o) ∧ i - (8 - o) < 32) ↔
        (o ≤ 40 - 1 - i ∧ 40 - 1 - i < o + width) := by omega
    simp only [hiff, hlow, (by omega : i < 32), decide_true, decide_false, Bool.not_false,
      Bool.true_and]

theorem getLsbD_val_left {val : BitVec 32} {e p i : Nat} (hi : i < 32 ∧ i < p) (he : e ≤ p) :
    (val <<< (p - e)).getLsbD i =
      if p - 1 - i < e then val.getLsbD (e - 1 - (p - 1 - i)) else false := by
  rw [BitVec.getLsbD_shiftLeft]
  by_cases hlow : i < p - e
  · have hout : ¬ p - 1 - i < e := by omega
    rw [if_neg hout]
    simp [hlow]
  · have hin : p - 1 - i < e := by omega
    have hbit : e - 1 - (p - 1 - i) = i - (p - e) := by omega
    rw [if_pos hin, hbit]
    simp [hlow, hi.1]

theorem getLsbD_val_right {val : BitVec 32} {e p i : Nat} (hi : i < p) (he : p ≤ e) :
    (val >>> (e - p)).getLsbD i =
      if p - 1 - i < e then val.getLsbD (e - 1 - (p - 1 - i)) else false := by
  have hin : p - 1 - i < e := by omega
  have hbit : e - 1 - (p - 1 - i) = e - p + i := by omega
  rw [if_pos hin, hbit, BitVec.getLsbD_ushiftRight]

theorem getLsbD_high {val : BitVec 32} {width j : Nat} (hval : val.toNat < 2 ^ width)
    (hj : width ≤ j) : val.getLsbD j = false := by
  rw [← BitVec.testBit_toNat]
  exact Nat.testBit_lt_two_pow (Nat.lt_of_lt_of_le hval (Nat.pow_le_pow_right (by omega) hj))

/-- What `put_bitfield` has in hand for the `l` bits from byte `n` on: the bits `tmp` of memory, the
`mask` over the field and the value in its place. -/
structure IsPiece (m : Memory) (src : BitVec 32) (o width n l : Nat) (val tmp mask v : BitVec 32) :
    Prop where
  tmp_bit : ∀ i < l, tmp.getLsbD i = bitAt m src (8 * n + l - 1 - i)
  mask_bit : ∀ i < l, mask.getLsbD i =
    decide (o ≤ 8 * n + l - 1 - i ∧ 8 * n + l - 1 - i < o + width)
  val_bit : ∀ i < l, v.getLsbD i =
    if 8 * n + l - 1 - i < o + width then val.getLsbD (o + width - 1 - (8 * n + l - 1 - i))
    else false

theorem IsPiece.bit {m : Memory} {src : BitVec 32} {o width n l : Nat}
    {val tmp mask v : BitVec 32} (h : IsPiece m src o width n l val tmp mask v) (hl : l ≤ 32)
    (hval : val.toNat < 2 ^ width) {i : Nat} (hi : i < l) :
    (tmp &&& ~~~mask ||| v).getLsbD i = fieldBit m src o width val (8 * n + l - 1 - i) := by
  have hi' : i < 32 := by omega
  rw [BitVec.getLsbD_or, BitVec.getLsbD_and, BitVec.getLsbD_not, h.tmp_bit i hi, h.mask_bit i hi,
    h.val_bit i hi, fieldBit]
  by_cases hin : o ≤ 8 * n + l - 1 - i ∧ 8 * n + l - 1 - i < o + width
  · simp [hin]
  · rw [if_neg hin]
    by_cases hend : 8 * n + l - 1 - i < o + width
    · -- before the field: the bits of the value above its width
      have hstart : ¬ o ≤ 8 * n + l - 1 - i := fun ho => hin ⟨ho, hend⟩
      have hhigh : val.getLsbD (o + width - 1 - (8 * n + l - 1 - i)) = false :=
        getLsbD_high hval (by omega)
      simp [hstart, hend, hi', hhigh]
    · simp [hend, hi']

theorem Stores.field {m'' m' m : Memory} {src : BitVec 32} {o width n l : Nat}
    {val tmp mask v : BitVec 32} (hstore : Stores m'' m' src n l (tmp &&& ~~~mask ||| v))
    (hpiece : IsPiece m src o width n l val tmp mask v) (hl : l ≤ 32)
    (hval : val.toNat < 2 ^ width) {q : Nat} (hq : q < 40) :
    bitAt m'' src q =
      if 8 * n ≤ q ∧ q < 8 * n + l then fieldBit m src o width val q else bitAt m' src q := by
  rw [hstore.stored q hq]
  by_cases hin : 8 * n ≤ q ∧ q < 8 * n + l
  · have hq' : 8 * n + l - 1 - (8 * n + l - 1 - q) = q := by omega
    rw [if_pos hin, if_pos hin, hpiece.bit hl hval (by omega), hq']
  · rw [if_neg hin, if_neg hin]

/-! ### The five accesses -/

/-- `m'` is `m` with `val` in the field. -/
structure IsWritten (m' m : Memory) (src : BitVec 32) (o width : Nat) (val : BitVec 32) : Prop where
  written : ∀ q < 40, bitAt m' src q = fieldBit m src o width val q
  frame : ∀ x, (∀ i < 5, x ≠ src + BitVec.ofNat 32 i) → m' x = m x

theorem IsWritten.of_one {m' m : Memory} {src : BitVec 32} {o width l : Nat}
    {val tmp mask v : BitVec 32} (hstore : Stores m' m src 0 l (tmp &&& ~~~mask ||| v))
    (hpiece : IsPiece m src o width 0 l val tmp mask v) (hl : l ≤ 32)
    (hval : val.toNat < 2 ^ width) (hend : o + width ≤ l) : IsWritten m' m src o width val where
  written := by
    intro q hq
    rw [hstore.field hpiece hl hval hq]
    by_cases hin : q < l
    · have hin' : 8 * 0 ≤ q ∧ q < 8 * 0 + l := by omega
      rw [if_pos hin']
    · have hout : ¬ (8 * 0 ≤ q ∧ q < 8 * 0 + l) := by omega
      have hout' : ¬ (o ≤ q ∧ q < o + width) := by omega
      rw [if_neg hout, fieldBit, if_neg hout']
  frame := hstore.frame

theorem IsWritten.of_two {m'' m' m : Memory} {src : BitVec 32} {o width n : Nat}
    {val tmp mask v tmp' mask' v' : BitVec 32}
    (hstore : Stores m' m src 0 (8 * n) (tmp &&& ~~~mask ||| v))
    (hstore' : Stores m'' m' src n 8 (tmp' &&& ~~~mask' ||| v'))
    (hpiece : IsPiece m src o width 0 (8 * n) val tmp mask v)
    (hpiece' : IsPiece m src o width n 8 val tmp' mask' v') (hn : n ≤ 4)
    (hval : val.toNat < 2 ^ width) (hend : o + width ≤ 8 * n + 8) :
    IsWritten m'' m src o width val where
  written := by
    intro q hq
    rw [hstore'.field hpiece' (by omega) hval hq, hstore.field hpiece (by omega) hval hq]
    by_cases hlow : q < 8 * n
    · have hout : ¬ (8 * n ≤ q ∧ q < 8 * n + 8) := by omega
      have hin : 8 * 0 ≤ q ∧ q < 8 * 0 + 8 * n := by omega
      rw [if_neg hout, if_pos hin]
    · by_cases hin : q < 8 * n + 8
      · rw [if_pos ⟨by omega, hin⟩]
      · have hout : ¬ (8 * n ≤ q ∧ q < 8 * n + 8) := by omega
        have hout' : ¬ (8 * 0 ≤ q ∧ q < 8 * 0 + 8 * n) := by omega
        have hfield : ¬ (o ≤ q ∧ q < o + width) := by omega
        rw [if_neg hout, if_neg hout', fieldBit, if_neg hfield]
  frame := by
    intro x hx
    rw [hstore'.frame x hx, hstore.frame x hx]

theorem bitOffset_le (offset : BitVec 32) : bitOffset offset ≤ 7 := by
  rw [bitOffset, BitVec.toNat_and]
  exact Nat.and_le_right

/-- The sizes of access. -/
theorem access_cases (o width : Nat) (ho : o ≤ 7) (hwidth : 1 ≤ width ∧ width ≤ 32) :
    ((o + width + 7) >>> 3 = 1 ∧ o + width ≤ 8) ∨
    ((o + width + 7) >>> 3 = 2 ∧ 8 < o + width ∧ o + width ≤ 16) ∨
    ((o + width + 7) >>> 3 = 3 ∧ 16 < o + width ∧ o + width ≤ 24) ∨
    ((o + width + 7) >>> 3 = 4 ∧ 24 < o + width ∧ o + width ≤ 32) ∨
    ((o + width + 7) >>> 3 = 5 ∧ 32 < o + width ∧ o + width ≤ 40) := by
  rw [Nat.shiftRight_eq_div_pow]
  omega

theorem first_piece {m : Memory} {src : BitVec 32} {o width l : Nat} {val tmp v : BitVec 32}
    (hwidth : 1 ≤ width ∧ width ≤ 32) (hl : l ≤ 32)
    (htmp : ∀ i < l, tmp.getLsbD i = bitAt m src (l - 1 - i))
    (hv : ∀ i < l, v.getLsbD i =
      if l - 1 - i < o + width then val.getLsbD (o + width - 1 - (l - 1 - i)) else false) :
    IsPiece m src o width 0 l val tmp (fieldMask width >>> (32 - l + o)) v where
  tmp_bit := by
    intro i hi
    rw [htmp i hi, Nat.mul_zero, Nat.zero_add]
  mask_bit := by
    intro i hi
    rw [getLsbD_mask_right hwidth hl hi, Nat.mul_zero, Nat.zero_add]
  val_bit := by
    intro i hi
    rw [hv i hi, Nat.mul_zero, Nat.zero_add]

theorem last_byte {m : Memory} {src : BitVec 32} {n i : Nat} (hi : i < 8) :
    (getByte m (src + BitVec.ofNat 32 n)).getLsbD i = bitAt m src (8 * n + 8 - 1 - i) := by
  have hq : 8 * n + 8 - 1 - i = 8 * n + (7 - i) := by omega
  rw [getLsbD_getByte m _ hi, bitAt_offset, hq]

/-- `put_bitfield` after `get_bitfield` writes the field and nothing else. -/
theorem putBitfield_written (m : Memory) (src : BitVec 32) (bdata : Bdata) (offset : BitVec 32)
    {width : Nat} (hwidth : 1 ≤ width ∧ width ≤ 32) {val : BitVec 32}
    (hval : val.toNat < 2 ^ width) :
    IsWritten (putBitfield m src (getBitfield m src bdata offset width).2 val offset width) m src
      (bitOffset offset) width val := by
  have ho := bitOffset_le offset
  have hsrc : src + BitVec.ofNat 32 0 = src := by simp
  rcases access_cases (bitOffset offset) width ho hwidth with
    ⟨h, hend⟩ | ⟨h, hstart, hend⟩ | ⟨h, hstart, hend⟩ | ⟨h, hstart, hend⟩ | ⟨h, hstart, hend⟩
  · simp only [putBitfield, getBitfield, h]
    have hpiece := first_piece (v := val <<< (8 - (bitOffset offset + width))) hwidth
      (by omega : 8 ≤ 32) (fun i hi => getLsbD_getByte m src hi)
      (fun i hi => getLsbD_val_left ⟨by omega, hi⟩ hend)
    have hstore := putByte_stores m src (by omega : 0 < 5)
      (getByte m src &&& ~~~(fieldMask width >>> (24 + bitOffset offset)) |||
        val <<< (8 - (bitOffset offset + width)))
    rw [hsrc] at hstore
    exact IsWritten.of_one hstore hpiece (by omega) hval hend
  · simp only [putBitfield, getBitfield, h]
    have hpiece := first_piece (v := val <<< (16 - (bitOffset offset + width))) hwidth
      (by omega : 16 ≤ 32) (fun i hi => getLsbD_getWord m src hi)
      (fun i hi => getLsbD_val_left ⟨by omega, hi⟩ hend)
    have hstore := putWord_stores m src (by omega : 0 < 4)
      (getWord m src &&& ~~~(fieldMask width >>> (16 + bitOffset offset)) |||
        val <<< (16 - (bitOffset offset + width)))
    rw [hsrc] at hstore
    exact IsWritten.of_one hstore hpiece (by omega) hval hend
  · simp only [putBitfield, getBitfield, h]
    have hpiece := first_piece (v := val >>> (bitOffset offset + width - 16)) hwidth
      (by omega : 16 ≤ 32) (fun i hi => getLsbD_getWord m src hi)
      (fun i hi => getLsbD_val_right hi (by omega))
    have hstore := putWord_stores m src (by omega : 0 < 4)
      (getWord m src &&& ~~~(fieldMask width >>> (16 + bitOffset offset)) |||
        val >>> (bitOffset offset + width - 16))
    rw [hsrc] at hstore
    have hpiece' : IsPiece m src (bitOffset offset) width 2 8 val (getByte m (src + 2))
        (fieldMask width >>> (8 + bitOffset offset))
        (val <<< (24 - (bitOffset offset + width))) :=
      { tmp_bit := fun i hi => last_byte hi
        mask_bit := fun i hi => getLsbD_mask_right (p := 24) hwidth (by omega) (by omega)
        val_bit := fun i hi => getLsbD_val_left (p := 24) ⟨by omega, by omega⟩ hend }
    exact IsWritten.of_two (n := 2) hstore (putByte_stores _ src (by decide) _) hpiece hpiece'
      (by omega) hval hend
  · simp only [putBitfield, getBitfield, h]
    have hpiece := first_piece (v := val <<< (32 - (bitOffset offset + width))) hwidth
      (by omega : 32 ≤ 32) (fun i hi => getLsbD_getLong m src hi)
      (fun i hi => getLsbD_val_left ⟨by omega, hi⟩ hend)
    have hstore := putLong_stores m src (by omega : 0 < 2)
      (getLong m src &&& ~~~(fieldMask width >>> (32 - 32 + bitOffset offset)) |||
        val <<< (32 - (bitOffset offset + width)))
    rw [hsrc] at hstore
    have hshift : 32 - 32 + bitOffset offset = bitOffset offset := by omega
    rw [hshift] at hstore hpiece
    exact IsWritten.of_one hstore hpiece (by omega) hval hend
  · simp only [putBitfield, getBitfield, h]
    have hpiece := first_piece (v := val >>> (bitOffset offset + width - 32)) hwidth
      (by omega : 32 ≤ 32) (fun i hi => getLsbD_getLong m src hi)
      (fun i hi => getLsbD_val_right hi (by omega))
    have hshift : 32 - 32 + bitOffset offset = bitOffset offset := by omega
    rw [hshift] at hpiece
    have hstore := putLong_stores m src (by omega : 0 < 2)
      (getLong m src &&& ~~~(fieldMask width >>> bitOffset offset) |||
        val >>> (bitOffset offset + width - 32))
    rw [hsrc] at hstore
    have hpiece' : IsPiece m src (bitOffset offset) width 4 8 val (getByte m (src + 4))
        (fieldMask width <<< (8 - bitOffset offset))
        (val <<< (40 - (bitOffset offset + width))) :=
      { tmp_bit := fun i hi => last_byte hi
        mask_bit := fun i hi => getLsbD_mask_left hwidth ho hi
        val_bit := fun i hi => getLsbD_val_left (p := 40) ⟨by omega, by omega⟩ hend }
    exact IsWritten.of_two (n := 4) hstore (putByte_stores _ src (by decide) _) hpiece hpiece'
      (by omega) hval hend

/-- The shifts of `get_bitfield`: the word that ends at bit `p` of the stream, moved to the top. -/
theorem getLsbD_res {m : Memory} {src tmp : BitVec 32} {o p k : Nat} (hp : p ≤ 32)
    (htmp : ∀ i < p, tmp.getLsbD i = bitAt m src (p - 1 - i)) (hk : k < 32) (hend : o + k < p) :
    (tmp <<< (32 - p + o)).getLsbD (31 - k) = bitAt m src (o + k) := by
  have hge : ¬ 31 - k < 32 - p + o := by omega
  have hlt : 31 - k < 32 := by omega
  have hq : p - 1 - (31 - k - (32 - p + o)) = o + k := by omega
  rw [BitVec.getLsbD_shiftLeft, htmp _ (by omega), hq]
  simp [hge, hlt]

/-- `get_bitfield` returns the field in the highest bits. -/
theorem getBitfield_bit (m : Memory) (src : BitVec 32) (bdata : Bdata) (offset : BitVec 32)
    {width : Nat} (hwidth : 1 ≤ width ∧ width ≤ 32) {k : Nat} (hk : k < width) :
    (getBitfield m src bdata offset width).1.getMsbD k = bitAt m src (bitOffset offset + k) := by
  have ho := bitOffset_le offset
  have hk' : k < 32 := by omega
  rw [BitVec.getMsbD_eq_getLsbD, decide_eq_true hk', Bool.true_and]
  rcases access_cases (bitOffset offset) width ho hwidth with
    ⟨h, hend⟩ | ⟨h, hstart, hend⟩ | ⟨h, hstart, hend⟩ | ⟨h, hstart, hend⟩ | ⟨h, hstart, hend⟩
  · simp only [getBitfield, h]
    exact getLsbD_res (p := 8) (by decide) (fun i hi => getLsbD_getByte m src hi) hk' (by omega)
  · simp only [getBitfield, h]
    exact getLsbD_res (p := 16) (by decide) (fun i hi => getLsbD_getWord m src hi) hk' (by omega)
  · simp only [getBitfield, h]
    rw [BitVec.getLsbD_or]
    by_cases hword : bitOffset offset + k < 16
    · have hres := getLsbD_res (p := 16) (by decide) (fun i hi => getLsbD_getWord m src hi) hk'
        hword
      have hbyte : (getByte m (src + 2) <<< (8 + bitOffset offset)).getLsbD (31 - k) = false := by
        rw [BitVec.getLsbD_shiftLeft, getLsbD_getByte_high m _ (by omega), Bool.and_false]
      rw [hbyte, Bool.or_false]
      exact hres
    · have hres : (getWord m src <<< (16 + bitOffset offset)).getLsbD (31 - k) = false := by
        have hlow : 31 - k < 16 + bitOffset offset := by omega
        rw [BitVec.getLsbD_shiftLeft]
        simp [hlow]
      have hge : ¬ 31 - k < 8 + bitOffset offset := by omega
      have hlt : 31 - k < 32 := by omega
      have hbit : (getByte m (src + 2)).getLsbD (31 - k - (8 + bitOffset offset)) =
          bitAt m src (8 * 2 + 8 - 1 - (31 - k - (8 + bitOffset offset))) :=
        last_byte (by omega)
      have hq : 8 * 2 + 8 - 1 - (31 - k - (8 + bitOffset offset)) = bitOffset offset + k := by
        omega
      rw [hres, BitVec.getLsbD_shiftLeft, hbit, hq]
      simp [hge, hlt]
  · simp only [getBitfield, h]
    have hres := getLsbD_res (p := 32) (by decide) (fun i hi => getLsbD_getLong m src hi) hk'
      (by omega : bitOffset offset + k < 32)
    rw [Nat.sub_self, Nat.zero_add] at hres
    exact hres
  · simp only [getBitfield, h]
    rw [BitVec.getLsbD_or, BitVec.getLsbD_ushiftRight]
    by_cases hlong : bitOffset offset + k < 32
    · have hres := getLsbD_res (p := 32) (by decide) (fun i hi => getLsbD_getLong m src hi) hk'
        hlong
      have hbyte : (getByte m (src + 4)).getLsbD (8 - bitOffset offset + (31 - k)) = false :=
        getLsbD_getByte_high m _ (by omega)
      rw [Nat.sub_self, Nat.zero_add] at hres
      rw [hbyte, Bool.or_false]
      exact hres
    · have hres : (getLong m src <<< bitOffset offset).getLsbD (31 - k) = false := by
        have hlow : 31 - k < bitOffset offset := by omega
        rw [BitVec.getLsbD_shiftLeft]
        simp [hlow]
      have hbit : (getByte m (src + 4)).getLsbD (8 - bitOffset offset + (31 - k)) =
          bitAt m src (8 * 4 + 8 - 1 - (8 - bitOffset offset + (31 - k))) :=
        last_byte (by omega)
      have hq : 8 * 4 + 8 - 1 - (8 - bitOffset offset + (31 - k)) = bitOffset offset + k := by
        omega
      rw [hres, Bool.false_or, hbit, hq]

/-! ### Reading and writing a field -/

/-- A memory is its bits. -/
theorem memory_ext {m m' : Memory} {src : BitVec 32}
    (hbits : ∀ q < 40, bitAt m' src q = bitAt m src q)
    (hframe : ∀ x, (∀ i < 5, x ≠ src + BitVec.ofNat 32 i) → m' x = m x) : m' = m := by
  funext x
  by_cases hx : ∃ i < 5, x = src + BitVec.ofNat 32 i
  · obtain ⟨i, hi, rfl⟩ := hx
    apply BitVec.eq_of_getMsbD_eq
    intro j hj
    have hq := hbits (8 * i + j) (by omega)
    have hdiv : (8 * i + j) / 8 = i := by omega
    have hmod : (8 * i + j) % 8 = j := by omega
    rw [bitAt, bitAt, hdiv, hmod] at hq
    exact hq
  · exact hframe x (fun i hi h => hx ⟨i, hi, h⟩)

/-- Bit `j` of the byte at `x` is bit `k` of the field. -/
def InField (src : BitVec 32) (o : Nat) (x : BitVec 32) (j k : Nat) : Prop :=
  x = src + BitVec.ofNat 32 ((o + k) / 8) ∧ j = (o + k) % 8

theorem IsWritten.outside {m' m : Memory} {src : BitVec 32} {o width : Nat} {val : BitVec 32}
    (h : IsWritten m' m src o width val) {x : BitVec 32} {j : Nat} (hj : j < 8)
    (hout : ∀ k < width, ¬ InField src o x j k) : (m' x).getMsbD j = (m x).getMsbD j := by
  by_cases hx : ∃ i < 5, x = src + BitVec.ofNat 32 i
  · obtain ⟨i, hi, rfl⟩ := hx
    have hdiv : (8 * i + j) / 8 = i := by omega
    have hmod : (8 * i + j) % 8 = j := by omega
    have hq := h.written (8 * i + j) (by omega)
    have hne : ¬ (o ≤ 8 * i + j ∧ 8 * i + j < o + width) := by
      rintro ⟨hlo, hhi⟩
      have hk : o + (8 * i + j - o) = 8 * i + j := by omega
      refine hout (8 * i + j - o) (by omega) ⟨?_, ?_⟩
      · rw [hk, hdiv]
      · rw [hk, hmod]
    rw [fieldBit, if_neg hne, bitAt, bitAt, hdiv, hmod] at hq
    exact hq
  · rw [h.frame x (fun i hi h => hx ⟨i, hi, h⟩)]

/-- **Writing a field back.** `put_bitfield` after `get_bitfield` sets the bits of the field to the
value, the highest first, and no other bit of memory; `get_bitfield` returns the field in its
highest bits, and to write them back restores memory. -/
theorem getBitfield_putBitfield (m : Memory) (src : BitVec 32) (bdata : Bdata)
    (offset : BitVec 32) (width : Nat) (hwidth : 1 ≤ width ∧ width ≤ 32) (val : BitVec 32)
    (hval : val.toNat < 2 ^ width) :
    let o := bitOffset offset
    let got := getBitfield m src bdata offset width
    let m' := putBitfield m src got.2 val offset width
    (∀ x j k, k < width → InField src o x j k →
      (m' x).getMsbD j = val.getLsbD (width - 1 - k)) ∧
    (∀ x j, j < 8 → (∀ k < width, ¬ InField src o x j k) → (m' x).getMsbD j = (m x).getMsbD j) ∧
    (∀ x j k, k < width → InField src o x j k → got.1.getMsbD k = (m x).getMsbD j) ∧
    putBitfield m src got.2 (got.1 >>> (32 - width)) offset width = m := by
  intro o got m'
  have ho : o ≤ 7 := bitOffset_le offset
  have hwritten : IsWritten m' m src o width val :=
    putBitfield_written m src bdata offset hwidth hval
  refine ⟨?_, fun x j hj => hwritten.outside hj, ?_, ?_⟩
  · rintro x j k hk ⟨rfl, rfl⟩
    have hq := hwritten.written (o + k) (by omega)
    have hbit : o + width - 1 - (o + k) = width - 1 - k := by omega
    rw [fieldBit, if_pos ⟨by omega, by omega⟩, hbit] at hq
    exact hq
  · rintro x j k hk ⟨rfl, rfl⟩
    exact getBitfield_bit m src bdata offset hwidth hk
  · have hres : (got.1 >>> (32 - width)).toNat < 2 ^ width := by
      have hpow : 2 ^ width * 2 ^ (32 - width) = 2 ^ 32 := by
        rw [← Nat.pow_add, Nat.add_sub_cancel' hwidth.2]
      rw [BitVec.toNat_ushiftRight, Nat.shiftRight_eq_div_pow, Nat.div_lt_iff_lt_mul (by positivity),
        hpow]
      exact got.1.isLt
    have hback := putBitfield_written m src bdata offset hwidth hres
    refine memory_ext (fun q hq => ?_) hback.frame
    rw [hback.written q hq, fieldBit]
    by_cases hin : bitOffset offset ≤ q ∧ q < bitOffset offset + width
    · have hbit := getBitfield_bit m src bdata offset hwidth
        (by omega : q - bitOffset offset < width)
      have hk : bitOffset offset + (q - bitOffset offset) = q := by omega
      have hlsb : 32 - width + (bitOffset offset + width - 1 - q) =
          31 - (q - bitOffset offset) := by omega
      have hlt : q - bitOffset offset < 32 := by omega
      rw [hk, BitVec.getMsbD_eq_getLsbD, decide_eq_true hlt, Bool.true_and] at hbit
      rw [if_pos hin, BitVec.getLsbD_ushiftRight, hlsb]
      exact hbit
    · rw [if_neg hin]

/-- A field of nine bits over two bytes. -/
theorem getBitfield_putBitfield_nine :
    let got := getBitfield (fun _ => 0xa5) 0x1000 ⟨0, 0⟩ 5 9
    got.1 = 0xb4a00000 ∧
    putBitfield (fun _ => 0xa5) 0x1000 got.2 (got.1 >>> (32 - 9)) 5 9 = fun _ => 0xa5 :=
  ⟨by decide, (getBitfield_putBitfield (fun _ => 0xa5) 0x1000 ⟨0, 0⟩ 5 9 (by decide) 0x1ff
    (by decide)).2.2.2⟩

end LibretroUae.Cpu.Bitfield
