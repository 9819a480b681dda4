import LibretroUae.Hardfile.VhdImage
import Mathlib.Tactic.IntervalCases

/-!
# LibretroUae.Hardfile.Access

**The address space of a hardfile.** The virtual RDB lies in front of the disk; a transfer
that crosses its end is split. Behind it the kind of image decides where the bytes are.
Contents that are scrambled by an AdIDE adapter or stored with swapped bytes are decoded
after reading and encoded, in the caller's buffer, while writing.
-/

namespace LibretroUae.Hardfile

open Lib Lib.Image

/-! ### Scrambling -/

/-- Moves bits of a word: for each row, the bit of the first number to the second one. -/
def moveBits (rows : List (Nat × Nat)) (w : BitVec 16) : BitVec 16 :=
  rows.foldl (fun o row => if w.getLsbD row.1 then o ||| BitVec.twoPow 16 row.2 else o) 0

def adideRows : List (Nat × Nat) :=
  [(15, 0), (0, 1), (14, 2), (1, 3), (13, 4), (2, 5), (12, 6), (3, 7),
   (11, 8), (4, 9), (10, 10), (5, 11), (9, 12), (6, 13), (8, 14), (7, 15)]

def adideDecodeWord (w : BitVec 16) : BitVec 16 := moveBits adideRows w

def adideEncodeWord (w : BitVec 16) : BitVec 16 := moveBits (adideRows.map Prod.swap) w

/-- Applies `f` to the big-endian words of a buffer of even length. (Behind an odd one the loops of
the source take one more byte from memory.) -/
def mapWords (f : BitVec 16 → BitVec 16) : List Byte → List Byte
  | b1 :: b0 :: rest => be16 (f (word16 b1 b0)) ++ mapWords f rest
  | rest => rest

def adideDecode (buf : List Byte) : List Byte := mapWords adideDecodeWord buf

def adideEncode (buf : List Byte) : List Byte := mapWords adideEncodeWord buf

/-- `hdf_byteswap`, for a buffer of even length. -/
def hdfByteswap : List Byte → List Byte
  | b0 :: b1 :: rest => b1 :: b0 :: hdfByteswap rest
  | rest => rest

/-! ### Transfers -/

/-- The bytes read from the image behind the RDB. -/
def imageRead (h : HardFile) (offset len : Nat) : List Byte × HardFile :=
  match h.hfdType with
  | .vhdDynamic => vhdRead h offset len
  | .vhdFixed => (hdfReadTarget h.target (offset + 512) len, h)
  | .plain => (hdfReadTarget h.target offset len, h)

/-- The number of bytes written to the image behind the RDB. -/
def imageWrite (h : HardFile) (offset : Nat) (buf : List Byte) : Option (Nat × HardFile) :=
  match h.hfdType with
  | .vhdDynamic => vhdWrite h offset buf
  | .vhdFixed =>
    let (ret, target) := hdfWriteTarget h.target (offset + 512) buf
    some (ret, { h with target })
  | .plain =>
    let (ret, target) := hdfWriteTarget h.target offset buf
    some (ret, { h with target })

/-- The part of a transfer that lies in the virtual RDB, `len2` in the source. -/
def rdbPart (h : HardFile) (offset len : Nat) : Nat :=
  if offset < h.virtualSize then
    if offset + len ≤ h.virtualSize then len else h.virtualSize - offset
  else 0

/-- What a result `ret` for the rest of a transfer is for the whole one. -/
def addExtra (ret extra : Nat) : Nat := if ret = 0 then 0 else ret + extra

/-- `hdf_read2`: the result and the buffer after it. -/
def hdfRead2 (h : HardFile) (buf : List Byte) (offset : Nat) : Nat × List Byte × HardFile :=
  let len := buf.length
  let len2 := rdbPart h offset len
  if offset < h.virtualSize then
    match h.virtualRdb with
    | none => (0, buf, h)
    | some rdb =>
      let head := rdb.slice offset len2
      if len - len2 = 0 then (len2, head, h)
      else
        let (bs, h) := imageRead h (offset + len2 - h.virtualSize) (len - len2)
        (addExtra bs.length len2, head ++ bs ++ buf.drop (len2 + bs.length), h)
  else
    let (bs, h) := imageRead h (offset - h.virtualSize) len
    (bs.length, bs ++ buf.drop bs.length, h)

/-- `hdf_write2`. Writes to the virtual RDB are ignored. -/
def hdfWrite2 (h : HardFile) (buf : List Byte) (offset : Nat) : Option (Nat × HardFile) :=
  let len := buf.length
  let len2 := rdbPart h offset len
  if offset < h.virtualSize then
    if len - len2 = 0 then some (len2, h)
    else
      (imageWrite h (offset + len2 - h.virtualSize) (buf.drop len2)).map fun r =>
        (addExtra r.1 len2, r.2)
  else imageWrite h (offset - h.virtualSize) buf

/-- `hdf_read`: the result and the buffer after it. -/
def hdfRead (h : HardFile) (buf : List Byte) (offset : Nat) : Nat × List Byte × HardFile :=
  let adide := h.adide
  let byteswap := h.byteswap
  let (v, buf, h) := hdfRead2 h buf (if adide then offset + 512 else offset)
  let buf := if adide then adideDecode buf else buf
  let buf := if byteswap then hdfByteswap buf else buf
  (v, buf, h)

/-- `hdf_write`: the result and the caller's buffer after it. -/
def hdfWrite (h : HardFile) (buf : List Byte) (offset : Nat) :
    Option (Nat × List Byte × HardFile) :=
  let adide := h.adide
  let byteswap := h.byteswap
  let buf := if byteswap then hdfByteswap buf else buf
  let buf := if adide then adideEncode buf else buf
  (hdfWrite2 h buf (if adide then offset + 512 else offset)).map fun r =>
    let buf := if adide then adideDecode buf else buf
    let buf := if byteswap then hdfByteswap buf else buf
    (r.1, buf, r.2)

/-! ### Decoding undoes encoding -/

theorem getLsbD_moveBits (rows : List (Nat × Nat)) (w : BitVec 16) {i : Nat} (hi : i < 16) :
    (moveBits rows w).getLsbD i = rows.any fun row => w.getLsbD row.1 && decide (row.2 = i) := by
  induction rows using List.reverseRecOn with
  | nil => simp [moveBits]
  | append_singleton rows row ih =>
    rw [moveBits, List.foldl_append, List.foldl_cons, List.foldl_nil, List.any_append,
      List.any_cons, List.any_nil, Bool.or_false, ← ih, moveBits]
    cases hw : w.getLsbD row.1 with
    | false => simp
    | true =>
      rw [if_pos rfl, BitVec.getLsbD_or, BitVec.getLsbD_twoPow, Bool.true_and]
      by_cases hrow : row.2 = i
      · rw [hrow, decide_eq_true hi, Bool.true_and]
      · rw [decide_eq_false hrow, Bool.and_false]

/-- The bit of the stored word that bit `i` of the decoded one comes from. -/
def adideBit (i : Nat) : Nat := if i % 2 = 0 then 15 - i / 2 else i / 2

theorem any_adideRows (f : Nat → Bool) {i : Nat} (hi : i < 16) :
    adideRows.any (fun row => f row.1 && decide (row.2 = i)) = f (adideBit i) := by
  interval_cases i <;> simp [adideRows, adideBit]

theorem any_adideRows_swap (f : Nat → Bool) {i : Nat} (hi : i < 16) :
    (adideRows.map Prod.swap).any (fun row => f row.1 && decide (row.2 = adideBit i)) = f i := by
  interval_cases i <;> simp [adideRows, adideBit]

theorem adideDecodeWord_adideEncodeWord (w : BitVec 16) :
    adideDecodeWord (adideEncodeWord w) = w := by
  refine BitVec.eq_of_getLsbD_eq fun i hi => ?_
  have hbit : adideBit i < 16 := by
    rw [adideBit]
    split <;> omega
  rw [adideDecodeWord, getLsbD_moveBits _ _ hi, any_adideRows _ hi, adideEncodeWord,
    getLsbD_moveBits _ _ hbit, any_adideRows_swap _ hi]

theorem adideDecode_adideEncode : ∀ buf : List Byte, adideDecode (adideEncode buf) = buf
  | [] => rfl
  | [_] => rfl
  | b1 :: b0 :: rest => by
    have ih := adideDecode_adideEncode rest
    rw [adideDecode, adideEncode] at ih ⊢
    rw [mapWords, be16]
    simp only [List.cons_append, List.nil_append, mapWords, ih]
    rw [word16_byteAt, adideDecodeWord_adideEncodeWord, be16_word16]
    rfl

theorem hdfByteswap_hdfByteswap : ∀ buf : List Byte, hdfByteswap (hdfByteswap buf) = buf
  | [] => rfl
  | [_] => rfl
  | b0 :: b1 :: rest => by
    rw [hdfByteswap, hdfByteswap, hdfByteswap_hdfByteswap rest]

end LibretroUae.Hardfile
