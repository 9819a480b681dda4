import LibretroUae.Lib.EndAround
import LibretroUae.Lib.Image
import LibretroUae.Lib.Loop

/-!
# LibretroUae.Rom.Checksum

**The checksum of a Kickstart.** The longwords of an image add up to all ones, with an end-around
carry. Repairing puts the complement of the sum of all others in their place near the end.
-/

namespace LibretroUae.Rom

open Lib Lib.Image

/-- What a round adds: the sum, and the previous one, to see the carry by. -/
structure Cksum where
  cksum : BitVec 32
  prevck : BitVec 32

def Cksum.add (s : Cksum) (data : BitVec 32) : Cksum :=
  let cksum := s.cksum + data
  let cksum := if cksum < s.prevck then cksum + 1 else cksum
  ⟨cksum, cksum⟩

/-- The longword that `kickstart_checksum_do` adds. -/
def longOf (mem : Image) (i : Nat) : BitVec 32 :=
  (mem i).setWidth 32 * 65536 * 256 + (mem (i + 1)).setWidth 32 * 65536 +
    (mem (i + 2)).setWidth 32 * 256 + (mem (i + 3)).setWidth 32

/-- `kickstart_checksum_do`. -/
def kickstartChecksumDo (mem : Image) (size : Nat) : Bool :=
  let s : Cksum := loop (fun i s => s.add (longOf mem (4 * i))) ((size + 3) / 4) ⟨0, 0⟩
  s.cksum == 0xffffffff

/-- Where the checksum is. -/
def checksumPlace (size : Nat) : Nat :=
  if size = 524288 then 0x7ffe8 else if size = 262144 then 0x3ffe8 else 0x3e

/-- The longword that `kickstart_fix_checksum` adds. -/
def long (mem : Image) (i : Nat) : BitVec 32 :=
  word32 (mem i) (mem (i + 1)) (mem (i + 2)) (mem (i + 3))

/-- `kickstart_fix_checksum`. -/
def kickstartFixChecksum (mem : Image) (size : Nat) : Image :=
  let ch := checksumPlace size
  let mem := mem.blit ch [0, 0, 0, 0]
  let s : Cksum := loop (fun i s => s.add (long mem (4 * i))) ((size + 3) / 4) ⟨0, 0⟩
  mem.blit ch (be32 (s.cksum ^^^ 0xffffffff))

/-! ### The sum -/

theorem or_byte {n : Nat} (b : Byte) : n * 256 ||| b.toNat = n * 256 + b.toNat := by
  have h := Nat.shiftLeft_add_eq_or_of_lt (i := 8) b.isLt n
  rw [Nat.shiftLeft_eq] at h
  exact h.symm

theorem toNat_word32 (b3 b2 b1 b0 : Byte) : (word32 b3 b2 b1 b0).toNat =
    ((b3.toNat * 256 + b2.toNat) * 256 + b1.toNat) * 256 + b0.toNat := by
  have hword : word32 b3 b2 b1 b0 = ((((b3.setWidth 32 <<< 8 ||| b2.setWidth 32) <<< 8) |||
      b1.setWidth 32) <<< 8) ||| b0.setWidth 32 := by
    simp only [word32, BitVec.shiftLeft_or_distrib, ← BitVec.shiftLeft_add, Nat.reduceAdd]
  have h3 := b3.isLt
  have h2 := b2.isLt
  have h1 := b1.isLt
  have h0 := b0.isLt
  have hstep : ∀ (v : BitVec 32) (b : Byte), v.toNat < 2 ^ 24 →
      (v <<< 8 ||| b.setWidth 32).toNat = v.toNat * 256 + b.toNat := by
    intro v b hv
    have hb := b.isLt
    rw [BitVec.toNat_or, BitVec.toNat_shiftLeft, BitVec.toNat_setWidth, Nat.shiftLeft_eq,
      Nat.mod_eq_of_lt (by omega), Nat.mod_eq_of_lt (by omega)]
    exact or_byte b
  have hfirst : (b3.setWidth 32).toNat = b3.toNat := by
    rw [BitVec.toNat_setWidth]
    exact Nat.mod_eq_of_lt (by omega)
  have hsecond := hstep (b3.setWidth 32) b2 (by omega)
  have hthird := hstep _ b1 (by rw [hsecond]; omega)
  rw [hword, hstep _ b0 (by rw [hthird, hsecond]; omega), hthird, hsecond, hfirst]

/-- Four bytes are put together by multiplying. -/
theorem toNat_places {a b c d high low : BitVec 32} (hhigh : high.toNat = 65536)
    (hlow : low.toNat = 256) (ha : a.toNat < 256) (hb : b.toNat < 256) (hc : c.toNat < 256)
    (hd : d.toNat < 256) : (a * high * low + b * high + c * low + d).toNat =
      ((a.toNat * 256 + b.toNat) * 256 + c.toNat) * 256 + d.toNat := by
  simp only [BitVec.toNat_add, BitVec.toNat_mul, hhigh, hlow]
  omega

theorem longOf_eq (mem : Image) (i : Nat) : longOf mem i = long mem i := by
  have hbyte : ∀ b : Byte, (b.setWidth 32).toNat = b.toNat := by
    intro b
    have hb := b.isLt
    rw [BitVec.toNat_setWidth]
    exact Nat.mod_eq_of_lt (by omega)
  have hlt : ∀ b : Byte, (b.setWidth 32).toNat < 256 := fun b => hbyte b ▸ b.isLt
  apply BitVec.eq_of_toNat_eq
  rw [long, toNat_word32, longOf, toNat_places rfl rfl (hlt _) (hlt _) (hlt _) (hlt _)]
  simp only [hbyte]

/-- The longwords of `n` places, from one on. -/
def longs (mem : Image) (k n : Nat) : List (BitVec 32) :=
  (List.range' k n).map fun k => long mem (4 * k)

/-- The previous sum is the one before, so a carry is seen when there is one. -/
theorem add_eq (c data : BitVec 32) :
    Cksum.add ⟨c, c⟩ data = ⟨endAround c data, endAround c data⟩ := rfl

/-- Both loops compute the sum with an end-around carry. -/
theorem loop_add (mem : Image) (n : Nat) :
    loop (fun i s => Cksum.add s (long mem (4 * i))) n ⟨0, 0⟩ =
      ⟨endAroundSum (longs mem 0 n), endAroundSum (longs mem 0 n)⟩ := by
  induction n with
  | zero => rfl
  | succ n ih =>
    have hlongs : longs mem 0 (n + 1) = longs mem 0 n ++ [long mem (4 * n)] := by
      rw [longs, List.range'_concat, List.map_append, Nat.zero_add, Nat.one_mul]
      rfl
    have hsum : endAroundSum (longs mem 0 (n + 1)) =
        endAround (endAroundSum (longs mem 0 n)) (long mem (4 * n)) := by
      rw [hlongs, endAroundSum_append, endAroundSum_cons, endAround_comm (long mem (4 * n))]
      exact congrArg _ (zero_endAround _)
    rw [loop_succ, ih, add_eq, hsum]

theorem kickstartChecksumDo_eq (mem : Image) (size : Nat) :
    kickstartChecksumDo mem size =
      decide (endAroundSum (longs mem 0 ((size + 3) / 4)) = BitVec.allOnes 32) := by
  simp only [kickstartChecksumDo, longOf_eq, loop_add]
  rfl

/-! ### Repairing -/

section

variable {mem : Image} {k n : Nat}

/-- The sum of all longwords but the one at place `k`. -/
def othersSum (mem : Image) (k n : Nat) : BitVec 32 :=
  endAroundSum (longs mem 0 k ++ longs mem (k + 1) (n - (k + 1)))

theorem sum_eq_others (mem : Image) (hk : k < n) :
    endAroundSum (longs mem 0 n) = endAround (othersSum mem k n) (long mem (4 * k)) := by
  have hsplit : longs mem 0 n = longs mem 0 k ++ long mem (4 * k) ::
      longs mem (k + 1) (n - (k + 1)) := by
    obtain ⟨r, rfl⟩ := Nat.exists_eq_add_of_lt hk
    have hrest : k + r + 1 - (k + 1) = r := by omega
    have hrange : List.range' 0 (k + r + 1) = List.range' 0 k ++ k :: List.range' (k + 1) r := by
      rw [Nat.add_assoc, ← List.range'_append, Nat.zero_add, Nat.one_mul, List.range'_succ]
    rw [longs, hrange, hrest, List.map_append, List.map_cons]
    rfl
  rw [hsplit, endAroundSum_middle, othersSum]

theorem longs_blit {bs : List Byte} (hbs : bs.length = 4) {a m : Nat}
    (h : a + m ≤ k ∨ k < a) : longs (mem.blit (4 * k) bs) a m = longs mem a m := by
  refine List.map_congr_left fun j hj => ?_
  obtain ⟨hle, hlt⟩ := List.mem_range'_1.mp hj
  have hagree : Agree mem (mem.blit (4 * k) bs) (4 * j) 4 := agree_blit (by omega)
  rw [long, long, hagree (4 * j) (by omega) (by omega), hagree (4 * j + 1) (by omega) (by omega),
    hagree (4 * j + 2) (by omega) (by omega), hagree (4 * j + 3) (by omega) (by omega)]

theorem othersSum_blit {bs : List Byte} (hbs : bs.length = 4) :
    othersSum (mem.blit (4 * k) bs) k n = othersSum mem k n := by
  rw [othersSum, longs_blit hbs (Or.inl (by omega)), longs_blit hbs (Or.inr (by omega)), othersSum]

theorem long_blit (v : BitVec 32) : long (mem.blit (4 * k) (be32 v)) (4 * k) = v := by
  have hbyte : ∀ j < 4, mem.blit (4 * k) (be32 v) (4 * k + j) = (be32 v).getD j 0 := by
    intro j hj
    rw [blit, length_be32, if_pos (by omega), Nat.add_sub_cancel_left]
  refine Eq.trans ?_ (word32_byteAt v)
  rw [long]
  congr 1
  · exact hbyte 0 (by decide)
  · exact hbyte 1 (by decide)
  · exact hbyte 2 (by decide)
  · exact hbyte 3 (by decide)

/-- The longword that is put in: the complement of the sum of the others. -/
theorem kickstartFixChecksum_eq {size : Nat} (hch : checksumPlace size = 4 * k)
    (hsize : (size + 3) / 4 = n) (hk : k < n) :
    kickstartFixChecksum mem size = mem.blit (4 * k) (be32 (~~~othersSum mem k n)) := by
  have hzeros : [0, 0, 0, 0] = be32 0 := rfl
  have hsum : endAroundSum (longs (mem.blit (4 * k) (be32 0)) 0 n) = othersSum mem k n := by
    rw [sum_eq_others _ hk, othersSum_blit (length_be32 0), long_blit, endAround_comm,
      zero_endAround]
  have hxor : ∀ v : BitVec 32, v ^^^ 0xffffffff = ~~~v := fun v => BitVec.xor_allOnes
  simp only [kickstartFixChecksum, hch, hsize, loop_add, hzeros, hsum, hxor]
  exact blit_blit rfl

/-- A sum that is right stays as it is, but for the other zero. -/
theorem blit_of_sum (hk : k < n) (hsum : endAroundSum (longs mem 0 n) = BitVec.allOnes 32) :
    mem.blit (4 * k) (be32 (~~~othersSum mem k n)) = mem ∨
      (long mem (4 * k) = BitVec.allOnes 32 ∧ othersSum mem k n = BitVec.allOnes 32) := by
  rw [sum_eq_others mem hk] at hsum
  rcases endAround_eq_allOnes hsum with hnot | ⟨hothers, hlong⟩
  · left
    have hslice : be32 (long mem (4 * k)) = mem.slice (4 * k) 4 := by
      rw [long, be32_word32]
      rfl
    rw [← hnot, hslice, blit_slice]
  · exact Or.inr ⟨hlong, hothers⟩

end

/-- The checksum of both sizes is the sixth longword from the end. -/
theorem checksumPlace_eq {size : Nat} (hsize : size = 262144 ∨ size = 524288) :
    checksumPlace size = 4 * (size / 4 - 6) ∧ (size + 3) / 4 = size / 4 ∧
      size / 4 - 6 < size / 4 := by
  rcases hsize with rfl | rfl <;> exact ⟨rfl, rfl, by decide⟩

/-- Repairing changes the checksum only, and makes the sum right. Where it is right already nothing
changes, but that all ones become zero when the others add up to all ones. -/
theorem kickstartFixChecksum_repairs {mem : Image} {size : Nat}
    (hsize : size = 262144 ∨ size = 524288) :
    (∀ i, i < checksumPlace size ∨ checksumPlace size + 4 ≤ i →
      kickstartFixChecksum mem size i = mem i) ∧
    kickstartChecksumDo (kickstartFixChecksum mem size) size = true ∧
    (kickstartChecksumDo mem size = true →
      if long mem (checksumPlace size) = 0xffffffff ∧
          othersSum mem (size / 4 - 6) (size / 4) = 0xffffffff then
        kickstartFixChecksum mem size = mem.blit (checksumPlace size) [0, 0, 0, 0]
      else kickstartFixChecksum mem size = mem) := by
  obtain ⟨hch, hcount, hk⟩ := checksumPlace_eq hsize
  have hfix := @kickstartFixChecksum_eq mem (size / 4 - 6) (size / 4) size hch hcount hk
  refine ⟨fun i hi => ?_, ?_, fun hdo => ?_⟩
  · rw [hch] at hi
    rw [hfix]
    rcases hi with hlt | hge
    · exact blit_of_lt hlt
    · exact blit_of_ge hge
  · rw [kickstartChecksumDo_eq, hcount, hfix, sum_eq_others _ hk, othersSum_blit (length_be32 _),
      long_blit, endAround_not]
    rfl
  · rw [kickstartChecksumDo_eq, hcount, decide_eq_true_iff] at hdo
    rw [hch, hfix]
    split_ifs with hzero
    · rw [hzero.2]
      rfl
    · exact (blit_of_sum hk hdo).resolve_right hzero

/-- An image of 256K whose bytes count up. -/
def countingRom : Image := fun i => BitVec.ofNat 8 i

/-- It gets a checksum, and is left as it is when it is repaired again. -/
theorem kickstartFixChecksum_counting : ∃ size, size = 262144 ∧
    kickstartChecksumDo (kickstartFixChecksum countingRom size) size = true ∧
    (∀ i < checksumPlace size, kickstartFixChecksum countingRom size i = BitVec.ofNat 8 i) ∧
    (long (kickstartFixChecksum countingRom size) (checksumPlace size) ≠ 0xffffffff →
      kickstartFixChecksum (kickstartFixChecksum countingRom size) size =
        kickstartFixChecksum countingRom size) := by
  -- the size stays a variable, so that no sum is evaluated
  obtain ⟨size, hsize⟩ : ∃ size, size = 262144 := ⟨_, rfl⟩
  obtain ⟨hkept, hsum, -⟩ := @kickstartFixChecksum_repairs countingRom size (Or.inl hsize)
  refine ⟨size, hsize, hsum, fun i hi => hkept i (Or.inl hi), fun hones => ?_⟩
  have hagain := (@kickstartFixChecksum_repairs (kickstartFixChecksum countingRom size) size
    (Or.inl hsize)).2.2 hsum
  rwa [if_neg fun h => hones h.1] at hagain

end LibretroUae.Rom
