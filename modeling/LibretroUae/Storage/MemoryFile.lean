import LibretroUae.Lib.Image

/-!
# LibretroUae.Storage.MemoryFile

**A file in memory is a byte vector.** A zfile with its data in memory has three sizes: that of
the file, that of what is there of it, and that of the allocation, which grows ahead of the file.
They are changed by different calls, next to the seek position. For the one who calls there are
only bytes and a position. An access outside of the allocation is a fault.
-/

namespace LibretroUae.Storage.Memory

open Lib Lib.Image

/-! ### The file -/

inductive Fault
  | outsideData
  deriving DecidableEq, Repr

/-- `struct zfile` with data of its own. -/
structure Zfile where
  data : Image
  size : Int
  datasize : Int
  allocsize : Int
  seek : Int

/-- A sum of two `uae_s64`. -/
def int64 (v : Int) : Int := (BitVec.ofInt 64 v).toInt

/-- An `uae_s64` in an unsigned expression. -/
def uint64 (v : Int) : Nat := (BitVec.ofInt 64 v).toNat

/-- `zfile_fopen_empty`. -/
def zfileFopenEmpty (size : Nat) : Option Zfile :=
  if size > 0x7fffffff then none
  else if size ≠ 0 then some ⟨fun _ => 0, size, size, size, 0⟩
  else some ⟨fun _ => 0, 0, 0, 1000, 0⟩

namespace Zfile

/-- Is an access of `len` bytes inside of the allocation. -/
def inside (z : Zfile) (off : Int) (len : Nat) : Bool :=
  len = 0 || (0 ≤ off && off + len ≤ z.allocsize)

/-- `zfile_fseek`; the modes are 0, 1 and 2. -/
def zfileFseek (z : Zfile) (offset : BitVec 64) (mode : Int) : Int × Zfile :=
  let seek := if mode = 0 then offset.toInt
    else if mode = 1 then int64 (z.seek + offset.toInt)
    else if mode = 2 then int64 (z.size + offset.toInt)
    else z.seek
  let (ret, seek) := if seek < 0 then (1, 0) else (0, seek)
  let (ret, seek) := if seek > z.size then (1, z.size) else (ret, seek)
  (ret, { z with seek })

/-- `zfile_fread`: the number of items and their bytes. -/
def zfileFread (z : Zfile) (l1 l2 : Nat) : Except Fault (Nat × List Byte × Zfile) :=
  let total : Nat := l1 * l2 % 2 ^ 64
  if z.datasize < z.size ∧ uint64 (z.seek + total) > uint64 z.datasize then .ok (0, [], z)
  else
    let l2 := if uint64 (z.seek + total) > uint64 z.size then
        (if l1 ≠ 0 then uint64 (z.size - z.seek) / l1 else 0)
      else l2
    let total : Nat := l1 * l2 % 2 ^ 64
    if z.inside z.seek total then
      .ok (l2, z.data.slice z.seek.toNat total, { z with seek := int64 (z.seek + total) })
    else .error .outsideData

/-- What the allocation grows by. -/
def growth (z : Zfile) (total : Nat) : Int :=
  let inc := (BitVec.ofInt 64 (z.size.tdiv 2 + total + 7) &&& ~~~ 3#64).setWidth 32
  if inc.toInt < 10000 then 10000 else inc.toInt

/-- `zfile_fwrite` of bytes in `b`. The bytes that an allocation gains are those of `fresh`. -/
def zfileFwrite (z : Zfile) (b fresh : Image) (l1 l2 : Nat) : Except Fault (Nat × Zfile) :=
  let total : Nat := l1 * l2 % 2 ^ 64
  let off := int64 (z.seek + total)
  if z.allocsize = 0 then .ok (0, z)
  else
    let z : Zfile := if off > z.allocsize then
        { z with
          data := fun i => if (i : Int) < z.allocsize then z.data i else fresh i
          allocsize := z.allocsize + z.growth total }
      else z
    if z.inside z.seek total then
      let seek := int64 (z.seek + total)
      let size := if seek > z.size then seek else z.size
      .ok (l2, { z with
        data := z.data.blit z.seek.toNat (b.slice 0 total)
        seek := seek
        size := size
        datasize := if size > z.datasize then size else z.datasize })
    else .error .outsideData

/-- `zfile_truncate`. -/
def zfileTruncate (z : Zfile) (size : BitVec 64) : Int × Zfile :=
  let size := size.toInt
  if z.size > size then
    (1, { z with
      size := size
      datasize := if z.datasize > size then size else z.datasize
      seek := if z.seek > size then size else z.seek })
  else (0, z)

/-- `zfile_getc`. -/
def zfileGetc (z : Zfile) : Except Fault (Int × Zfile) :=
  if z.seek < z.size then
    if z.inside z.seek 1 then
      .ok ((z.data z.seek.toNat).toNat, { z with seek := z.seek + 1 })
    else .error .outsideData
  else .ok (-1, z)

/-- The loop of `zfile_fgetsa`, with the characters so far. -/
def getsLoop : Nat → List Byte → Zfile → Except Fault (Option (List Byte) × Zfile)
  | 0, line, z => .ok (some line, z)
  | n + 1, line, z =>
    if z.seek = z.size then .ok (if line = [] then none else some line, z)
    else if z.inside z.seek 1 then
      let c := z.data z.seek.toNat
      let z : Zfile := { z with seek := z.seek + 1 }
      if c = 10 then .ok (some (line ++ [c]), z) else getsLoop n (line ++ [c]) z
    else .error .outsideData

/-- `zfile_fgetsa`. -/
def zfileFgetsa (z : Zfile) (size : Int) : Except Fault (Option (List Byte) × Zfile) :=
  getsLoop (size - 1).toNat [] z

end Zfile

/-! ### Calls -/

inductive Call
  | fseek (offset : BitVec 64) (mode : Int)
  | fread (l1 l2 : Nat)
  | fwrite (b fresh : Image) (l1 l2 : Nat)
  | truncate (size : BitVec 64)
  | getc
  | fgetsa (size : Int)

/-- What a call returns. -/
inductive Result
  | items (n : Nat) (bytes : List Byte)
  | value (v : Int)
  | line (s : Option (List Byte))
  deriving DecidableEq

def Zfile.call (z : Zfile) : Call → Except Fault (Result × Zfile)
  | .fseek offset mode => .ok (.value (z.zfileFseek offset mode).1, (z.zfileFseek offset mode).2)
  | .fread l1 l2 => (z.zfileFread l1 l2).map fun r => (.items r.1 r.2.1, r.2.2)
  | .fwrite b fresh l1 l2 => (z.zfileFwrite b fresh l1 l2).map fun r => (.items r.1 [], r.2)
  | .truncate size => .ok (.value (z.zfileTruncate size).1, (z.zfileTruncate size).2)
  | .getc => z.zfileGetc.map fun r => (.value r.1, r.2)
  | .fgetsa size => (z.zfileFgetsa size).map fun r => (.line r.1, r.2)

def Zfile.run : Zfile → List Call → Except Fault (List Result × Zfile)
  | z, [] => .ok ([], z)
  | z, c :: cs => do
    let (r, z) ← z.call c
    let (rs, z) ← z.run cs
    return (r :: rs, z)

/-! ### The byte vector -/

/-- Bytes, and a position in them. -/
structure ByteVec where
  bytes : List Byte
  pos : Nat
  inside : pos ≤ bytes.length

namespace ByteVec

def zeros (n : Nat) : ByteVec := ⟨List.replicate n 0, 0, Nat.zero_le _⟩

/-- Goes to a position, or as near as there is one; 1 if it is another one. -/
def goto (v : ByteVec) (target : Int) : Int × ByteVec :=
  (if target < 0 ∨ target > v.bytes.length then 1 else 0,
    ⟨v.bytes, min target.toNat v.bytes.length, Nat.min_le_right _ _⟩)

def seek (v : ByteVec) (offset : Int) (mode : Int) : Int × ByteVec :=
  v.goto (if mode = 0 then offset else if mode = 1 then v.pos + offset
    else if mode = 2 then v.bytes.length + offset else v.pos)

/-- How many items of `l1` bytes are left, `l2` at most. -/
def whole (v : ByteVec) (l1 l2 : Nat) : Nat :=
  if v.pos + l1 * l2 ≤ v.bytes.length then l2 else (v.bytes.length - v.pos) / l1

theorem whole_le (v : ByteVec) (l1 l2 : Nat) : v.pos + l1 * v.whole l1 l2 ≤ v.bytes.length := by
  have hinside := v.inside
  rw [whole]
  split
  · assumption
  · have hmul := Nat.mul_div_le (v.bytes.length - v.pos) l1
    omega

/-- Whole items from the position on. -/
def read (v : ByteVec) (l1 l2 : Nat) : Result × ByteVec :=
  (.items (v.whole l1 l2) ((v.bytes.drop v.pos).take (l1 * v.whole l1 l2)),
    ⟨v.bytes, v.pos + l1 * v.whole l1 l2, v.whole_le l1 l2⟩)

/-- Bytes over those at the position, and behind the end. -/
def write (v : ByteVec) (bs : List Byte) : ByteVec :=
  ⟨v.bytes.take v.pos ++ bs ++ v.bytes.drop (v.pos + bs.length), v.pos + bs.length, by
    have hinside := v.inside
    simp only [List.length_append, List.length_take, List.length_drop]
    omega⟩

def truncate (v : ByteVec) (n : Nat) : Int × ByteVec :=
  if n < v.bytes.length then
    (1, ⟨v.bytes.take n, min v.pos n, by
      have hinside := v.inside
      rw [List.length_take]
      omega⟩)
  else (0, v)

/-- The next byte. -/
def getc (v : ByteVec) : Int × ByteVec :=
  if h : v.pos < v.bytes.length then ((v.bytes[v.pos]).toNat, ⟨v.bytes, v.pos + 1, h⟩) else (-1, v)

/-- At most `n` bytes, up to a newline. -/
def lineOf : Nat → List Byte → List Byte
  | 0, _ => []
  | _, [] => []
  | n + 1, c :: cs => if c = 10 then [c] else c :: lineOf n cs

theorem length_lineOf (n : Nat) (cs : List Byte) : (lineOf n cs).length ≤ cs.length := by
  induction n generalizing cs with
  | zero => exact Nat.zero_le _
  | succ n ih =>
    cases cs with
    | nil => exact Nat.le_refl 0
    | cons c cs =>
      rw [lineOf]
      split
      · simp
      · exact Nat.succ_le_succ (ih cs)

/-- The next line, if `size` has room for a byte of it; none at the end. -/
def gets (v : ByteVec) (size : Int) : Option (List Byte) × ByteVec :=
  let n := (size - 1).toNat
  let line := lineOf n (v.bytes.drop v.pos)
  (if n ≠ 0 ∧ v.pos = v.bytes.length then none else some line,
    ⟨v.bytes, v.pos + line.length, by
      have hlen := length_lineOf n (v.bytes.drop v.pos)
      have hinside := v.inside
      rw [List.length_drop] at hlen
      change v.pos + (lineOf n (v.bytes.drop v.pos)).length ≤ v.bytes.length
      omega⟩)

def call (v : ByteVec) : Call → Result × ByteVec
  | .fseek offset mode => (.value (v.seek offset.toInt mode).1, (v.seek offset.toInt mode).2)
  | .fread l1 l2 => v.read l1 l2
  | .fwrite b _ l1 l2 => (.items l2 [], v.write (b.slice 0 (l1 * l2)))
  | .truncate size => (.value (v.truncate size.toNat).1, (v.truncate size.toNat).2)
  | .getc => (.value v.getc.1, v.getc.2)
  | .fgetsa size => (.line (v.gets size).1, (v.gets size).2)

def run : ByteVec → List Call → List Result × ByteVec
  | v, [] => ([], v)
  | v, c :: cs =>
    let (r, v) := v.call c
    let (rs, v) := v.run cs
    (r :: rs, v)

/-- All sizes are below 1 GiB. -/
def Sized (v : ByteVec) : Call → Prop
  | .fread l1 l2 => l1 < 2 ^ 30 ∧ l2 < 2 ^ 30
  | .fwrite _ _ l1 l2 => v.pos + l1 * l2 < 2 ^ 30
  | .truncate size => size.toNat < 2 ^ 30
  | _ => True

/-- A seek does not overflow. -/
def SeekFits (v : ByteVec) : Call → Prop
  | .fseek offset mode => (mode = 1 → v.pos + offset.toInt < 2 ^ 63) ∧
      (mode = 2 → v.bytes.length + offset.toInt < 2 ^ 63)
  | _ => True

/-- Every call of a run meets a condition where it is made. -/
def Always (P : ByteVec → Call → Prop) : ByteVec → List Call → Prop
  | _, [] => True
  | v, c :: cs => P v c ∧ Always P (v.call c).2 cs

end ByteVec

/-! ### The file refines the vector -/

/-- A file that holds the bytes of a vector, inside of its allocation. -/
structure Refines (z : Zfile) (v : ByteVec) : Prop where
  bytes : z.data.slice 0 v.bytes.length = v.bytes
  size : z.size = v.bytes.length
  datasize : z.datasize = v.bytes.length
  seek : z.seek = v.pos
  alloc : z.size ≤ z.allocsize
  allocated : 0 < z.allocsize
  small : v.bytes.length < 2 ^ 30

variable {z : Zfile} {v : ByteVec}

theorem int64_small {w : Int} (hlow : -2 ^ 63 ≤ w) (hhigh : w < 2 ^ 63) : int64 w = w := by
  rw [int64, BitVec.toInt_ofInt]
  exact Int.bmod_eq_of_le (by omega) (by omega)

theorem uint64_small {w : Int} (hlow : 0 ≤ w) (hhigh : w < 2 ^ 64) : (uint64 w : Int) = w := by
  rw [uint64, BitVec.toNat_ofInt]
  omega

/-- An empty file holds zeros. -/
theorem zfileFopenEmpty_refines {n : Nat} (hn : n < 2 ^ 30) :
    ∃ z, zfileFopenEmpty n = some z ∧ Refines z (.zeros n) := by
  have hsize : ¬ n > 0x7fffffff := by omega
  have hlen : (ByteVec.zeros n).bytes.length = n := List.length_replicate
  have hbytes : ∀ m, slice (fun _ => 0) 0 m = List.replicate m (0 : Byte) := fun m => by
    simp [slice, List.map_const']
  rw [zfileFopenEmpty, if_neg hsize]
  by_cases hzero : n ≠ 0
  · refine ⟨_, if_pos hzero, ?_, ?_, ?_, ?_, ?_, ?_, ?_⟩
    · rw [hlen]
      exact hbytes n
    · rw [hlen]
    · rw [hlen]
    · rfl
    · exact Int.le_refl _
    · change (0 : Int) < n
      omega
    · rwa [hlen]
  · have hn0 : n = 0 := by omega
    subst hn0
    exact ⟨_, if_neg hzero, rfl, rfl, rfl, rfl, show (0 : Int) ≤ 1000 by decide,
      show (0 : Int) < 1000 by decide, hn⟩

/-- The same bytes at another position. -/
theorem Refines.moved (h : Refines z v) {p : Nat} (hp : p ≤ v.bytes.length) :
    Refines { z with seek := p } ⟨v.bytes, p, hp⟩ :=
  ⟨h.bytes, h.size, h.datasize, rfl, h.alloc, h.allocated, h.small⟩

/-- Seeking does what going to the position does, if nothing overflows. -/
theorem Refines.fseek (h : Refines z v) {offset : BitVec 64} {mode : Int}
    (hfits : v.SeekFits (.fseek offset mode)) :
    (z.zfileFseek offset mode).1 = (v.seek offset.toInt mode).1 ∧
      Refines (z.zfileFseek offset mode).2 (v.seek offset.toInt mode).2 := by
  have hlow := BitVec.le_toInt offset
  have hhigh := BitVec.toInt_lt (x := offset)
  have hsmall := h.small
  have hinside := v.inside
  have htarget : (if mode = 0 then offset.toInt else if mode = 1 then int64 (z.seek + offset.toInt)
      else if mode = 2 then int64 (z.size + offset.toInt) else z.seek) =
      if mode = 0 then offset.toInt else if mode = 1 then v.pos + offset.toInt
        else if mode = 2 then v.bytes.length + offset.toInt else v.pos := by
    rw [h.seek, h.size]
    split_ifs with h0 h1 h2
    · rfl
    · exact int64_small (by omega) (hfits.1 h1)
    · exact int64_small (by omega) (hfits.2 h2)
    · rfl
  have hresult : z.zfileFseek offset mode = ((v.seek offset.toInt mode).1,
      { z with seek := ((v.seek offset.toInt mode).2.pos : Nat) }) := by
    simp only [Zfile.zfileFseek, htarget, ByteVec.seek, ByteVec.goto]
    generalize (if mode = 0 then offset.toInt else if mode = 1 then v.pos + offset.toInt
      else if mode = 2 then v.bytes.length + offset.toInt else v.pos) = target
    have hsize := h.size
    by_cases hneg : target < 0
    · have hnonneg : ¬ (0 : Int) > z.size := by omega
      have hzero : min target.toNat v.bytes.length = 0 := by omega
      simp only [hneg, if_true, hnonneg, if_false, true_or, hzero]
      rfl
    · by_cases hlarge : target > z.size
      · have hlarge' : target > v.bytes.length := by omega
        have hend : min target.toNat v.bytes.length = v.bytes.length := by omega
        simp only [hneg, if_false, if_true, hlarge', or_true, hend, hsize]
      · have hle : ¬ target > v.bytes.length := by omega
        have hthere : ((min target.toNat v.bytes.length : Nat) : Int) = target := by omega
        simp only [hneg, if_false, hlarge, hle, or_false, hthere]
  rw [hresult]
  exact ⟨rfl, h.moved (v.seek offset.toInt mode).2.inside⟩

theorem Refines.slice_take (h : Refines z v) {n : Nat} (hn : n ≤ v.bytes.length) :
    z.data.slice 0 n = v.bytes.take n := by
  have hsplit := h.bytes
  rw [show v.bytes.length = n + (v.bytes.length - n) by omega, slice_add] at hsplit
  conv_rhs => rw [← hsplit]
  rw [List.take_left' (length_slice _ _ _)]

theorem Refines.slice_drop (h : Refines z v) (n : Nat) :
    z.data.slice n (v.bytes.length - n) = v.bytes.drop n := by
  by_cases hn : n ≤ v.bytes.length
  · have hsplit := h.bytes
    rw [show v.bytes.length = n + (v.bytes.length - n) by omega, slice_add, Nat.zero_add] at hsplit
    conv_rhs => rw [← hsplit]
    rw [List.drop_left' (length_slice _ _ _)]
  · rw [Nat.sub_eq_zero_of_le (by omega), List.drop_eq_nil_of_le (by omega), slice_zero]

/-- The bytes at the position. -/
theorem Refines.slice (h : Refines z v) {n : Nat} (hn : v.pos + n ≤ v.bytes.length) :
    z.data.slice z.seek.toNat n = (v.bytes.drop v.pos).take n := by
  have hseek : z.seek.toNat = v.pos := by rw [h.seek, Int.toNat_natCast]
  have hsplit := h.slice_drop v.pos
  rw [show v.bytes.length - v.pos = n + (v.bytes.length - v.pos - n) by omega, slice_add] at hsplit
  rw [hseek, ← hsplit, List.take_left' (length_slice _ _ _)]

theorem inside_of_le (h : Refines z v) {n : Nat} (hn : v.pos + n ≤ v.bytes.length) :
    z.inside z.seek n = true := by
  have halloc := h.alloc
  rw [h.size] at halloc
  rw [Zfile.inside, h.seek, Bool.or_eq_true, Bool.and_eq_true, decide_eq_true_eq,
    decide_eq_true_eq, decide_eq_true_eq]
  omega

/-- Items of less than 1 GiB each, and fewer than that, have a size. -/
theorem mul_small {l1 l2 : Nat} (h1 : l1 < 2 ^ 30) (h2 : l2 < 2 ^ 30) : l1 * l2 < 2 ^ 60 :=
  calc l1 * l2 ≤ l1 * 2 ^ 30 := Nat.mul_le_mul_left l1 (Nat.le_of_lt h2)
    _ < 2 ^ 30 * 2 ^ 30 := Nat.mul_lt_mul_of_pos_right h1 (by decide)

theorem Refines.fread (h : Refines z v) {l1 l2 : Nat} (h1 : l1 < 2 ^ 30) (h2 : l2 < 2 ^ 30) :
    ∃ z', z.zfileFread l1 l2 = .ok (v.whole l1 l2,
        (v.bytes.drop v.pos).take (l1 * v.whole l1 l2), z') ∧ Refines z' (v.read l1 l2).2 := by
  have hmul := mul_small h1 h2
  have hsmall := h.small
  have hinside := v.inside
  have htotal : l1 * l2 % 2 ^ 64 = l1 * l2 := Nat.mod_eq_of_lt (by omega)
  have hwhole := v.whole_le l1 l2
  have htotal' : l1 * v.whole l1 l2 % 2 ^ 64 = l1 * v.whole l1 l2 := Nat.mod_eq_of_lt (by omega)
  have havailable : ¬ (z.datasize < z.size ∧
      uint64 (z.seek + (l1 * l2 : Nat)) > uint64 z.datasize) := by
    rw [h.datasize, h.size]
    omega
  have hend : (uint64 (z.seek + (l1 * l2 : Nat)) > uint64 z.size) ↔
      ¬ v.pos + l1 * l2 ≤ v.bytes.length := by
    have hseek : (uint64 (z.seek + (l1 * l2 : Nat)) : Int) = z.seek + (l1 * l2 : Nat) :=
      uint64_small (by rw [h.seek]; omega) (by rw [h.seek]; omega)
    have hsize : (uint64 z.size : Int) = z.size :=
      uint64_small (by rw [h.size]; omega) (by rw [h.size]; omega)
    rw [h.seek] at hseek ⊢
    rw [h.size] at hsize ⊢
    omega
  have hleft : uint64 (z.size - z.seek) = v.bytes.length - v.pos := by
    have hsub : (uint64 (z.size - z.seek) : Int) = z.size - z.seek :=
      uint64_small (by rw [h.seek, h.size]; omega) (by rw [h.seek, h.size]; omega)
    rw [h.seek, h.size] at hsub ⊢
    omega
  have hcount : (if uint64 (z.seek + (l1 * l2 : Nat)) > uint64 z.size then
        (if l1 ≠ 0 then uint64 (z.size - z.seek) / l1 else 0) else l2) = v.whole l1 l2 := by
    rw [ByteVec.whole, hleft]
    by_cases hle : v.pos + l1 * l2 ≤ v.bytes.length
    · rw [if_neg (fun hgt => hend.mp hgt hle), if_pos hle]
    · rw [if_pos (hend.mpr hle), if_neg hle]
      by_cases hl1 : l1 = 0
      · rw [if_neg (not_not.mpr hl1), hl1, Nat.div_zero]
      · rw [if_pos hl1]
  have hmoved : int64 (z.seek + (l1 * v.whole l1 l2 : Nat)) =
      ((v.pos + l1 * v.whole l1 l2 : Nat) : Int) := by
    rw [int64_small (by rw [h.seek]; omega) (by rw [h.seek]; omega), h.seek]
    omega
  refine ⟨{ z with seek := ((v.pos + l1 * v.whole l1 l2 : Nat) : Int) }, ?_, h.moved hwhole⟩
  simp only [Zfile.zfileFread, htotal]
  rw [if_neg havailable, hcount, htotal', if_pos (inside_of_le h hwhole), h.slice hwhole, hmoved]

theorem Refines.byteAt (h : Refines z v) (hlt : v.pos < v.bytes.length) :
    z.data z.seek.toNat = v.bytes[v.pos] ∧
      Refines { z with seek := z.seek + 1 } ⟨v.bytes, v.pos + 1, hlt⟩ := by
  have hslice := h.slice (show v.pos + 1 ≤ v.bytes.length from hlt)
  rw [List.drop_eq_getElem_cons hlt] at hslice
  have hmoved : z.seek + 1 = ((v.pos + 1 : Nat) : Int) := by rw [h.seek]; rfl
  rw [hmoved]
  exact ⟨(List.cons.inj hslice).1, h.moved hlt⟩

theorem Refines.getc (h : Refines z v) :
    ∃ z', z.zfileGetc = .ok (v.getc.1, z') ∧ Refines z' v.getc.2 := by
  by_cases hlt : v.pos < v.bytes.length
  · have hlt' : z.seek < z.size := by
      rw [h.seek, h.size]
      omega
    obtain ⟨hbyte, hnext⟩ := h.byteAt hlt
    rw [Zfile.zfileGetc, if_pos hlt', if_pos (inside_of_le h hlt), hbyte, ByteVec.getc, dif_pos hlt]
    exact ⟨_, rfl, hnext⟩
  · have hlt' : ¬ z.seek < z.size := by
      rw [h.seek, h.size]
      omega
    rw [Zfile.zfileGetc, if_neg hlt', ByteVec.getc, dif_neg hlt]
    exact ⟨z, rfl, h⟩

theorem Refines.truncate (h : Refines z v) {size : BitVec 64} (hsize : size.toNat < 2 ^ 30) :
    (z.zfileTruncate size).1 = (v.truncate size.toNat).1 ∧
      Refines (z.zfileTruncate size).2 (v.truncate size.toNat).2 := by
  have hint : size.toInt = (size.toNat : Int) := by
    rw [BitVec.toInt_eq_toNat_cond, if_pos (by omega)]
  have hzsize := h.size
  have hsmall := h.small
  by_cases hlt : size.toNat < v.bytes.length
  · have hgt : z.size > size.toNat := by omega
    have hdata : z.datasize > size.toNat := by
      rw [h.datasize]
      omega
    have halloc := h.alloc
    have hlen : (v.bytes.take size.toNat).length = size.toNat := by
      rw [List.length_take]
      omega
    have htake : z.data.slice 0 (v.bytes.take size.toNat).length = v.bytes.take size.toNat := by
      rw [hlen, h.slice_take (Nat.le_of_lt hlt)]
    have hseek : (if z.seek > size.toNat then (size.toNat : Int) else z.seek) =
        (min v.pos size.toNat : Nat) := by
      rw [h.seek]
      split <;> omega
    simp only [Zfile.zfileTruncate, hint, if_pos hgt, if_pos hdata, hseek, ByteVec.truncate, if_pos hlt]
    refine ⟨trivial, htake, by rw [hlen], by rw [hlen], rfl, ?_, h.allocated, by rwa [hlen]⟩
    change (size.toNat : Int) ≤ z.allocsize
    omega
  · have hle : ¬ z.size > size.toNat := by omega
    simp only [Zfile.zfileTruncate, hint, if_neg hle, ByteVec.truncate, if_neg hlt]
    exact ⟨trivial, h⟩

/-! ### Writing -/

/-- Rounding down to a multiple of four. -/
theorem toNat_and_not_three (w : BitVec 64) : (w &&& ~~~ 3#64).toNat = w.toNat / 4 * 4 := by
  have hshift : w &&& ~~~ 3#64 = w >>> 2 <<< 2 := by
    apply BitVec.eq_of_getLsbD_eq
    intro i hi
    have hthree : (3#64).getLsbD i = decide (i < 2) := by
      have hall : ∀ i < 64, (3#64).getLsbD i = decide (i < 2) := by decide
      exact hall i hi
    rw [BitVec.getLsbD_and, BitVec.getLsbD_not, hthree, BitVec.getLsbD_shiftLeft,
      BitVec.getLsbD_ushiftRight]
    by_cases h2 : i < 2
    · simp [h2]
    · have hadd : 2 + (i - 2) = i := by omega
      simp [hi, h2, hadd]
  have hw := w.isLt
  rw [hshift, BitVec.toNat_shiftLeft, BitVec.toNat_ushiftRight, Nat.shiftLeft_eq,
    Nat.shiftRight_eq_div_pow]
  omega

/-- The allocation grows by at least what is written. -/
theorem Refines.growth_le (h : Refines z v) {total : Nat} (htotal : v.pos + total < 2 ^ 30) :
    (total : Int) ≤ z.growth total ∧ 0 < z.growth total := by
  have hsmall := h.small
  have hhalf : z.size.tdiv 2 = (v.bytes.length / 2 : Nat) := by
    rw [h.size]
    exact Int.tdiv_eq_ediv_of_nonneg (Int.natCast_nonneg _)
  have hsum : (BitVec.ofInt 64 (z.size.tdiv 2 + total + 7)).toNat = v.bytes.length / 2 + total + 7 := by
    rw [hhalf, BitVec.toNat_ofInt]
    omega
  have hinc : ((BitVec.ofInt 64 (z.size.tdiv 2 + total + 7) &&& ~~~ 3#64).setWidth 32).toInt
      = ((v.bytes.length / 2 + total + 7) / 4 * 4 : Nat) := by
    rw [BitVec.toInt_eq_toNat_cond, BitVec.toNat_setWidth, toNat_and_not_three, hsum,
      Nat.mod_eq_of_lt (by omega), if_pos (by omega)]
  simp only [Zfile.growth, hinc]
  split <;> omega

theorem length_write (v : ByteVec) (bs : List Byte) :
    (v.write bs).bytes.length = max v.bytes.length (v.pos + bs.length) := by
  have hinside := v.inside
  simp only [ByteVec.write, List.length_append, List.length_take, List.length_drop]
  omega

/-- A file with room for a write holds what was written. -/
theorem Refines.written (h : Refines z v) (bs : List Byte) (hsmall : v.pos + bs.length < 2 ^ 30)
    (hroom : (v.pos + bs.length : Nat) ≤ z.allocsize) :
    Refines
      { z with
        data := z.data.blit v.pos bs
        size := (max v.bytes.length (v.pos + bs.length) : Nat)
        datasize := (max v.bytes.length (v.pos + bs.length) : Nat)
        seek := (v.pos + bs.length : Nat) }
      (v.write bs) := by
  have hinside := v.inside
  have hlen := length_write v bs
  have hfile := h.small
  have halloc := h.alloc
  rw [h.size] at halloc
  refine ⟨?_, by rw [hlen], by rw [hlen], rfl, ?_, h.allocated, by rw [hlen]; omega⟩
  · have hparts : max v.bytes.length (v.pos + bs.length)
        = v.pos + bs.length + (v.bytes.length - (v.pos + bs.length)) := by omega
    have hbefore : (z.data.blit v.pos bs).slice 0 v.pos = v.bytes.take v.pos := by
      rw [← h.slice_take hinside]
      exact (agree_blit (.inl (by omega))).slice
    have hbehind : (z.data.blit v.pos bs).slice (v.pos + bs.length)
        (v.bytes.length - (v.pos + bs.length)) = v.bytes.drop (v.pos + bs.length) := by
      rw [← h.slice_drop]
      exact (agree_blit (.inr (Nat.le_refl _))).slice
    rw [hlen, hparts, slice_add, slice_add, Nat.zero_add, Nat.zero_add, hbefore, slice_blit, hbehind]
    rfl
  · change ((max v.bytes.length (v.pos + bs.length) : Nat) : Int) ≤ z.allocsize
    omega

/-- Growing the allocation changes nothing of the file. -/
theorem Refines.grown (h : Refines z v) (fresh : Image) {inc : Int} (hinc : 0 < inc) :
    Refines { z with
      data := fun i => if (i : Int) < z.allocsize then z.data i else fresh i
      allocsize := z.allocsize + inc } v := by
  have halloc := h.alloc
  have hpos := h.allocated
  refine ⟨?_, h.size, h.datasize, h.seek, ?_, ?_, h.small⟩
  · rw [← h.bytes, length_slice]
    refine Agree.slice fun i _ hi => ?_
    rw [h.size] at halloc
    exact if_pos (by omega)
  · change z.size ≤ z.allocsize + inc
    omega
  · change 0 < z.allocsize + inc
    omega

/-- The end of `zfile_fwrite`, after the allocation may have grown. -/
theorem Refines.stored (h : Refines z v) (b : Image) {total : Nat}
    (hsmall : v.pos + total < 2 ^ 30) (hroom : (v.pos + total : Nat) ≤ z.allocsize) :
    z.inside z.seek total = true ∧
      let seek := int64 (z.seek + total)
      let size := if seek > z.size then seek else z.size
      Refines { z with
        data := z.data.blit z.seek.toNat (b.slice 0 total)
        seek := seek
        size := size
        datasize := if size > z.datasize then size else z.datasize } (v.write (b.slice 0 total)) := by
  have hfile := h.small
  have hseek : int64 (z.seek + total) = (v.pos + total : Nat) := by
    rw [int64_small (by rw [h.seek]; omega) (by rw [h.seek]; omega), h.seek]
    rfl
  have hsize : (if ((v.pos + total : Nat) : Int) > z.size then ((v.pos + total : Nat) : Int)
      else z.size) = (max v.bytes.length (v.pos + total) : Nat) := by
    rw [h.size]
    split <;> omega
  have hdatasize : (if ((max v.bytes.length (v.pos + total) : Nat) : Int) > z.datasize then
      ((max v.bytes.length (v.pos + total) : Nat) : Int) else z.datasize)
      = (max v.bytes.length (v.pos + total) : Nat) := by
    rw [h.datasize]
    split <;> omega
  have hpos : z.seek.toNat = v.pos := by rw [h.seek, Int.toNat_natCast]
  constructor
  · rw [Zfile.inside, h.seek, Bool.or_eq_true, Bool.and_eq_true, decide_eq_true_eq,
      decide_eq_true_eq, decide_eq_true_eq]
    omega
  · have hwritten := h.written (b.slice 0 total) (by rwa [length_slice]) (by rwa [length_slice])
    rw [length_slice] at hwritten
    simp only [hseek, hsize, hdatasize, hpos]
    exact hwritten

theorem Refines.fwrite (h : Refines z v) {b fresh : Image} {l1 l2 : Nat}
    (hsized : v.pos + l1 * l2 < 2 ^ 30) :
    ∃ z', z.zfileFwrite b fresh l1 l2 = .ok (l2, z') ∧
      Refines z' (v.write (b.slice 0 (l1 * l2))) := by
  have hallocated := h.allocated
  have hfile := h.small
  have htotal : l1 * l2 % 2 ^ 64 = l1 * l2 := Nat.mod_eq_of_lt (by omega)
  have hoff : int64 (z.seek + (l1 * l2 : Nat)) = (v.pos + l1 * l2 : Nat) := by
    rw [int64_small (by rw [h.seek]; omega) (by rw [h.seek]; omega), h.seek]
    rfl
  simp only [Zfile.zfileFwrite, htotal, hoff]
  rw [if_neg (by omega : ¬ z.allocsize = 0)]
  by_cases hgrow : ((v.pos + l1 * l2 : Nat) : Int) > z.allocsize
  · obtain ⟨hinc, hincpos⟩ := h.growth_le hsized
    have halloc := h.alloc
    have hinside := v.inside
    rw [h.size] at halloc
    obtain ⟨hin, hrefines⟩ := (h.grown fresh hincpos).stored b hsized (by
      change ((v.pos + l1 * l2 : Nat) : Int) ≤ z.allocsize + z.growth (l1 * l2)
      omega)
    simp only [if_pos hgrow]
    rw [if_pos hin]
    exact ⟨_, rfl, hrefines⟩
  · obtain ⟨hin, hrefines⟩ := h.stored b hsized (by omega)
    simp only [if_neg hgrow]
    rw [if_pos hin]
    exact ⟨_, rfl, hrefines⟩

/-! ### Lines -/

/-- The loop goes on to the end of a line, of the file or of the buffer. -/
theorem getsLoop_spec (h : Refines z v) (n : Nat) (line : List Byte) :
    ∃ z', Zfile.getsLoop n line z = .ok
        (if line = [] ∧ n ≠ 0 ∧ v.pos = v.bytes.length then none
          else some (line ++ ByteVec.lineOf n (v.bytes.drop v.pos)), z') ∧
      ∀ hp, Refines z' ⟨v.bytes, v.pos + (ByteVec.lineOf n (v.bytes.drop v.pos)).length, hp⟩ := by
  induction n generalizing z v line with
  | zero =>
    refine ⟨z, ?_, fun _ => h⟩
    rw [Zfile.getsLoop, if_neg (by simp), ByteVec.lineOf, List.append_nil]
  | succ n ih =>
    by_cases hend : v.pos = v.bytes.length
    · have hend' : z.seek = z.size := by rw [h.seek, h.size, hend]
      have hnone : ByteVec.lineOf (n + 1) (v.bytes.drop v.pos) = [] := by
        rw [List.drop_eq_nil_of_le (Nat.le_of_eq hend.symm)]
        rfl
      rw [hnone, Zfile.getsLoop, if_pos hend', List.append_nil]
      refine ⟨z, ?_, fun _ => h⟩
      simp only [hend, ne_eq, Nat.succ_ne_zero, not_false_eq_true, and_self, and_true]
    · have hinside := v.inside
      have hlt : v.pos < v.bytes.length := by omega
      have hend' : ¬ z.seek = z.size := by
        rw [h.seek, h.size]
        omega
      obtain ⟨hbyte, hnext⟩ := h.byteAt hlt
      rw [Zfile.getsLoop, if_neg hend', if_pos (inside_of_le h hlt), hbyte,
        if_neg (fun hc : line = [] ∧ n + 1 ≠ 0 ∧ v.pos = v.bytes.length => hend hc.2.2),
        List.drop_eq_getElem_cons hlt, ByteVec.lineOf]
      by_cases hnewline : v.bytes[v.pos] = 10
      · simp only [if_pos hnewline]
        exact ⟨_, rfl, fun _ => hnext⟩
      · simp only [if_neg hnewline]
        obtain ⟨z', hloop, hz'⟩ := @ih _ _ hnext (line ++ [v.bytes[v.pos]])
        refine ⟨z', ?_, fun hp => ?_⟩
        · rw [hloop, if_neg (by simp), List.append_assoc]
          rfl
        · have hlen : v.pos + (v.bytes[v.pos] :: ByteVec.lineOf n (v.bytes.drop (v.pos + 1))).length
              = v.pos + 1 + (ByteVec.lineOf n (v.bytes.drop (v.pos + 1))).length := by
            rw [List.length_cons]
            omega
          simp only [hlen] at hp ⊢
          exact hz' hp

/-! ### Runs -/

/-- A call does what it does to the vector. -/
theorem call_refines (h : Refines z v) {c : Call} (hsized : v.Sized c) (hfits : v.SeekFits c) :
    ∃ z', z.call c = .ok ((v.call c).1, z') ∧ Refines z' (v.call c).2 := by
  cases c with
  | fseek offset mode =>
    obtain ⟨hret, hz'⟩ := h.fseek hfits
    exact ⟨_, by rw [Zfile.call, hret]; rfl, hz'⟩
  | fread l1 l2 =>
    obtain ⟨z', hread, hz'⟩ := h.fread hsized.1 hsized.2
    exact ⟨z', by rw [Zfile.call, hread]; rfl, hz'⟩
  | fwrite b fresh l1 l2 =>
    obtain ⟨z', hwrite, hz'⟩ := @Refines.fwrite z v h b fresh l1 l2 hsized
    exact ⟨z', by rw [Zfile.call, hwrite]; rfl, hz'⟩
  | truncate size =>
    obtain ⟨hret, hz'⟩ := h.truncate hsized
    exact ⟨_, by rw [Zfile.call, hret]; rfl, hz'⟩
  | getc =>
    obtain ⟨z', hgetc, hz'⟩ := h.getc
    exact ⟨z', by rw [Zfile.call, hgetc]; rfl, hz'⟩
  | fgetsa size =>
    obtain ⟨z', hgets, hz'⟩ := getsLoop_spec h (size - 1).toNat []
    refine ⟨z', ?_, hz' _⟩
    rw [Zfile.call, Zfile.zfileFgetsa, hgets]
    simp only [true_and, List.nil_append]
    rfl

theorem run_refines (h : Refines z v) (cs : List Call) (hsized : v.Always ByteVec.Sized cs)
    (hfits : v.Always ByteVec.SeekFits cs) :
    ∃ z', z.run cs = .ok ((v.run cs).1, z') ∧ Refines z' (v.run cs).2 := by
  induction cs generalizing z v with
  | nil => exact ⟨z, rfl, h⟩
  | cons c cs ih =>
    obtain ⟨z', hcall, hz'⟩ := call_refines h hsized.1 hfits.1
    obtain ⟨z'', hrun, hz''⟩ := ih hz' hsized.2 hfits.2
    refine ⟨z'', ?_, hz''⟩
    rw [Zfile.run, hcall]
    change (z'.run cs >>= _) = _
    rw [hrun]
    rfl

/-- A file in memory is a byte vector in every run in which no seek overflows: no access leaves
the allocation, the results are the same, and the allocation is never smaller than the file. -/
theorem memoryFile_run (n : Nat) (hn : n < 2 ^ 30) (cs : List Call)
    (hsized : (ByteVec.zeros n).Always ByteVec.Sized cs)
    (hfits : (ByteVec.zeros n).Always ByteVec.SeekFits cs) :
    ∃ z z', zfileFopenEmpty n = some z ∧ z.run cs = .ok (((ByteVec.zeros n).run cs).1, z') ∧
      Refines z' ((ByteVec.zeros n).run cs).2 := by
  obtain ⟨z, hopen, hz⟩ := zfileFopenEmpty_refines hn
  obtain ⟨z', hrun, hz'⟩ := run_refines hz cs hsized hfits
  exact ⟨z, z', hopen, hrun, hz'⟩

/-- Five bytes written to a file of one, which makes it grow; then seeks, reads, a cut, and a line. -/
def growingCalls : List Call :=
  let text : Image := fun i => [72, 101, 10, 121, 111].getD i 0
  [.fwrite text (fun _ => 0xcc) 1 5, .fseek (-2) 2, .getc, .fread 2 3, .fseek 1 0, .truncate 4,
    .fgetsa 80, .fseek 9 1, .getc]

theorem memoryFile_run_growing : ∃ z z', zfileFopenEmpty 1 = some z ∧
    z.run growingCalls = .ok ([.items 5 [], .value 0, .value 121, .items 0 [], .value 0, .value 1,
      .line (some [101, 10]), .value 1, .value (-1)], z') := by
  have hsized : (ByteVec.zeros 1).Always ByteVec.Sized growingCalls := by
    refine ⟨?_, trivial, trivial, ⟨by decide, by decide⟩, trivial, ?_, trivial, trivial, trivial,
      trivial⟩
    · show 0 + 1 * 5 < 2 ^ 30
      decide
    · show (4 : BitVec 64).toNat < 2 ^ 30
      decide
  have hfits : (ByteVec.zeros 1).Always ByteVec.SeekFits growingCalls := by
    refine ⟨trivial, ⟨nofun, fun _ => ?_⟩, trivial, trivial, ⟨nofun, nofun⟩, trivial, trivial,
      ⟨fun _ => ?_, nofun⟩, trivial, trivial⟩
    · decide
    · decide
  obtain ⟨z, z', hopen, hrun, -⟩ := memoryFile_run 1 (by decide) growingCalls hsized hfits
  exact ⟨z, z', hopen, hrun⟩

/-- A seek from the end by more than there are positions wraps around to the start. -/
theorem memoryFile_seek_overflows :
    ¬ ∀ (n : Nat), n < 2 ^ 30 → ∀ cs, (ByteVec.zeros n).Always ByteVec.Sized cs →
      ∃ z z', zfileFopenEmpty n = some z ∧ z.run cs = .ok (((ByteVec.zeros n).run cs).1, z') ∧
        Refines z' ((ByteVec.zeros n).run cs).2 := by
  intro h
  obtain ⟨z, z', hopen, hrun, -⟩ := h 1 (by decide) [.fseek 0x7fffffffffffffff 2, .getc]
    ⟨trivial, trivial, trivial⟩
  obtain rfl := Option.some.inj hopen
  have hcode := congrArg (Except.map Prod.fst) hrun
  have hresults : Except.map Prod.fst ((⟨fun _ => 0, 1, 1, 1, 0⟩ : Zfile).run
      [.fseek 0x7fffffffffffffff 2, .getc]) = .ok [.value 1, .value 0] := by rfl
  have hvector : ((ByteVec.zeros 1).run [.fseek 0x7fffffffffffffff 2, .getc]).1
      = [.value 1, .value (-1)] := by rfl
  rw [hvector] at hcode
  exact absurd (show [Result.value 1, Result.value 0] = [Result.value 1, Result.value (-1)] from
    Except.ok.inj (hresults.symm.trans hcode)) (by decide)

end LibretroUae.Storage.Memory
