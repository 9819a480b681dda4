import LibretroUae.Lib.MergeNetwork
import LibretroUae.Lib.Loop
import Mathlib.Data.Fin.Rev
import Mathlib.Tactic.IntervalCases

/-!
# LibretroUae.Drawing.PlanarLine

**A line of pixels is made out of its bitplanes.** Thirty-two pixels at a time: a longword of every
plane is read, and five rounds of merges leave eight longwords of four pixels, a byte each. The
planes are read in the host's byte order, in which they were stored, and the pixels are stored with
the leftmost first. Planes that are masked for debugging read as all ones or all zeros.

The line has its planes one behind the other, and the row of pixels starts where the line does.
-/

namespace LibretroUae.Drawing

open Lib

scoped instance neZero_eight : NeZero 8 := ⟨by decide⟩

/-- A plane, in longwords. -/
abbrev Plane := Nat → BitVec 32

/-- A row of pixels, in bytes. -/
abbrev Pixels := Nat → BitVec 8

/-- `do_put_mem_long`, to the longword at an index. -/
def doPutMemLong (pixels : Pixels) (index : Nat) (v : BitVec 32) : Pixels := fun n =>
  if n / 4 = index then (v >>> (8 * (3 - n % 4))).truncate 8 else pixels n

/-- The uses of `MERGE` in `pfield_doline32_1`. -/
def merges : List (Merge 8 32) := [
  ⟨0, 1, 0x55555555, 1, by decide⟩,
  ⟨2, 3, 0x55555555, 1, by decide⟩,
  ⟨4, 5, 0x55555555, 1, by decide⟩,
  ⟨6, 7, 0x55555555, 1, by decide⟩,
  ⟨0, 2, 0x33333333, 2, by decide⟩,
  ⟨1, 3, 0x33333333, 2, by decide⟩,
  ⟨4, 6, 0x33333333, 2, by decide⟩,
  ⟨5, 7, 0x33333333, 2, by decide⟩,
  ⟨0, 4, 0x0f0f0f0f, 4, by decide⟩,
  ⟨1, 5, 0x0f0f0f0f, 4, by decide⟩,
  ⟨2, 6, 0x0f0f0f0f, 4, by decide⟩,
  ⟨3, 7, 0x0f0f0f0f, 4, by decide⟩,
  ⟨0, 1, 0x00ff00ff, 8, by decide⟩,
  ⟨2, 3, 0x00ff00ff, 8, by decide⟩,
  ⟨4, 5, 0x00ff00ff, 8, by decide⟩,
  ⟨6, 7, 0x00ff00ff, 8, by decide⟩,
  ⟨0, 2, 0x0000ffff, 16, by decide⟩,
  ⟨1, 3, 0x0000ffff, 16, by decide⟩,
  ⟨4, 6, 0x0000ffff, 16, by decide⟩,
  ⟨5, 7, 0x0000ffff, 16, by decide⟩]

/-- The longwords that are stored, with their indices. A row is stored after its last merge. -/
def stores : List (Nat × Fin 8) :=
  [(0, 0), (4, 2), (2, 1), (6, 3), (1, 4), (5, 6), (3, 5), (7, 7)]

/-- The longwords that are read, plane 0 into the last row. The cases fall through. -/
def loadPlanes (planes : Nat) (realBplpt : Fin 8 → Plane) : Fin 8 → BitVec 32 := fun r =>
  if planes ≤ 8 ∧ (r.rev : Nat) < planes then realBplpt r.rev 0 else 0

/-- `real_bplpt[n] += 4` for the planes that are read. -/
def nextLongs (planes : Nat) (realBplpt : Fin 8 → Plane) : Fin 8 → Plane := fun k n =>
  realBplpt k (if planes ≤ 8 ∧ (k : Nat) < planes then n + 1 else n)

/-- `pfield_doline32_1`, storing from the longword `at` on. -/
def pfieldDoline321 (planes : Nat) : Nat → Nat → (Fin 8 → Plane) → Pixels → Pixels
  | 0, _, _, pixels => pixels
  | wordcount + 1, pos, realBplpt, pixels =>
    let b := Merge.network merges (loadPlanes planes realBplpt)
    pfieldDoline321 planes wordcount (pos + 8) (nextLongs planes realBplpt)
      (stores.foldl (fun pixels s => doPutMemLong pixels (pos + s.1) (b s.2)) pixels)

/-- `MAX_WORDS_PER_LINE`, in longwords. -/
def longsPerPlane : Nat := 112 / 2

/-- What `pfield_doline` reads. -/
structure Line where
  /-- `line_data[lineno]`. -/
  lineData : Plane
  plflinelen : Nat
  bplmaxplanecnt : Nat
  debugBplMask : BitVec 32
  debugBplMaskOne : Bool

namespace Line

variable (line : Line)

/-- `DATA_POINTER`. -/
def dataPointer (k : Fin 8) : Plane :=
  if line.debugBplMask.getLsbD k then fun n => line.lineData (k * longsPerPlane + n)
  else if line.debugBplMaskOne then fun _ => 0xffffffff
  else fun _ => 0

/-- `pfield_doline`, without what it keeps for the refresh indicator. -/
def pfieldDoline (data : Pixels) : Pixels :=
  if line.bplmaxplanecnt = 0 then
    fun n => if n < line.plflinelen * 32 then 0 else data n
  else if line.bplmaxplanecnt ≤ 8 then
    pfieldDoline321 line.bplmaxplanecnt line.plflinelen 0 line.dataPointer data
  else data

end Line

/-- The pixel with these bits. -/
def ofBits (bit : Fin 8 → Bool) : BitVec 8 :=
  (BitVec.ofBoolListLE (List.ofFn bit)).cast (List.length_ofFn)

namespace Line

variable (line : Line)

/-- The pixel at an index: bit `k` is the plane's `k`. -/
def pixel (x : Nat) : BitVec 8 := ofBits fun k : Fin 8 =>
  decide ((k : Nat) < line.bplmaxplanecnt) &&
    if line.debugBplMask.getLsbD k then
      (line.lineData (k * longsPerPlane + x / 32)).getMsbD (x % 32)
    else line.debugBplMaskOne

end Line

/-! ### One longword of every plane -/

theorem getLsbD_ofBits (bit : Fin 8 → Bool) {i : Nat} (hi : i < 8) :
    (ofBits bit).getLsbD i = bit ⟨i, hi⟩ := by
  rw [ofBits, BitVec.getLsbD_cast, BitVec.getLsbD_ofBoolListLE, List.getD_eq_getElem?_getD,
    List.getElem?_ofFn, dif_pos hi, Option.getD_some]

/-- The row that a longword of pixels comes from. -/
def rowOf (q : Nat) : Fin 8 := ((stores.find? fun s => s.1 == q).map Prod.snd).getD 0

/-- Bit `k` of pixel `x` was in plane `k`, with the leftmost pixel in the uppermost bit. -/
theorem trace_merges : ∀ (x : Fin 32) (k : Fin 8),
    Merge.trace merges (rowOf (x / 4), 8 * (3 - x % 4) + k) = (k.rev, 31 - (x : Nat)) := by
  decide +kernel

theorem foldl_stores (pos : Nat) (b : Fin 8 → BitVec 32) (pixels : Pixels) {n q : Nat} (hq : q < 8)
    (hlong : n / 4 = pos + q) :
    stores.foldl (fun pixels s => doPutMemLong pixels (pos + s.1) (b s.2)) pixels n =
      ((b (rowOf q)) >>> (8 * (3 - n % 4))).truncate 8 := by
  interval_cases q <;> simp [stores, doPutMemLong, rowOf, hlong]

theorem foldl_stores_of_ne (pos : Nat) (b : Fin 8 → BitVec 32) (pixels : Pixels) {n : Nat}
    (hn : n / 4 < pos ∨ pos + 8 ≤ n / 4) :
    stores.foldl (fun pixels s => doPutMemLong pixels (pos + s.1) (b s.2)) pixels n = pixels n := by
  have hne : ∀ q < 8, n / 4 ≠ pos + q := by omega
  have hfirst : n / 4 ≠ pos := hne 0 (by decide)
  simp [stores, doPutMemLong, hne, hfirst]

/-- The pixels of one longword of every plane. -/
def chunky (planes : Nat) (realBplpt : Fin 8 → Plane) (x : Nat) : BitVec 8 :=
  ofBits fun k : Fin 8 =>
    decide ((k : Nat) < planes) && (realBplpt k (x / 32)).getMsbD (x % 32)

variable {planes : Nat} (hplanes : planes ≤ 8)

include hplanes

theorem getLsbD_network (realBplpt : Fin 8 → Plane) {x : Nat} (hx : x < 32) (k : Fin 8) :
    (Merge.network merges (loadPlanes planes realBplpt) (rowOf (x / 4))).getLsbD
      (8 * (3 - x % 4) + k) = (decide ((k : Nat) < planes) && (realBplpt k 0).getMsbD x) := by
  have hbit := Merge.bitAt_network (loadPlanes planes realBplpt) merges
    (rowOf (x / 4), 8 * (3 - x % 4) + k)
  rw [trace_merges ⟨x, hx⟩ k] at hbit
  simp only [Merge.bitAt, loadPlanes, Fin.rev_rev, hplanes, true_and] at hbit
  rw [hbit, BitVec.getMsbD]
  by_cases hk : (k : Nat) < planes
  · simp [hk, hx]
  · simp [hk]

theorem stored_eq_chunky (pos : Nat) (realBplpt : Fin 8 → Plane) (pixels : Pixels) {x : Nat}
    (hx : x < 32) :
    stores.foldl (fun pixels s => doPutMemLong pixels (pos + s.1)
      (Merge.network merges (loadPlanes planes realBplpt) s.2)) pixels (4 * pos + x) =
      chunky planes realBplpt x := by
  have hlong : (4 * pos + x) / 4 = pos + x / 4 := by omega
  have hbyte : (4 * pos + x) % 4 = x % 4 := by omega
  rw [foldl_stores pos _ pixels (Nat.div_lt_of_lt_mul hx) hlong, hbyte]
  apply BitVec.eq_of_getLsbD_eq
  intro k hk
  have hbit := getLsbD_network hplanes realBplpt hx ⟨k, hk⟩
  have hfirst : x / 32 = 0 := Nat.div_eq_of_lt hx
  rw [BitVec.truncate_eq_setWidth, BitVec.getLsbD_setWidth, BitVec.getLsbD_ushiftRight, hbit,
    chunky, getLsbD_ofBits _ hk, hfirst, Nat.mod_eq_of_lt hx]
  simp [hk]

/-! ### The line -/

/-- The pixels after the first longword are those of the planes that are read on. -/
theorem chunky_nextLongs (realBplpt : Fin 8 → Plane) (x : Nat) :
    chunky planes (nextLongs planes realBplpt) x = chunky planes realBplpt (32 + x) := by
  have hlong : (32 + x) / 32 = x / 32 + 1 := by omega
  have hcolumn : (32 + x) % 32 = x % 32 := by omega
  rw [chunky, chunky, hlong, hcolumn]
  congr 1
  funext k
  by_cases hk : (k : Nat) < planes
  · simp [nextLongs, hk, hplanes]
  · simp [hk]

theorem pfieldDoline321_eq (wordcount pos : Nat) (realBplpt : Fin 8 → Plane) (pixels : Pixels)
    (n : Nat) : pfieldDoline321 planes wordcount pos realBplpt pixels n =
      if 4 * pos ≤ n ∧ n < 4 * pos + 32 * wordcount then chunky planes realBplpt (n - 4 * pos)
      else pixels n := by
  induction wordcount generalizing pos realBplpt pixels with
  | zero =>
    rw [pfieldDoline321, if_neg]
    omega
  | succ wordcount ih =>
    rw [pfieldDoline321, ih]
    by_cases hafter : 4 * (pos + 8) ≤ n
    · have hskip : n - 4 * pos = 32 + (n - 4 * (pos + 8)) := by omega
      have hold := foldl_stores_of_ne pos
        (Merge.network merges (loadPlanes planes realBplpt)) pixels (n := n) (by omega)
      rw [chunky_nextLongs hplanes, ← hskip, hold]
      have hiff : (4 * (pos + 8) ≤ n ∧ n < 4 * (pos + 8) + 32 * wordcount) ↔
          (4 * pos ≤ n ∧ n < 4 * pos + 32 * (wordcount + 1)) := by omega
      simp only [hiff]
    · rw [if_neg fun h => hafter h.1]
      by_cases hhere : 4 * pos ≤ n
      · have hlt : n - 4 * pos < 32 := by omega
        have hstored := stored_eq_chunky hplanes pos realBplpt pixels hlt
        rw [Nat.add_sub_cancel' hhere] at hstored
        rw [hstored, if_pos]
        omega
      · rw [foldl_stores_of_ne pos _ pixels (by omega), if_neg fun h => hhere h.1]

omit hplanes

namespace Line

theorem chunky_dataPointer (line : Line) (x : Nat) :
    chunky line.bplmaxplanecnt line.dataPointer x = line.pixel x := by
  have hcolumn : x % 32 < 32 := Nat.mod_lt _ (by decide)
  have hones : (0xffffffff#32).getMsbD (x % 32) = true := by
    interval_cases x % 32 <;> rfl
  rw [chunky, pixel]
  congr 1
  funext k
  rw [dataPointer]
  split_ifs with hmask hone
  · rfl
  · simp [hone, hones]
  · simp [hone]

/-- Every pixel of the line has the bits of its planes, whichever there are, and the row is left
alone behind the line and by more planes than there can be. -/
theorem pfieldDoline_eq_pixel (line : Line) (data : Pixels) (x : Nat) :
    line.pfieldDoline data x =
      if line.bplmaxplanecnt ≤ 8 ∧ x < 32 * line.plflinelen then line.pixel x else data x := by
  rw [pfieldDoline]
  by_cases hnone : line.bplmaxplanecnt = 0
  · have hblank : line.pixel x = 0 := by
      apply BitVec.eq_of_getLsbD_eq
      intro k hk
      rw [pixel, getLsbD_ofBits _ hk]
      simp [hnone]
    simp [hnone, hblank, Nat.mul_comm]
  · rw [if_neg hnone]
    by_cases hplanes : line.bplmaxplanecnt ≤ 8
    · simp [hplanes, pfieldDoline321_eq hplanes, chunky_dataPointer]
    · simp [hplanes]

end Line

end LibretroUae.Drawing
