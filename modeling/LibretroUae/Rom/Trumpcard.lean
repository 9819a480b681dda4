import LibretroUae.Lib.Bytes
import Mathlib.Data.List.Basic

/-!
# LibretroUae.Rom.Trumpcard

**The ROM in a Trumpcard driver.** The code of the driver file is looked for a marker and written as
nibbles up to there, then for a second marker and copied up to that one. Both searches count from
the code but stop at the size of the whole file, so that a file without the markers is read beyond
its end.
-/

namespace LibretroUae.Rom

open Lib

/-- Where the nibbles end. -/
def nopMarker : List Byte := [0x4e, 0x71, 0x4e, 0x71]

/-- Where the data ends. -/
def dataMarker : List Byte := [0x66, 0x66, 0x99, 0x99]

/-- The bytes at `pos` compared one after the other. Nothing where a read is outside. -/
def bytesAre (d : List Byte) (pos : Nat) : List Byte → Option Bool
  | [] => some true
  | v :: vs =>
    match d[pos]? with
    | none => none
    | some b => if b = v then bytesAre d (pos + 1) vs else some false

/-- What is written for a byte of code. -/
def nibbles (b : Byte) : List Byte := [b &&& 0xf0 ||| 0x0f, b <<< 4 ||| 0x0f]

/-- The first loop: where it ends, and what it has written. -/
def nibbleLoop (d : List Byte) (size i : Nat) (out : List Byte) : Option (Nat × List Byte) :=
  if i < size - 4 then
    match bytesAre d i nopMarker with
    | none => none
    | some true => some (i, out)
    | some false =>
      match d[i]? with
      | none => none
      | some b => nibbleLoop d size (i + 1) (out ++ nibbles b)
  else some (i, out)
termination_by size - i

/-- The second loop: the place of the marker, if it was there. -/
def dataLoop (d : List Byte) (size i : Nat) : Option (Option Nat) :=
  if i < size - 4 then
    match bytesAre d i dataMarker with
    | none => none
    | some true => some (some i)
    | some false => dataLoop d size (i + 2)
  else some none
termination_by size - i

def readBytes (d : List Byte) (pos len : Nat) : Option (List Byte) :=
  if pos + len ≤ d.length then some ((d.drop pos).take len) else none

/-- What both loops write. -/
def writeDriver (d : List Byte) (size : Nat) : Option (List Byte) :=
  match nibbleLoop d size 0 [] with
  | none => none
  | some (datastart, out) =>
    match dataLoop d size datastart with
    | none => none
    | some none => some out
    | some (some i) => (readBytes d datastart (i - datastart + 4)).map (out ++ ·)

/-- A count in a 32-bit `int`. -/
def intOf (n : Nat) : Int :=
  if n % 0x100000000 < 0x80000000 then (n % 0x100000000 : Nat)
  else (n % 0x100000000 : Nat) - 0x100000000

def padTo16 (out : List Byte) : List Byte :=
  if out.length % 16 = 0 then out else padTo16 (out ++ [0])
termination_by (16 - out.length % 16) % 16
decreasing_by
  rw [List.length_append, List.length_singleton]
  omega

theorem intOf_succ {n : Nat} (h : intOf n < 16384) : intOf (n + 1) = intOf n + 1 := by
  simp only [intOf] at h ⊢
  split_ifs at h ⊢ <;> omega

/-- The last loop, on the count `out` of what is written. -/
def padTo16384 (out : List Byte) : List Byte :=
  if intOf out.length < 16384 then padTo16384 (out ++ [0xff]) else out
termination_by (16384 - intOf out.length).toNat
decreasing_by
  rename_i h
  rw [List.length_append, List.length_singleton, intOf_succ h]
  omega

/-- The file of 16384 zeros after `written` went to its start. -/
def zfileData (written : List Byte) : List Byte :=
  written ++ (List.replicate 16384 (0 : Byte)).drop written.length

def finish (out : List Byte) : List Byte :=
  zfileData (padTo16384 (padTo16 out ++ List.replicate 16 0))

/-- What the caller gets: its own file, or a ROM. -/
inductive Parsed
  | unchanged
  | rom (data : List Byte)
  deriving DecidableEq

/-- `parse_trumpcard_driver`. Nothing where it reads outside of the file. -/
def parseTrumpcardDriver (file : List Byte) : Option Parsed :=
  match bytesAre file 0 [0x00, 0x00, 0x03, 0xf3] with
  | none => none
  | some false => some .unchanged
  | some true =>
    match file[11]? with
    | none => none
    | some count =>
      let d := file.drop (0x1c + count.toNat * 4)
      -- `dp >= dp + size`, where `d` was meant
      if file.length = 0 then some .unchanged
      else (writeDriver d file.length).map fun out => .rom (finish out)

/-! ### Reads -/

/-- The marker is at place `i`. -/
def HasAt (marker d : List Byte) (i : Nat) : Prop := marker <+: d.drop i

instance (marker d : List Byte) (i : Nat) : Decidable (HasAt marker d i) :=
  inferInstanceAs (Decidable (marker <+: d.drop i))

section

variable {d marker : List Byte} {size i n pos : Nat}

theorem HasAt.length_le (h : HasAt marker d i) (hmarker : 0 < marker.length) :
    i + marker.length ≤ d.length := by
  have hle := List.IsPrefix.length_le h
  rw [List.length_drop] at hle
  omega

theorem bytesAre_true : bytesAre d pos marker = some true ↔ HasAt marker d pos := by
  induction marker generalizing pos with
  | nil => exact iff_of_true rfl List.nil_prefix
  | cons v vs ih =>
    rw [bytesAre, HasAt]
    by_cases hpos : pos < d.length
    · rw [List.getElem?_eq_getElem hpos, List.drop_eq_getElem_cons hpos, List.cons_prefix_cons]
      by_cases hv : d[pos] = v
      · show (if d[pos] = v then _ else _) = _ ↔ _
        rw [if_pos hv, ih, and_iff_right hv.symm]
        rfl
      · show (if d[pos] = v then _ else _) = _ ↔ _
        rw [if_neg hv]
        exact iff_of_false nofun fun h => hv h.1.symm
    · rw [List.getElem?_eq_none (Nat.le_of_not_lt hpos),
        List.drop_eq_nil_of_le (Nat.le_of_not_lt hpos)]
      exact iff_of_false nofun fun h => List.cons_ne_nil v vs (List.prefix_nil.mp h)

theorem bytesAre_inside (h : pos + marker.length ≤ d.length) : bytesAre d pos marker ≠ none := by
  induction marker generalizing pos with
  | nil => exact nofun
  | cons v vs ih =>
    rw [List.length_cons] at h
    rw [bytesAre, List.getElem?_eq_getElem (by omega)]
    show (if d[pos] = v then _ else _) ≠ none
    split_ifs
    · exact ih (by omega)
    · exact nofun

theorem bytesAre_outside {v : Byte} {vs : List Byte} (h : d.length ≤ pos) :
    bytesAre d pos (v :: vs) = none := by
  rw [bytesAre, List.getElem?_eq_none h]

theorem bytesAre_false (hinside : pos + marker.length ≤ d.length) (hno : ¬ HasAt marker d pos) :
    bytesAre d pos marker = some false := by
  cases h : bytesAre d pos marker with
  | none => exact absurd h (bytesAre_inside hinside)
  | some b =>
    cases b with
    | false => rfl
    | true => exact absurd (bytesAre_true.mp h) hno

/-! ### The loops -/

/-- With a marker the first loop ends there. -/
theorem nibbleLoop_found (out : List Byte) (hsize : d.length + 6 ≤ size) {stop : Nat}
    (hat : HasAt nopMarker d stop) (hle : i ≤ stop)
    (hfirst : ∀ k, i ≤ k → k < stop → ¬ HasAt nopMarker d k) :
    nibbleLoop d size i out =
      some (stop, out ++ ((d.drop i).take (stop - i)).flatMap nibbles) := by
  have hend : stop + 4 ≤ d.length := hat.length_le (by decide)
  obtain ⟨n, rfl⟩ := Nat.exists_eq_add_of_le hle
  induction n generalizing i out with
  | zero =>
    rw [Nat.add_zero] at hat ⊢
    rw [nibbleLoop, if_pos (by omega), bytesAre_true.mpr hat, Nat.sub_self, List.take_zero,
      List.flatMap_nil, List.append_nil]
  | succ n ih =>
    have hi : i < d.length := by omega
    have hshift : i + (n + 1) = i + 1 + n := by omega
    have hcount : i + 1 + n - i = i + 1 + n - (i + 1) + 1 := by omega
    rw [nibbleLoop, if_pos (by omega),
      bytesAre_false (show i + 4 ≤ d.length by omega) (hfirst i (Nat.le_refl i) (by omega)),
      List.getElem?_eq_getElem hi]
    rw [hshift] at hat hfirst hend ⊢
    have hrest := ih (out ++ nibbles d[i]) hat (by omega)
      (fun k hk hks => hfirst k (by omega) hks) hend
    rw [hcount, List.drop_eq_getElem_cons hi, List.take_succ_cons, List.flatMap_cons,
      ← List.append_assoc]
    exact hrest

/-- Without one it reads outside. -/
theorem nibbleLoop_lost (out : List Byte) (hsize : d.length + 6 ≤ size) (hi : i < size - 4)
    (hno : ∀ k, i ≤ k → ¬ HasAt nopMarker d k) : nibbleLoop d size i out = none := by
  obtain ⟨n, hn⟩ := Nat.exists_eq_add_of_lt hi
  induction n generalizing i out with
  | zero =>
    have houtside : bytesAre d i nopMarker = none := bytesAre_outside (by omega)
    rw [nibbleLoop, if_pos hi, houtside]
  | succ n ih =>
    rw [nibbleLoop, if_pos hi]
    cases h : bytesAre d i nopMarker with
    | none => rfl
    | some b =>
      cases b with
      | true => exact absurd (bytesAre_true.mp h) (hno i (Nat.le_refl i))
      | false =>
        cases d[i]? with
        | none => rfl
        | some b => exact ih _ (by omega) (fun k hk => hno k (by omega)) (by omega)

/-- With a marker at an even distance the second loop ends there. -/
theorem dataLoop_found (hsize : d.length + 6 ≤ size) (hat : HasAt dataMarker d (i + 2 * n))
    (hfirst : ∀ k < n, ¬ HasAt dataMarker d (i + 2 * k)) :
    dataLoop d size i = some (some (i + 2 * n)) := by
  have hend : i + 2 * n + 4 ≤ d.length := hat.length_le (by decide)
  induction n generalizing i with
  | zero =>
    rw [Nat.mul_zero, Nat.add_zero] at hat ⊢
    rw [dataLoop, if_pos (by omega), bytesAre_true.mpr hat]
  | succ n ih =>
    have hshift : i + 2 * (n + 1) = i + 2 + 2 * n := by omega
    have hhere : ¬ HasAt dataMarker d i := hfirst 0 (Nat.zero_lt_succ n)
    rw [dataLoop, if_pos (by omega), bytesAre_false (show i + 4 ≤ d.length by omega) hhere]
    rw [hshift] at hat hend ⊢
    refine ih hat (fun k hk => ?_) hend
    have hstep := hfirst (k + 1) (Nat.succ_lt_succ hk)
    rwa [show i + 2 * (k + 1) = i + 2 + 2 * k by omega] at hstep

/-- Without one it reads outside. -/
theorem dataLoop_lost (hsize : d.length + 6 ≤ size) (hi : i < size - 4)
    (hno : ∀ k, ¬ HasAt dataMarker d (i + 2 * k)) : dataLoop d size i = none := by
  fun_induction dataLoop d size i with
  | case1 i hlt hnone => rfl
  | case2 i hlt htrue => exact absurd (bytesAre_true.mp htrue) (hno 0)
  | case3 i hlt hfalse ih =>
    refine ih ?_ fun k => ?_
    · -- `i + 2 < size - 4`: a round that ends the loop reads behind `d`, which is six bytes shorter
      by_contra hge
      have houtside : bytesAre d i dataMarker = none := bytesAre_outside (by omega)
      rw [houtside] at hfalse
      cases hfalse
    · have hstep := hno (k + 1)
      rwa [show i + 2 * (k + 1) = i + 2 + 2 * k by omega] at hstep
  | case4 i hge => exact absurd hi hge

/-! ### Padding -/

theorem replicate_shift (n : Nat) (b : Byte) (l : List Byte) :
    l ++ [b] ++ List.replicate n b = l ++ List.replicate (n + 1) b := by
  rw [List.append_assoc, List.singleton_append, List.replicate_succ]

theorem padTo16_eq (out : List Byte) :
    padTo16 out = out ++ List.replicate ((16 - out.length % 16) % 16) 0 := by
  fun_induction padTo16 out with
  | case1 out h => rw [h]; exact (List.append_nil out).symm
  | case2 out h ih =>
    rw [ih, replicate_shift, List.length_append, List.length_singleton]
    congr 2
    omega

theorem padTo16384_eq (out : List Byte) :
    padTo16384 out = out ++ List.replicate (16384 - intOf out.length).toNat 0xff := by
  fun_induction padTo16384 out with
  | case1 out h ih =>
    rw [ih, replicate_shift, List.length_append, List.length_singleton, intOf_succ h]
    congr 2
    omega
  | case2 out h =>
    rw [Int.toNat_of_nonpos (by omega)]
    exact (List.append_nil out).symm

theorem intOf_le (n : Nat) : intOf n ≤ n := by
  rw [intOf]
  split_ifs <;> omega

/-- What is written fills the 16384 bytes. -/
theorem zfileData_padTo16384 (out : List Byte) :
    zfileData (padTo16384 out) = out ++ List.replicate (16384 - intOf out.length).toNat 0xff := by
  have hle := intOf_le out.length
  have hfull : 16384 ≤ (padTo16384 out).length := by
    rw [padTo16384_eq, List.length_append, List.length_replicate]
    omega
  rw [zfileData, List.drop_eq_nil_of_le (by rw [List.length_replicate]; exact hfull),
    List.append_nil, padTo16384_eq]

end

/-! ### The ROM -/

/-- The first place with the marker, of those that are a multiple of `step`. -/
def firstAt (marker : List Byte) (step : Nat) (d : List Byte) : Option Nat :=
  (List.range d.length).find? fun i => decide (i % step = 0 ∧ HasAt marker d i)

/-- The code of a driver file. -/
def driverCode (file : List Byte) : List Byte := file.drop (0x1c + (file.getD 11 0).toNat * 4)

/-- The code as nibbles up to the first marker, and as it is from there to the second one. -/
def driverBody (code : List Byte) : List Byte :=
  let stop := (firstAt nopMarker 1 code).getD code.length
  (code.take stop).flatMap nibbles ++
    match firstAt dataMarker 2 (code.drop stop) with
    | none => []
    | some j => (code.drop stop).take (j + 4)

/-- The body with zeros to a multiple of 16 bytes, and 16 more. -/
def zeroPadded (body : List Byte) : List Byte :=
  body ++ List.replicate ((16 - body.length % 16) % 16) 0 ++ List.replicate 16 0

/-- The ROM that a driver file holds. -/
def driverRom (file : List Byte) : List Byte :=
  let padded := zeroPadded (driverBody (driverCode file))
  padded ++ List.replicate (16384 - padded.length) 0xff

/-- The length of the ROM before the last padding, for a first marker at `stop` and a second one
`j` bytes behind it. -/
def paddedLength (stop j : Nat) : Nat := (2 * stop + j + 4 + 15) / 16 * 16 + 16

section

variable {d code marker body : List Byte} {size step i stop j : Nat}

theorem firstAt_eq_some (hmarker : 0 < marker.length) : firstAt marker step d = some i ↔
    (i % step = 0 ∧ HasAt marker d i) ∧ ∀ k < i, ¬ (k % step = 0 ∧ HasAt marker d k) := by
  rw [firstAt, List.find?_range_eq_some]
  simp only [decide_eq_true_iff, Bool.not_eq_true', decide_eq_false_iff_not, List.mem_range]
  refine and_congr_right fun h => and_iff_right ?_
  have := h.2.length_le hmarker
  omega

theorem firstAt_eq_none (hmarker : 0 < marker.length) :
    firstAt marker step d = none ↔ ∀ k, ¬ (k % step = 0 ∧ HasAt marker d k) := by
  rw [firstAt, List.find?_range_eq_none]
  simp only [Bool.not_eq_true', decide_eq_false_iff_not]
  refine ⟨fun h k hk => h k ?_ hk, fun h k _ => h k⟩
  have := hk.2.length_le hmarker
  omega

theorem hasAt_drop : HasAt marker (d.drop stop) i ↔ HasAt marker d (stop + i) := by
  rw [HasAt, HasAt, List.drop_drop]

/-- With both markers the driver is written as its body. -/
theorem writeDriver_found (hsize : d.length + 6 ≤ size) (hstop : firstAt nopMarker 1 d = some stop)
    (hj : firstAt dataMarker 2 (d.drop stop) = some j) :
    writeDriver d size = some (driverBody d) := by
  obtain ⟨⟨-, hnop⟩, hbefore⟩ := (firstAt_eq_some (by decide)).mp hstop
  obtain ⟨⟨heven, hdata⟩, hbefore'⟩ := (firstAt_eq_some (by decide)).mp hj
  have hfirst := nibbleLoop_found [] hsize hnop (Nat.zero_le stop)
    fun k _ hk hat => hbefore k hk ⟨Nat.mod_one k, hat⟩
  obtain ⟨n, rfl⟩ := Nat.dvd_of_mod_eq_zero heven
  have hsecond : dataLoop d size stop = some (some (stop + 2 * n)) := by
    refine dataLoop_found hsize (hasAt_drop.mp hdata) fun k hk hat => ?_
    exact hbefore' (2 * k) (by omega) ⟨Nat.mul_mod_right 2 k, hasAt_drop.mpr hat⟩
  have hend : stop + 2 * n + 4 ≤ d.length := (hasAt_drop.mp hdata).length_le (by decide)
  simp only [writeDriver, hfirst, hsecond, readBytes, Nat.add_sub_cancel_left, driverBody, hstop,
    hj, Option.getD_some, List.drop_zero, Nat.sub_zero, List.nil_append]
  rw [if_pos (by omega)]
  rfl

/-- Without one of them it is read outside. -/
theorem writeDriver_lost (hsize : d.length + 6 ≤ size)
    (h : ∀ stop j, firstAt nopMarker 1 d = some stop →
      firstAt dataMarker 2 (d.drop stop) ≠ some j) : writeDriver d size = none := by
  rw [writeDriver]
  cases hstop : firstAt nopMarker 1 d with
  | none =>
    have hno := (firstAt_eq_none (by decide)).mp hstop
    rw [nibbleLoop_lost [] hsize (by omega) fun k _ hat => hno k ⟨Nat.mod_one k, hat⟩]
  | some stop =>
    obtain ⟨⟨-, hnop⟩, hbefore⟩ := (firstAt_eq_some (by decide)).mp hstop
    have hend : stop + 4 ≤ d.length := hnop.length_le (by decide)
    have hnone : firstAt dataMarker 2 (d.drop stop) = none :=
      Option.eq_none_iff_forall_ne_some.mpr fun j => h stop j hstop
    have hno := (firstAt_eq_none (by decide)).mp hnone
    have hlost : dataLoop d size stop = none := by
      refine dataLoop_lost hsize (by omega) fun k hat => ?_
      exact hno (2 * k) ⟨Nat.mul_mod_right 2 k, hasAt_drop.mpr hat⟩
    simp only [nibbleLoop_found [] hsize hnop (Nat.zero_le stop)
      fun k _ hk hat => hbefore k hk ⟨Nat.mod_one k, hat⟩, hlost]

theorem finish_eq (body : List Byte) : finish body = zeroPadded body ++
    List.replicate (16384 - intOf (zeroPadded body).length).toNat 0xff := by
  rw [finish, zfileData_padTo16384, padTo16_eq]
  rfl

theorem length_flatMap_nibbles (l : List Byte) : (l.flatMap nibbles).length = 2 * l.length := by
  induction l with
  | nil => rfl
  | cons b rest ih =>
    rw [List.flatMap_cons, List.length_append, ih, List.length_cons]
    show 2 + 2 * rest.length = _
    omega

theorem length_zeroPadded (hstop : firstAt nopMarker 1 d = some stop)
    (hj : firstAt dataMarker 2 (d.drop stop) = some j) :
    (zeroPadded (driverBody d)).length = paddedLength stop j := by
  have hdata := ((firstAt_eq_some (by decide)).mp hj).1.2
  have hend : stop + j + 4 ≤ d.length := (hasAt_drop.mp hdata).length_le (by decide)
  simp only [zeroPadded, driverBody, hstop, hj, Option.getD_some, List.length_append,
    List.length_replicate, length_flatMap_nibbles, List.length_take, List.length_drop, paddedLength]
  rw [Nat.min_eq_left (by omega), Nat.min_eq_left (by omega)]
  omega

/-- The last padding is right as far as the count is. -/
theorem finish_eq_iff (body : List Byte) :
    finish body = zeroPadded body ++ List.replicate (16384 - (zeroPadded body).length) 0xff ↔
      intOf (zeroPadded body).length = (zeroPadded body).length ∨
        16384 ≤ intOf (zeroPadded body).length := by
  have hle := intOf_le (zeroPadded body).length
  rw [finish_eq, List.append_right_inj, List.replicate_inj, and_iff_left (Or.inr rfl)]
  omega

end

section

variable {file : List Byte}

/-- Nothing outside of the file is read, and the ROM is the one that the file holds. -/
def Extracted (file : List Byte) : Prop :=
  parseTrumpcardDriver file = some (.rom (driverRom file))

theorem parseTrumpcardDriver_eq (hsize : 12 ≤ file.length)
    (hmagic : HasAt [0x00, 0x00, 0x03, 0xf3] file 0) :
    parseTrumpcardDriver file =
      (writeDriver (driverCode file) file.length).map fun out => .rom (finish out) := by
  have hcount : file[11]? = some (file.getD 11 0) := by
    rw [List.getD_eq_getElem?_getD, List.getElem?_eq_getElem (by omega)]
    rfl
  rw [parseTrumpcardDriver, bytesAre_true.mpr hmagic, hcount]
  exact if_neg (by omega)

theorem length_driverCode (hsize : 12 ≤ file.length) :
    (driverCode file).length + 6 ≤ file.length := by
  rw [driverCode, List.length_drop]
  omega

/-- The driver is extracted if and only if both markers are in the file, the second one at an even
distance, and an `int` counts the bytes that are written, or counts no less than 16384 of them. -/
theorem parseTrumpcardDriver_extracted (hsize : 12 ≤ file.length)
    (hmagic : HasAt [0x00, 0x00, 0x03, 0xf3] file 0) :
    Extracted file ↔ ∃ stop j, firstAt nopMarker 1 (driverCode file) = some stop ∧
      firstAt dataMarker 2 ((driverCode file).drop stop) = some j ∧
      (intOf (paddedLength stop j) = paddedLength stop j ∨
        16384 ≤ intOf (paddedLength stop j)) := by
  rw [Extracted, parseTrumpcardDriver_eq hsize hmagic]
  have hcode := length_driverCode hsize
  by_cases h : ∃ stop j, firstAt nopMarker 1 (driverCode file) = some stop ∧
      firstAt dataMarker 2 ((driverCode file).drop stop) = some j
  · obtain ⟨stop, j, hstop, hj⟩ := h
    have hcount := finish_eq_iff (driverBody (driverCode file))
    rw [length_zeroPadded hstop hj] at hcount
    rw [writeDriver_found hcode hstop hj, Option.map_some, Option.some.injEq, Parsed.rom.injEq]
    constructor
    · intro heq
      refine ⟨stop, j, hstop, hj, hcount.mp (heq.trans ?_)⟩
      rw [driverRom, length_zeroPadded hstop hj]
    · rintro ⟨stop', j', hstop', hj', hint⟩
      obtain rfl : stop = stop' := Option.some.inj (hstop.symm.trans hstop')
      obtain rfl : j = j' := Option.some.inj (hj.symm.trans hj')
      rw [hcount.mpr hint, driverRom, length_zeroPadded hstop hj]
  · have hlost := writeDriver_lost hcode fun stop j hstop hj => h ⟨stop, j, hstop, hj⟩
    rw [hlost]
    exact iff_of_false nofun fun ⟨stop, j, hstop, hj, _⟩ => h ⟨stop, j, hstop, hj⟩

end

/-- A driver file with nothing in its header but the magic, and the given code. -/
def driverFile (code : List Byte) : List Byte :=
  [0x00, 0x00, 0x03, 0xf3] ++ List.replicate 24 0 ++ code

/-- A byte of code and both markers are extracted. -/
theorem parseTrumpcardDriver_markers :
    Extracted (driverFile ([0x12] ++ nopMarker ++ dataMarker)) :=
  (parseTrumpcardDriver_extracted (by decide) (by decide)).mpr
    ⟨1, 4, by decide, by decide, by decide⟩

/-- Four bytes of code without a marker are not. -/
theorem parseTrumpcardDriver_no_marker : ¬ Extracted (driverFile [0x12, 0x34, 0x56, 0x78]) := by
  have hno : firstAt nopMarker 1 [0x12, 0x34, 0x56, 0x78] = none := by decide
  have hlost : writeDriver [0x12, 0x34, 0x56, 0x78] 32 = none :=
    writeDriver_lost (by decide) fun stop j hstop => nomatch hno.symm.trans hstop
  have hnone : parseTrumpcardDriver (driverFile [0x12, 0x34, 0x56, 0x78]) = none := by
    rw [parseTrumpcardDriver_eq (by decide) (by decide)]
    show (writeDriver [0x12, 0x34, 0x56, 0x78] 32).map _ = none
    rw [hlost]
    rfl
  rw [Extracted, hnone]
  exact nofun

end LibretroUae.Rom
