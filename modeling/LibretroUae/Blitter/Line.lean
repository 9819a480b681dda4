import LibretroUae.Blitter.Area
import LibretroUae.Lib.Words
import Mathlib.Data.BitVec
import Mathlib.Tactic.Ring
import Mathlib.Tactic.SplitIfs

/-!
# LibretroUae.Blitter.Line

**Lines.** In line mode the blitter goes one pixel a round along one axis, and along the other when
the sum in `bltapt` is not negative. With the sums and modulos that programs set it up with, this is
the line from a pixel to one that is `dx` pixels away along the first axis and `dy` along the
second: the pixel of every round is the nearest one to it, in all eight octants.

The fields of `bltcon0` and `bltcon1` are kept apart.
-/

namespace LibretroUae.Blitter

open Lib

/-- What does not change while a line is drawn. -/
structure LineCon where
  bltcha : Bool
  bltchb : Bool
  bltchc : Bool
  mt : UInt8
  sud : Bool
  sul : Bool
  aul : Bool
  sing : Bool
  bltadat : UInt16
  bltafwm : UInt16
  bltalwm : UInt16
  bltamod : Int
  bltbmod : Int
  bltcmod : Int
  hblitsize : Nat

/-- The registers and the memory. `ashift` and `bshift` are the upper bits of `bltcon0` and
`bltcon1`, and `sign` is `BLTSIGN`. -/
structure Line (M : Type) where
  mem : M
  ashift : Nat
  bshift : Nat
  sign : Bool
  bltapt : BitVec 32
  bltbpt : BitVec 32
  bltcpt : BitVec 32
  bltdpt : BitVec 32
  bltbdat : UInt16
  bltcdat : UInt16
  bltddat : UInt16
  bltaold : UInt16
  bltbold : UInt16
  bltbhold : UInt16
  blineb : UInt16
  blitzero : Bool
  blitOvf : Int
  blitonedot : Bool
  blitlinepixel : Bool
  blitlineloop : Bool

/-- `blineb` when it is not fetched: the word of B turned round. -/
def turned (bltbdat : UInt16) (bshift : Nat) : UInt16 :=
  ⟨(bltbdat.toBitVec >>> bshift) ||| (bltbdat.toBitVec <<< (16 - bshift))⟩

section

variable {M : Type} (wget : M → BitVec 32 → UInt16) (wput : M → BitVec 32 → UInt16 → M)

namespace Line

variable (c : LineCon) (s : Line M)

/-- `blitter_start_init`. -/
def startInit : Line M :=
  { s with blitzero := true, blitlineloop := true, bltaold := 0, bltbold := 0
           blineb := turned s.bltbdat s.bshift, blitonedot := false, blitlinepixel := false }

def readB : Line M :=
  if c.bltchb then
    { s with bltbdat := wget s.mem s.bltbpt, bltbpt := s.bltbpt + .ofInt 32 c.bltbmod }
  else s

def readC : Line M := if c.bltchc then { s with bltcdat := wget s.mem s.bltcpt } else s

def write : Line M := if c.bltchc then { s with mem := wput s.mem s.bltdpt s.bltddat } else s

/-- The texture of B: `bltbold` in front of it when it is fetched. -/
def fetchTexture : UInt16 :=
  if c.bltchb then
    (((s.bltbold.toUInt32 <<< 16) ||| s.bltbdat.toUInt32) >>> .ofNat s.bshift).toUInt16
  else s.blineb

/-- The word of A: one pixel. -/
def pixelWord (mask : UInt16) (ashift : Nat) : UInt16 :=
  ⟨(c.bltadat &&& mask).toBitVec >>> ashift⟩

def combineWord (a b : UInt16) (cdat : UInt16) : UInt16 :=
  (blitFunc a.toUInt32 b.toUInt32 cdat.toUInt32 c.mt).toUInt16

/-- `blitter_line_minterm`, with `BLITTER_PIPELINE_LAST` or not. -/
def minterm (last : Bool) : Line M :=
  let mask := if last then c.bltafwm &&& c.bltalwm else c.bltafwm
  let blineb := s.fetchTexture c
  let bltbhold := if blineb &&& 1 ≠ 0 then 0xffff else 0
  let bltddat := combineWord c (pixelWord c mask s.ashift) bltbhold s.bltcdat
  { s with blineb, bltbhold, bltddat, blitzero := s.blitzero && bltddat == 0 }

/-- `blitter_line_minterm_extra`. -/
def mintermExtra : Line M :=
  { s with bltddat := combineWord c (pixelWord c 0xffff s.ashift) s.bltbhold s.bltcdat }

/-- `blitter_line_adat`. -/
def adat : Line M :=
  { s with bltaold := (((s.bltaold.toUInt32 <<< 16) ||| (c.bltadat &&& c.bltafwm).toUInt32) >>>
      .ofNat s.ashift).toUInt16 }

/-- `blitter_line_proc_apt`. -/
def procApt : Line M :=
  if c.bltcha then
    { s with bltapt := s.bltapt + .ofInt 32 (if s.sign then c.bltbmod else c.bltamod) }
  else s

/-- `blitter_line_ovf`. -/
def ovf : Line M := { s with ashift := ((s.ashift + s.blitOvf) % 16).toNat, blitOvf := 0 }

def incx : Line M :=
  { s with bltcpt := if s.ashift = 15 then s.bltcpt + 2 else s.bltcpt, blitOvf := 1 }

def decx : Line M :=
  { s with bltcpt := if s.ashift = 0 then s.bltcpt - 2 else s.bltcpt, blitOvf := -1 }

def decy : Line M :=
  if c.bltchc then { s with bltcpt := s.bltcpt - .ofInt 32 c.bltcmod, blitonedot := false } else s

def incy : Line M :=
  if c.bltchc then { s with bltcpt := s.bltcpt + .ofInt 32 c.bltcmod, blitonedot := false } else s

/-- `blitter_line_proc_cpt_y`. -/
def procCptY : Line M :=
  let s := if !s.sign && c.sud then if c.sul then s.decy c else s.incy c else s
  if !c.sud then if c.aul then s.decy c else s.incy c else s

/-- `blitter_line_proc_cpt_x`. -/
def procCptX : Line M :=
  let s := if !s.sign && !c.sud then if c.sul then s.decx else s.incx else s
  if c.sud then if c.aul then s.decx else s.incx else s

/-- `blitter_line_proc_status`. -/
def procStatus : Line M :=
  { s with blitlinepixel := !c.sing || (c.sing && !s.blitonedot), blitonedot := true }

/-- `blitter_line_sign`. -/
def lineSign : Line M := { s with sign := decide ((s.bltapt.setWidth 16).toInt < 0) }

/-- `blitter_nxline`. -/
def nxline : Line M :=
  let bshift := (s.bshift + 15) % 16
  { s with bshift, blineb := turned s.bltbdat bshift }

/-- The row is left once in a round. -/
def leaveRow : Line M :=
  if s.blitlineloop then { s.procCptY c with blitlineloop := false } else s

/-- The first half of a round. -/
def pixelRound : Line M :=
  let s := (s.procStatus c).procApt c
  if c.hblitsize > 1 then (((s.readB wget c).readC wget c).minterm c false).procCptX c else s

/-- What a wider line does in between. -/
def extraRound : Line M :=
  if c.hblitsize > 2 then
    let s := if !c.sud then s.leaveRow c else s
    (s.readC wget c).mintermExtra c
  else s

/-- The pixel is written, if it is one. -/
def putPixel : Line M :=
  if s.blitlinepixel then { s.write wput c with blitlinepixel := false } else s

/-- The second half. -/
def endRound : Line M :=
  let s := (s.adat c).ovf
  let s := if c.hblitsize ≥ 2 then s.leaveRow c else s
  let s := s.lineSign.nxline
  let s := s.putPixel wput c
  let s := { s with bltdpt := s.bltcpt }
  { s.minterm c true with blitlineloop := true }

/-- A round of `actually_do_blit`. -/
def round : Line M := ((s.pixelRound wget c).extraRound wget c).endRound wput c

/-- `actually_do_blit` in line mode. -/
def draw (vblitsize : Nat) : Line M := (round wget wput c)^[vblitsize] s

end Line

end

/-! ### The line -/

/-- How far a line is along its second axis in round `k`: the nearest place, the further one of
two. -/
def minor (dx dy k : Nat) : Nat := (2 * dy * k + dx) / (2 * dx)

/-- Steps in a direction. -/
def along (back : Bool) (n : Int) : Int := if back then -n else n

/-- The pixel of round `k`, from the first one's place. -/
def linePixel (c : LineCon) (dx dy : Nat) (x₀ : Int) (k : Nat) : Int × Int :=
  if c.sud then (x₀ + along c.aul k, along c.sul (minor dx dy k))
  else (x₀ + along c.sul (minor dx dy k), along c.aul k)

/-- Where the word of a pixel is. -/
def pixelPtr (c : LineCon) (base : BitVec 32) (p : Int × Int) : BitVec 32 :=
  base + .ofInt 32 (p.2 * c.bltcmod + 2 * (p.1 / 16))

/-- With one pixel a row, only the first one of a row is drawn. -/
def drawn (c : LineCon) (dx dy : Nat) (x₀ : Int) : Nat → Bool
  | 0 => true
  | k + 1 => !c.sing || decide ((linePixel c dx dy x₀ (k + 1)).2 ≠ (linePixel c dx dy x₀ k).2)

/-- The bit of the texture for round `k`. -/
def texture (bltbdat : UInt16) (bshift k : Nat) : Bool :=
  bltbdat.toBitVec.getLsbD ((bshift + 15 * k) % 16)

section

variable {M : Type} (wget : M → BitVec 32 → UInt16) (wput : M → BitVec 32 → UInt16 → M)

/-- The word of a pixel is combined with the pixel and the texture. -/
def plot (c : LineCon) (dx dy : Nat) (base : BitVec 32) (x₀ : Int) (bltbdat : UInt16) (bshift : Nat)
    (m : M) (k : Nat) : M :=
  let p := linePixel c dx dy x₀ k
  if drawn c dx dy x₀ k then
    wput m (pixelPtr c base p)
      (Line.combineWord c (Line.pixelWord c c.bltafwm (p.1 % 16).toNat)
        (if texture bltbdat bshift k then 0xffff else 0) (wget m (pixelPtr c base p)))
  else m

end

/-- How a line is set up: `dx` is the longer side. -/
structure LineSetup (c : LineCon) (dx dy : Nat) : Prop where
  bltcha : c.bltcha = true
  bltchb : c.bltchb = false
  bltchc : c.bltchc = true
  hblitsize : c.hblitsize = 2
  bltamod : c.bltamod = 4 * dy - 4 * dx
  bltbmod : c.bltbmod = 4 * dy
  pos : 0 < dx
  le : dy ≤ dx
  small : dx < 8192

/-- How it starts: at a pixel of a row that begins at `base`. -/
structure LineStart {M : Type} (c : LineCon) (dx dy : Nat) (base : BitVec 32) (x₀ : Int)
    (s : Line M) : Prop where
  ashift : (s.ashift : Int) = x₀ % 16
  bshift : s.bshift < 16
  bltcpt : s.bltcpt = pixelPtr c base (x₀, 0)
  bltdpt : s.bltdpt = s.bltcpt
  bltapt : s.bltapt.setWidth 16 = .ofInt 16 (4 * dy - 2 * dx)
  sign : s.sign = decide ((4 * dy - 2 * dx : Int) < 0)
  blitOvf : s.blitOvf = 0

/-! ### The sum -/

/-- The sum in `bltapt` in round `k`. -/
def lineSum (dx dy k : Nat) : Int := 4 * dy * (k + 1) - 2 * dx - 4 * dx * minor dx dy k

section

variable {dx dy : Nat}

theorem minor_zero (hpos : 0 < dx) : minor dx dy 0 = 0 := by
  rw [minor, Nat.mul_zero, Nat.zero_add]
  exact Nat.div_eq_of_lt (by omega)

theorem lineSum_zero (hpos : 0 < dx) : lineSum dx dy 0 = 4 * dy - 2 * dx := by
  simp [lineSum, minor_zero hpos]

/-- The second place lies around the line. -/
theorem minor_spec (hpos : 0 < dx) (k : Nat) :
    2 * dx * minor dx dy k ≤ 2 * dy * k + dx ∧
      2 * dy * k + dx < 2 * dx * minor dx dy k + 2 * dx := by
  have hlt : 0 < 2 * dx := Nat.mul_pos (by decide) hpos
  refine ⟨Nat.mul_div_le _ _, ?_⟩
  have h := Nat.lt_mul_div_succ (2 * dy * k + dx) hlt
  rwa [Nat.mul_add, Nat.mul_one] at h

theorem lineSum_eq (k : Nat) : lineSum dx dy k =
    2 * (((2 * dy * k + dx : Nat) : Int) + 2 * dy - (2 * dx * minor dx dy k : Nat) - 2 * dx) := by
  rw [lineSum]
  push_cast
  ring

/-- It goes on by one exactly when the sum is not negative. -/
theorem minor_succ (hpos : 0 < dx) (hle : dy ≤ dx) (k : Nat) :
    minor dx dy (k + 1) = minor dx dy k + if lineSum dx dy k < 0 then 0 else 1 := by
  obtain ⟨hlow, hhigh⟩ := @minor_spec dx dy hpos k
  have hsum := @lineSum_eq dx dy k
  have hnext : 2 * dy * (k + 1) + dx = 2 * dy * k + dx + 2 * dy := by ring
  have hleft : ∀ y, y * (2 * dx) = 2 * dx * y := fun y => Nat.mul_comm _ _
  have hright : ∀ y, (y + 1) * (2 * dx) = 2 * dx * y + 2 * dx := fun y => by ring
  conv_lhs => rw [minor, hnext]
  split
  · next hneg =>
    apply Nat.div_eq_of_lt_le
    · rw [Nat.add_zero, hleft]
      omega
    · rw [Nat.add_zero, hright]
      omega
  · next hneg =>
    apply Nat.div_eq_of_lt_le
    · rw [hright]
      omega
    · rw [hright, Nat.mul_add, Nat.mul_one]
      omega

/-- The sum stays within 16 bits. -/
theorem lineSum_bounds (hpos : 0 < dx) (hle : dy ≤ dx) (k : Nat) :
    -(4 * dx : Int) ≤ lineSum dx dy k ∧ lineSum dx dy k < 4 * dx := by
  obtain ⟨hlow, hhigh⟩ := @minor_spec dx dy hpos k
  have hsum := @lineSum_eq dx dy k
  omega

theorem lineSum_succ (hpos : 0 < dx) (hle : dy ≤ dx) (k : Nat) : lineSum dx dy (k + 1) =
    lineSum dx dy k + if lineSum dx dy k < 0 then (4 * dy : Int) else 4 * dy - 4 * dx := by
  have hminor := @minor_succ dx dy hpos hle k
  by_cases hneg : lineSum dx dy k < 0
  · rw [if_pos hneg] at hminor ⊢
    rw [lineSum, lineSum, hminor]
    push_cast
    ring
  · rw [if_neg hneg] at hminor ⊢
    rw [lineSum, lineSum, hminor]
    push_cast
    ring

end

/-! ### A round -/

/-- How far a round goes along the row and from row to row. -/
def moves (c : LineCon) (sign : Bool) : Int × Int :=
  if c.sud then (along c.aul 1, if sign then 0 else along c.sul 1)
  else (if sign then 0 else along c.sul 1, along c.aul 1)

theorem linePixel_succ {c : LineCon} {dx dy : Nat} (hpos : 0 < dx) (hle : dy ≤ dx) (x₀ : Int)
    (k : Nat) : linePixel c dx dy x₀ (k + 1) =
      ((linePixel c dx dy x₀ k).1 + (moves c (decide (lineSum dx dy k < 0))).1,
        (linePixel c dx dy x₀ k).2 + (moves c (decide (lineSum dx dy k < 0))).2) := by
  have hminor := @minor_succ dx dy hpos hle k
  have halong : ∀ back (n d : Int), along back (n + d) = along back n + along back d := by
    intro back n d
    cases back
    · rfl
    · simp only [along, if_true]
      omega
  have hzero : ∀ back, along back 0 = 0 := fun back => by cases back <;> rfl
  by_cases hneg : lineSum dx dy k < 0
  · rw [if_pos hneg] at hminor
    cases hsud : c.sud <;> simp [linePixel, moves, hsud, hminor, hneg, halong, Int.add_assoc]
  · rw [if_neg hneg] at hminor
    cases hsud : c.sud <;> simp [linePixel, moves, hsud, hminor, hneg, halong, Int.add_assoc]

namespace Line

variable {M : Type} {wget : M → BitVec 32 → UInt16} {wput : M → BitVec 32 → UInt16 → M}
  {c : LineCon} {s : Line M}

/-- The pointer goes to the next word when a pixel is the last one of its word. -/
theorem stepColumn_eq (back : Bool) {x : Int} (hx : (s.ashift : Int) = x % 16) :
    (if back then s.decx else s.incx) = { s with
      bltcpt := s.bltcpt + .ofInt 32 (2 * ((x + along back 1) / 16 - x / 16))
      blitOvf := along back 1 } := by
  cases back
  · have hptr : (if s.ashift = 15 then s.bltcpt + 2 else s.bltcpt) =
        s.bltcpt + .ofInt 32 (2 * ((x + 1) / 16 - x / 16)) := by
      split
      · have hword : (x + 1) / 16 - x / 16 = 1 := by omega
        rw [hword]
        rfl
      · have hword : (x + 1) / 16 - x / 16 = 0 := by omega
        rw [hword]
        exact (BitVec.add_zero _).symm
    rw [if_neg Bool.false_ne_true, incx, hptr]
    rfl
  · have hptr : (if s.ashift = 0 then s.bltcpt - 2 else s.bltcpt) =
        s.bltcpt + .ofInt 32 (2 * ((x + -1) / 16 - x / 16)) := by
      split
      · have hword : (x + -1) / 16 - x / 16 = -1 := by omega
        have hback : BitVec.ofInt 32 (2 * -1) = -2#32 := by decide
        rw [hword, hback]
        exact BitVec.sub_eq_add_neg _ _
      · have hword : (x + -1) / 16 - x / 16 = 0 := by omega
        rw [hword]
        exact (BitVec.add_zero _).symm
    rw [if_pos rfl, decx, hptr]
    rfl

theorem stepRow_eq (hchc : c.bltchc = true) (back : Bool) :
    (if back then s.decy c else s.incy c) = { s with
      bltcpt := s.bltcpt + .ofInt 32 (along back 1 * c.bltcmod), blitonedot := false } := by
  cases back
  · have hone : along false 1 * c.bltcmod = c.bltcmod := Int.one_mul _
    rw [if_neg Bool.false_ne_true, incy, if_pos hchc, hone]
  · have hone : along true 1 * c.bltcmod = -c.bltcmod := Int.neg_one_mul _
    rw [if_pos rfl, decy, if_pos hchc, hone, BitVec.ofInt_neg, ← BitVec.sub_eq_add_neg]

theorem procCptX_eq (hovf : s.blitOvf = 0) {x : Int} (hx : (s.ashift : Int) = x % 16) :
    s.procCptX c = { s with
      bltcpt := s.bltcpt + .ofInt 32 (2 * ((x + (moves c s.sign).1) / 16 - x / 16))
      blitOvf := (moves c s.sign).1 } := by
  rw [procCptX, moves]
  cases hsud : c.sud
  · cases hsign : s.sign
    · simpa [hsign] using stepColumn_eq c.sul hx
    · have hstay : BitVec.ofInt 32 (2 * (x / 16 - x / 16)) = 0#32 := by
        rw [Int.sub_self]
        rfl
      cases s
      simp_all
  · simpa using stepColumn_eq c.aul hx

theorem procCptY_eq (hchc : c.bltchc = true) :
    s.procCptY c = { s with
      bltcpt := s.bltcpt + .ofInt 32 ((moves c s.sign).2 * c.bltcmod)
      blitonedot := s.blitonedot && (moves c s.sign).2 == 0 } := by
  have hone : ∀ back, (along back 1 == 0) = false := fun back => by cases back <;> rfl
  rw [procCptY, moves]
  cases hsud : c.sud
  · simpa [hone] using @stepRow_eq M c s hchc c.aul
  · cases hsign : s.sign
    · simpa [hone, hsign] using @stepRow_eq M c s hchc c.sul
    · cases s
      simp_all

variable (wget)

/-- The word that a round makes of the one under its pixel. -/
def roundWord (c : LineCon) (s : Line M) : UInt16 :=
  combineWord c (pixelWord c c.bltafwm s.ashift) (if s.blineb &&& 1 ≠ 0 then 0xffff else 0)
    (wget s.mem s.bltcpt)

variable {wget} {dx dy : Nat} (hset : LineSetup c dx dy)

include hset

theorem pixelRound_eq (hovf : s.blitOvf = 0) {x : Int} (hx : (s.ashift : Int) = x % 16) :
    s.pixelRound wget c = { s with
      blitlinepixel := !c.sing || (c.sing && !s.blitonedot)
      blitonedot := true
      bltapt := s.bltapt + .ofInt 32 (if s.sign then c.bltbmod else c.bltamod)
      bltcdat := wget s.mem s.bltcpt
      bltddat := roundWord wget c s
      bltbhold := if s.blineb &&& 1 ≠ 0 then 0xffff else 0
      blitzero := s.blitzero && roundWord wget c s == 0
      bltcpt := s.bltcpt + .ofInt 32 (2 * ((x + (moves c s.sign).1) / 16 - x / 16))
      blitOvf := (moves c s.sign).1 } := by
  have hone : 2 > 1 := by decide
  rw [pixelRound, hset.hblitsize, if_pos hone]
  simp only [procStatus, procApt, readB, readC, hset.bltcha, hset.bltchb, hset.bltchc, minterm,
    fetchTexture, Bool.false_eq_true, if_true, if_false]
  rw [procCptX_eq]
  · rfl
  · exact hovf
  · exact hx

theorem putPixel_eq : s.putPixel wput c = { s with
    mem := if s.blitlinepixel then wput s.mem s.bltdpt s.bltddat else s.mem
    blitlinepixel := false } := by
  rw [putPixel, write, if_pos hset.bltchc]
  cases hpixel : s.blitlinepixel
  · cases s
    simp_all
  · rfl

end Line

/-! ### A run -/

/-- The state before round `k` of a line that began with the memory `m`. -/
structure Drawing {M : Type} (wget : M → BitVec 32 → UInt16) (wput : M → BitVec 32 → UInt16 → M)
    (c : LineCon) (dx dy : Nat) (base : BitVec 32) (x₀ : Int) (start : Line M) (k : Nat)
    (s : Line M) : Prop where
  mem : s.mem = (List.range k).foldl
    (plot wget wput c dx dy base x₀ start.bltbdat start.bshift) start.mem
  ashift : (s.ashift : Int) = (linePixel c dx dy x₀ k).1 % 16
  bshift : s.bshift = (start.bshift + 15 * k) % 16
  sign : s.sign = decide (lineSum dx dy k < 0)
  bltapt : s.bltapt.setWidth 16 = .ofInt 16 (lineSum dx dy k)
  bltcpt : s.bltcpt = pixelPtr c base (linePixel c dx dy x₀ k)
  bltdpt : s.bltdpt = s.bltcpt
  bltbdat : s.bltbdat = start.bltbdat
  blineb : s.blineb = turned start.bltbdat s.bshift
  blitOvf : s.blitOvf = 0
  drawn : (!c.sing || !s.blitonedot) = drawn c dx dy x₀ k
  lineloop : s.blitlineloop = true

/-- The last bit of the texture's word is the one it has been turned to. -/
theorem turned_and_one (bltbdat : UInt16) {bshift : Nat} (h : bshift < 16) :
    turned bltbdat bshift &&& 1 ≠ 0 ↔ bltbdat.toBitVec.getLsbD bshift = true := by
  have hbit : (turned bltbdat bshift).toBitVec.getLsbD 0 = bltbdat.toBitVec.getLsbD bshift := by
    have hpos : 0 < 16 - bshift := by omega
    simp [-BitVec.getLsbD_eq_getElem, turned, hpos]
  rw [← hbit, ← Lib.and_one_ne_zero _ (by decide), decide_eq_true_iff]
  exact not_congr UInt16.toBitVec_inj.symm

theorem setWidth_ofInt (x : Int) : (BitVec.ofInt 32 x).setWidth 16 = BitVec.ofInt 16 x := by
  apply BitVec.eq_of_toNat_eq
  simp only [BitVec.toNat_setWidth, BitVec.toNat_ofInt]
  omega

section

variable {M : Type} {wget : M → BitVec 32 → UInt16} {wput : M → BitVec 32 → UInt16 → M}
  {c : LineCon} {dx dy : Nat} {base : BitVec 32} {x₀ : Int} {start s : Line M}

theorem LineStart.drawing (hset : LineSetup c dx dy) (h : LineStart c dx dy base x₀ start) :
    Drawing wget wput c dx dy base x₀ start 0 start.startInit := by
  have hfirst : linePixel c dx dy x₀ 0 = (x₀, 0) := by
    have hzero : ∀ back, along back 0 = 0 := fun back => by cases back <;> rfl
    simp [linePixel, minor_zero hset.pos, hzero]
  have hshift : (start.bshift + 15 * 0) % 16 = start.bshift := Nat.mod_eq_of_lt h.bshift
  exact {
    mem := rfl
    ashift := by rw [hfirst]; exact h.ashift
    bshift := hshift.symm
    sign := by rw [lineSum_zero hset.pos]; exact h.sign
    bltapt := by rw [lineSum_zero hset.pos]; exact h.bltapt
    bltcpt := by rw [hfirst]; exact h.bltcpt
    bltdpt := h.bltdpt
    bltbdat := rfl
    blineb := rfl
    blitOvf := h.blitOvf
    drawn := by simp [Line.startInit, Blitter.drawn]
    lineloop := rfl }

theorem Drawing.round (hset : LineSetup c dx dy) {k : Nat}
    (h : Drawing wget wput c dx dy base x₀ start k s) :
    Drawing wget wput c dx dy base x₀ start (k + 1) (s.round wget wput c) := by
  have htwo : ¬ 2 > 2 := by decide
  rw [Line.round, Line.pixelRound_eq hset h.blitOvf h.ashift, Line.extraRound, hset.hblitsize,
    if_neg htwo, Line.endRound, hset.hblitsize]
  simp only [Line.adat, Line.ovf, Line.leaveRow, h.lineloop, if_true, ge_iff_le, Nat.le_refl]
  rw [Line.procCptY_eq hset.bltchc]
  rw [Line.putPixel_eq hset]
  simp only [Line.lineSign, Line.nxline, Line.minterm, Line.fetchTexture, hset.bltchb,
    Bool.false_eq_true, if_false]
  have hnext := linePixel_succ hset.pos hset.le x₀ k (c := c)
  rw [← h.sign] at hnext
  have hsum : (s.bltapt + .ofInt 32 (if s.sign then c.bltbmod else c.bltamod)).setWidth 16 =
      .ofInt 16 (lineSum dx dy (k + 1)) := by
    have hmod : (if s.sign then c.bltbmod else c.bltamod) =
        if lineSum dx dy k < 0 then (4 * dy : Int) else 4 * dy - 4 * dx := by
      simp [h.sign, hset.bltbmod, hset.bltamod]
    rw [BitVec.setWidth_add _ _ (by decide), h.bltapt, setWidth_ofInt, ← BitVec.ofInt_add, hmod,
      lineSum_succ hset.pos hset.le]
  have hpixel : (!c.sing || c.sing && !s.blitonedot) = Blitter.drawn c dx dy x₀ k := by
    rw [← h.drawn]
    cases c.sing <;> rfl
  exact {
    mem := by
      have hashift : s.ashift = ((linePixel c dx dy x₀ k).1 % 16).toNat := by
        rw [← h.ashift, Int.toNat_natCast]
      have htexture : s.blineb &&& 1 ≠ 0 ↔ texture start.bltbdat start.bshift k = true := by
        rw [h.blineb, h.bshift, turned_and_one _ (Nat.mod_lt _ (by decide)), texture]
      rw [List.range_succ, List.foldl_append, ← h.mem, List.foldl_cons, List.foldl_nil, plot]
      simp only [hpixel, h.bltdpt, h.bltcpt, Line.roundWord, hashift, htexture]
    ashift := by
      have hashift := h.ashift
      simp only [hnext]
      omega
    bshift := by
      have hbshift := h.bshift
      simp only
      omega
    sign := by
      obtain ⟨hlow, hhigh⟩ := lineSum_bounds hset.pos hset.le (k + 1)
      have hsmall := hset.small
      simp only [hsum]
      rw [BitVec.toInt_ofInt, Int.bmod_eq_of_le (by omega) (by omega)]
    bltapt := hsum
    bltcpt := by
      simp only [h.bltcpt, pixelPtr, hnext]
      rw [BitVec.add_assoc, BitVec.add_assoc, ← BitVec.ofInt_add, ← BitVec.ofInt_add]
      congr 2
      ring
    bltdpt := rfl
    bltbdat := h.bltbdat
    blineb := by simp only [h.bltbdat]
    blitOvf := rfl
    drawn := by
      simp [Blitter.drawn, hnext]
      rfl
    lineloop := rfl }

/-- The memory after `n` rounds has the first `n` pixels of the line in it. -/
theorem draw_eq_plot (hset : LineSetup c dx dy) (hstart : LineStart c dx dy base x₀ start)
    (n : Nat) : (start.startInit.draw wget wput c n).mem = (List.range n).foldl
      (plot wget wput c dx dy base x₀ start.bltbdat start.bshift) start.mem := by
  have hrun : Drawing wget wput c dx dy base x₀ start n (start.startInit.draw wget wput c n) := by
    induction n with
    | zero => exact hstart.drawing hset
    | succ n ih =>
      rw [Line.draw, Function.iterate_succ_apply']
      exact ih.round hset
  exact hrun.mem

end

/-- From the last pixel of a word, three pixels to the right and one row down. -/
theorem draw_eq_plot_short :
    ((Line.startInit (M := List (BitVec 32 × UInt16)) ⟨[], 15, 0, true, 0xfffe, 0, 0x1000, 0x1000,
      0xffff, 0, 0, 0, 0, 0, 0, true, 0, false, false, true⟩).draw (fun _ _ => 0)
      (fun m p v => m ++ [(p, v)]) ⟨true, false, true, 0xca, true, false, false, false, 0x8000,
        0xffff, 0xffff, -8, 4, 40, 2⟩ 4).mem =
      [(0x1000, 0x0001), (0x1002, 0x8000), (0x102a, 0x4000), (0x102a, 0x2000)] := by
  have hset : LineSetup ⟨true, false, true, 0xca, true, false, false, false, 0x8000, 0xffff,
      0xffff, -8, 4, 40, 2⟩ 3 1 := by
    constructor <;> decide
  refine (@draw_eq_plot _ _ _ _ 3 1 0x1000 15 _ hset ?_ 4).trans (by decide)
  constructor <;> decide

end LibretroUae.Blitter
