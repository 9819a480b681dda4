import Mathlib.Tactic.Common
import Mathlib.Tactic.Ring

/-!
# LibretroUae.Hardfile.Geometry

**The geometry guessed for a disk.** Cylinders, heads and sectors are searched for until the
cylinders are few enough, with up to 16 heads of 63 and then of 127 sectors, and at last with
heads doubled from 4 on, of 255 sectors. A head count above 16 is taken back by one at the end,
after the cylinders were counted with it.
-/

namespace LibretroUae.Hardfile

/-- A guessed geometry. -/
structure Chs where
  cyl : Nat
  head : Nat
  spt : Nat
  deriving DecidableEq, Repr

/-! ### The search -/

/-- Are the cylinders few enough. -/
def fewCylinders (size cyl head : Nat) : Bool :=
  if size ≤ 512 * 1024 * 1024 then cyl ≤ 1023
  else cyl < 16383 || (cyl < 32767 && 5 ≤ head) || cyl ≤ 65535

/-- The inner loop, over `head`. -/
def headLoop (size total spt maxhead head cyl : Nat) : Chs :=
  if head ≤ maxhead then
    let cyl := total / (head * spt)
    if fewCylinders size cyl head then ⟨cyl, head, spt⟩
    else
      -- the doubled head is decremented before the loop increments it
      let head := if maxhead > 16 then head * 2 - 1 else head
      headLoop size total spt maxhead (head + 1) cyl
  else ⟨cyl, head, spt⟩
termination_by maxhead + 1 - head
decreasing_by split <;> omega

/-- The outer loop, over `sptt`. -/
def sptLoop (size total : Nat) : List Nat → Chs → Chs
  | [], g => g
  | spt :: sptt, g =>
    let g := headLoop size total spt (if spt < 255 then 16 else 255) 4 g.cyl
    if g.head ≤ 16 then g else sptLoop size total sptt g

/-- `getchsgeometry2`. The sectors are counted in 32 bits. -/
def getchsgeometry2 (size : Nat) (mode : Int) : Chs :=
  let total := size / 512 % 2 ^ 32
  let g : Chs := if mode = 1 then ⟨total / (1 * 32), 1, 32⟩
    else sptLoop size total [63, 127, 255] ⟨0, 0, 0⟩
  { g with head := if g.head > 16 then g.head - 1 else g.head }

/-- What a geometry should be for a disk: not larger, and short of it by less than a cylinder. -/
structure Chs.Covers (g : Chs) (size : Nat) : Prop where
  head : 1 ≤ g.head
  spt : 1 ≤ g.spt
  cyl : 1 ≤ g.cyl
  inside : g.cyl * g.head * g.spt * 512 ≤ size
  lost : size - g.cyl * g.head * g.spt * 512 < g.head * g.spt * 512

variable {size total spt head cyl : Nat}

/-- Cylinders counted with the heads and sectors of the geometry cover the disk. -/
theorem covers_of_div (hhead : 1 ≤ head) (hspt : 1 ≤ spt) (htotal : head * spt ≤ size / 512) :
    (Chs.mk (size / 512 / (head * spt)) head spt).Covers size := by
  have hpos : 0 < head * spt := Nat.mul_pos hhead hspt
  have hsplit := Nat.div_add_mod (size / 512) (head * spt)
  have hmod := Nat.mod_lt (size / 512) hpos
  have hassoc : size / 512 / (head * spt) * head * spt = head * spt * (size / 512 / (head * spt)) := by
    rw [Nat.mul_assoc, Nat.mul_comm]
  refine ⟨hhead, hspt, Nat.div_pos htotal hpos, ?_, ?_⟩ <;> simp only [hassoc] <;> omega

/-! ### Where the search ends -/

/-- Up to 16 heads are tried one by one. -/
theorem headLoop_sixteen (hhead : head ≤ 16) :
    (∃ h, head ≤ h ∧ h ≤ 16 ∧ fewCylinders size (total / (h * spt)) h = true ∧
        headLoop size total spt 16 head cyl = ⟨total / (h * spt), h, spt⟩) ∨
      (headLoop size total spt 16 head cyl).head = 17 ∧
        fewCylinders size (total / (16 * spt)) 16 = false := by
  obtain ⟨m, hm⟩ : ∃ m, head + m = 16 := ⟨16 - head, by omega⟩
  induction m generalizing head cyl with
  | zero =>
    obtain rfl : head = 16 := by omega
    rw [headLoop, if_pos (Nat.le_refl 16)]
    by_cases hfew : fewCylinders size (total / (16 * spt)) 16 = true
    · exact .inl ⟨16, Nat.le_refl 16, Nat.le_refl 16, hfew, if_pos hfew⟩
    · refine .inr ⟨?_, by simpa using hfew⟩
      simp only [hfew, Bool.false_eq_true, if_false]
      rw [headLoop]
      rfl
  | succ m ih =>
    rw [headLoop, if_pos hhead]
    by_cases hfew : fewCylinders size (total / (head * spt)) head = true
    · exact .inl ⟨head, Nat.le_refl head, hhead, hfew, if_pos hfew⟩
    · have hnext := @ih (head + 1) (total / (head * spt)) (by omega) (by omega)
      simp only [hfew, Bool.false_eq_true, if_false]
      rcases hnext with ⟨h, hle, hle', hfew', heq⟩ | hend
      · exact .inl ⟨h, by omega, hle', hfew', heq⟩
      · exact .inr hend

/-- Doubled heads, while none of them is enough. -/
theorem headLoop_double (hhead : head ≤ 255) (hpos : 1 ≤ head)
    (hfew : fewCylinders size (total / (head * spt)) head = false) :
    headLoop size total spt 255 head cyl
      = headLoop size total spt 255 (head * 2) (total / (head * spt)) := by
  have hdouble : head * 2 - 1 + 1 = head * 2 := by omega
  rw [headLoop, if_pos hhead]
  simp only [hfew, Bool.false_eq_true, if_false]
  rw [if_pos (by decide), hdouble]

theorem headLoop_stop (hhead : head ≤ 255)
    (hfew : fewCylinders size (total / (head * spt)) head = true) :
    headLoop size total spt 255 head cyl = ⟨total / (head * spt), head, spt⟩ := by
  rw [headLoop, if_pos hhead]
  exact if_pos hfew

/-- Only two bounds decide: the tests in between are weaker than the last one. -/
theorem fewCylinders_iff :
    fewCylinders size cyl head = true ↔ cyl ≤ if size ≤ 536870912 then 1023 else 65535 := by
  rw [fewCylinders]
  by_cases hsize : size ≤ 536870912
  · simp [hsize]
  · have hlarge : ¬ size ≤ 512 * 1024 * 1024 := hsize
    simp only [hlarge, if_false, Bool.or_eq_true, Bool.and_eq_true, decide_eq_true_eq]
    omega

theorem fewCylinders_false :
    fewCylinders size cyl head = false ↔ ¬ cyl ≤ if size ≤ 536870912 then 1023 else 65535 := by
  rw [← Bool.not_eq_true, @fewCylinders_iff size head cyl]

/-- The search of `getchsgeometry2`. -/
def search (size total : Nat) : Chs := sptLoop size total [63, 127, 255] ⟨0, 0, 0⟩

theorem search_eq : search size total =
    let g := headLoop size total 63 16 4 0
    if g.head ≤ 16 then g
    else
      let g := headLoop size total 127 16 4 g.cyl
      if g.head ≤ 16 then g else headLoop size total 255 255 4 g.cyl := by
  simp only [search, sptLoop, ite_self]
  rfl

/-- Four heads of 63 sectors are enough for the start. -/
theorem search_first (h : fewCylinders size (total / (4 * 63)) 4 = true) :
    search size total = ⟨total / (4 * 63), 4, 63⟩ := by
  have hstop : headLoop size total 63 16 4 0 = ⟨total / (4 * 63), 4, 63⟩ := by
    rw [headLoop, if_pos (by decide)]
    exact if_pos h
  rw [search_eq, hstop]
  rfl

/-- The search ends with up to 16 heads, or sixteen heads of 127 sectors were not enough. -/
theorem search_cases :
    (∃ h s, 4 ≤ h ∧ h ≤ 16 ∧ 63 ≤ s ∧ s ≤ 127 ∧ fewCylinders size (total / (h * s)) h = true ∧
        search size total = ⟨total / (h * s), h, s⟩) ∨
      fewCylinders size (total / (16 * 127)) 16 = false ∧
        ∃ cyl, search size total = headLoop size total 255 255 4 cyl := by
  rw [search_eq]
  rcases @headLoop_sixteen size total 63 4 0 (by decide) with ⟨h, h4, h16, hfew, heq⟩ | ⟨hend, -⟩
  · exact .inl ⟨h, 63, h4, h16, by decide, by decide, hfew, by simp only [heq, h16, if_true]⟩
  · have hnot : ¬ (headLoop size total 63 16 4 0).head ≤ 16 := by rw [hend]; decide
    simp only [hnot, if_false]
    generalize (headLoop size total 63 16 4 0).cyl = cyl
    rcases @headLoop_sixteen size total 127 4 cyl (by decide) with
      ⟨h, h4, h16, hfew, heq⟩ | ⟨hend', hfew⟩
    · exact .inl ⟨h, 127, h4, h16, by decide, by decide, hfew, by simp only [heq, h16, if_true]⟩
    · have hnot' : ¬ (headLoop size total 127 16 4 cyl).head ≤ 16 := by rw [hend']; decide
      exact .inr ⟨hfew, (headLoop size total 127 16 4 cyl).cyl, by simp only [hnot', if_false]⟩

/-- Where the doubled heads end, by what they are enough for. -/
theorem headLoop_doubled :
    ∃ h c, headLoop size total 255 255 4 cyl = ⟨c, h, 255⟩ ∧
      (16 < h → fewCylinders size (total / (16 * 255)) 16 = false) ∧
      ((h = 4 ∨ h = 8 ∨ h = 16 ∨ h = 32 ∨ h = 64 ∨ h = 128) ∧ c = total / (h * 255) ∧
          fewCylinders size c h = true ∨
        h = 256 ∧ c = total / (128 * 255) ∧ fewCylinders size c 128 = false) := by
  have hdouble : ∀ h c, 1 ≤ h → h ≤ 255 → ¬ fewCylinders size (total / (h * 255)) h = true →
      headLoop size total 255 255 h c = headLoop size total 255 255 (h * 2) (total / (h * 255)) :=
    fun h c hpos hle hfew => headLoop_double hle hpos (by simpa using hfew)
  by_cases h4 : fewCylinders size (total / (4 * 255)) 4 = true
  · exact ⟨4, _, headLoop_stop (by decide) h4, by simp, .inl ⟨by decide, rfl, h4⟩⟩
  rw [hdouble 4 _ (by decide) (by decide) h4]
  by_cases h8 : fewCylinders size (total / (8 * 255)) 8 = true
  · exact ⟨8, _, headLoop_stop (by decide) h8, by simp, .inl ⟨by decide, rfl, h8⟩⟩
  rw [hdouble (4 * 2) _ (by decide) (by decide) h8]
  by_cases h16 : fewCylinders size (total / (16 * 255)) 16 = true
  · exact ⟨16, _, headLoop_stop (by decide) h16, by simp, .inl ⟨by decide, rfl, h16⟩⟩
  rw [hdouble (4 * 2 * 2) _ (by decide) (by decide) h16]
  have hfew : fewCylinders size (total / (16 * 255)) 16 = false := by simpa using h16
  by_cases h32 : fewCylinders size (total / (32 * 255)) 32 = true
  · exact ⟨32, _, headLoop_stop (by decide) h32, fun _ => hfew, .inl ⟨by decide, rfl, h32⟩⟩
  rw [hdouble (4 * 2 * 2 * 2) _ (by decide) (by decide) h32]
  by_cases h64 : fewCylinders size (total / (64 * 255)) 64 = true
  · exact ⟨64, _, headLoop_stop (by decide) h64, fun _ => hfew, .inl ⟨by decide, rfl, h64⟩⟩
  rw [hdouble (4 * 2 * 2 * 2 * 2) _ (by decide) (by decide) h64]
  by_cases h128 : fewCylinders size (total / (128 * 255)) 128 = true
  · exact ⟨128, _, headLoop_stop (by decide) h128, fun _ => hfew, .inl ⟨by decide, rfl, h128⟩⟩
  rw [hdouble (4 * 2 * 2 * 2 * 2 * 2) _ (by decide) (by decide) h128]
  refine ⟨256, total / (128 * 255), ?_, fun _ => hfew, .inr ⟨rfl, rfl, by simpa using h128⟩⟩
  rw [headLoop]
  rfl

/-! ### Which disks are covered -/

theorem getchsgeometry2_search (hsize : size ≤ 2 ^ 41 - 512) {mode : Int} (hmode : mode ≠ 1) :
    getchsgeometry2 size mode =
      let g := search size (size / 512)
      { g with head := if g.head > 16 then g.head - 1 else g.head } := by
  have htotal : size / 512 % 2 ^ 32 = size / 512 := Nat.mod_eq_of_lt (by omega)
  simp only [getchsgeometry2, htotal, if_neg hmode]
  rfl

/-- The geometry of the old style always covers. -/
theorem covers_old (hlow : 65536 ≤ size) (hsize : size ≤ 2 ^ 41 - 512) :
    (getchsgeometry2 size 1).Covers size := by
  have htotal : size / 512 % 2 ^ 32 = size / 512 := Nat.mod_eq_of_lt (by omega)
  have hgeometry : getchsgeometry2 size 1 = ⟨size / 512 / (1 * 32), 1, 32⟩ := by
    simp only [getchsgeometry2, htotal, if_true]
    rfl
  rw [hgeometry]
  exact covers_of_div (Nat.le_refl 1) (by decide) (by omega)

/-- Geometries with up to 16 heads are as they were counted. -/
theorem covers_search (hlow : 129024 ≤ size) (hhigh : size < 136902082560) {mode : Int}
    (hmode : mode ≠ 1) : (getchsgeometry2 size mode).Covers size := by
  rw [getchsgeometry2_search (by omega) hmode]
  have hkeep : ∀ {h s : Nat}, 1 ≤ h → h ≤ 16 → 1 ≤ s → h * s ≤ size / 512 →
      search size (size / 512) = ⟨size / 512 / (h * s), h, s⟩ →
      Chs.Covers (let g := search size (size / 512)
        { g with head := if g.head > 16 then g.head - 1 else g.head }) size := by
    intro h s hpos h16 hs htotal heq
    have hle : ¬ h > 16 := by omega
    simp only [heq, hle, if_false]
    exact covers_of_div hpos hs htotal
  by_cases hfirst : fewCylinders size (size / 512 / (4 * 63)) 4 = true
  · exact hkeep (by decide) (by decide) (by decide) (by omega) (search_first hfirst)
  -- from here on the disk is larger than any cylinder
  have hbig : 4080 ≤ size / 512 := by
    rw [fewCylinders_iff] at hfirst
    split at hfirst <;> omega
  rcases @search_cases size (size / 512) with ⟨h, s, h4, h16, h63, h127, -, heq⟩ | ⟨-, cyl, heq⟩
  · have hprod : h * s ≤ 16 * 127 := Nat.mul_le_mul h16 h127
    exact hkeep (by omega) h16 (by omega) (by omega) heq
  · obtain ⟨h, c, hend, hlarge, hcase⟩ := @headLoop_doubled size (size / 512) cyl
    have hsixteen : size / 512 / (16 * 255) ≤ if size ≤ 536870912 then 1023 else 65535 := by
      split <;> omega
    have h16 : h ≤ 16 := by
      by_contra hgt
      exact (fewCylinders_false.mp (hlarge (by omega))) hsixteen
    have hpos : 1 ≤ h := by omega
    have hcount : c = size / 512 / (h * 255) := by
      rcases hcase with ⟨-, hc, -⟩ | ⟨h256, -, -⟩
      · exact hc
      · omega
    exact hkeep hpos h16 (by decide : 1 ≤ 255) (by omega) (by rw [heq, hend, hcount])

/-- A disk of less than one cylinder of four heads has none. -/
theorem not_covers_small (hsize : size < 129024) {mode : Int} (hmode : mode ≠ 1) :
    ¬ (getchsgeometry2 size mode).Covers size := by
  have hzero : size / 512 / (4 * 63) = 0 := by omega
  have hfirst : fewCylinders size (size / 512 / (4 * 63)) 4 = true := by
    rw [hzero, fewCylinders_iff]
    split <;> omega
  rw [getchsgeometry2_search (by omega) hmode, search_first hfirst, hzero]
  exact fun hcovers => absurd hcovers.cyl (by decide)

/-- Heads above 16 are fewer at the end than the cylinders were counted with. -/
theorem not_covers_large (hlow : 136902082560 ≤ size) (hsize : size ≤ 2 ^ 41 - 512) {mode : Int}
    (hmode : mode ≠ 1) : ¬ (getchsgeometry2 size mode).Covers size := by
  have hmany : ∀ {cyl head}, 65536 ≤ cyl → fewCylinders size cyl head = false := by
    intro cyl head hcyl
    rw [fewCylinders_false]
    split <;> omega
  have hcount : ∀ {h s}, 1 ≤ h → h ≤ 16 → 1 ≤ s → s ≤ 255 →
      ¬ fewCylinders size (size / 512 / (h * s)) h = true := by
    intro h s hpos h16 hs hs'
    have hprod : h * s ≤ 16 * 255 := Nat.mul_le_mul h16 hs'
    have hcyl : 65536 ≤ size / 512 / (h * s) := by
      rw [Nat.le_div_iff_mul_le (Nat.mul_pos hpos hs)]
      calc 65536 * (h * s) ≤ 65536 * (16 * 255) := Nat.mul_le_mul_left _ hprod
        _ ≤ size / 512 := by omega
    rw [hmany hcyl]
    decide
  rw [getchsgeometry2_search hsize hmode]
  rcases @search_cases size (size / 512) with ⟨h, s, h4, h16, h63, h127, hfew, -⟩ | ⟨-, cyl, heq⟩
  · exact absurd hfew (hcount (by omega) h16 (by omega) (by omega))
  obtain ⟨h, c, hend, -, ⟨hh, hc, hfew⟩ | ⟨rfl, hc, hfew⟩⟩ := @headLoop_doubled size (size / 512) cyl
  · -- more sectors are lost than a cylinder has
    have hgt : 16 < h := by
      by_contra hle
      exact hcount (by omega) (by omega) (by decide) (by decide) (hc ▸ hfew)
    simp only [heq, hend, if_pos hgt]
    intro hcovers
    have hlost := hcovers.lost
    dsimp only at hlost
    rcases hh with rfl | rfl | rfl | rfl | rfl | rfl <;> omega
  · -- the cylinders were counted for half the heads
    simp only [heq, hend]
    intro hcovers
    have hinside := hcovers.inside
    rw [fewCylinders_false] at hfew
    have hcyl : 65536 ≤ c := by
      split at hfew <;> omega
    dsimp only at hinside
    rw [if_pos (by decide)] at hinside
    omega

/-- Which disks the guessed geometry covers. -/
theorem getchsgeometry2_covers_iff (size : Nat) (mode : Int) (hlow : 65536 ≤ size)
    (hsize : size ≤ 2 ^ 41 - 512) :
    (getchsgeometry2 size mode).Covers size ↔
      mode = 1 ∨ 129024 ≤ size ∧ size < 136902082560 := by
  constructor
  · intro hcovers
    by_cases hmode : mode = 1
    · exact .inl hmode
    refine .inr ⟨?_, ?_⟩
    · by_contra hsmall
      exact not_covers_small (by omega) hmode hcovers
    · by_contra hlarge
      exact not_covers_large (by omega) hsize hmode hcovers
  · rintro (rfl | ⟨hlow', hhigh⟩)
    · exact covers_old hlow hsize
    · by_cases hmode : mode = 1
      · exact hmode ▸ covers_old hlow hsize
      · exact covers_search hlow' hhigh hmode

theorem getchsgeometry2_covers_floppy : (getchsgeometry2 901120 0).Covers 901120 :=
  (getchsgeometry2_covers_iff 901120 0 (by decide) (by decide)).mpr (.inr (by decide))

/-- 64 KiB are less than a cylinder of four heads. -/
theorem getchsgeometry2_no_cylinder :
    ¬ ∀ (size : Nat) (mode : Int), 65536 ≤ size → size ≤ 2 ^ 41 - 512 →
      (getchsgeometry2 size mode).Covers size := by
  intro h
  exact not_covers_small (by decide) (by decide) (h 65536 0 (by decide) (by decide))

end LibretroUae.Hardfile
