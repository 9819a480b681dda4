import LibretroUae.Memory.Banks

/-!
# LibretroUae.Memory.Conflicts

**Conflicts of memory banks.** A Zorro board is mapped where no other bank is, and a bank of the
board itself where no custom memory range is. The first check looks at one page, over and over, and
the second one takes a custom range below the bank to be in its way however far below it is.
-/

namespace LibretroUae.Memory

/-- Why a board is not mapped, and whether this halts the CPU. -/
inductive Refusal
  | invalidMap (halt : Bool)
  | invalidStart
  | invalidRegion
  | invalidSize
  | override (page : Nat) (other : Bank)
  deriving DecidableEq

/-- The loop over the pages of a range. -/
def checkPages (m : MemState) (start size : Nat) (conflicts : Bank → Bool) : Option Refusal :=
  (List.range' start size).findSome? fun i =>
    -- the page that is looked at is the first one in every round
    let ab := getMemBank m (pageAddr start)
    if conflicts ab then some (.override i ab) else none

/-- `validate_banks_z3`, with the reason where it returns false. -/
def validateBanksZ3 (m : MemState) (bank : Bank) (start size : Nat) : Option Refusal :=
  if start < 0x1000 ∨ size = 0 then some (.invalidMap true)
  else if 0x4000 < size ∨ 0xf000 < start + size then some (.invalidMap false)
  else checkPages m start size fun ab => ab != dummyBank && ab != bank

/-- `validate_banks_z2`, with the reason where it returns false. -/
def validateBanksZ2 (m : MemState) (bank : Bank) (start size : Nat) : Option Refusal :=
  if start < 0x20 ∨ (0xa0 ≤ start ∧ start < 0xe9) ∨ 0xf0 ≤ start then some .invalidStart
  else if (if 0xe9 ≤ start then 0xf0 < start + size else 0xa0 < start + size) then
    some .invalidRegion
  else if size = 0 ∨ 0x80 < size then some .invalidSize
  else checkPages m start size fun ab => ab != dummyBank && bank != dummyBank

def mapBanksZ3 (p : Prefs) (m : MemState) (bank : Bank) (start size : Nat) : MemState :=
  if validateBanksZ3 m bank start size ≠ none then m else mapBanks p bank m start size 0

def mapBanksZ2 (p : Prefs) (m : MemState) (bank : Bank) (start size : Nat) : MemState :=
  if validateBanksZ2 m bank start size ≠ none then m else mapBanks p bank m start size 0

/-- A custom memory range of the settings. -/
structure CustomMemory where
  addr : BitVec 32
  size : BitVec 32

def CustomMemory.cstart (c : CustomMemory) : Nat := (c.addr >>> 16).toNat

def CustomMemory.csize (c : CustomMemory) : Nat := (c.size >>> 16).toNat

/-- The two tests of `map_banks_cond`. -/
def inTheWay (cstart start size : Nat) : Bool :=
  (start ≤ cstart && cstart ≤ start + size) ||
    (cstart ≤ start && (start ≤ cstart + size || cstart < start + size))

/-- `map_banks_cond`; nothing where it returns without mapping the bank. -/
def mapBanksCond (p : Prefs) (custom : List CustomMemory) (bank : Bank) (m : MemState)
    (start size : Nat) (realsize : Int) : Option MemState :=
  if custom.any fun c => c.cstart != 0 && c.csize != 0 && inTheWay c.cstart start size then none
  else some (mapBanks p bank m start size realsize)

/-! ### Zorro boards -/

section

variable {p : Prefs} {m m' : MemState} {bank : Bank} {start size : Nat}

/-- Only the first page counts. -/
theorem checkPages_eq_none {conflicts : Bank → Bool} (hsize : 0 < size)
    (hstart : start < memoryBanks) :
    checkPages m start size conflicts = none ↔ conflicts (m.memBanks start).bank = false := by
  rw [checkPages, getMemBank_pageAddr m hstart, List.findSome?_eq_none_iff]
  constructor
  · intro hall
    have hfirst := hall start (List.mem_range'_1.mpr ⟨Nat.le_refl start, by omega⟩)
    by_contra hconflict
    simp only [Bool.not_eq_false] at hconflict
    simp [hconflict] at hfirst
  · intro hfree i _
    simp [hfree]

/-- The pages of the range are all free. -/
def AllFree (m : MemState) (free : Bank → Prop) (start size : Nat) : Prop :=
  ∀ q, start ≤ q → q < start + size → free (m.memBanks q).bank

/-- A bank is accepted only where all pages of its range are free, and those that are not free stay
as they are. -/
def KeepsOthers (m m' : MemState) (free : Bank → Prop) (accepted : Prop) (start size : Nat) :
    Prop :=
  (accepted → AllFree m free start size) ∧
    ∀ q, start ≤ q → q < start + size → ¬ free (m.memBanks q).bank → m'.memBanks q = m.memBanks q

/-- A check of the first page is enough exactly when that is not free, or all the others are. -/
theorem keepsOthers_iff {free : Bank → Prop} {accepted : Prop}
    (haccepted : accepted ↔ free (m.memBanks start).bank) (hrefused : ¬ accepted → m' = m) :
    KeepsOthers m m' free accepted start size ↔
      ¬ free (m.memBanks start).bank ∨ AllFree m free start size := by
  constructor
  · rintro ⟨hall, -⟩
    by_cases hfirst : free (m.memBanks start).bank
    · exact Or.inr (hall (haccepted.mpr hfirst))
    · exact Or.inl hfirst
  · rintro (hfirst | hall)
    · have hno : ¬ accepted := fun h => hfirst (haccepted.mp h)
      exact ⟨fun h => absurd h hno, fun _ _ _ _ => by rw [hrefused hno]⟩
    · exact ⟨fun _ => hall, fun q hq hqe hnot => absurd (hall q hq hqe) hnot⟩

/-- Where a Zorro II board may be. -/
def InZ2 (start size : Nat) : Prop :=
  0 < size ∧ (0x20 ≤ start ∧ start + size ≤ 0xa0 ∨ 0xe9 ≤ start ∧ start + size ≤ 0xf0)

/-- Where a Zorro III board may be. -/
def InZ3 (start size : Nat) : Prop :=
  0 < size ∧ size ≤ 0x4000 ∧ 0x1000 ≤ start ∧ start + size ≤ 0xf000

theorem validateBanksZ2_eq_none (hbank : bank ≠ dummyBank) (h : InZ2 start size) :
    validateBanksZ2 m bank start size = none ↔ (m.memBanks start).bank = dummyBank := by
  obtain ⟨hsize, hwindow⟩ := h
  have hregion : ¬ (if 0xe9 ≤ start then 0xf0 < start + size else 0xa0 < start + size) := by
    split_ifs <;> omega
  rw [validateBanksZ2, if_neg (by omega), if_neg hregion, if_neg (by omega),
    checkPages_eq_none hsize (by rw [memoryBanks]; omega)]
  simp [hbank]

theorem validateBanksZ3_eq_none (h : InZ3 start size) :
    validateBanksZ3 m bank start size = none ↔
      (m.memBanks start).bank = dummyBank ∨ (m.memBanks start).bank = bank := by
  obtain ⟨hsize, hmax, hlow, hhigh⟩ := h
  rw [validateBanksZ3, if_neg (by omega), if_neg (by omega),
    checkPages_eq_none hsize (by rw [memoryBanks]; omega)]
  simp only [Bool.and_eq_false_iff, bne_eq_false_iff_eq]

/-- No other board loses a page of the range to a Zorro II board. -/
def Z2KeepsOthers (p : Prefs) (m : MemState) (bank : Bank) (start size : Nat) : Prop :=
  bank ≠ dummyBank → InZ2 start size →
    KeepsOthers m (mapBanksZ2 p m bank start size) (· = dummyBank)
      (validateBanksZ2 m bank start size = none) start size

/-- No other board loses a page of the range to a Zorro III board. -/
def Z3KeepsOthers (p : Prefs) (m : MemState) (bank : Bank) (start size : Nat) : Prop :=
  bank ≠ dummyBank → InZ3 start size →
    KeepsOthers m (mapBanksZ3 p m bank start size) (fun b => b = dummyBank ∨ b = bank)
      (validateBanksZ3 m bank start size = none) start size

theorem z2KeepsOthers_iff :
    Z2KeepsOthers p m bank start size ↔ (bank ≠ dummyBank → InZ2 start size →
      (m.memBanks start).bank ≠ dummyBank ∨ AllFree m (· = dummyBank) start size) := by
  refine imp_congr_right fun hbank => imp_congr_right fun hin => ?_
  exact keepsOthers_iff (validateBanksZ2_eq_none hbank hin) fun hno => if_pos hno

theorem z3KeepsOthers_iff :
    Z3KeepsOthers p m bank start size ↔ (bank ≠ dummyBank → InZ3 start size →
      ¬ ((m.memBanks start).bank = dummyBank ∨ (m.memBanks start).bank = bank) ∨
        AllFree m (fun b => b = dummyBank ∨ b = bank) start size) := by
  refine imp_congr_right fun _ => imp_congr_right fun hin => ?_
  exact keepsOthers_iff (validateBanksZ3_eq_none hin) fun hno => if_pos hno

end

/-! ### Custom memory ranges -/

section

variable {p : Prefs} {custom : List CustomMemory} {m : MemState} {bank : Bank} {start size : Nat}
  {realsize : Int}

/-- The custom range has no page in common with the range of the bank. -/
def CustomMemory.Apart (c : CustomMemory) (start size : Nat) : Prop :=
  ∀ q, ¬ ((start ≤ q ∧ q < start + size) ∧ c.cstart ≤ q ∧ q < c.cstart + c.csize)

theorem CustomMemory.apart_iff {c : CustomMemory} : c.Apart start size ↔
    size = 0 ∨ c.csize = 0 ∨ c.cstart + c.csize ≤ start ∨ start + size ≤ c.cstart := by
  constructor
  · intro h
    have hfirst := h start
    have hother := h c.cstart
    omega
  · intro h q
    omega

/-- A range that starts up to the end of the bank is in the way. -/
theorem inTheWay_iff {cstart : Nat} :
    inTheWay cstart start size = true ↔ cstart ≤ start + size := by
  simp only [inTheWay, Bool.or_eq_true, Bool.and_eq_true, decide_eq_true_iff]
  omega

/-- Some custom range is taken to be in the way. -/
def SomeBefore (custom : List CustomMemory) (start size : Nat) : Prop :=
  ∃ c ∈ custom, c.cstart ≠ 0 ∧ c.csize ≠ 0 ∧ c.cstart ≤ start + size

theorem mapBanksCond_eq_none : mapBanksCond p custom bank m start size realsize = none ↔
    SomeBefore custom start size := by
  have hany : (custom.any fun c => c.cstart != 0 && c.csize != 0 &&
      inTheWay c.cstart start size) = true ↔ SomeBefore custom start size := by
    simp only [List.any_eq_true, Bool.and_eq_true, bne_iff_ne, inTheWay_iff, SomeBefore, and_assoc]
  rw [mapBanksCond]
  split_ifs with h
  · exact iff_of_true rfl (hany.mp h)
  · exact iff_of_false nofun fun hs => h (hany.mpr hs)

/-- The bank is mapped exactly when it is apart from every custom range that is not empty. -/
def CondExact (p : Prefs) (custom : List CustomMemory) (m : MemState) (bank : Bank)
    (start size : Nat) (realsize : Int) : Prop :=
  mapBanksCond p custom bank m start size realsize ≠ none ↔
    ∀ c ∈ custom, c.csize ≠ 0 → c.Apart start size

theorem condExact_iff : CondExact p custom m bank start size realsize ↔
    (SomeBefore custom start size → ∃ c ∈ custom, c.csize ≠ 0 ∧ ¬ c.Apart start size) ∧
    (¬ SomeBefore custom start size →
      ∀ c ∈ custom, c.cstart = 0 → size = 0 ∨ c.csize ≤ start) := by
  rw [CondExact, Ne, mapBanksCond_eq_none]
  by_cases hbefore : SomeBefore custom start size
  · rw [iff_false_left (not_not.mpr hbefore)]
    push Not
    exact ⟨fun h => ⟨fun _ => h, fun hno => absurd hbefore hno⟩, fun h => h.1 hbefore⟩
  · rw [iff_true_left hbefore]
    constructor
    · refine fun hall => ⟨fun h => absurd h hbefore, fun _ c hc hzero => ?_⟩
      have := (@CustomMemory.apart_iff start size c).mp
      by_cases hempty : c.csize = 0
      · exact Or.inr (hempty ▸ Nat.zero_le start)
      · have := this (hall c hc hempty)
        omega
    · intro h c hc hsize
      rw [CustomMemory.apart_iff]
      by_cases hzero : c.cstart = 0
      · have := h.2 hbefore c hc hzero
        omega
      · have hbehind : ¬ c.cstart ≤ start + size := fun hle => hbefore ⟨c, hc, hzero, hsize, hle⟩
        omega

end

/-! ### All checks -/

/-- The checks of a Zorro board are exact where its first page is in conflict or no page is. The
check against custom ranges is exact where a range that starts up to the end of the bank comes with
one that overlaps, and one in page 0 ends before the bank. -/
theorem conflictChecks_iff (p : Prefs) (m : MemState) (bank : Bank) (start size : Nat)
    (custom : List CustomMemory) (realsize : Int) :
    (Z2KeepsOthers p m bank start size ↔ (bank ≠ dummyBank → InZ2 start size →
      (m.memBanks start).bank ≠ dummyBank ∨ AllFree m (· = dummyBank) start size)) ∧
    (Z3KeepsOthers p m bank start size ↔ (bank ≠ dummyBank → InZ3 start size →
      ¬ ((m.memBanks start).bank = dummyBank ∨ (m.memBanks start).bank = bank) ∨
        AllFree m (fun b => b = dummyBank ∨ b = bank) start size)) ∧
    (CondExact p custom m bank start size realsize ↔
      (SomeBefore custom start size → ∃ c ∈ custom, c.csize ≠ 0 ∧ ¬ c.Apart start size) ∧
      (¬ SomeBefore custom start size →
        ∀ c ∈ custom, c.cstart = 0 → size = 0 ∨ c.csize ≤ start)) :=
  ⟨z2KeepsOthers_iff, z3KeepsOthers_iff, condExact_iff⟩

/-- A board in one page. -/
def oneBoard (page : Nat) : MemState :=
  { unmapped with memBanks := fun q => if q = page then ⟨5, pageAddr q⟩ else ⟨dummyBank, 0⟩ }

/-- A second page that is taken is not seen, and a custom range at page 0x20 is in the way of page
0x30. -/
theorem conflictChecks_second_page :
    ¬ Z2KeepsOthers ⟨false, false, false, false⟩ (oneBoard 0x21) 7 0x20 2 ∧
    ¬ Z3KeepsOthers ⟨false, false, false, false⟩ (oneBoard 0x1001) 7 0x1000 2 ∧
    ¬ CondExact ⟨false, false, false, false⟩ [⟨0x200000, 0x10000⟩] unmapped 7 0x30 1 0 := by
  refine ⟨fun h => ?_, fun h => ?_, fun h => ?_⟩
  · have hall := (h (by decide) ⟨by decide, Or.inl (by decide)⟩).1 (by decide)
    exact absurd (hall 0x21 (by decide) (by decide)) (by decide)
  · have hall := (h (by decide) ⟨by decide, by decide, by decide, by decide⟩).1 (by decide)
    exact absurd (hall 0x1001 (by decide) (by decide)) (by decide)
  · refine h.mpr (fun c hc _ => ?_) (mapBanksCond_eq_none.mpr ?_)
    · obtain rfl := List.mem_singleton.mp hc
      exact CustomMemory.apart_iff.mpr (by decide)
    · exact ⟨_, List.mem_singleton.mpr rfl, by decide, by decide, by decide⟩

end LibretroUae.Memory
