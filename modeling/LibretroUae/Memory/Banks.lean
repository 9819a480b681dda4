import LibretroUae.Lib.Loop
import Mathlib.Data.Nat.ModEq

/-!
# LibretroUae.Memory.Banks

**Mapping memory banks.** The address space is a table of 64 KiB pages, each with the bank behind
it. A bank that is smaller than its range is mapped again and again, and the low 256 pages are
mapped in every 16 MiB where only 24 address lines count.
-/

namespace LibretroUae.Memory

open Lib

/-- A bank, by where it is. -/
abbrev Bank := Nat

def dummyBank : Bank := 0

def memoryBanks : Nat := 65536

def memoryBanks24 : Nat := 0x100

def abflagRam : BitVec 32 := 1
def abflagRtg : BitVec 32 := 256
def abflagChipram : BitVec 32 := 4096
def abflagMapped : BitVec 32 := 32768

/-- What a page is mapped to: the bank, and the address of the bank's start, by which the JIT
compiler finds the base address. -/
structure Mapping where
  bank : Bank
  realstart : BitVec 32
  deriving DecidableEq

structure MemState where
  memBanks : Nat → Mapping
  flags : Bank → BitVec 32
  ceCachable : Nat → BitVec 8
  highramTempBank : Nat → Option Bank
  highestRam : BitVec 32

/-- The settings that mapping depends on. -/
structure Prefs where
  addressSpace24 : Bool
  lastAddressSpace24 : Bool
  draco : Bool
  mmuModel : Bool

def bankindex (addr : BitVec 32) : Nat := (addr >>> 16).toNat

/-- The address of a page. -/
def pageAddr (page : Nat) : BitVec 32 := BitVec.ofNat 32 page <<< 16

def getMemBank (m : MemState) (addr : BitVec 32) : Bank := (m.memBanks (bankindex addr)).bank

def putMemBank (m : MemState) (addr : BitVec 32) (b : Bank) (realstart : BitVec 32) : MemState :=
  { m with memBanks := fun i => if i = bankindex addr then ⟨b, realstart⟩ else m.memBanks i }

def setMemoryCacheable (p : Prefs) (m : MemState) (bnr : Nat) (bank : Bank) : MemState :=
  let cc := (m.flags bank >>> 24).setWidth 8
  -- chip RAM is not data cacheable without an MMU
  let cc := if !p.mmuModel && m.flags bank &&& abflagChipram != 0 then cc &&& ~~~3 else cc
  { m with ceCachable := fun i => if i = bnr then cc else m.ceCachable i }

/-- What the loops of `map_banks2` change. -/
structure MapState where
  mem : MemState
  realstart : BitVec 32
  realLeft : Int

/-- Where the mirrors of a low range end. -/
def endhioffs (p : Prefs) : Nat := if p.lastAddressSpace24 then 0x10000 else 0x100

section

variable (p : Prefs) (bank : Bank)

/-- A round of an inner loop, at the page `bnr + hioffs`. -/
def mapPage (realsize : Int) (page : Nat) (s : MapState) : MapState :=
  let s : MapState := if s.realLeft = 0 then
      { s with realstart := BitVec.ofNat 32 page, realLeft := realsize >>> (16 : Nat) } else s
  let mem := putMemBank s.mem (pageAddr page) bank (s.realstart <<< 16)
  { s with mem := setMemoryCacheable p mem page bank, realLeft := s.realLeft - 1 }

/-- An inner loop. -/
def mapRun (start size : Nat) (realsize : Int) (hioffs : Nat) (s : MapState) : MapState :=
  loop (fun i => mapPage p bank realsize (start + i + hioffs)) size { s with realLeft := 0 }

def mapBanks2 (m : MemState) (start size : Nat) (realsize : Int) : MemState :=
  let m := { m with flags := fun b =>
    if b = bank then m.flags b ||| abflagMapped else m.flags b }
  let realsize := if realsize = 0 then (BitVec.ofNat 32 size <<< 16).toInt else realsize
  let s : MapState := ⟨m, BitVec.ofNat 32 start, 0⟩
  if memoryBanks24 ≤ start then (mapRun p bank start size realsize 0 s).mem
  else
    (loop (fun k => mapRun p bank start size realsize (0x100 * k)) (endhioffs p / 0x100) s).mem

/-- What `map_banks` keeps of the pages above 256. -/
def keepHighram (m : MemState) (start size : Nat) : MemState :=
  if memoryBanks24 ≤ start then
    { m with highramTempBank := loop (fun i f j =>
        if j = start + i - 0x100 then some bank else f j) size m.highramTempBank }
  else m

/-- `map_banks` but for the DraCo. -/
def mapBanksHere (m : MemState) (start size : Nat) (realsize : Int) : MemState :=
  let m := keepHighram bank m start size
  if memoryBanks24 ≤ start ∧ p.addressSpace24 then m
  else
    let m := mapBanks2 p bank m start size realsize
    let top := pageAddr (start + size)
    if m.flags bank &&& abflagRam ≠ 0 ∧ m.flags bank &&& abflagRtg = 0 ∧ m.highestRam < top then
      { m with highestRam := top } else m

/-- The DraCo has Zorro II space again at 0x300 pages above. -/
def mapBanksDraco (m : MemState) (start size : Nat) (realsize : Int) : MemState :=
  -- the call there is outside of this window itself
  if 0xe8 ≤ start ∧ start < 0xf0 then mapBanksHere p bank m (0x300 + start) size realsize else m

def mapBanks (m : MemState) (start size : Nat) (realsize : Int) : MemState :=
  if start = 0xffffffff then m
  else
    let m := if p.draco then mapBanksDraco p bank m start size realsize else m
    mapBanksHere p bank m start size realsize

end

/-! ### Pages -/

theorem bankindex_pageAddr {page : Nat} (h : page < memoryBanks) :
    bankindex (pageAddr page) = page := by
  rw [memoryBanks] at h
  rw [bankindex, pageAddr, BitVec.toNat_ushiftRight, BitVec.toNat_shiftLeft, BitVec.toNat_ofNat,
    Nat.shiftLeft_eq, Nat.shiftRight_eq_div_pow]
  omega

theorem getMemBank_pageAddr (m : MemState) {page : Nat} (h : page < memoryBanks) :
    getMemBank m (pageAddr page) = (m.memBanks page).bank := by
  rw [getMemBank, bankindex_pageAddr h]

theorem putMemBank_memBanks (m : MemState) (b : Bank) (realstart : BitVec 32) {page : Nat}
    (h : page < memoryBanks) (q : Nat) :
    (putMemBank m (pageAddr page) b realstart).memBanks q =
      if q = page then ⟨b, realstart⟩ else m.memBanks q := by
  rw [putMemBank, bankindex_pageAddr h]

@[simp] theorem setMemoryCacheable_memBanks (p : Prefs) (m : MemState) (bnr : Nat) (bank : Bank) :
    (setMemoryCacheable p m bnr bank).memBanks = m.memBanks := rfl

/-! ### A run of pages -/

section

variable {p : Prefs} {bank : Bank} {m : MemState} {start size r base : Nat} {realsize : Int}

/-- The page where the copy of the bank starts that page `q` is in. -/
def copyStart (base r q : Nat) : Nat := base + r * ((q - base) / r)

/-- The table `f` with the bank mapped from `base` on, `n` pages of it. -/
def mirrored (f : Nat → Mapping) (bank : Bank) (base r n q : Nat) : Mapping :=
  if base ≤ q ∧ q < base + n then ⟨bank, pageAddr (copyStart base r q)⟩ else f q

/-- After `n` pages: these are mapped, and what is left of the copy counts down to the next one. -/
structure Counted (f : Nat → Mapping) (bank : Bank) (base r n : Nat) (s : MapState) : Prop where
  maps : ∀ q, s.mem.memBanks q = mirrored f bank base r n q
  whole : n % r = 0 → s.realLeft = 0
  part : n % r ≠ 0 →
    s.realLeft = (r : Int) - (n % r : Nat) ∧ s.realstart = BitVec.ofNat 32 (base + r * (n / r))

theorem succ_mod {n : Nat} (hr : 0 < r) (hend : n % r + 1 ≠ r) :
    (n + 1) % r = n % r + 1 ∧ (n + 1) / r = n / r := by
  have hlt : n % r + 1 < r := Nat.lt_of_le_of_ne (Nat.mod_lt n hr) hend
  have hsplit : n + 1 = (n % r + 1) + r * (n / r) := by
    have := Nat.div_add_mod n r
    omega
  rw [hsplit]
  constructor
  · rw [Nat.add_mul_mod_self_left, Nat.mod_eq_of_lt hlt]
  · rw [Nat.add_mul_div_left _ _ hr, Nat.div_eq_of_lt hlt, Nat.zero_add]

/-- One more page. -/
theorem Counted.step {f : Nat → Mapping} {n : Nat} {s : MapState} (h : Counted f bank base r n s)
    (hr : 0 < r) (hreal : realsize >>> (16 : Nat) = (r : Int)) (hn : base + n < memoryBanks) :
    Counted f bank base r (n + 1) (mapPage p bank realsize (base + n) s) := by
  -- at the end of a copy the next one starts right here
  obtain ⟨rs, left, hcopy, hrs, hleft⟩ : ∃ (rs : BitVec 32) (left : Int),
      (if s.realLeft = 0 then ({ s with
        realstart := BitVec.ofNat 32 (base + n)
        realLeft := realsize >>> (16 : Nat) } : MapState) else s) = ⟨s.mem, rs, left⟩ ∧
      rs = BitVec.ofNat 32 (base + r * (n / r)) ∧ left = (r : Int) - (n % r : Nat) := by
    by_cases hz : n % r = 0
    · have hdiv : r * (n / r) = n := by
        have := Nat.div_add_mod n r
        omega
      rw [if_pos (h.whole hz)]
      exact ⟨_, _, rfl, by rw [hdiv], by rw [hreal, hz]; exact (Int.sub_zero _).symm⟩
    · obtain ⟨hleft, hrs⟩ := h.part hz
      have hlt := Nat.mod_lt n hr
      rw [if_neg (by omega)]
      exact ⟨s.realstart, s.realLeft, rfl, hrs, hleft⟩
  rw [mapPage, hcopy]
  subst hrs hleft
  refine ⟨fun q => ?_, fun hz => ?_, fun hnz => ?_⟩
  · show (setMemoryCacheable p (putMemBank s.mem _ bank _) _ bank).memBanks q = _
    rw [setMemoryCacheable_memBanks, putMemBank_memBanks _ _ _ hn, h.maps q, mirrored, mirrored]
    by_cases hq : q = base + n
    · rw [if_pos hq, if_pos (by omega), copyStart, hq, Nat.add_sub_cancel_left]
      rfl
    · have hiff : base ≤ q ∧ q < base + (n + 1) ↔ base ≤ q ∧ q < base + n := by omega
      rw [if_neg hq]
      simp only [hiff]
  · show (r : Int) - (n % r : Nat) - 1 = 0
    by_cases hend : n % r + 1 = r
    · omega
    · rw [(succ_mod hr hend).1] at hz
      exact absurd hz (Nat.succ_ne_zero _)
  · have hend : n % r + 1 ≠ r := by
      intro hend
      have hdiv : n + 1 = r * (n / r + 1) := by
        have := Nat.div_add_mod n r
        rw [Nat.mul_add, Nat.mul_one]
        omega
      exact hnz (hdiv ▸ Nat.mul_mod_right r _)
    obtain ⟨hmod, hdiv⟩ := succ_mod hr hend
    refine ⟨?_, ?_⟩
    · show (r : Int) - (n % r : Nat) - 1 = _
      omega
    · rw [hdiv]

/-- A whole run, from any state. -/
theorem mapRun_memBanks {hioffs : Nat} (s : MapState) (hr : 0 < r)
    (hreal : realsize >>> (16 : Nat) = (r : Int)) (hend : start + hioffs + size ≤ memoryBanks)
    (q : Nat) :
    (mapRun p bank start size realsize hioffs s).mem.memBanks q =
      mirrored s.mem.memBanks bank (start + hioffs) r size q := by
  have hstart : Counted s.mem.memBanks bank (start + hioffs) r 0 { s with realLeft := 0 } := by
    refine ⟨fun q => ?_, fun _ => rfl, fun hne => absurd (Nat.zero_mod r) hne⟩
    rw [mirrored, if_neg (by omega)]
  refine Counted.maps
    (loop_induct (P := Counted s.mem.memBanks bank (start + hioffs) r) hstart ?_) q
  intro i s' hi hs'
  show Counted _ bank (start + hioffs) r (i + 1) (mapPage p bank realsize (start + i + hioffs) s')
  rw [Nat.add_right_comm]
  exact hs'.step hr hreal (by omega)

/-- The run again in every 16 MiB. -/
theorem mapMirrors_memBanks {n : Nat} (s : MapState) (hr : 0 < r)
    (hreal : realsize >>> (16 : Nat) = (r : Int)) (hlow : start + size ≤ memoryBanks24)
    (hn : 0x100 * n ≤ memoryBanks) (q : Nat) :
    (loop (fun k => mapRun p bank start size realsize (0x100 * k)) n s).mem.memBanks q =
      if q / 0x100 < n then mirrored s.mem.memBanks bank (start + 0x100 * (q / 0x100)) r size q
      else s.mem.memBanks q := by
  rw [memoryBanks24] at hlow
  induction n with
  | zero => rw [if_neg (Nat.not_lt_zero _)]; rfl
  | succ n ih =>
    have hih := ih (by omega)
    rw [loop_succ, mapRun_memBanks _ hr hreal (by omega)]
    by_cases hq : q / 0x100 = n
    · -- this mirror, which none before it has touched
      rw [if_neg (by omega)] at hih
      rw [hq, if_pos (Nat.lt_succ_self n), mirrored, mirrored, hih]
    · rw [mirrored, if_neg (by omega), hih]
      have hiff : q / 0x100 < n + 1 ↔ q / 0x100 < n := by omega
      simp only [hiff]

/-! ### The whole map -/

/-- Where the pages below 256 are mapped again: in every 16 MiB with 24 address lines, and in the
first ones otherwise; the pages above are mapped once. -/
def Mirror (p : Prefs) (start h : Nat) : Prop :=
  if memoryBanks24 ≤ start then h = 0
  else 0x100 ∣ h ∧ h < endhioffs p

theorem mapBanks2_high (hstart : memoryBanks24 ≤ start) (hne : realsize ≠ 0) (hr : 0 < r)
    (hreal : realsize >>> (16 : Nat) = (r : Int)) (hend : start + size ≤ memoryBanks) (q : Nat) :
    (mapBanks2 p bank m start size realsize).memBanks q =
      mirrored m.memBanks bank start r size q := by
  simp only [mapBanks2, if_neg hne, if_pos hstart]
  exact mapRun_memBanks _ hr hreal hend q

theorem endhioffs_mirrors (p : Prefs) : ∃ n ≤ 0x100, endhioffs p = 0x100 * n := by
  rw [endhioffs]
  split_ifs
  · exact ⟨0x100, Nat.le_refl _, rfl⟩
  · exact ⟨1, by decide, rfl⟩

theorem mapBanks2_low (hstart : ¬ memoryBanks24 ≤ start) (hne : realsize ≠ 0) (hr : 0 < r)
    (hreal : realsize >>> (16 : Nat) = (r : Int)) (hend : start + size ≤ memoryBanks24) (q : Nat) :
    (mapBanks2 p bank m start size realsize).memBanks q =
      if q < endhioffs p then mirrored m.memBanks bank (start + 0x100 * (q / 0x100)) r size q
      else m.memBanks q := by
  obtain ⟨n, hn, hmirrors⟩ := endhioffs_mirrors p
  simp only [mapBanks2, if_neg hne, if_neg hstart, hmirrors]
  have hcount : 0x100 * n / 0x100 = n := Nat.mul_div_cancel_left n (by decide)
  have hiff : q / 0x100 < n ↔ q < 0x100 * n := by omega
  rw [hcount, mapMirrors_memBanks _ hr hreal hend (by rw [memoryBanks]; omega)]
  simp only [hiff]

@[simp] theorem keepHighram_memBanks (bank : Bank) (m : MemState) (start size : Nat) :
    (keepHighram bank m start size).memBanks = m.memBanks := by
  rw [keepHighram]
  split_ifs <;> rfl

/-- Unless 24 address lines hide the range, `map_banks` maps what `map_banks2` maps. -/
theorem mapBanks_memBanks (hdraco : p.draco = false) (hstart : start ≠ 0xffffffff)
    (h : ¬ (memoryBanks24 ≤ start ∧ p.addressSpace24 = true)) :
    (mapBanks p bank m start size realsize).memBanks =
      (mapBanks2 p bank (keepHighram bank m start size) start size realsize).memBanks := by
  simp only [mapBanks, if_neg hstart, hdraco, Bool.false_eq_true, if_false, mapBanksHere, if_neg h]
  split_ifs <;> rfl

/-- Every page of the range, and of each mirror of it, maps the bank, copy behind copy. Nothing else
is mapped anew. -/
theorem mapBanks_mirrors (m : MemState) (bank : Bank) (hdraco : p.draco = false)
    (hrange : (memoryBanks24 ≤ start ∧ start + size ≤ memoryBanks ∧ p.addressSpace24 = false) ∨
      start + size ≤ memoryBanks24)
    (hlow : 65536 ≤ realsize) (hhigh : realsize ≤ (size : Int) * 65536) (hmul : 65536 ∣ realsize) :
    (∀ h, Mirror p start h → ∀ q, start ≤ q → q < start + size →
      (mapBanks p bank m start size realsize).memBanks (q + h) =
        ⟨bank, pageAddr (start + (realsize / 65536).toNat * ((q - start) / (realsize / 65536).toNat)
          + h)⟩) ∧
    ∀ q, (∀ h, Mirror p start h → ¬ (start + h ≤ q ∧ q < start + h + size)) →
      (mapBanks p bank m start size realsize).memBanks q = m.memBanks q := by
  obtain ⟨r, rfl⟩ : ∃ r : Nat, realsize = 65536 * (r : Int) := by
    obtain ⟨k, rfl⟩ := hmul
    exact ⟨k.toNat, by rw [Int.toNat_of_nonneg (by omega)]⟩
  have hr : 0 < r := by omega
  have hsize : 0 < size := by omega
  have hreal : (65536 * (r : Int)) >>> (16 : Nat) = (r : Int) := by
    rw [Int.shiftRight_eq_div_pow]
    exact Int.mul_ediv_cancel_left _ (by decide)
  have hdiv : (65536 * (r : Int) / 65536).toNat = r := by
    rw [Int.mul_ediv_cancel_left _ (by decide)]
    rfl
  have hne : 65536 * (r : Int) ≠ 0 := by omega
  rw [hdiv]
  rcases hrange with ⟨hge, hend, h24⟩ | hend
  · have hstart : start ≠ 0xffffffff := by
      rw [memoryBanks] at hend
      omega
    have hopen : ¬ (memoryBanks24 ≤ start ∧ p.addressSpace24 = true) := by simp [h24]
    simp only [mapBanks_memBanks hdraco hstart hopen, Mirror, if_pos hge]
    constructor
    · rintro h rfl q hq hqe
      rw [mapBanks2_high hge hne hr hreal hend, mirrored, Nat.add_zero, if_pos ⟨hq, hqe⟩]
      rfl
    · intro q hout
      have hno : ¬ (start ≤ q ∧ q < start + size) := hout 0 rfl
      rw [mapBanks2_high hge hne hr hreal hend, mirrored, if_neg hno, keepHighram_memBanks]
  · have hlt : ¬ memoryBanks24 ≤ start := by omega
    have hstart : start ≠ 0xffffffff := by
      rw [memoryBanks24] at hend
      omega
    simp only [mapBanks_memBanks hdraco hstart (fun h => hlt h.1), Mirror, if_neg hlt]
    constructor
    · rintro h ⟨⟨k, rfl⟩, hbound⟩ q hq hqe
      have hq24 : q < 0x100 := Nat.lt_of_lt_of_le hqe hend
      have hplace : (q + 0x100 * k) / 0x100 = k := by omega
      have hin : q + 0x100 * k < endhioffs p := by
        obtain ⟨n, -, hmirrors⟩ := endhioffs_mirrors p
        rw [hmirrors] at hbound ⊢
        omega
      rw [mapBanks2_low hlt hne hr hreal hend, if_pos hin, hplace, mirrored, if_pos (by omega),
        copyStart, Nat.add_sub_add_right, Nat.add_right_comm]
    · intro q hout
      rw [mapBanks2_low hlt hne hr hreal hend]
      split_ifs with hin
      · rw [mirrored, if_neg, keepHighram_memBanks]
        refine hout (0x100 * (q / 0x100)) ⟨Nat.dvd_mul_right _ _, Nat.lt_of_le_of_lt ?_ hin⟩
        exact Nat.mul_div_le q 0x100
      · rw [keepHighram_memBanks]

end

/-- Nothing mapped. -/
def unmapped : MemState where
  memBanks := fun page => ⟨dummyBank, pageAddr page⟩
  flags := fun _ => 0
  ceCachable := fun _ => 0
  highramTempBank := fun _ => none
  highestRam := 0

/-- With 24 address lines, 64 KiB that are mapped to two pages start again in the second page of the
third mirror. -/
theorem mapBanks_two_pages :
    (mapBanks ⟨true, true, false, false⟩ 7 unmapped 0 2 65536).memBanks (1 + 0x200) =
      ⟨7, pageAddr (1 + 0x200)⟩ := by
  have hmirrors := (@mapBanks_mirrors ⟨true, true, false, false⟩ 0 2 65536 unmapped 7 rfl
    (Or.inr (by decide)) (by decide) (by decide) (by decide)).1
  exact hmirrors 0x200 ⟨⟨2, rfl⟩, by decide⟩ 1 (by decide) (by decide)

end LibretroUae.Memory
