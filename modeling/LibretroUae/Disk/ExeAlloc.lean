import LibretroUae.Disk.ExeImage

/-!
# LibretroUae.Disk.ExeAlloc

**The blocks that `getblock` hands out.** They come in order from behind the bitmap block to the
end of the disk and then from the boot blocks up to the root.
-/

namespace LibretroUae.Disk

open Lib Lib.Image

/-- The number of blocks behind the bitmap block, and of those before the root. -/
def halfBlocks (hd : Nat) : Nat := 880 * hd - 2

/-- The block of the `k`-th call. -/
def handed (hd k : Nat) : Nat :=
  if k < halfBlocks hd then 880 * hd + 2 + k else 2 + (k - halfBlocks hd)

/-- The blocks that are used before the `k`-th call. -/
def usedBefore (hd k i : Nat) : Prop :=
  i < 2 + (k - halfBlocks hd) ∨ 880 * hd ≤ i ∧ i < 880 * hd + 2 + min k (halfBlocks hd)

/-- The bitmap before the `k`-th call. -/
structure Handed (hd k : Nat) (a : Alloc) : Prop where
  last : a.bitmap (1760 * hd) = 0xff
  used : ∀ i < 1760 * hd, a.bitmap i = 0 ↔ ¬ usedBefore hd k i
  inside : ∀ i < 1760 * hd, a.bitmap i ≠ 0xff
  prevblock : a.prevblock = if k = 0 then 880 * hd else handed hd (k - 1)

variable {hd k : Nat} {a : Alloc}

theorem halfBlocks_eq (hd : Nat) : halfBlocks hd = 880 * hd - 2 := rfl

theorem handed_low (h : k < halfBlocks hd) : handed hd k = 880 * hd + 2 + k := if_pos h

theorem handed_high (h : halfBlocks hd ≤ k) : handed hd k = 2 + (k - halfBlocks hd) :=
  if_neg (Nat.not_lt.mpr h)

/-- Used blocks are skipped. -/
theorem scan_used {bitmap : Nat → Byte} {j : Nat} : ∀ {n i : Nat}, i ≤ j → j - i ≤ n →
    (∀ x, i ≤ x → x < j → bitmap x ≠ 0xff ∧ bitmap x ≠ 0) →
    scan bitmap n i = scan bitmap (n - (j - i)) j := by
  intro n
  induction n with
  | zero =>
    intro i hle hn _
    obtain rfl : i = j := by omega
    rw [Nat.zero_sub]
  | succ n ih =>
    intro i hle hn hused
    rcases Nat.eq_or_lt_of_le hle with rfl | hlt
    · rw [Nat.sub_self, Nat.sub_zero]
    · obtain ⟨h1, h0⟩ := hused i le_rfl hlt
      rw [scan, if_neg h1, if_neg h0, ih hlt (by omega) fun x hx hxj => hused x (by omega) hxj]
      congr 1
      omega

theorem scan_free {bitmap : Nat → Byte} {n i j : Nat} (hle : i ≤ j) (hn : j - i < n)
    (hused : ∀ x, i ≤ x → x < j → bitmap x ≠ 0xff ∧ bitmap x ≠ 0) (hfree : bitmap j = 0) :
    scan bitmap n i = some j := by
  obtain ⟨m, hm⟩ : ∃ m, n - (j - i) = m + 1 := ⟨n - (j - i) - 1, by omega⟩
  rw [scan_used hle (by omega) hused, hm, scan, hfree, if_neg (by decide), if_pos rfl]

theorem scan_end {bitmap : Nat → Byte} {n i j : Nat} (hle : i ≤ j) (hn : j - i < n)
    (hused : ∀ x, i ≤ x → x < j → bitmap x ≠ 0xff ∧ bitmap x ≠ 0) (hend : bitmap j = 0xff) :
    scan bitmap n i = none := by
  obtain ⟨m, hm⟩ : ∃ m, n - (j - i) = m + 1 := ⟨n - (j - i) - 1, by omega⟩
  rw [scan_used hle (by omega) hused, hm, scan, if_pos hend]

theorem handed_bounds (hhd : 1 ≤ hd) (hk : k < 2 * halfBlocks hd) :
    2 ≤ handed hd k ∧ handed hd k < 1760 * hd ∧ ¬ usedBefore hd k (handed hd k) := by
  have hm := halfBlocks_eq hd
  rw [usedBefore]
  rcases Nat.lt_or_ge k (halfBlocks hd) with hlow | hhigh
  · rw [handed_low hlow]
    omega
  · rw [handed_high hhigh]
    omega

theorem usedBefore_succ (hhd : 1 ≤ hd) (hk : k < 2 * halfBlocks hd) (i : Nat) :
    usedBefore hd (k + 1) i ↔ usedBefore hd k i ∨ i = handed hd k := by
  have hm := halfBlocks_eq hd
  rw [usedBefore, usedBefore]
  rcases Nat.lt_or_ge k (halfBlocks hd) with hlow | hhigh
  · rw [handed_low hlow]
    omega
  · rw [handed_high hhigh]
    omega

/-- The next block that is handed out. -/
theorem getblock_handed (hhd : 1 ≤ hd) (hhd' : hd ≤ 2) (h : Handed hd k a)
    (hk : k < 2 * halfBlocks hd) :
    (getblock a).1 = handed hd k ∧ Handed hd (k + 1) (getblock a).2 := by
  obtain ⟨h2, hlt, hfree⟩ := handed_bounds hhd hk
  have hzero := (h.used _ hlt).mpr hfree
  have hskip : ∀ x < 1760 * hd, usedBefore hd k x → a.bitmap x ≠ 0xff ∧ a.bitmap x ≠ 0 :=
    fun x hx hused => ⟨h.inside x hx, fun h0 => (h.used x hx).mp h0 hused⟩
  have hscan : (scan a.bitmap bitmapSize a.prevblock).or (scan a.bitmap bitmapSize 0) =
      some (handed hd k) := by
    have hprev := h.prevblock
    have hm := halfBlocks_eq hd
    have hsize : bitmapSize = 3528 := rfl
    rcases Nat.lt_trichotomy k (halfBlocks hd) with hlow | hmid | hhigh
    · have hle : a.prevblock ≤ handed hd k ∧ 880 * hd ≤ a.prevblock := by
        rw [hprev, handed_low hlow]
        split_ifs with h0
        · omega
        · rw [handed_low (by omega)]
          omega
      rw [scan_free hle.1 (by omega) _ hzero, Option.some_or]
      intro x hx hxj
      refine hskip x (by omega) (.inr ⟨by omega, ?_⟩)
      rw [handed_low hlow] at hxj
      omega
    · have hprev' : a.prevblock = 1760 * hd - 1 := by
        rw [hprev, if_neg (by omega), handed_low (by omega)]
        omega
      have htarget : handed hd k = 2 := by
        rw [handed_high hmid.ge]
        omega
      rw [scan_end (j := 1760 * hd) (by omega) (by omega) _ h.last, Option.none_or,
        scan_free (Nat.zero_le _) (by omega) _ hzero]
      · intro x _ hx
        exact hskip x (by omega) (.inl (by omega))
      · intro x hx hxj
        exact hskip x hxj (.inr ⟨by omega, by omega⟩)
    · have hle : a.prevblock + 1 = handed hd k := by
        rw [hprev, if_neg (by omega), handed_high (by omega), handed_high hhigh.le]
        omega
      rw [scan_free (by omega) (by omega) _ hzero, Option.some_or]
      intro x hx hxj
      refine hskip x (by omega) (.inl ?_)
      rw [handed_high hhigh.le] at hxj
      exact hxj
  rw [getblock, hscan]
  refine ⟨rfl, ⟨?_, fun i hi => ?_, fun i hi => ?_, ?_⟩⟩
  · exact (Function.update_of_ne (by omega) _ _).trans h.last
  · rw [usedBefore_succ hhd hk]
    by_cases heq : i = handed hd k
    · subst heq
      simp
    · simp only [Function.update_of_ne heq, h.used i hi, heq, or_false]
  · by_cases heq : i = handed hd k
    · subst heq
      simp
    · simp only [Function.update_of_ne heq]
      exact h.inside i hi
  · rw [if_neg (by omega), Nat.add_sub_cancel]

theorem handed_first : Handed hd 0 ⟨firstBitmap hd, 880 * hd⟩ := by
  refine ⟨by simp [firstBitmap], fun i hi => ?_, fun i hi => ?_, rfl⟩ <;>
    simp only [firstBitmap, if_neg (by omega : ¬ i = 1760 * hd), usedBefore, halfBlocks]
  · split_ifs <;> simp <;> omega
  · split_ifs <;> decide

end LibretroUae.Disk
