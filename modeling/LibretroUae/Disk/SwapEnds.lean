import LibretroUae.Disk.SwapName

/-!
# LibretroUae.Disk.SwapEnds

**When the search returns.** Names that differ in their numbers only have their numbers at the same
places, so that every pass reads back what the pass before wrote. Counting up there is one pass.
Counting down the search goes round through the nine names of the set, and `wrapped`, which is set
once, does not stop it: it returns when one of the nine is there, or when the digit it writes has
another digit behind it.
-/

namespace LibretroUae.SwapName

/-! ### Characters -/

/-- The letters that stand for a number up to ten. -/
def lows : List Char := ['a', 'b', 'c', 'd', 'e', 'f', 'g', 'h', 'i', 'j']

def ups : List Char := ['A', 'B', 'C', 'D', 'E', 'F', 'G', 'H', 'I', 'J']

theorem istdigit_iff {c : Char} : istdigit c = true ↔ c ∈ digits := by
  rw [istdigit, List.contains_iff_mem]

theorem digits_facts (c : Char) (h : c ∈ digits) :
    isLowercase c = false ∧ isCapital c = false ∧ lowerChar c = c ∧ 48 ≤ c.toNat := by
  have hall : (digits.all fun c => decide (isLowercase c = false ∧ isCapital c = false ∧
      lowerChar c = c ∧ 48 ≤ c.toNat)) = true := by
    decide
  exact of_decide_eq_true (List.all_eq_true.mp hall c h)

theorem lows_facts (c : Char) (h : c ∈ lows) :
    istdigit c = false ∧ isLowercase c = true ∧ isCapital c = false ∧ lowerChar c = c := by
  have hall : (lows.all fun c => decide (istdigit c = false ∧ isLowercase c = true ∧
      isCapital c = false ∧ lowerChar c = c)) = true := by
    decide
  exact of_decide_eq_true (List.all_eq_true.mp hall c h)

theorem ups_facts (c : Char) (h : c ∈ ups) :
    istdigit c = false ∧ isLowercase c = false ∧ isCapital c = true ∧ lowerChar c ∈ lows := by
  have hall : (ups.all fun c => decide (istdigit c = false ∧ isLowercase c = false ∧
      isCapital c = true ∧ lowerChar c ∈ lows)) = true := by
    decide
  exact of_decide_eq_true (List.all_eq_true.mp hall c h)

/-- The characters that stand for a number up to nine. -/
theorem number_facts : ∀ k < 10,
    (istdigit (Char.ofNat (48 + k)) = true ∧ (Char.ofNat (48 + k)).toNat - 48 = k) ∧
    Char.ofNat ((k - 1) + 97) ∈ lows ∧ Char.ofNat ((k - 1) + 65) ∈ ups ∧
    (1 ≤ k → lowerChar (Char.ofNat ((k - 1) + 65)) = Char.ofNat ((k - 1) + 97) ∧
      ((Char.ofNat ((k - 1) + 97)).toNat : Int) - 97 + 1 = k) := by
  decide

theorem mem_lows_of_le {c : Char} (h : isLowercase c = true) (hle : c.toNat ≤ 106) : c ∈ lows := by
  have hall : ∀ n < 107, 97 ≤ n → Char.ofNat n ∈ lows := by decide
  rw [isLowercase, Bool.and_eq_true, decide_eq_true_eq] at h
  have hc := hall c.toNat (by omega) h.1
  rwa [Char.ofNat_toNat] at hc

theorem lowerChar_mem_lows {c : Char} (h : lowerChar c ∈ lows) : c ∈ lows ∨ c ∈ ups := by
  unfold lowerChar at h
  split_ifs at h with hcap
  · right
    have hall : ∀ n < 91, 65 ≤ n → Char.ofNat (n + 32) ∈ lows → Char.ofNat n ∈ ups := by
      decide
    rw [isCapital, Bool.and_eq_true, decide_eq_true_eq, decide_eq_true_eq] at hcap
    have hc := hall c.toNat (by omega) hcap.1 h
    rwa [Char.ofNat_toNat] at hc
  · exact Or.inl h

theorem lowerChar_digit {c : Char} (h : istdigit c = true) : lowerChar c = c :=
  (digits_facts c (istdigit_iff.mp h)).2.2.1

theorem lowerChar_low {c : Char} (h : c ∈ lows) : lowerChar c = c := (lows_facts c h).2.2.2

theorem lowerChar_up {c : Char} (h : c ∈ ups) : lowerChar c ∈ lows := (ups_facts c h).2.2.2

theorem chr_toLower (s : Name) (i : Nat) : chr (toLower s) i = lowerChar (chr s i) := by
  rw [chr, toLower, List.getElem?_map, chr]
  cases s[i]? with
  | none => decide
  | some c => rfl

/-! ### Names that differ in their numbers only -/

/-- Two letters of one case that stand for a number. -/
def Letters (c c' : Char) : Prop := (c ∈ lows ∧ c' ∈ lows) ∨ (c ∈ ups ∧ c' ∈ ups)

/-- The names have the same characters but for digits, and for letters in front of a dot. -/
structure Alike (s s' : Name) : Prop where
  length : s.length = s'.length
  char : ∀ i, chr s i = chr s' i ∨ (istdigit (chr s i) = true ∧ istdigit (chr s' i) = true) ∨
    (chr s (i + 1) = '.' ∧ chr s' (i + 1) = '.' ∧ Letters (chr s i) (chr s' i))

namespace Alike

variable {s s' : Name}

theorem symm (h : Alike s s') : Alike s' s where
  length := h.length.symm
  char := fun i => by
    rcases h.char i with heq | ⟨hd, hd'⟩ | ⟨hdot, hdot', ⟨hl, hl'⟩ | ⟨hu, hu'⟩⟩
    · exact Or.inl heq.symm
    · exact Or.inr (Or.inl ⟨hd', hd⟩)
    · exact Or.inr (Or.inr ⟨hdot', hdot, Or.inl ⟨hl', hl⟩⟩)
    · exact Or.inr (Or.inr ⟨hdot', hdot, Or.inr ⟨hu', hu⟩⟩)

theorem lower (h : Alike s s') : Alike (toLower s) (toLower s') where
  length := by rw [toLower, toLower, List.length_map, List.length_map, h.length]
  char := fun i => by
    simp only [chr_toLower]
    have hdot : lowerChar '.' = '.' := by decide
    rcases h.char i with heq | ⟨hd, hd'⟩ | ⟨hd, hd', ⟨hl, hl'⟩ | ⟨hu, hu'⟩⟩
    · exact Or.inl (by rw [heq])
    · rw [lowerChar_digit hd, lowerChar_digit hd']
      exact Or.inr (Or.inl ⟨hd, hd'⟩)
    · rw [lowerChar_low hl, lowerChar_low hl', hd, hd', hdot]
      exact Or.inr (Or.inr ⟨rfl, rfl, Or.inl ⟨hl, hl'⟩⟩)
    · rw [hd, hd', hdot]
      exact Or.inr (Or.inr ⟨rfl, rfl, Or.inl ⟨lowerChar_up hu, lowerChar_up hu'⟩⟩)

/-- A character that is no number stays. -/
theorem keep (h : Alike s s') {i : Nat} {c : Char} (hc : chr s i = c) (hd : istdigit c = false)
    (hl : (c ∉ lows ∧ c ∉ ups) ∨ chr s (i + 1) ≠ '.') : chr s' i = c := by
  subst hc
  rcases h.char i with heq | ⟨hd', -⟩ | ⟨hdot, -, hletters⟩
  · exact heq.symm
  · rw [hd] at hd'
    cases hd'
  · rcases hl with ⟨hlow, hup⟩ | hl
    · rcases hletters with ⟨hmem, -⟩ | ⟨hmem, -⟩
      · exact absurd hmem hlow
      · exact absurd hmem hup
    · exact absurd hdot hl

theorem matchesAt_word (h : Alike s s') (i : Nat) (hm : matchesAt s diskWord i = true) :
    matchesAt s' diskWord i = true := by
  simp only [matchesAt, diskWord, List.zipIdx_cons, List.zipIdx_nil, List.all_cons, List.all_nil,
    Bool.and_true, Bool.and_eq_true, beq_iff_eq] at hm ⊢
  obtain ⟨h0, h1, h2, h3⟩ := hm
  refine ⟨h.keep h0 (by decide) (Or.inr ?_), h.keep h1 (by decide) (Or.inr ?_),
    h.keep h2 (by decide) (Or.inr ?_), h.keep h3 (by decide) (Or.inl (by decide))⟩
  · exact fun hdot => absurd (h1.symm.trans hdot) (by decide)
  · exact fun hdot => absurd (h2.symm.trans hdot) (by decide)
  · exact fun hdot => absurd (h3.symm.trans hdot) (by decide)

theorem matchesAt_paren (h : Alike s s') (i : Nat) (hm : matchesAt s diskParen i = true) :
    matchesAt s' diskParen i = true := by
  simp only [matchesAt, diskParen, List.zipIdx_cons, List.zipIdx_nil, List.all_cons, List.all_nil,
    Bool.and_true, Bool.and_eq_true, beq_iff_eq] at hm ⊢
  obtain ⟨h0, h1, h2, h3, h4, h5⟩ := hm
  refine ⟨h.keep h0 (by decide) (Or.inl (by decide)), h.keep h1 (by decide) (Or.inr ?_),
    h.keep h2 (by decide) (Or.inr ?_), h.keep h3 (by decide) (Or.inl (by decide)),
    h.keep h4 (by decide) (Or.inl (by decide)), h.keep h5 (by decide) (Or.inl (by decide))⟩
  · exact fun hdot => absurd (h2.symm.trans hdot) (by decide)
  · exact fun hdot => absurd (h3.symm.trans hdot) (by decide)

theorem tcsstr (h : Alike s s') {pat : Name} (hpat : pat = diskParen ∨ pat = diskWord) (ps : Nat) :
    tcsstr s' pat ps = tcsstr s pat ps := by
  have hmatch : ∀ i, matchesAt s' pat i = matchesAt s pat i := by
    intro i
    rw [Bool.eq_iff_iff]
    rcases hpat with rfl | rfl
    · exact ⟨h.symm.matchesAt_paren i, h.matchesAt_paren i⟩
    · exact ⟨h.symm.matchesAt_word i, h.matchesAt_word i⟩
  unfold SwapName.tcsstr
  simp only [h.length, hmatch]

theorem digit (h : Alike s s') (i : Nat) : istdigit (chr s' i) = istdigit (chr s i) := by
  rcases h.char i with heq | ⟨hd, hd'⟩ | ⟨-, -, ⟨hl, hl'⟩ | ⟨hu, hu'⟩⟩
  · rw [heq]
  · rw [hd, hd']
  · rw [(lows_facts _ hl).1, (lows_facts _ hl').1]
  · rw [(ups_facts _ hu).1, (ups_facts _ hu').1]

theorem lowercase (h : Alike s s') (i : Nat) : isLowercase (chr s' i) = isLowercase (chr s i) := by
  rcases h.char i with heq | ⟨hd, hd'⟩ | ⟨-, -, ⟨hl, hl'⟩ | ⟨hu, hu'⟩⟩
  · rw [heq]
  · rw [(digits_facts _ (istdigit_iff.mp hd)).1, (digits_facts _ (istdigit_iff.mp hd')).1]
  · rw [(lows_facts _ hl).2.1, (lows_facts _ hl').2.1]
  · rw [(ups_facts _ hu).2.1, (ups_facts _ hu').2.1]

theorem capital (h : Alike s s') (i : Nat) : isCapital (chr s' i) = isCapital (chr s i) := by
  rcases h.char i with heq | ⟨hd, hd'⟩ | ⟨-, -, ⟨hl, hl'⟩ | ⟨hu, hu'⟩⟩
  · rw [heq]
  · rw [(digits_facts _ (istdigit_iff.mp hd)).2.1, (digits_facts _ (istdigit_iff.mp hd')).2.1]
  · rw [(lows_facts _ hl).2.2.1, (lows_facts _ hl').2.2.1]
  · rw [(ups_facts _ hu).2.2.1, (ups_facts _ hu').2.2.1]

/-- A character that is neither a digit nor such a letter stands at the same places. -/
theorem other (h : Alike s s') {c : Char} (hd : istdigit c = false) (hl : c ∉ lows) (hu : c ∉ ups)
    (i : Nat) : (chr s' i == c) = (chr s i == c) := by
  rw [Bool.eq_iff_iff, beq_iff_eq, beq_iff_eq]
  exact ⟨fun hc => h.symm.keep hc hd (Or.inl ⟨hl, hu⟩), fun hc => h.keep hc hd (Or.inl ⟨hl, hu⟩)⟩

theorem separator (h : Alike s s') (i : Nat) : isSeparator (chr s' i) = isSeparator (chr s i) := by
  unfold isSeparator
  rw [h.other (c := '_') (by decide) (by decide) (by decide),
    h.other (c := '-') (by decide) (by decide) (by decide),
    h.other (c := ' ') (by decide) (by decide) (by decide)]

theorem numberAt (h : Alike s s') {pat : Name} (hpat : pat = diskParen ∨ pat = diskWord)
    (ps : Nat) : numberAt s' pat ps = numberAt s pat ps := by
  unfold SwapName.numberAt
  rw [h.tcsstr hpat]
  cases SwapName.tcsstr s pat ps with
  | none => rfl
  | some p => simp only [h.digit]

theorem dot (h : Alike s s') : tcsrchr s' '.' = tcsrchr s '.' := by
  unfold tcsrchr
  simp only [h.length, h.other (c := '.') (by decide) (by decide) (by decide)]

/-- The place before the extension is the same. -/
theorem extSlot (h : Alike s s') :
    (extSlot s' (toLower s')).map Prod.fst = (extSlot s (toLower s)).map Prod.fst := by
  unfold SwapName.extSlot
  rw [h.lower.dot]
  cases tcsrchr (toLower s) '.' with
  | none => rfl
  | some ext =>
    simp only [h.lower.other (c := '_') (by decide) (by decide) (by decide), h.lower.digit,
      h.lower.separator, h.lower.lowercase, h.lowercase, h.capital, h.digit]
    split_ifs <;> rfl

/-- The places of the numbers are the same. -/
theorem scan (h : Alike s s') (room : Nat) : ∀ (gotone : Bool) (ps : Nat),
    (scan s' (toLower s') room gotone ps).1.map Prod.fst =
      (scan s (toLower s) room gotone ps).1.map Prod.fst ∧
    (scan s' (toLower s') room gotone ps).2 = (scan s (toLower s) room gotone ps).2 := by
  induction room with
  | zero => exact fun _ _ => ⟨rfl, rfl⟩
  | succ room ih =>
    intro gotone ps
    unfold SwapName.scan
    rw [h.lower.numberAt (Or.inl rfl), h.lower.numberAt (Or.inr rfl)]
    cases SwapName.numberAt (toLower s) diskParen ps with
    | some q =>
      obtain ⟨hslots, hgot⟩ := ih (if room = 0 then gotone else true) q
      exact ⟨by simp only [List.map_cons, hslots], hgot⟩
    | none =>
      cases gotone with
      | true => exact ⟨rfl, rfl⟩
      | false =>
        dsimp only
        cases SwapName.numberAt (toLower s) diskWord ps with
        | some q =>
          obtain ⟨hslots, hgot⟩ := ih (if room = 0 then false else true) q
          exact ⟨by simp only [Bool.false_eq_true, if_false, List.map_cons, hslots], hgot⟩
        | none =>
          refine ⟨?_, rfl⟩
          simp only [Bool.false_eq_true, if_false]
          rw [← Option.toList_map, ← Option.toList_map, h.extSlot]

end Alike

/-! ### The numbers that are found -/

/-- The number at a place: digits, or the letter. -/
def slotNum (imgl : Name) (i : Nat) : Int :=
  if istdigit (chr imgl i) then tstoi imgl i else (chr imgl i).toNat - 97 + 1

theorem drop_eq_chr {s : Name} {i : Nat} (h : istdigit (chr s i) = true) :
    s.drop i = chr s i :: s.drop (i + 1) := by
  have hlt : i < s.length := by
    by_contra hge
    rw [chr, List.getElem?_eq_none (Nat.le_of_not_lt hge)] at h
    exact absurd h (by decide)
  rw [List.drop_eq_getElem_cons hlt, chr, List.getElem?_eq_getElem hlt, Option.getD_some]

theorem takeWhile_drop_nil {s : Name} {i : Nat} (h : istdigit (chr s i) = false) :
    (s.drop i).takeWhile istdigit = [] := by
  rcases Nat.lt_or_ge i s.length with hlt | hge
  · rw [chr, List.getElem?_eq_getElem hlt, Option.getD_some] at h
    rw [List.drop_eq_getElem_cons hlt, List.takeWhile_cons, h]
    rfl
  · rw [List.drop_eq_nil_of_le hge]
    rfl

/-- One digit is its own number. -/
theorem tstoi_single {s : Name} {i : Nat} (h : istdigit (chr s i) = true)
    (hnext : istdigit (chr s (i + 1)) = false) : tstoi s i = (chr s i).toNat - 48 := by
  rw [tstoi, drop_eq_chr h, List.takeWhile_cons, h, if_pos rfl, takeWhile_drop_nil hnext]
  simp

theorem foldl_digits_ge (l : List Char) (n : Nat) :
    n ≤ l.foldl (fun n c => 10 * n + (c.toNat - 48)) n := by
  induction l generalizing n with
  | nil => exact Nat.le_refl n
  | cons c l ih => exact Nat.le_trans (by dsimp only; omega) (ih _)

/-- A nine in front of a digit makes the number at least ninety. -/
theorem tstoi_nine {s : Name} {i : Nat} (h : chr s i = '9')
    (hnext : istdigit (chr s (i + 1)) = true) : 90 ≤ tstoi s i := by
  have hdigit : istdigit (chr s i) = true := by
    rw [h]
    decide
  rw [tstoi, drop_eq_chr hdigit, List.takeWhile_cons, hdigit, if_pos rfl, drop_eq_chr hnext,
    List.takeWhile_cons, hnext, if_pos rfl, List.foldl_cons, List.foldl_cons, h]
  refine Nat.le_trans ?_ (foldl_digits_ge _ _)
  have hnine : ('9' : Char).toNat = 57 := by decide
  omega

theorem isLowercase_not_digit {c : Char} (h : isLowercase c = true) : istdigit c = false := by
  refine Bool.eq_false_iff.mpr (fun hd => ?_)
  rw [(digits_facts c (istdigit_iff.mp hd)).1] at h
  cases h

theorem isCapital_lower {c : Char} (h : isCapital c = true) : isLowercase (lowerChar c) = true := by
  have hall : ∀ n < 91, 65 ≤ n → isLowercase (Char.ofNat (n + 32)) = true := by decide
  rw [lowerChar, if_pos h]
  rw [isCapital, Bool.and_eq_true, decide_eq_true_eq, decide_eq_true_eq] at h
  exact hall c.toNat (by omega) h.1

theorem tcsrchr_chr {s : Name} {c : Char} {i : Nat} (h : tcsrchr s c = some i) : chr s i = c := by
  have hfound := List.find?_some h
  exact beq_iff_eq.mp hfound

theorem numberAt_digit {imgl pat : Name} {ps q : Nat} (h : numberAt imgl pat ps = some q) :
    istdigit (chr imgl q) = true := by
  unfold numberAt at h
  split at h
  · split_ifs at h with hd
    obtain rfl := Option.some.inj h
    exact hd
  · cases h

/-- A letter in front of the extension. -/
def LetterSlot (imgl : Name) (i : Nat) : Prop :=
  chr imgl (i + 1) = '.' ∧ isLowercase (chr imgl i) = true

theorem extSlot_spec {img : Name} {i : Nat} {n : Int}
    (h : extSlot img (toLower img) = some (i, n)) :
    n = slotNum (toLower img) i ∧
      (istdigit (chr (toLower img) i) = true ∨ LetterSlot (toLower img) i) := by
  unfold extSlot at h
  cases hext : tcsrchr (toLower img) '.' with
  | none => rw [hext] at h; cases h
  | some ext =>
    rw [hext] at h
    dsimp only at h
    have hdot := tcsrchr_chr hext
    split_ifs at h with hlen hc1 hc2 hc3 hc4 hc5 <;> rw [Option.some.injEq, Prod.mk.injEq] at h <;>
      obtain ⟨rfl, rfl⟩ := h
    · rw [Bool.and_eq_true] at hc1
      exact ⟨by rw [slotNum, if_pos hc1.2], Or.inl hc1.2⟩
    · rw [Bool.and_eq_true] at hc2
      exact ⟨by rw [slotNum, if_pos hc2.2], Or.inl hc2.2⟩
    · rw [Bool.and_eq_true] at hc3
      have hpos : ext - 1 + 1 = ext := by omega
      refine ⟨?_, Or.inr ⟨by rw [hpos, hdot], hc3.2⟩⟩
      rw [slotNum, isLowercase_not_digit hc3.2, if_neg (by simp)]
    · rw [Bool.and_eq_true] at hc4
      have hpos : ext - 1 + 1 = ext := by omega
      have hlow : isLowercase (chr (toLower img) (ext - 1)) = true := by
        rw [chr_toLower]
        exact isCapital_lower hc4.2
      refine ⟨?_, Or.inr ⟨by rw [hpos, hdot], hlow⟩⟩
      rw [slotNum, isLowercase_not_digit hlow, if_neg (by simp)]
    · rw [Bool.and_eq_true] at hc5
      have hpos : ext - 1 + 1 = ext := by omega
      have hnext : istdigit (chr (toLower img) (ext - 1 + 1)) = false := by
        rw [hpos, hdot]
        decide
      refine ⟨?_, Or.inl hc5.2⟩
      have h48 := (digits_facts _ (istdigit_iff.mp hc5.2)).2.2.2
      rw [slotNum, if_pos hc5.2, tstoi_single hc5.2 hnext]
      omega

/-- Behind a first number there are only digits. -/
theorem scan_digits {img : Name} (room : Nat) : ∀ (gotone : Bool) (ps : Nat),
    gotone = true ∨ room = 0 →
    ∀ x ∈ (scan img (toLower img) room gotone ps).1,
      x.2 = slotNum (toLower img) x.1 ∧ istdigit (chr (toLower img) x.1) = true := by
  induction room with
  | zero => intro gotone ps _ x hx; cases hx
  | succ room ih =>
    intro gotone ps hgot x hx
    obtain rfl : gotone = true := hgot.resolve_right (by simp)
    unfold scan at hx
    cases hq : numberAt (toLower img) diskParen ps with
    | none => rw [hq] at hx; cases hx
    | some q =>
      rw [hq] at hx
      have hdigit := numberAt_digit hq
      rcases List.mem_cons.mp hx with rfl | hx
      · exact ⟨by rw [slotNum, if_pos hdigit], hdigit⟩
      · exact ih _ q (by simp) x hx

/-- Each place has its number. All are digits, or the only one is the letter in front of the
extension. -/
theorem parse_spec (img : Name) :
    (∀ x ∈ (parse img).1, x.2 = slotNum (toLower img) x.1) ∧
      ((∀ x ∈ (parse img).1, istdigit (chr (toLower img) x.1) = true) ∨
        ∃ x, (parse img).1 = [x] ∧ LetterSlot (toLower img) x.1) := by
  have hfirst : ∀ q, istdigit (chr (toLower img) q) = true →
      ∀ x ∈ (q, (tstoi (toLower img) q : Int)) :: (scan img (toLower img) 2 true q).1,
        x.2 = slotNum (toLower img) x.1 ∧ istdigit (chr (toLower img) x.1) = true := by
    intro q hdigit x hx
    rcases List.mem_cons.mp hx with rfl | hx
    · exact ⟨by rw [slotNum, if_pos hdigit], hdigit⟩
    · exact scan_digits 2 true q (Or.inl rfl) x hx
  unfold parse scan
  cases hq : numberAt (toLower img) diskParen 0 with
  | some q =>
    have hall := hfirst q (numberAt_digit hq)
    exact ⟨fun x hx => (hall x hx).1, Or.inl fun x hx => (hall x hx).2⟩
  | none =>
    dsimp only
    cases hw : numberAt (toLower img) diskWord 0 with
    | some q =>
      have hall := hfirst q (numberAt_digit hw)
      exact ⟨fun x hx => (hall x hx).1, Or.inl fun x hx => (hall x hx).2⟩
    | none =>
      cases hext : extSlot img (toLower img) with
      | none => simp
      | some x =>
        obtain ⟨hnum, hclass⟩ := extSlot_spec hext
        simp only [Bool.false_eq_true, if_false, Option.toList_some, List.mem_singleton,
          forall_eq]
        exact ⟨hnum, hclass.imp id fun hletter => ⟨x, rfl, hletter⟩⟩

/-! ### Writing a number -/

variable {img : Name} {i k m : Nat} {n : Int}

/-- The places of the numbers in a name. -/
def slotsOf (img : Name) : List Nat := (parse img).1.map Prod.fst

/-- The name with another number. -/
def renumber (img : Name) (k : Nat) : Name := writeNum (slotsOf img) k img

theorem chr_writeNum (slots : List Nat) (k : Nat) (s : Name) (j : Nat) :
    chr (writeNum slots k s) j =
      if j ∈ slots ∧ j < s.length then mark k (chr s j) else chr s j := by
  unfold chr writeNum
  rw [List.getElem?_mapIdx]
  rcases Nat.lt_or_ge j s.length with hlt | hge
  · rw [List.getElem?_eq_getElem hlt]
    by_cases hmem : j ∈ slots
    · simp [hmem, hlt]
    · simp [hmem]
  · rw [List.getElem?_eq_none hge, if_neg (fun h => absurd h.2 (Nat.not_lt.mpr hge))]
    rfl

theorem mark_digit {c : Char} (h : istdigit c = true) : mark k c = Char.ofNat (48 + k) := by
  rw [mark, if_pos h]

theorem digit_mark (hk : k ≤ 9) : istdigit (Char.ofNat (48 + k)) = true :=
  (number_facts k (by omega)).1.1

theorem mark_low {c : Char} (h : c ∈ lows) : mark k c = Char.ofNat ((k - 1) + 97) := by
  obtain ⟨hd, -, hcap, -⟩ := lows_facts c h
  rw [mark, hd, hcap, if_neg (by simp), if_neg (by simp)]

theorem mark_up {c : Char} (h : c ∈ ups) : mark k c = Char.ofNat ((k - 1) + 65) := by
  obtain ⟨hd, -, hcap, -⟩ := ups_facts c h
  rw [mark, hd, hcap, if_neg (by simp), if_pos rfl]

theorem low_mark (hk : k ≤ 9) : Char.ofNat ((k - 1) + 97) ∈ lows := (number_facts k (by omega)).2.1

theorem up_mark (hk : k ≤ 9) : Char.ofNat ((k - 1) + 65) ∈ ups := (number_facts k (by omega)).2.2.1

/-- The second number replaces the first. -/
theorem mark_mark (hk : k ≤ 9) (c : Char) : mark m (mark k c) = mark m c := by
  cases hd : istdigit c with
  | true => rw [mark_digit hd, mark_digit (digit_mark hk), mark_digit hd]
  | false =>
    cases hcap : isCapital c with
    | true =>
      have hmark : mark k c = Char.ofNat ((k - 1) + 65) := by
        rw [mark, hd, hcap, if_neg (by simp), if_pos rfl]
      rw [hmark, mark_up (up_mark hk), mark, hd, hcap, if_neg (by simp), if_pos rfl]
    | false =>
      have hmark : mark k c = Char.ofNat ((k - 1) + 97) := by
        rw [mark, hd, hcap, if_neg (by simp), if_neg (by simp)]
      rw [hmark, mark_low (low_mark hk), mark, hd, hcap, if_neg (by simp), if_neg (by simp)]

theorem writeNum_writeNum (slots : List Nat) (hk : k ≤ 9) (s : Name) :
    writeNum slots m (writeNum slots k s) = writeNum slots m s := by
  unfold writeNum
  rw [List.mapIdx_mapIdx]
  congr 1
  funext j c
  simp only [Function.comp]
  split_ifs
  · exact mark_mark hk c
  · rfl

theorem lowerChar_digit_iff {c : Char} (h : istdigit (lowerChar c) = true) : istdigit c = true := by
  cases hcap : isCapital c with
  | true =>
    rw [isLowercase_not_digit (isCapital_lower hcap)] at h
    cases h
  | false => rwa [lowerChar, if_neg (by simp [hcap])] at h

theorem lowerChar_dot {c : Char} (h : lowerChar c = '.') : c = '.' := by
  cases hcap : isCapital c with
  | true =>
    have hlow := isCapital_lower hcap
    rw [h] at hlow
    exact absurd hlow (by decide)
  | false => rwa [lowerChar, if_neg (by simp [hcap])] at h

/-- The last number of a name. -/
def lastOf (img : Name) : Option (Nat × Int) := (parse img).1.getLast?

/-- A name and the same name with another number are alike, as far as letters stand for numbers
up to ten. -/
theorem alike_renumber (hlast : lastOf img = some (i, n)) (hn : n ≤ 10) (hk : k ≤ 9) :
    Alike img (renumber img k) where
  length := by simp [renumber, writeNum]
  char := fun j => by
    rw [renumber, chr_writeNum]
    split_ifs with hslot
    · obtain ⟨hnum, hclass⟩ := parse_spec img
      obtain ⟨x, hx, rfl⟩ := List.mem_map.mp hslot.1
      rcases hclass with hdigits | ⟨y, hy, hdot, hlow⟩
      · have hd := hdigits x hx
        rw [chr_toLower] at hd
        have hd' := lowerChar_digit_iff hd
        rw [mark_digit hd']
        exact Or.inr (Or.inl ⟨hd', digit_mark hk⟩)
      · have hxy : x = y := by
          rw [hy] at hx
          exact List.mem_singleton.mp hx
        subst hxy
        have hxi : x = (i, n) := by
          rw [lastOf, hy] at hlast
          exact Option.some.inj hlast
        have hval := hnum x hx
        rw [slotNum, isLowercase_not_digit hlow, if_neg (by simp), hxi] at hval
        rw [hxi] at hdot hlow ⊢
        have hmem : chr (toLower img) i ∈ lows := by
          refine mem_lows_of_le hlow ?_
          dsimp only at hval
          omega
        rw [chr_toLower] at hmem hdot
        have hnext : chr (writeNum (slotsOf img) k img) (i + 1) = '.' := by
          rw [chr_writeNum, if_neg, lowerChar_dot hdot]
          rintro ⟨hmem', -⟩
          rw [slotsOf, hy, hxi] at hmem'
          simp at hmem'
        refine Or.inr (Or.inr ⟨lowerChar_dot hdot, hnext, ?_⟩)
        rcases lowerChar_mem_lows hmem with hl | hu
        · rw [mark_low hl]
          exact Or.inl ⟨hl, low_mark hk⟩
        · rw [mark_up hu]
          exact Or.inr ⟨hu, up_mark hk⟩
    · exact Or.inl rfl

theorem slotsOf_renumber (hlast : lastOf img = some (i, n)) (hn : n ≤ 10) (hk : k ≤ 9) :
    slotsOf (renumber img k) = slotsOf img :=
  ((alike_renumber hlast hn hk).scan 3 false 0).1

theorem gotone_renumber (hlast : lastOf img = some (i, n)) (hn : n ≤ 10) (hk : k ≤ 9) :
    (parse (renumber img k)).2 = (parse img).2 :=
  ((alike_renumber hlast hn hk).scan 3 false 0).2

theorem renumber_renumber (hlast : lastOf img = some (i, n)) (hn : n ≤ 10) (hk : k ≤ 9) (m : Nat) :
    renumber (renumber img k) m = renumber img m := by
  rw [renumber, slotsOf_renumber hlast hn hk, renumber, writeNum_writeNum _ hk, renumber]

theorem last_mem (hlast : lastOf img = some (i, n)) : i ∈ slotsOf img :=
  List.mem_map.mpr ⟨(i, n), List.mem_of_getLast? hlast, rfl⟩

theorem last_renumber (hlast : lastOf img = some (i, n)) (hn : n ≤ 10) (hk : k ≤ 9) :
    lastOf (renumber img k) = some (i, slotNum (toLower (renumber img k)) i) := by
  have hfst : (lastOf (renumber img k)).map Prod.fst = (lastOf img).map Prod.fst := by
    have hslots := slotsOf_renumber hlast hn hk
    unfold slotsOf at hslots
    rw [lastOf, lastOf, ← List.getLast?_map, ← List.getLast?_map, hslots]
  rw [hlast] at hfst
  cases hlast' : lastOf (renumber img k) with
  | none => rw [hlast'] at hfst; cases hfst
  | some x =>
    rw [hlast'] at hfst
    have hx := (parse_spec (renumber img k)).1 x (List.mem_of_getLast? hlast')
    obtain rfl : x.1 = i := Option.some.inj hfst
    rw [← hx]

/-- The number that was written is read again, unless a digit follows it. -/
theorem slotNum_renumber (hlast : lastOf img = some (i, n)) (hn : n ≤ 10) (hk1 : 1 ≤ k)
    (hk : k ≤ 9) :
    if istdigit (chr img i) = true ∧ istdigit (chr img (i + 1)) = true then
      k = 9 → 90 ≤ slotNum (toLower (renumber img k)) i
    else slotNum (toLower (renumber img k)) i = k := by
  have halike := alike_renumber hlast hn hk
  have hnext : istdigit (chr (toLower (renumber img k)) (i + 1)) = istdigit (chr img (i + 1)) := by
    rw [halike.lower.digit, Bool.eq_iff_iff, chr_toLower]
    exact ⟨lowerChar_digit_iff, fun hd => by rwa [lowerChar_digit hd]⟩
  have hclass := (parse_spec img).2
  have hmem := List.mem_of_getLast? hlast
  have hdigit : istdigit (chr img i) = true →
      chr (toLower (renumber img k)) i = Char.ofNat (48 + k) := by
    intro hd
    have hlt : i < img.length := by
      by_contra hge
      rw [chr, List.getElem?_eq_none (Nat.le_of_not_lt hge)] at hd
      exact absurd hd (by decide)
    rw [chr_toLower, renumber, chr_writeNum, if_pos ⟨last_mem hlast, hlt⟩, mark_digit hd,
      lowerChar_digit (digit_mark hk)]
  split_ifs with htwo
  · rintro rfl
    have hchr := hdigit htwo.1
    have hd : istdigit (chr (toLower (renumber img 9)) i) = true := by
      rw [hchr]
      decide
    rw [slotNum, if_pos hd]
    exact_mod_cast tstoi_nine hchr (hnext.trans htwo.2)
  · cases hd : istdigit (chr img i) with
    | true =>
      have hchr := hdigit hd
      have hd' : istdigit (chr (toLower (renumber img k)) i) = true := by
        rw [hchr]
        exact digit_mark hk
      have hnot : istdigit (chr (toLower (renumber img k)) (i + 1)) = false := by
        rw [hnext]
        exact Bool.eq_false_iff.mpr fun h => htwo ⟨hd, h⟩
      rw [slotNum, if_pos hd', tstoi_single hd' hnot, hchr, (number_facts k (by omega)).1.2]
    | false =>
      have hlow : chr (toLower img) i ∈ lows := by
        rcases hclass with hdigits | ⟨y, hy, -, hlow⟩
        · have hdig := hdigits _ hmem
          rw [chr_toLower] at hdig
          rw [lowerChar_digit_iff hdig] at hd
          cases hd
        · have hyi : y = (i, n) := by
            rw [lastOf, hy] at hlast
            exact Option.some.inj hlast
          have hval := (parse_spec img).1 _ hmem
          rw [hyi] at hlow
          rw [slotNum, isLowercase_not_digit hlow, if_neg (by simp)] at hval
          refine mem_lows_of_le hlow ?_
          dsimp only at hval
          omega
      have hlt : i < img.length := by
        by_contra hge
        rw [chr_toLower, chr, List.getElem?_eq_none (Nat.le_of_not_lt hge)] at hlow
        exact absurd hlow (by decide)
      have hchr : chr (toLower (renumber img k)) i = Char.ofNat ((k - 1) + 97) := by
        rw [chr_toLower] at hlow ⊢
        rw [renumber, chr_writeNum, if_pos ⟨last_mem hlast, hlt⟩]
        rcases lowerChar_mem_lows hlow with hl | hu
        · rw [mark_low hl, lowerChar_low (low_mark hk)]
        · rw [mark_up hu, ((number_facts k (by omega)).2.2.2 hk1).1]
      have hnd := (lows_facts _ (low_mark hk)).1
      rw [slotNum, hchr, hnd, if_neg (by simp), ((number_facts k (by omega)).2.2.2 hk1).2]

/-! ### One pass -/

variable {zfileExists : Name → Bool} {old : Name} {dir : Dir} {num : Int} {wrapped : Nat}

/-- The name with this number exists, or the name without some of its tags if the number is behind
the word "disk". -/
def Hit (zfileExists : Name → Bool) (img : Name) (k : Nat) : Prop :=
  zfileExists (renumber img k) = true ∨
    ((parse img).2 = true ∧ (stripTags zfileExists (renumber img k)).isSome = true)

/-- The pass does not go back to `retry`. -/
def Pass.Ends : Pass → Prop
  | .done _ _ => True
  | .retry _ _ _ => False

theorem tryName_next {slots : List Nat} {gotone : Bool} :
    (tryName zfileExists old .next slots gotone img num wrapped).Ends := by
  have hwrap : (wrapAround zfileExists old .next slots img num wrapped).Ends := by
    unfold wrapAround
    dsimp only
    generalize (if wrapped = 0 then (writeNum slots Dir.next.first img, wrapped + 1)
      else (img, wrapped)) = next
    cases zfileExists next.1 with
    | true => trivial
    | false => trivial
  unfold tryName
  cases zfileExists img with
  | true => trivial
  | false =>
    cases (if gotone = true then stripTags zfileExists img else none) with
    | some name => trivial
    | none => exact hwrap

/-- A pass goes on to try a name when the number is from 1 to 18 and at most nine after the step.
Otherwise it ends. -/
theorem pass_cases (n : Int) (hn : ((lastOf img).map Prod.snd).getD num = n) :
    (0 < n ∧ n < 19 ∧ n + dir.toInt ≤ 9 ∧
      pass zfileExists old dir img num wrapped =
        tryName zfileExists old dir (slotsOf img) (parse img).2 (renumber img (stepNum n dir).toNat)
          (stepNum n dir) wrapped) ∨
    (¬ (0 < n ∧ n < 19 ∧ n + dir.toInt ≤ 9) ∧
      (pass zfileExists old dir img num wrapped).Ends) := by
  unfold lastOf at hn
  unfold pass
  dsimp only
  rw [hn]
  split_ifs with h1 h2
  · simp only [Bool.or_eq_true, decide_eq_true_eq] at h1
    exact Or.inr ⟨by omega, trivial⟩
  · exact Or.inr ⟨by omega, trivial⟩
  · simp only [Bool.or_eq_true, decide_eq_true_eq, not_or] at h1
    exact Or.inl ⟨by omega, by omega, by omega, rfl⟩

theorem pass_next : (pass zfileExists old .next img num wrapped).Ends := by
  rcases @pass_cases img zfileExists old .next num wrapped _ rfl with ⟨-, -, -, h⟩ | ⟨-, h⟩
  · rw [h]
    exact tryName_next
  · exact h

/-- The number of the next name when counting down. -/
def stepDown (n : Int) : Nat := (stepNum n .prev).toNat

theorem pass_prev (hlast : lastOf img = some (i, n)) (hn1 : 1 ≤ n) (hn : n ≤ 10) :
    pass zfileExists old .prev img num wrapped =
      tryName zfileExists old .prev (slotsOf img) (parse img).2 (renumber img (stepDown n))
        (stepNum n .prev) wrapped := by
  have hnum : ((lastOf img).map Prod.snd).getD num = n := by rw [hlast]; rfl
  rcases @pass_cases img zfileExists old .prev num wrapped n hnum with ⟨-, -, -, h⟩ | ⟨hnot, -⟩
  · exact h
  · refine absurd ⟨hn1, by omega, ?_⟩ hnot
    rw [Dir.toInt]
    omega

theorem pass_hit (hlast : lastOf img = some (i, n)) (hn1 : 1 ≤ n) (hn : n ≤ 10)
    (hhit : Hit zfileExists img (stepDown n)) :
    (pass zfileExists old .prev img num wrapped).Ends := by
  rw [pass_prev hlast hn1 hn, tryName]
  by_cases hex : zfileExists (renumber img (stepDown n)) = true
  · rw [if_pos hex]
    trivial
  · rcases hhit with hex' | ⟨hgot, htag⟩
    · exact absurd hex' hex
    · obtain ⟨name, hname⟩ := Option.isSome_iff_exists.mp htag
      rw [if_neg hex, if_pos hgot, hname]
      trivial

/-- Where the name does not exist the search wraps around. -/
theorem pass_miss (hlast : lastOf img = some (i, n)) (hn1 : 1 ≤ n) (hn : n ≤ 10)
    (hmiss : ¬ Hit zfileExists img (stepDown n)) :
    zfileExists (renumber img (stepDown n)) = false ∧
      pass zfileExists old .prev img num wrapped =
        wrapAround zfileExists old .prev (slotsOf img) (renumber img (stepDown n))
          (stepNum n .prev) wrapped := by
  rw [Hit, not_or, Bool.not_eq_true] at hmiss
  refine ⟨hmiss.1, ?_⟩
  rw [pass_prev hlast hn1 hn, tryName, hmiss.1, if_neg (by simp)]
  have htags : (if (parse img).2 = true then
      stripTags zfileExists (renumber img (stepDown n)) else none) = none := by
    split_ifs with hgot
    · exact Option.not_isSome_iff_eq_none.mp fun h => hmiss.2 ⟨hgot, h⟩
    · rfl
  rw [htags]

/-- The first pass goes on to the name with a nine. -/
theorem pass_first (hlast : lastOf img = some (i, n)) (hn1 : 1 ≤ n) (hn : n ≤ 10)
    (hmiss : ¬ Hit zfileExists img (stepDown n)) (hk : stepDown n ≤ 9) :
    pass zfileExists old .prev img num 0 =
      if zfileExists (renumber img 9) then .done (renumber img 9) (-1)
      else .retry (renumber img 9) (stepNum n .prev) 1 := by
  rw [(pass_miss hlast hn1 hn hmiss).2, wrapAround, if_pos rfl]
  have htwice : writeNum (slotsOf img) Dir.prev.first (renumber img (stepDown n)) = renumber img 9 :=
    writeNum_writeNum _ hk img
  simp only [htwice]
  rfl

/-- The later passes go on to the next name. -/
theorem pass_later (hlast : lastOf img = some (i, n)) (hn1 : 1 ≤ n) (hn : n ≤ 10)
    (hmiss : ¬ Hit zfileExists img (stepDown n)) :
    pass zfileExists old .prev img num 1 =
      .retry (renumber img (stepDown n)) (stepNum n .prev) 1 := by
  obtain ⟨hex, hpass⟩ := @pass_miss img i n zfileExists old num 1 hlast hn1 hn hmiss
  rw [hpass, wrapAround, if_neg (by decide)]
  simp only [hex]
  rfl

/-! ### The search -/

/-- The search returns from this point. -/
def Returns (zfileExists : Name → Bool) (old : Name) (dir : Dir) (img : Name) (num : Int)
    (wrapped : Nat) : Prop :=
  ∃ fuel, (search zfileExists old dir fuel img num wrapped).isSome = true

theorem returns_of_ends (h : (pass zfileExists old dir img num wrapped).Ends) :
    Returns zfileExists old dir img num wrapped := by
  refine ⟨1, ?_⟩
  rw [search]
  cases hpass : pass zfileExists old dir img num wrapped with
  | done name ret => rfl
  | retry name num' wrapped' => rw [hpass] at h; cases h

theorem returns_of_retry {img' : Name} {num' : Int} {wrapped' : Nat}
    (h : pass zfileExists old dir img num wrapped = .retry img' num' wrapped') :
    Returns zfileExists old dir img num wrapped ↔ Returns zfileExists old dir img' num' wrapped' := by
  constructor
  · rintro ⟨fuel, hfuel⟩
    cases fuel with
    | zero => cases hfuel
    | succ fuel =>
      rw [search, h] at hfuel
      exact ⟨fuel, hfuel⟩
  · rintro ⟨fuel, hfuel⟩
    refine ⟨fuel + 1, ?_⟩
    rw [search, h]
    exact hfuel

/-- The number of the disk stands alone: counting down goes round in one digit, or in one letter. -/
def Cycles (img : Name) : Prop :=
  ∃ i n, lastOf img = some (i, n) ∧ 1 ≤ n ∧ n ≤ 10 ∧
    ¬ (istdigit (chr img i) = true ∧ istdigit (chr img (i + 1)) = true)

/-- The number after `k`, going round from one to nine. -/
def before (k : Nat) : Nat := if k = 1 then 9 else k - 1

theorem stepDown_eq (hk1 : 1 ≤ k) (hk : k ≤ 9) : stepDown k = before k := by
  have hall : ∀ k : Nat, k < 10 → 1 ≤ k → stepDown (k : Nat) = before k := by decide
  exact hall k (by omega) hk1

theorem stepDown_range (hn1 : 1 ≤ n) (hn : n ≤ 10) : 1 ≤ stepDown n ∧ stepDown n ≤ 9 := by
  have hall : ∀ k : Nat, k < 11 → 1 ≤ k → 1 ≤ stepDown (k : Nat) ∧ stepDown (k : Nat) ≤ 9 := by
    decide
  obtain ⟨k, rfl⟩ := Int.eq_ofNat_of_zero_le (by omega : 0 ≤ n)
  exact hall k (by omega) (by omega)

theorem hit_renumber (hlast : lastOf img = some (i, n)) (hn : n ≤ 10) (hk : k ≤ 9) (m : Nat) :
    Hit zfileExists (renumber img k) m ↔ Hit zfileExists img m := by
  rw [Hit, Hit, renumber_renumber hlast hn hk, gotone_renumber hlast hn hk]

section Cycle

variable (hlast : lastOf img = some (i, n)) (hn : n ≤ 10)
  (halone : ¬ (istdigit (chr img i) = true ∧ istdigit (chr img (i + 1)) = true))

include hlast hn halone

theorem last_alone (hk1 : 1 ≤ k) (hk : k ≤ 9) : lastOf (renumber img k) = some (i, (k : Int)) := by
  have hnum := slotNum_renumber hlast hn hk1 hk
  rw [if_neg halone] at hnum
  rw [last_renumber hlast hn hk, hnum]

/-- A pass over the name with `k` ends if the name before it is there, and else goes on to it. -/
theorem later_step (hk1 : 1 ≤ k) (hk : k ≤ 9) (num : Int) :
    (Hit zfileExists img (before k) →
      (pass zfileExists old .prev (renumber img k) num 1).Ends) ∧
    (¬ Hit zfileExists img (before k) →
      pass zfileExists old .prev (renumber img k) num 1 =
        .retry (renumber img (before k)) (stepNum k .prev) 1) := by
  have hk' := last_alone hlast hn halone hk1 hk
  have hhit : Hit zfileExists (renumber img k) (stepDown k) ↔ Hit zfileExists img (before k) := by
    rw [hit_renumber hlast hn hk, stepDown_eq hk1 hk]
  constructor
  · intro h
    exact pass_hit hk' (by omega) (by omega) (hhit.mpr h)
  · intro h
    rw [pass_later hk' (by omega) (by omega) (fun h' => h (hhit.mp h')),
      renumber_renumber hlast hn hk, stepDown_eq hk1 hk]

/-- Without a name the search never returns. -/
theorem never_returns (hmiss : ∀ k, 1 ≤ k → k ≤ 9 → ¬ Hit zfileExists img k) (fuel : Nat) :
    ∀ k num, 1 ≤ k → k ≤ 9 →
      search zfileExists old .prev fuel (renumber img k) num 1 = none := by
  induction fuel with
  | zero => exact fun _ _ _ _ => rfl
  | succ fuel ih =>
    intro k num hk1 hk
    have hbefore : 1 ≤ before k ∧ before k ≤ 9 := by
      unfold before
      split_ifs <;> omega
    have hstep := @later_step img i k n zfileExists old hlast hn halone hk1 hk num
    rw [search, hstep.2 (hmiss _ hbefore.1 hbefore.2)]
    exact ih _ _ hbefore.1 hbefore.2

/-- A name that is there is found from every number on: by the pass over the number after it, and
by every pass that leads there. -/
theorem returns_from_nine {j : Nat} (hj1 : 1 ≤ j) (hj : j ≤ 9) (hhit : Hit zfileExists img j)
    (num : Int) : Returns zfileExists old .prev (renumber img 9) num 1 := by
  have hdown : ∀ k, 1 ≤ k → k ≤ 9 →
      (Hit zfileExists img (before k) ∨
        ∀ num, Returns zfileExists old .prev (renumber img (before k)) num 1) →
      ∀ num, Returns zfileExists old .prev (renumber img k) num 1 := by
    intro k hk1 hk h num
    have hstep := @later_step img i k n zfileExists old hlast hn halone hk1 hk num
    by_cases hk' : Hit zfileExists img (before k)
    · exact returns_of_ends (hstep.1 hk')
    · exact (returns_of_retry (hstep.2 hk')).mpr ((h.resolve_left hk') _)
  -- from a number that returns, all larger ones return
  have hup : ∀ k, 1 ≤ k → k ≤ 9 →
      (∀ num, Returns zfileExists old .prev (renumber img k) num 1) →
      ∀ num, Returns zfileExists old .prev (renumber img 9) num 1 := by
    intro k hk1 hk
    induction hd : 9 - k generalizing k with
    | zero =>
      obtain rfl : k = 9 := by omega
      exact id
    | succ d ih =>
      intro h
      refine ih (k + 1) (by omega) (by omega) (by omega) ?_
      refine hdown (k + 1) (by omega) (by omega) (Or.inr ?_)
      rwa [before, if_neg (by omega), Nat.add_sub_cancel]
  by_cases hnine : j = 9
  · subst hnine
    exact hup 1 (by omega) (by omega) (hdown 1 (by omega) (by omega) (Or.inl hhit)) num
  · refine hup (j + 1) (by omega) (by omega) (hdown (j + 1) (by omega) (by omega) (Or.inl ?_)) num
    rwa [before, if_neg (by omega), Nat.add_sub_cancel]

/-- Counting down returns exactly when one of the nine names is there. -/
theorem returns_iff_hit (hn1 : 1 ≤ n) (num : Int) :
    Returns zfileExists old .prev img num 0 ↔ ∃ k, 1 ≤ k ∧ k ≤ 9 ∧ Hit zfileExists img k := by
  obtain ⟨hd1, hd⟩ := stepDown_range hn1 hn
  by_cases hfirst : Hit zfileExists img (stepDown n)
  · exact iff_of_true (returns_of_ends (pass_hit hlast hn1 hn hfirst)) ⟨_, hd1, hd, hfirst⟩
  have hpass := @pass_first img i n zfileExists old num hlast hn1 hn hfirst hd
  by_cases hnine : zfileExists (renumber img 9) = true
  · rw [if_pos hnine] at hpass
    refine iff_of_true (returns_of_ends ?_) ⟨9, by omega, by omega, Or.inl hnine⟩
    rw [hpass]
    trivial
  · rw [if_neg hnine] at hpass
    rw [returns_of_retry hpass]
    constructor
    · rintro ⟨fuel, hfuel⟩
      by_contra hmiss
      have hnone := @never_returns img i n zfileExists old hlast hn halone
        (fun k hk1 hk hhit => hmiss ⟨k, hk1, hk, hhit⟩) fuel 9 (stepNum n .prev) (by omega) (by omega)
      rw [hnone] at hfuel
      cases hfuel
    · rintro ⟨j, hj1, hj, hhit⟩
      exact returns_from_nine hlast hn halone hj1 hj hhit _

end Cycle

/-- Where a digit follows the number, the second pass reads a number of ninety or more and ends. -/
theorem returns_two_digits (hlast : lastOf img = some (i, n)) (hn1 : 1 ≤ n) (hn : n ≤ 10)
    (htwo : istdigit (chr img i) = true ∧ istdigit (chr img (i + 1)) = true) (num : Int) :
    Returns zfileExists old .prev img num 0 := by
  obtain ⟨-, hd⟩ := stepDown_range hn1 hn
  by_cases hfirst : Hit zfileExists img (stepDown n)
  · exact returns_of_ends (pass_hit hlast hn1 hn hfirst)
  have hpass := @pass_first img i n zfileExists old num hlast hn1 hn hfirst hd
  have hnum := @slotNum_renumber img i 9 n hlast hn (by omega) (by omega)
  rw [if_pos htwo] at hnum
  have hninety := hnum rfl
  have hend : ∀ num, (pass zfileExists old .prev (renumber img 9) num 1).Ends := by
    intro num
    have hlast9 := @last_renumber img i 9 n hlast hn (by omega)
    have hval : ((lastOf (renumber img 9)).map Prod.snd).getD num =
        slotNum (toLower (renumber img 9)) i := by rw [hlast9]; rfl
    rcases @pass_cases (renumber img 9) zfileExists old .prev num 1 _ hval with
      ⟨-, hlt, -⟩ | ⟨-, h⟩
    · omega
    · exact h
  by_cases hnine : zfileExists (renumber img 9) = true
  · rw [if_pos hnine] at hpass
    refine returns_of_ends ?_
    rw [hpass]
    trivial
  · rw [if_neg hnine] at hpass
    exact (returns_of_retry hpass).mpr (returns_of_ends (hend _))

/-- The search returns but for one case: it counts down from a number that stands alone, and none
of the nine names is there. -/
theorem diskPrevnextName_returns_iff (zfileExists : Name → Bool) (old img : Name) (dir : Dir) :
    (∃ fuel, (diskPrevnextName zfileExists old dir fuel img).isSome = true) ↔
      ¬ (dir = .prev ∧ Cycles img ∧ ∀ k, 1 ≤ k → k ≤ 9 → ¬ Hit zfileExists img k) := by
  change Returns zfileExists old dir img (-1) 0 ↔ _
  cases dir with
  | next => exact iff_of_true (returns_of_ends pass_next) (by simp)
  | prev =>
    cases hlast : lastOf img with
    | none =>
      refine iff_of_true (returns_of_ends ?_) ?_
      · have hval : ((lastOf img).map Prod.snd).getD (-1) = -1 := by rw [hlast]; rfl
        rcases @pass_cases img zfileExists old .prev (-1) 0 _ hval with ⟨hpos, -⟩ | ⟨-, h⟩
        · exact absurd hpos (by decide)
        · exact h
      · rintro ⟨-, ⟨i, n, hsome, -⟩, -⟩
        rw [hlast] at hsome
        cases hsome
    | some x =>
      obtain ⟨i, n⟩ := x
      by_cases hrange : 1 ≤ n ∧ n ≤ 10
      · by_cases htwo : istdigit (chr img i) = true ∧ istdigit (chr img (i + 1)) = true
        · refine iff_of_true (returns_two_digits hlast hrange.1 hrange.2 htwo _) ?_
          rintro ⟨-, ⟨i', n', hsome, -, -, halone⟩, -⟩
          rw [hlast, Option.some.injEq, Prod.mk.injEq] at hsome
          obtain ⟨rfl, rfl⟩ := hsome
          exact halone htwo
        · have hcycles : Cycles img := ⟨i, n, hlast, hrange.1, hrange.2, htwo⟩
          rw [returns_iff_hit hlast hrange.2 htwo hrange.1]
          constructor
          · rintro ⟨k, hk1, hk, hhit⟩ ⟨-, -, hmiss⟩
            exact hmiss k hk1 hk hhit
          · intro hnot
            by_contra hnone
            exact hnot ⟨rfl, hcycles, fun k hk1 hk hhit => hnone ⟨k, hk1, hk, hhit⟩⟩
      · refine iff_of_true (returns_of_ends ?_) ?_
        · have hval : ((lastOf img).map Prod.snd).getD (-1) = n := by rw [hlast]; rfl
          rcases @pass_cases img zfileExists old .prev (-1) 0 _ hval with ⟨h1, -, h3, -⟩ | ⟨-, h⟩
          · refine absurd ⟨h1, ?_⟩ hrange
            rw [Dir.toInt] at h3
            omega
          · exact h
        · rintro ⟨-, ⟨i', n', hsome, h1, h2, -⟩, -⟩
          rw [hlast, Option.some.injEq, Prod.mk.injEq] at hsome
          obtain ⟨rfl, rfl⟩ := hsome
          exact hrange ⟨h1, h2⟩

/-- "ab_1.adf" where no file exists: counting down goes round for ever. -/
theorem diskPrevnextName_hangs :
    ¬ ∀ (zfileExists : Name → Bool) (old img : Name) (dir : Dir),
      ∃ fuel, (diskPrevnextName zfileExists old dir fuel img).isSome = true := by
  intro h
  have hlast : lastOf ['a', 'b', '_', '1', '.', 'a', 'd', 'f'] = some (3, 1) := by decide
  have hgotone : (parse ['a', 'b', '_', '1', '.', 'a', 'd', 'f']).2 = false := by decide
  have hreturns := h (fun _ => false) [] ['a', 'b', '_', '1', '.', 'a', 'd', 'f'] .prev
  obtain ⟨k, -, -, hex | ⟨hgot, -⟩⟩ :=
    (returns_iff_hit hlast (by decide) (by decide) (by decide) (-1)).mp hreturns
  · cases hex
  · rw [hgotone] at hgot
    cases hgot

end LibretroUae.SwapName
