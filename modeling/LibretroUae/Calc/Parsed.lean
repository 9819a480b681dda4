import LibretroUae.Calc.Expressions

/-!
# LibretroUae.Calc.Parsed

**What `parse_values` makes of a written expression.** Its tokens with one character each, blanks
apart, and the values of its literals. Between two literals there is one operator, so no sign is
ever taken into a literal.
-/

namespace LibretroUae.Calc

def unblanked (s : List Char) : List Char := s.filter (· ≠ ' ')

theorem unblanked_append (s t : List Char) : unblanked (s ++ t) = unblanked s ++ unblanked t :=
  List.filter_append ..

/-! ### Rounds -/

theorem rewrite_eq {c : Char} {s : List Char} (hplain : ∀ d ∈ c :: s, isPlain d = true)
    (hc : c ≠ '=' ∧ c ≠ '!')
    (hnext : isOperator c = true → ∀ d, s.head? = some d → isOperator d = false) :
    rewriteEqual (rewriteWord (c :: s)) = c :: s := by
  have hgt : ∀ r, c :: s ≠ '>' :: '>' :: r := by
    rintro r ⟨⟩
    exact absurd (hnext rfl '>' rfl) (by decide)
  have hlt : ∀ r, c :: s ≠ '<' :: '<' :: r := by
    rintro r ⟨⟩
    exact absurd (hnext rfl '<' rfl) (by decide)
  rw [rewriteWord_eq hplain hgt hlt]
  unfold rewriteEqual
  split
  · rename_i heq
    exact absurd (List.cons.inj heq).1 hc.1
  · rename_i heq
    exact absurd (List.cons.inj heq).1 hc.2
  · rfl

theorem parseLoop_succ (fuel : Nat) (st : Parse) (c : Char) (s : List Char) :
    parseLoop (fuel + 1) st (c :: s) = match parseRound st (c :: s) with
      | none => none
      | some (st, rest) => parseLoop fuel st rest := rfl

theorem parseLoop_char {c : Char} {s : List Char} {st : Parse} {fuel : Nat}
    (hplain : ∀ d ∈ c :: s, isPlain d = true)
    (hc : isHexDigit c = false ∧ c ≠ '$' ∧ c ≠ '=' ∧ c ≠ '!')
    (hnext : isOperator c = true → ∀ d, s.head? = some d → isOperator d = false) :
    parseLoop (fuel + 1) st (c :: s) = parseLoop fuel
      ⟨c, if isOperator c then st.op + 1 else st.op, st.out ++ [c], st.values⟩ s := by
  rw [parseLoop_succ, parseRound, rewrite_eq hplain hc.2.2 hnext]
  simp [hc.1, hc.2.1]

/-- An operator of two characters takes two rounds, the second for the blank it leaves. -/
theorem parseLoop_double {op : Op} {x y : Char} {s : List Char} {st : Parse} {fuel : Nat}
    (hs : ∀ d ∈ s, isPlain d = true)
    (hrewrite : rewriteEqual (rewriteWord (x :: y :: s)) = op.code :: ' ' :: s)
    (hcode : isHexDigit op.code = false ∧ op.code ≠ '$') :
    parseLoop (fuel + 2) st (x :: y :: s) = parseLoop fuel
      ⟨' ', if isOperator op.code then st.op + 1 else st.op, st.out ++ [op.code] ++ [' '],
        st.values⟩ s := by
  have hblank : ∀ d ∈ ' ' :: s, isPlain d = true :=
    List.forall_mem_cons.mpr ⟨by decide, hs⟩
  rw [parseLoop_succ, parseRound, hrewrite]
  simp only [hcode.1, hcode.2, Bool.false_or, decide_false, Bool.false_eq_true, if_false]
  rw [parseLoop_char hblank ⟨by decide, by decide, by decide, by decide⟩ (fun h => by cases h)]
  rfl

theorem rewrite_double {op : Op} {s : List Char} (hs : ∀ d ∈ s, isPlain d = true) {x y : Char}
    (hop : op.text = [x, y]) : rewriteEqual (rewriteWord (x :: y :: s)) = op.code :: ' ' :: s := by
  have hplain : ∀ d ∈ x :: y :: s, isPlain d = true := by
    have htext := op.isPlain_text
    rw [hop] at htext
    exact List.forall_mem_append.mpr ⟨htext, hs⟩
  rw [rewriteWord_plain hplain]
  cases op <;> cases hop <;> rfl

theorem parseLoop_single {c : Char} {s : List Char} {st : Parse} {fuel : Nat}
    (hplain : ∀ d ∈ c :: s, isPlain d = true)
    (hc : isHexDigit c = false ∧ c ≠ '$' ∧ c ≠ '=' ∧ c ≠ '!') (hblank : c ≠ ' ')
    (hnext : isOperator c = true → ∀ d, s.head? = some d → isOperator d = false)
    (hfuel : (c :: s).length ≤ fuel) :
    ∃ st' fuel', parseLoop fuel st (c :: s) = parseLoop fuel' st' s ∧ s.length ≤ fuel' ∧
      st'.values = st.values ∧ st'.op = (if isOperator c then st.op + 1 else st.op) ∧
      unblanked st'.out = unblanked st.out ++ [c] := by
  obtain ⟨n, rfl⟩ := Nat.exists_eq_add_of_le' (Nat.le_trans (by simp) hfuel : 1 ≤ fuel)
  refine ⟨_, n, parseLoop_char hplain hc hnext, Nat.le_of_succ_le_succ hfuel, rfl, rfl, ?_⟩
  rw [unblanked_append]
  simp [unblanked, hblank]

theorem parseLoop_operator (op : Op) {s : List Char} {st : Parse} {fuel : Nat}
    (hs : ∀ d ∈ s, isPlain d = true) (hnext : ∀ d, s.head? = some d → isOperator d = false)
    (hfuel : (op.text ++ s).length ≤ fuel) :
    ∃ st' fuel', parseLoop fuel st (op.text ++ s) = parseLoop fuel' st' s ∧ s.length ≤ fuel' ∧
      st'.values = st.values ∧ st'.op = (if isOperator op.code then st.op + 1 else st.op) ∧
      unblanked st'.out = unblanked st.out ++ [op.code] := by
  have hop : (∃ x y, op.text = [x, y]) ∨ op.text = [op.code] := by
    cases op <;> first | exact Or.inr rfl | exact Or.inl ⟨_, _, rfl⟩
  have hcode : isHexDigit op.code = false ∧ op.code ≠ '$' ∧ op.code ≠ '=' ∧ op.code ≠ '!' := by
    cases op <;> exact ⟨by decide, by decide, by decide, by decide⟩
  have hblank : op.code ≠ ' ' := by cases op <;> decide
  rcases hop with ⟨x, y, hop⟩ | hop
  · rw [hop] at hfuel ⊢
    obtain ⟨n, rfl⟩ := Nat.exists_eq_add_of_le' (Nat.le_trans (by simp) hfuel : 2 ≤ fuel)
    refine ⟨_, n, parseLoop_double hs (rewrite_double hs hop) ⟨hcode.1, hcode.2.1⟩, ?_, rfl,
      rfl, ?_⟩
    · simpa using hfuel
    · simp [unblanked, hblank]
  · rw [hop] at hfuel ⊢
    have hplain : ∀ d ∈ op.code :: s, isPlain d = true :=
      List.forall_mem_cons.mpr ⟨op.isPlain_text _ (hop ▸ List.mem_singleton_self _), hs⟩
    exact parseLoop_single hplain hcode hblank (fun _ => hnext) hfuel

/-! ### Literals -/

theorem takeWhile_digits {p : Char → Bool} {ds s : List Char} (hds : ∀ c ∈ ds, p c = true)
    (hs : ∀ c, s.head? = some c → p c = false) :
    (ds ++ s).takeWhile p = ds ∧ (ds ++ s).dropWhile p = s := by
  rw [List.takeWhile_append_of_pos hds, List.dropWhile_append_of_pos hds]
  cases s with
  | nil => simp
  | cons c s => simp [hs c rfl]

theorem spelled_wraps (ds : List Char) (v : Nat) :
    ds.foldl (fun v c => (v * 16 + digitValue c) % 2 ^ 32) (v % 2 ^ 32) =
      ds.foldl (fun v c => v * 16 + digitValue c) v % 2 ^ 32 := by
  induction ds generalizing v with
  | nil => rfl
  | cons c ds ih =>
    rw [List.foldl_cons, List.foldl_cons, ← ih]
    congr 1
    omega

theorem literalValue_digits {ds : List Char} (hds : ∀ c ∈ ds, isHexDigit c = true) :
    literalValue ds = if ds.any isHexLetter then spelled 16 ds else spelled 10 ds := by
  unfold literalValue
  split
  · exact absurd (hds '$' List.mem_cons_self) (by decide)
  · rfl

theorem parseLiteral_eq {text s : List Char} {st : Parse} (ht : LiteralText text)
    (hval : (literalValue text : Int) < 2 ^ 31)
    (hs : ∀ c, s.head? = some c → isHexDigit c = false ∧ c ≠ '.') (hop : st.op ≤ 1)
    (hlen : st.values.length < 26) {c : Char} {r : List Char} (hcr : text ++ s = c :: r) :
    ∃ prev, parseLiteral st c r =
      some (⟨prev, 0, st.out ++ [letter st.values.length],
        st.values ++ [(literalValue text : Int)]⟩, s) := by
  have hlen' : ¬ 32 ≤ st.values.length := by omega
  have hop' : ¬ 1 < st.op := Nat.not_lt_of_le hop
  have hhex : ∀ c, s.head? = some c → isHexDigit c = false := fun c hc => (hs c hc).1
  have hmod : literalValue text % 2 ^ 32 = literalValue text := Nat.mod_eq_of_lt (by omega)
  obtain ⟨ds, hne, hds, rfl | rfl⟩ := ht
  · -- no dollar sign: the letters decide
    have hc : c ≠ '$' := by
      obtain ⟨d, ds, rfl⟩ := List.exists_cons_of_ne_nil hne
      obtain ⟨rfl, -⟩ := List.cons.inj hcr
      rintro rfl
      exact absurd (hds '$' List.mem_cons_self) (by decide)
    obtain ⟨htake, hdrop⟩ := takeWhile_digits hds hhex
    rw [literalValue_digits hds] at hmod ⊢
    cases hletter : text.any isHexLetter with
    | true =>
      have hwraps := spelled_wraps text 0
      simp only [hletter, if_true, spelled] at hmod
      rw [Nat.zero_mod, hmod] at hwraps
      exact ⟨text.getLast?.getD c, by
        simp [parseLiteral, hlen', hop', hc, ← hcr, htake, hdrop, hletter, letter, spelled]
        exact hwraps⟩
    | false =>
      -- without a letter the digits are decimal, and read on to the point that does not come
      have hdec : ∀ c ∈ text, isDecDigit c = true := by
        intro d hd
        have hno := List.any_eq_false.mp hletter d hd
        simpa [isHexDigit, hno] using hds d hd
      have hnumber : ∀ c ∈ text, (isDecDigit c || c = '.') = true := by
        intro d hd
        simp [hdec d hd]
      have hend : ∀ c, s.head? = some c → (isDecDigit c || c = '.') = false := by
        intro d hd
        obtain ⟨hd1, hd2⟩ := hs d hd
        have hd1' : isDecDigit d = false := (Bool.or_eq_false_iff.mp hd1).1
        simp [hd1', hd2]
      obtain ⟨htake', hdrop'⟩ := takeWhile_digits hnumber hend
      have hall : text.takeWhile isDecDigit = text := by
        simpa using (@takeWhile_digits isDecDigit text [] hdec (by simp)).1
      exact ⟨text.getLast?.getD c, by
        simp [parseLiteral, hlen', hop', hc, ← hcr, htake, htake', hdrop', hletter, hall, letter]⟩
  · -- behind the dollar sign all digits are hexadecimal
    obtain ⟨rfl, rfl⟩ := List.cons.inj hcr
    obtain ⟨htake, hdrop⟩ := takeWhile_digits hds hhex
    have hwraps := spelled_wraps ds 0
    simp only [literalValue, spelled] at hmod
    rw [Nat.zero_mod, hmod] at hwraps
    exact ⟨ds.getLast?.getD '$', by
      simp [parseLiteral, hlen', hop', htake, hdrop, letter, literalValue, spelled]
      exact hwraps⟩

theorem parseLoop_literal {text s : List Char} {st : Parse} {fuel : Nat} (ht : LiteralText text)
    (hval : (literalValue text : Int) < 2 ^ 31) (hplain : ∀ d ∈ text ++ s, isPlain d = true)
    (hs : ∀ c, s.head? = some c → isHexDigit c = false ∧ c ≠ '.') (hop : st.op ≤ 1)
    (hlen : st.values.length < 26) (hfuel : (text ++ s).length ≤ fuel) :
    ∃ prev fuel', parseLoop fuel st (text ++ s) = parseLoop fuel'
      ⟨prev, 0, st.out ++ [letter st.values.length], st.values ++ [(literalValue text : Int)]⟩ s ∧
      s.length ≤ fuel' := by
  obtain ⟨c, r, hcr, hc⟩ := @LiteralText.head text s ht
  obtain ⟨prev, hlit⟩ := parseLiteral_eq ht hval hs hop hlen hcr
  rw [hcr] at hfuel hplain ⊢
  obtain ⟨n, rfl⟩ := Nat.exists_eq_add_of_le' (Nat.le_trans (by simp) hfuel : 1 ≤ fuel)
  have hchar : (isHexDigit c || c = '$') = true := by
    rcases hc with hc | rfl
    · simp [hc]
    · rfl
  have hop : isOperator c = false := by
    rcases hc with hc | rfl
    · exact isOperator_of_hexDigit hc
    · decide
  have hne : c ≠ '=' ∧ c ≠ '!' := by
    constructor <;> rintro rfl <;> exact absurd hop (by decide)
  have hround : parseRound st (c :: r) = parseLiteral st c r := by
    rw [parseRound, rewrite_eq hplain hne (fun h => absurd h (by simp [hop]))]
    simp only [hchar, if_true]
  refine ⟨prev, n, ?_, ?_⟩
  · rw [parseLoop_succ, hround, hlit]
  · have hlen' := congrArg List.length hcr
    have hpos : 0 < text.length := by
      obtain ⟨ds, hds, -, rfl | rfl⟩ := ht
      · exact List.length_pos_iff.mpr hds
      · exact Nat.succ_pos _
    rw [List.length_append] at hlen'
    omega

/-! ### The whole -/

/-- What a round writes comes before what the rest is parsed to. -/
theorem parsed_step {fuel fuel' : Nat} {st st₁ : Parse} {s' s : List Char} {c : Char}
    {vals : List Int} {cs : Nat → List Char}
    (hstep : parseLoop fuel st s' = parseLoop fuel' st₁ s) (hvalues : st₁.values = st.values)
    (hout : unblanked st₁.out = unblanked st.out ++ [c])
    (h : ∃ st', parseLoop fuel' st₁ s = some st' ∧ st'.values = st₁.values ++ vals ∧
      unblanked st'.out = unblanked st₁.out ++ cs st₁.values.length) :
    ∃ st', parseLoop fuel st s' = some st' ∧ st'.values = st.values ++ vals ∧
      unblanked st'.out = unblanked st.out ++ c :: cs st.values.length := by
  obtain ⟨st', hrun, hvalues', hout'⟩ := h
  rw [hvalues] at hvalues' hout'
  refine ⟨st', hstep.trans hrun, hvalues', ?_⟩
  rw [hout', hout, List.append_assoc]
  rfl

theorem Written.parse {ts : List Token} {s : List Char} (h : Written ts s) :
    ∀ {b : Bool} {st : Parse} {fuel : Nat}, Alternate b ts → s.length ≤ fuel →
      st.op ≤ (if b then 1 else 0) → st.values.length + (literalsOf ts).length ≤ 26 →
      ∃ st', parseLoop fuel st s = some st' ∧ st'.values = st.values ++ literalsOf ts ∧
        unblanked st'.out = unblanked st.out ++ codes st.values.length ts := by
  induction h with
  | nil =>
    intro b st fuel hb _ _ _
    cases b with
    | true => exact hb.elim
    | false => exact ⟨st, by rw [parseLoop], by simp [literalsOf], by simp [codes]⟩
  | @blank ts s h ih =>
    intro b st fuel hb hfuel hop hlen
    obtain ⟨n, rfl⟩ := Nat.exists_eq_add_of_le' (Nat.le_trans (by simp) hfuel : 1 ≤ fuel)
    have hplain := (Written.blank h).isPlain hb
    rw [parseLoop_char hplain ⟨by decide, by decide, by decide, by decide⟩ (fun h => by cases h)]
    obtain ⟨st', hrun, hvalues, hout⟩ := @ih b ⟨' ', st.op, st.out ++ [' '], st.values⟩ n hb
      (Nat.le_of_succ_le_succ hfuel) hop hlen
    refine ⟨st', hrun, hvalues, ?_⟩
    rw [hout, unblanked_append]
    simp [unblanked]
  | @token ts s t h ih =>
    intro b st fuel hb hfuel hop hlen
    have hplain := (Written.token t h).isPlain hb
    have hplain' : ∀ d ∈ s, Calc.isPlain d = true :=
      fun d hd => hplain d (List.mem_append_right _ hd)
    cases t with
    | literal text =>
      cases b with
      | false => exact hb.elim
      | true =>
        obtain ⟨ht, hval, hts⟩ := hb
        have hlen' : st.values.length + ((literalsOf ts).length + 1) ≤ 26 := hlen
        obtain ⟨prev, fuel', hstep, hfuel'⟩ := parseLoop_literal ht hval hplain
          (h.head_operator hts) hop (by omega) hfuel
        obtain ⟨st', hrun, hvalues, hout⟩ := @ih false
          ⟨prev, 0, st.out ++ [letter st.values.length],
          st.values ++ [(literalValue text : Int)]⟩ fuel' hts hfuel' (Nat.le_refl 0)
          (by simp; omega)
        refine ⟨st', hstep.trans hrun, ?_, ?_⟩
        · simp [hvalues, literalsOf]
        · have hletter := (letter_isIdent st.values.length (by omega)).2
          rw [hout, unblanked_append]
          simp [unblanked, hletter, codes]
    | operator op =>
      cases b with
      | true => exact hb.elim
      | false =>
        obtain ⟨st₁, fuel', hstep, hfuel', hvalues₁, hop₁, hout₁⟩ :=
          parseLoop_operator op hplain' (h.head_operand hb) hfuel
        have hop' : st₁.op ≤ 1 := by
          rw [hop₁, Nat.le_zero.mp hop]
          split <;> decide
        exact @parsed_step _ _ _ _ _ _ _ _ (codes · ts) hstep hvalues₁ hout₁
          (@ih true st₁ fuel' hb hfuel' hop' (hvalues₁ ▸ hlen))
    | query =>
      cases b with
      | true => exact hb.elim
      | false =>
        obtain ⟨st₁, fuel', hstep, hfuel', hvalues₁, hop₁, hout₁⟩ :=
          @parseLoop_single '?' s st fuel hplain (by decide) (by decide)
            (fun _ => h.head_operand hb) hfuel
        have hop' : st₁.op ≤ 1 := hop₁.trans_le (Nat.succ_le_succ hop)
        exact @parsed_step _ _ _ _ _ _ _ _ (codes · ts) hstep hvalues₁ hout₁
          (@ih true st₁ fuel' hb hfuel' hop' (hvalues₁ ▸ hlen))
    | colon =>
      cases b with
      | true => exact hb.elim
      | false =>
        obtain ⟨st₁, fuel', hstep, hfuel', hvalues₁, hop₁, hout₁⟩ :=
          @parseLoop_single ':' s st fuel hplain (by decide) (by decide)
            (fun _ => h.head_operand hb) hfuel
        have hop' : st₁.op ≤ 1 := hop₁.trans_le (Nat.succ_le_succ hop)
        exact @parsed_step _ _ _ _ _ _ _ _ (codes · ts) hstep hvalues₁ hout₁
          (@ih true st₁ fuel' hb hfuel' hop' (hvalues₁ ▸ hlen))
    | lparen =>
      cases b with
      | false => exact hb.elim
      | true =>
        obtain ⟨st₁, fuel', hstep, hfuel', hvalues₁, hop₁, hout₁⟩ :=
          @parseLoop_single '(' s st fuel hplain (by decide) (by decide)
            (fun h => by cases h) hfuel
        exact @parsed_step _ _ _ _ _ _ _ _ (codes · ts) hstep hvalues₁ hout₁
          (@ih true st₁ fuel' hb hfuel' (hop₁.trans_le hop) (hvalues₁ ▸ hlen))
    | rparen =>
      cases b with
      | true => exact hb.elim
      | false =>
        obtain ⟨st₁, fuel', hstep, hfuel', hvalues₁, hop₁, hout₁⟩ :=
          @parseLoop_single ')' s st fuel hplain (by decide) (by decide)
            (fun h => by cases h) hfuel
        exact @parsed_step _ _ _ _ _ _ _ _ (codes · ts) hstep hvalues₁ hout₁
          (@ih false st₁ fuel' hb hfuel' (hop₁.trans_le hop) (hvalues₁ ▸ hlen))

theorem parseValues_written {ts : List Token} {s : List Char} (h : Written ts s)
    (hts : Alternate true ts) (hlen : (literalsOf ts).length ≤ 26) :
    ∃ out, parseValues s = some (out, literalsOf ts) ∧ unblanked out = codes 0 ts := by
  have hsign : ¬ (s.head? = some '-' ∨ s.head? = some '+') := by
    rintro (hc | hc) <;> exact absurd (h.head_operand hts _ hc) (by decide)
  obtain ⟨st, hrun, hvalues, hout⟩ := @Written.parse ts s h true ⟨' ', 0, [], []⟩ s.length hts
    (Nat.le_refl _) (Nat.zero_le 1) (by simpa using hlen)
  refine ⟨st.out, ?_, by simpa [unblanked] using hout⟩
  rw [parseValues, if_neg hsign, hrun]
  simp [hvalues]

end LibretroUae.Calc
