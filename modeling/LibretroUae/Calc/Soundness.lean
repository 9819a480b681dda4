import LibretroUae.Calc.Parsed

/-!
# LibretroUae.Calc.Soundness

**Evaluation is sound where it looks at results.** The shunting yard turns the tokens of an
expression into its reverse Polish notation, in which `:` is an operator of one argument and `?`
one of three, as long as no conditional stands bare between `?` and `:`. The stack machine then
leaves the value of the expression, as long as every condition is a result and not a literal, and
every remainder is zero.
-/

namespace LibretroUae.Calc

namespace Expr

/-- All operators have one character below 128. -/
def Short : Expr → Prop
  | lit _ => True
  | paren e => e.Short
  | bin op l r => isOperator op.code = true ∧ l.Short ∧ r.Short
  | cond c a b => c.Short ∧ a.Short ∧ b.Short

/-- A literal is not compound, with parentheses around it or not. -/
def compound : Expr → Bool
  | lit _ => false
  | paren e => e.compound
  | bin _ _ _ => true
  | cond _ _ _ => true

/-- No conditional stands bare between `?` and `:`. -/
def Flat : Expr → Prop
  | lit _ => True
  | paren e => e.Flat
  | bin _ l r => l.Flat ∧ r.Flat
  | cond c a b => opPreced '?' < a.level ∧ c.Flat ∧ a.Flat ∧ b.Flat

/-- Every remainder is zero, and every condition is compound, except that of a conditional which is
the last operand of another one. -/
def Results : Bool → Expr → Prop
  | _, lit _ => True
  | _, paren e => e.Results false
  | _, bin op l r => (op = .rem → op.apply l.value r.value = 0) ∧ l.Results false ∧ r.Results false
  | last, cond c a b =>
    (last = true ∨ c.compound = true) ∧ c.Results false ∧ a.Results false ∧ b.Results true

/-- An operator is written with its highest bit set, or the expression is evaluated as it should
be. -/
def CalcOk (e : Expr) : Prop :=
  ¬ e.Short ∨ (e.Flat ∧ e.Results false ∧ (e.compound = true ∨ e.value = 0))

/-! ### Reverse Polish notation -/

/-- The operator of one argument behind a last operand. -/
def colon (last : Bool) : List Char := if last then [':'] else []

/-- The operands of a conditional come before `?`. The last one is followed by `:`, its condition
if it is a conditional. -/
def rpn : Bool → Nat → Expr → List Char
  | last, k, lit _ => letter k :: colon last
  | last, k, paren e => rpn false k e ++ colon last
  | last, k, bin op l r =>
    rpn false k l ++ rpn false (k + l.literals.length) r ++ op.code :: colon last
  | last, k, cond c a b =>
    rpn false k c ++ colon last ++ rpn false (k + c.literals.length) a ++
      rpn true (k + c.literals.length + a.literals.length) b ++ ['?']

end Expr

/-! ### The shunting yard -/

theorem foldlM_unblanked {s : List Char} {y y' : Yard} (h : s.foldlM yardRound y = some y') :
    (unblanked s).foldlM yardRound y = some y' := by
  induction s generalizing y with
  | nil => exact h
  | cons c s ih =>
    rw [List.foldlM_cons] at h
    obtain ⟨y₁, hround, hrest⟩ := Option.bind_eq_some_iff.mp h
    by_cases hc : c = ' '
    · subst hc
      have hsame : y = y₁ := by
        rw [yardRound] at hround
        split at hround
        · cases hround
        · simpa using hround
      simpa [unblanked, hsame] using ih hrest
    · have hfilter : unblanked (c :: s) = c :: unblanked s := by simp [unblanked, hc]
      rw [hfilter, List.foldlM_cons, hround]
      exact ih hrest

/-- The stack lets operators of a precedence wait on it, and no function waits. -/
def Blocks (stack : List Char) (level : Int) : Prop :=
  ∀ t, stack.head? = some t → isFunction t = false ∧
    ∀ c, isOperator c = true → level ≤ opPreced c → pops c t = false

/-- Operators that wait, none before a precedence. -/
def Waiting (p : List Char) (level : Int) : Prop :=
  ∀ c ∈ p, isOperator c = true ∧ level ≤ opPreced c

theorem isOperator_chars {c : Char} (h : isOperator c = true) :
    c ≠ ' ' ∧ isIdent c = false ∧ isFunction c = false ∧ c ≠ ',' ∧ c ≠ '(' ∧ c ≠ ')' := by
  rw [isOperator_iff] at h
  simp only [List.mem_cons, List.not_mem_nil, or_false] at h
  rcases h with rfl | rfl | rfl | rfl | rfl | rfl | rfl | rfl | rfl | rfl | rfl | rfl | rfl |
    rfl | rfl <;> decide

/-- What an operator takes off: all that wait for it, and nothing below. -/
theorem takeWhile_pops {p s : List Char} {c : Char} {level : Int} (hc : isOperator c = true)
    (hp : ∀ d ∈ p, pops c d = true) (hs : Blocks s level) (hlevel : level ≤ opPreced c) :
    (p ++ s).takeWhile (pops c) = p ∧ (p ++ s).dropWhile (pops c) = s :=
  takeWhile_digits hp fun t ht => (hs t ht).2 c hc hlevel

theorem yardRound_operator {y y' : Yard} {c : Char} (hc : isOperator c = true)
    (h : yardRound y c = some y') :
    y' = ⟨y.out ++ y.stack.takeWhile (pops c), c :: y.stack.dropWhile (pops c)⟩ := by
  obtain ⟨h1, h2, h3, h4, -, -⟩ := isOperator_chars hc
  simp only [yardRound, h1, h2, h3, h4, hc, if_true, if_false, Bool.false_eq_true] at h
  split at h
  · cases h
  · exact (Option.some.inj h).symm

theorem yardRound_ident {y y' : Yard} {c : Char} (hc : isIdent c = true ∧ c ≠ ' ')
    (h : yardRound y c = some y') : y' = { y with out := y.out ++ [c] } := by
  simp only [yardRound, hc.1, hc.2, if_true, if_false] at h
  split at h
  · cases h
  · exact (Option.some.inj h).symm

theorem yardRound_lparen {y y' : Yard} (h : yardRound y '(' = some y') :
    y' = { y with stack := '(' :: y.stack } := by
  rw [yardRound] at h
  split at h
  · cases h
  · exact (Option.some.inj h).symm

theorem yardRound_rparen {out p s : List Char} {y' : Yard} (hp : ∀ d ∈ p, d ≠ '(')
    (hs : ∀ t, s.head? = some t → isFunction t = false)
    (h : yardRound ⟨out, p ++ '(' :: s⟩ ')' = some y') : y' = ⟨out ++ p, s⟩ := by
  have hp' : ∀ d ∈ p, (decide (d ≠ '(')) = true := fun d hd => decide_eq_true (hp d hd)
  obtain ⟨htake, hdrop⟩ := @takeWhile_digits (fun d => decide (d ≠ '(')) p ('(' :: s) hp'
    (by rintro c ⟨⟩; rfl)
  have hfun : s.head?.any isFunction = false := by
    cases s with
    | nil => rfl
    | cons t s => exact hs t rfl
  rw [yardRound] at h
  split at h
  · cases h
  · simp only [hdrop, htake, hfun] at h
    exact (Option.some.inj h).symm

theorem two_le_of_leftAssoc {c : Char} (h : opLeftAssoc c = true) : 2 ≤ opPreced c := by
  have hmem : c ∈ ['*', '/', '%', '+', '-', '|', '&', '^'] := by simpa [opLeftAssoc] using h
  simp only [List.mem_cons, List.not_mem_nil, or_false] at hmem
  rcases hmem with rfl | rfl | rfl | rfl | rfl | rfl | rfl | rfl <;> decide

theorem blocks_operator {t : Char} {s : List Char} {level : Int} (ht : isOperator t = true)
    (hlevel : opPreced t < level ∨ (opPreced t = level ∧ level < 2)) : Blocks (t :: s) level := by
  rintro u ⟨⟩
  refine ⟨(isOperator_chars ht).2.2.1, fun c _ hc => ?_⟩
  cases hleft : opLeftAssoc c with
  | true =>
    have htwo := two_le_of_leftAssoc hleft
    have hnot : ¬ opPreced c ≤ opPreced t := by omega
    simp [pops, hleft, hnot]
  | false =>
    have hnot : ¬ opPreced c < opPreced t := by omega
    simp [pops, hleft, hnot]

theorem blocks_lparen (s : List Char) (level : Int) : Blocks ('(' :: s) level := by
  rintro u ⟨⟩
  exact ⟨by decide, fun c _ _ => by simp [pops, show isOperator '(' = false by decide]⟩

theorem Blocks.mono {s : List Char} {level level' : Int} (h : Blocks s level)
    (hle : level ≤ level') : Blocks s level' :=
  fun t ht => ⟨(h t ht).1, fun c hc hc' => (h t ht).2 c hc (Int.le_trans hle hc')⟩

theorem Waiting.pops {p : List Char} {level : Int} (h : Waiting p level) {c : Char}
    (hc : opPreced c < level ∨ (opLeftAssoc c = true ∧ opPreced c ≤ level)) :
    ∀ d ∈ p, pops c d = true := by
  intro d hd
  obtain ⟨hop, hle⟩ := h d hd
  rcases hc with hc | ⟨hleft, hc⟩
  · have hlt : opPreced c < opPreced d := Int.lt_of_lt_of_le hc hle
    simp [Calc.pops, hop, hlt, Int.le_of_lt hlt]
  · have hle' : opPreced c ≤ opPreced d := Int.le_trans hc hle
    simp [Calc.pops, hop, hleft, hle']

theorem Waiting.append {p q : List Char} {level level' : Int} (hp : Waiting p level)
    (hq : Waiting q level') (hle : level' ≤ level) : Waiting (p ++ q) level' := by
  intro c hc
  rcases List.mem_append.mp hc with hc | hc
  · exact ⟨(hp c hc).1, Int.le_trans hle (hp c hc).2⟩
  · exact hq c hc

theorem foldlM_append_some {α σ : Type} {f : σ → α → Option σ} {l l' : List α} {x z : σ}
    (h : (l ++ l').foldlM f x = some z) :
    ∃ y, l.foldlM f x = some y ∧ l'.foldlM f y = some z := by
  rw [List.foldlM_append] at h
  exact Option.bind_eq_some_iff.mp h

theorem foldlM_cons_some {α σ : Type} {f : σ → α → Option σ} {a : α} {l : List α} {x z : σ}
    (h : (a :: l).foldlM f x = some z) : ∃ y, f x a = some y ∧ l.foldlM f y = some z := by
  rw [List.foldlM_cons] at h
  exact Option.bind_eq_some_iff.mp h

theorem Expr.codes_tokens (e : Expr) (k : Nat) (ts : List Token) :
    codes k (e.tokens ++ ts) = codes k e.tokens ++ codes (k + e.literals.length) ts := by
  rw [codes_append, e.literalsOf_tokens]

theorem Op.query_lt (op : Op) : opPreced '?' < opPreced op.code := by
  cases op <;> decide

theorem Expr.one_le_level {e : Expr} (h : opPreced '?' < e.level) : 1 ≤ e.level := by
  cases e with
  | lit text => simp [level]
  | paren e => simp [level]
  | bin op l r => cases op <;> simp [level, Op.code] <;> decide
  | cond c a b => exact absurd h (Int.lt_irrefl _)

/-- The tokens of an expression leave its reverse Polish notation, written or waiting. -/
def Shunted (last : Bool) (e : Expr) : Prop :=
  ∀ (k : Nat) (out s : List Char) (y : Yard), k + e.literals.length ≤ 26 →
    (if last then ∃ s', s = '?' :: s' else Blocks s e.level) →
    (codes k e.tokens).foldlM yardRound ⟨out, Expr.colon last ++ s⟩ = some y →
    ∃ o p, y = ⟨out ++ o, p ++ s⟩ ∧ o ++ p = e.rpn last k ∧
      Waiting p (if last then opPreced '?' else e.level)

theorem Shunted.last {e : Expr} (h : Shunted false e) (hlevel : opPreced '?' < e.level)
    (hrpn : ∀ k, e.rpn true k = e.rpn false k ++ [':']) : Shunted true e := by
  intro k out s y hk hs hrun
  have hone := Expr.one_le_level hlevel
  have hcolon : opPreced ':' = -1 := by decide
  have hquery : opPreced '?' = -2 := by decide
  obtain ⟨o, p, rfl, hop, hp⟩ := h k out (':' :: s) y hk
    (blocks_operator (by decide) (Or.inl (by omega))) hrun
  refine ⟨o, p ++ [':'], by simp, by rw [hrpn, ← hop, List.append_assoc], ?_⟩
  have hwait : Waiting [':'] (opPreced '?') := by
    intro c hc
    rw [List.mem_singleton.mp hc]
    decide
  exact Waiting.append hp hwait (Int.le_of_lt hlevel)

theorem shunted_lit (text : List Char) : Shunted false (.lit text) := by
  intro k out s y hk _ hrun
  obtain ⟨y₁, hround, hrun⟩ := foldlM_cons_some hrun
  obtain rfl := Option.some.inj hrun
  have hk' : k + 1 ≤ 26 := hk
  obtain rfl := yardRound_ident (letter_isIdent k hk') hround
  exact ⟨[letter k], [], rfl, rfl, fun c hc => by cases hc⟩

theorem shunted_paren {e : Expr} (h : Shunted false e) : Shunted false (.paren e) := by
  intro k out s y hk hs hrun
  have hcodes : codes k (Expr.paren e).tokens = '(' :: (codes k e.tokens ++ [')']) := by
    rw [Expr.tokens, List.cons_append, codes, e.codes_tokens]
    rfl
  rw [hcodes] at hrun
  obtain ⟨y₁, hround, hrun⟩ := foldlM_cons_some hrun
  obtain rfl := yardRound_lparen hround
  obtain ⟨y₂, hin, hrun⟩ := foldlM_append_some hrun
  obtain ⟨o, p, rfl, hop, hp⟩ := h k out ('(' :: s) y₂ hk (blocks_lparen s e.level) hin
  obtain ⟨y₃, hround', hrun⟩ := foldlM_cons_some hrun
  obtain rfl := Option.some.inj hrun
  obtain rfl := yardRound_rparen (fun d hd => (isOperator_chars (hp d hd).1).2.2.2.2.1)
    (fun t ht => (hs t ht).1) hround'
  refine ⟨o ++ p, [], by simp, ?_, fun c hc => by cases hc⟩
  rw [List.append_nil, hop]
  simp [Expr.rpn, Expr.colon]

theorem shunted_bin {op : Op} {l r : Expr} (hl : Shunted false l) (hr : Shunted false r)
    (hop : isOperator op.code = true)
    (hgroup : if opLeftAssoc op.code then opPreced op.code ≤ l.level ∧ opPreced op.code < r.level
      else opPreced op.code < l.level ∧ opPreced op.code ≤ r.level) :
    Shunted false (.bin op l r) := by
  intro k out s y hk hs hrun
  have hk' : k + (l.literals.length + r.literals.length) ≤ 26 := by
    simpa [Expr.literals] using hk
  have hs' : Blocks s (opPreced op.code) := hs
  have hlevels : opPreced op.code ≤ l.level ∧
      (opPreced op.code < l.level ∨ (opLeftAssoc op.code = true ∧ opPreced op.code ≤ l.level)) ∧
      (opPreced op.code < r.level ∨ (opPreced op.code = r.level ∧ r.level < 2)) := by
    cases hleft : opLeftAssoc op.code with
    | true =>
      simp only [hleft, if_true] at hgroup
      exact ⟨hgroup.1, Or.inr ⟨rfl, hgroup.1⟩, Or.inl hgroup.2⟩
    | false =>
      have htwo : opPreced op.code < 2 := by
        cases op <;> first | decide | exact absurd hleft (by decide)
      simp only [hleft, Bool.false_eq_true, if_false] at hgroup
      refine ⟨Int.le_of_lt hgroup.1, Or.inl hgroup.1, ?_⟩
      rcases Int.lt_or_eq_of_le hgroup.2 with hlt | heq
      · exact Or.inl hlt
      · exact Or.inr ⟨heq, heq ▸ htwo⟩
  obtain ⟨hle, hleft, hright⟩ := hlevels
  rw [Expr.tokens, l.codes_tokens, codes] at hrun
  obtain ⟨y₁, hrunl, hrun⟩ := foldlM_append_some hrun
  obtain ⟨ol, pl, rfl, hopl, hpl⟩ := hl k out s y₁ (by omega) (hs'.mono hle) hrunl
  obtain ⟨y₂, hround, hrunr⟩ := foldlM_cons_some hrun
  -- what waits of the left operand is written before the operator waits
  obtain ⟨htake, hdrop⟩ := takeWhile_pops hop (hpl.pops hleft) hs' (Int.le_refl _)
  obtain rfl := yardRound_operator hop hround
  simp only [htake, hdrop] at hrunr
  obtain ⟨or, pr, rfl, hopr, hpr⟩ := hr (k + l.literals.length) _ (op.code :: s) y (by omega)
    (blocks_operator hop hright) hrunr
  refine ⟨ol ++ pl ++ or, pr ++ [op.code], by simp, ?_, ?_⟩
  · rw [hopl, List.append_assoc, ← List.append_assoc or, hopr]
    simp [Expr.rpn, Expr.colon]
  · have hwait : Waiting [op.code] (opPreced op.code) := by
      intro c hc
      rw [List.mem_singleton.mp hc]
      exact ⟨hop, Int.le_refl _⟩
    refine Waiting.append hpr hwait ?_
    rcases hright with hright | hright
    · exact Int.le_of_lt hright
    · exact Int.le_of_eq hright.1

theorem shunted_cond {c a b : Expr} (hc : Shunted false c) (ha : Shunted false a)
    (hb : Shunted true b) (hlc : opPreced '?' < c.level) (hla : opPreced '?' < a.level)
    (last : Bool) : Shunted last (.cond c a b) := by
  intro k out s y hk hs hrun
  have hcolon : opPreced ':' = -1 := by decide
  have hquery : opPreced '?' = -2 := by decide
  have honec := Expr.one_le_level hlc
  have honea := Expr.one_le_level hla
  have hk' : k + (c.literals.length + (a.literals.length + b.literals.length)) ≤ 26 := by
    simpa [Expr.literals] using hk
  have hs' : Blocks s (opPreced '?') := by
    cases last with
    | false => exact hs
    | true =>
      obtain ⟨s', rfl⟩ := hs
      exact blocks_operator (by decide) (Or.inr ⟨rfl, by decide⟩)
  have hsc : Blocks (Expr.colon last ++ s) c.level := by
    cases last with
    | false => exact hs'.mono (Int.le_of_lt hlc)
    | true => exact blocks_operator (by decide) (Or.inl (by omega))
  have hcodes : codes k (Expr.cond c a b).tokens = codes k c.tokens ++ '?' ::
      (codes (k + c.literals.length) a.tokens ++ ':' ::
        codes (k + c.literals.length + a.literals.length) b.tokens) := by
    rw [Expr.tokens, List.append_assoc, List.cons_append, c.codes_tokens, codes, a.codes_tokens,
      codes]
  rw [hcodes] at hrun
  obtain ⟨y₁, hrunc, hrun⟩ := foldlM_append_some hrun
  obtain ⟨oc, pc, rfl, hopc, hpc⟩ := hc k out _ y₁ (by omega) hsc hrunc
  obtain ⟨y₂, hround, hrun⟩ := foldlM_cons_some hrun
  -- the condition, and the colon before a last operand, are written
  have hpc' : ∀ d ∈ pc ++ Expr.colon last, pops '?' d = true := by
    intro d hd
    rcases List.mem_append.mp hd with hd | hd
    · exact hpc.pops (Or.inl hlc) d hd
    · cases last with
      | false => cases hd
      | true =>
        rw [List.mem_singleton.mp hd]
        decide
  obtain ⟨htake, hdrop⟩ := takeWhile_pops (by decide) hpc' hs' (Int.le_refl _)
  obtain rfl := yardRound_operator (by decide) hround
  rw [← List.append_assoc] at hrun
  simp only [htake, hdrop] at hrun
  obtain ⟨y₃, hruna, hrun⟩ := foldlM_append_some hrun
  obtain ⟨oa, pa, rfl, hopa, hpa⟩ := ha (k + c.literals.length) _ ('?' :: s) y₃ (by omega)
    (blocks_operator (by decide) (Or.inl hla)) hruna
  obtain ⟨y₄, hround', hrunb⟩ := foldlM_cons_some hrun
  have hlt : opPreced ':' < a.level := by omega
  have hpa' : ∀ d ∈ pa, pops ':' d = true := @Waiting.pops pa a.level hpa ':' (Or.inl hlt)
  -- the colon stops at the question mark of its own conditional
  have hquery' : Blocks ('?' :: s) (opPreced ':') :=
    blocks_operator (by decide) (Or.inl (by decide))
  obtain ⟨htake', hdrop'⟩ := takeWhile_pops (by decide) hpa' hquery' (Int.le_refl _)
  obtain rfl := yardRound_operator (by decide) hround'
  simp only [htake', hdrop'] at hrunb
  obtain ⟨ob, pb, rfl, hopb, hpb⟩ := hb (k + c.literals.length + a.literals.length) _ ('?' :: s) y
    (by omega) ⟨s, rfl⟩ hrunb
  refine ⟨oc ++ (pc ++ Expr.colon last) ++ oa ++ pa ++ ob, pb ++ ['?'], by simp, ?_, ?_⟩
  · calc oc ++ (pc ++ Expr.colon last) ++ oa ++ pa ++ ob ++ (pb ++ ['?'])
        = (oc ++ pc) ++ Expr.colon last ++ (oa ++ pa) ++ (ob ++ pb) ++ ['?'] := by simp
      _ = (Expr.cond c a b).rpn last k := by rw [hopc, hopa, hopb]; rfl
  · have hwait : Waiting ['?'] (opPreced '?') := by
      intro d hd
      rw [List.mem_singleton.mp hd]
      decide
    have hlevel : (if last then opPreced '?' else (Expr.cond c a b).level) = opPreced '?' := by
      cases last <;> rfl
    rw [hlevel]
    exact Waiting.append hpb hwait (Int.le_refl _)

theorem shunted {e : Expr} : e.WellFormed → e.Short → e.Flat → ∀ last, Shunted last e := by
  induction e with
  | lit text =>
    intro _ _ _ last
    cases last with
    | false => exact shunted_lit text
    | true => exact (shunted_lit text).last (show opPreced '?' < 5 by decide) fun k => rfl
  | paren e ih =>
    intro hw hshort hflat last
    have hparen := shunted_paren (ih hw hshort hflat false)
    cases last with
    | false => exact hparen
    | true =>
      exact hparen.last (show opPreced '?' < 5 by decide) fun k => by simp [Expr.rpn, Expr.colon]
  | bin op l r ihl ihr =>
    rintro ⟨hwl, hwr, hgroup⟩ ⟨hop, hsl, hsr⟩ ⟨hfl, hfr⟩ last
    have hbin := shunted_bin (ihl hwl hsl hfl false) (ihr hwr hsr hfr false) hop hgroup
    cases last with
    | false => exact hbin
    | true =>
      exact hbin.last op.query_lt fun k => by simp [Expr.rpn, Expr.colon]
  | cond c a b ihc iha ihb =>
    rintro ⟨hwc, hwa, hwb, hlc⟩ ⟨hsc, hsa, hsb⟩ ⟨hla, hfc, hfa, hfb⟩ last
    exact shunted_cond (ihc hwc hsc hfc false) (iha hwa hsa hfa false) (ihb hwb hsb hfb true)
      hlc hla last

/-! ### The stack machine -/

theorem int32_eq {v : Int} (h : -2 ^ 31 ≤ v ∧ v < 2 ^ 31) : int32 v = v := by
  rw [int32, BitVec.toInt_ofInt, Int.bmod_def]
  omega

theorem docalcx_apply {op : Op} {v w : Int} (hop : isOperator op.code = true)
    (hv : -2 ^ 31 ≤ v ∧ v < 2 ^ 31) (hw : -2 ^ 31 ≤ w ∧ w < 2 ^ 31)
    (hrem : op = .rem → op.apply v w = 0) : (docalcx op.code v w).getD 0 = op.apply v w := by
  have hv' := int32_eq hv
  have hw' := int32_eq hw
  have hlt : '<' ≠ highBit '@' := by decide
  have hgt : '>' ≠ highBit '@' := by decide
  cases op with
  | rem => exact (hrem rfl).symm
  | ne => exact absurd hop (by decide)
  | shl => exact absurd hop (by decide)
  | shr => exact absurd hop (by decide)
  | _ => simp [docalcx, Op.code, Op.apply, hv', hw', hlt, hgt, truth]

theorem Expr.Fits.value {e : Expr} (h : e.Fits) : -2 ^ 31 ≤ e.value ∧ e.value < 2 ^ 31 := by
  induction e with
  | lit text =>
    have hlt : (literalValue text : Int) < 2 ^ 31 := h
    simp only [Expr.value]
    omega
  | paren e ih => exact ih h
  | bin op l r => exact h.2.2
  | cond c a b ihc iha ihb =>
    rw [Expr.value]
    split
    · exact iha h.2.1
    · exact ihb h.2.2

theorem Op.argCount (op : Op) : opArgCount op.code = 2 := by
  cases op <;> decide

section

variable {values : List Int}

theorem executeRound_operator {m m' : Machine} {c : Char} (hc : isOperator c = true)
    (h : executeRound values m c = some m') :
    opArgCount c ≤ m.sl ∧ m' = ⟨Function.update m.stack (m.sl - opArgCount c)
      ⟨none, operate values m c⟩, m.sl - opArgCount c + 1, operate values m c⟩ := by
  obtain ⟨-, hident, hfun, -⟩ := isOperator_chars hc
  simp only [executeRound, hident, hfun, hc, Bool.false_eq_true, if_false, Bool.true_or,
    if_true] at h
  split at h
  · cases h
  · split at h
    · cases h
    · rename_i hsl
      exact ⟨Nat.le_of_not_lt hsl, (Option.some.inj h).symm⟩

/-- One more slot is in use and holds a value; `val` is that value if it is a result, and what it
was if it is a literal. -/
structure Leaves (values : List Int) (m m' : Machine) (v : Int) (result : Bool) : Prop where
  sl : m'.sl = m.sl + 1
  below : ∀ i < m.sl, m'.stack i = m.stack i
  value : stackToVal values (m'.stack m.sl) = v
  isResult : result = true → (m'.stack m.sl).val = v ∧ m'.val = v
  isLiteral : result = false → m'.val = m.val

/-- The result of an operator takes the place of its first operand. -/
theorem leaves_result {m m₁ : Machine} {v : Int} {n : Nat} (hsl : m₁.sl = m.sl + n)
    (hbelow : ∀ i < m.sl, m₁.stack i = m.stack i) :
    Leaves values m ⟨Function.update m₁.stack (m₁.sl - n) ⟨none, v⟩, m₁.sl - n + 1, v⟩ v true := by
  have hplace : m₁.sl - n = m.sl := by omega
  rw [hplace]
  refine ⟨rfl, fun i hi => ?_, ?_, fun _ => ⟨?_, rfl⟩, fun h => by cases h⟩
  · exact (Function.update_of_ne (Nat.ne_of_lt hi) _ _).trans (hbelow i hi)
  · simp [stackToVal]
  · simp

theorem Leaves.colon {m m₁ m' : Machine} {v : Int} {result : Bool}
    (h : Leaves values m m₁ v result) (last : Bool)
    (hrun : (Expr.colon last).foldlM (executeRound values) m₁ = some m') :
    Leaves values m m' v (last || result) := by
  cases last with
  | false =>
    obtain rfl := Option.some.inj hrun
    exact h
  | true =>
    obtain ⟨m₂, hround, hrun⟩ := foldlM_cons_some hrun
    obtain rfl := Option.some.inj hrun
    obtain ⟨-, rfl⟩ := executeRound_operator (by decide) hround
    have hval : operate values m₁ ':' = v := by
      have hplace : m₁.sl - 1 = m.sl := by rw [h.sl]; rfl
      have hcolon : docalcx ':' v m₁.val = some v := by simp [docalcx, highBit]
      rw [operate, show opArgCount ':' = 1 by decide, hplace, h.value, hcolon]
      rfl
    rw [hval, show opArgCount ':' = 1 by decide]
    exact leaves_result h.sl h.below

theorem leaves_lit {k : Nat} {m m' : Machine} {v : Int} {post : List Int} (hk : k < 26)
    (hvalues : values.drop k = v :: post)
    (h : executeRound values m (letter k) = some m') : Leaves values m m' v false := by
  have hident := (letter_isIdent k hk).1
  obtain ⟨hletter, hplace⟩ := letter_place k hk
  have hv : values[k]? = some v := by
    rw [← List.head?_drop, hvalues]
    rfl
  rw [executeRound, if_pos hident] at h
  split at h
  · cases h
  · obtain rfl := Option.some.inj h
    refine ⟨rfl, fun i hi => Function.update_of_ne (Nat.ne_of_lt hi) _ _, ?_,
      fun h => (by cases h), fun _ => rfl⟩
    simp only [Function.update_self, stackToVal, hletter, hplace]
    simp [hv]

theorem executed {e : Expr} : ∀ {last : Bool} {k : Nat} {m m' : Machine} {post : List Int},
    e.Fits → e.Short → e.Results last → k + e.literals.length ≤ 26 →
      values.drop k = e.literals ++ post →
      (e.rpn last k).foldlM (executeRound values) m = some m' →
      Leaves values m m' e.value (last || e.compound) := by
  induction e with
  | lit text =>
    intro last k m m' post _ _ _ hk hvalues hrun
    obtain ⟨m₁, hround, hrun⟩ := foldlM_cons_some hrun
    exact (leaves_lit hk hvalues hround).colon last hrun
  | paren e ih =>
    intro last k m m' post hf hshort hres hk hvalues hrun
    obtain ⟨m₁, hrun, hcolon⟩ := foldlM_append_some hrun
    exact (@ih false k m m₁ post hf hshort hres hk hvalues hrun).colon last hcolon
  | bin op l r ihl ihr =>
    rintro last k m m' post ⟨hfl, hfr, hfit⟩ ⟨hop, hsl, hsr⟩ ⟨hrem, hresl, hresr⟩ hk hvalues hrun
    have hk' : k + (l.literals.length + r.literals.length) ≤ 26 := by
      simpa [Expr.literals] using hk
    have hvl : values.drop k = l.literals ++ (r.literals ++ post) := by
      rw [hvalues, Expr.literals, List.append_assoc]
    have hvr : values.drop (k + l.literals.length) = r.literals ++ post := by
      rw [← List.drop_drop, hvl, List.drop_left]
    obtain ⟨m₂, hrun, hrest⟩ := foldlM_append_some hrun
    obtain ⟨m₁, hrunl, hrunr⟩ := foldlM_append_some hrun
    have hl := @ihl false k m m₁ _ hfl hsl hresl (by omega) hvl hrunl
    have hr := @ihr false (k + l.literals.length) m₁ m₂ post hfr hsr hresr (by omega) hvr hrunr
    obtain ⟨m₃, hround, hcolon⟩ := foldlM_cons_some hrest
    obtain ⟨-, rfl⟩ := executeRound_operator hop hround
    have hsl₂ : m₂.sl = m.sl + 2 := by rw [hr.sl, hl.sl]
    have hbelow : ∀ i < m.sl, m₂.stack i = m.stack i := fun i hi =>
      (hr.below i (by rw [hl.sl]; omega)).trans (hl.below i hi)
    -- the right operand left the slot of the left one alone
    have hval : operate values m₂ op.code = (Expr.bin op l r).value := by
      have hfirst : m₂.stack (m₂.sl - 2) = m₁.stack m.sl := by
        rw [hsl₂, Nat.add_sub_cancel]
        exact hr.below m.sl (by rw [hl.sl]; omega)
      have hsecond : m₂.sl - 1 = m₁.sl := by rw [hr.sl]; rfl
      rw [operate, op.argCount]
      simp only [hfirst, hsecond, hl.value, hr.value]
      exact docalcx_apply hop hfl.value hfr.value hrem
    rw [hval, op.argCount] at hcolon
    exact (leaves_result hsl₂ hbelow).colon last hcolon
  | cond c a b ihc iha ihb =>
    rintro last k m m' post ⟨hfc, hfa, hfb⟩ ⟨hsc, hsa, hsb⟩ ⟨hcond, hresc, hresa, hresb⟩ hk hvalues
      hrun
    have hk' : k + (c.literals.length + (a.literals.length + b.literals.length)) ≤ 26 := by
      simpa [Expr.literals] using hk
    have hvc : values.drop k = c.literals ++ (a.literals ++ (b.literals ++ post)) := by
      simp [hvalues, Expr.literals]
    have hva : values.drop (k + c.literals.length) = a.literals ++ (b.literals ++ post) := by
      rw [← List.drop_drop, hvc, List.drop_left]
    have hvb : values.drop (k + c.literals.length + a.literals.length) = b.literals ++ post := by
      rw [← List.drop_drop, hva, List.drop_left]
    obtain ⟨m₃, hrun, hrest⟩ := foldlM_append_some hrun
    obtain ⟨m₂, hrun, hrunb⟩ := foldlM_append_some hrun
    obtain ⟨m₁, hrun, hruna⟩ := foldlM_append_some hrun
    obtain ⟨m₀, hrunc, hcolon⟩ := foldlM_append_some hrun
    have hc := (@ihc false k m m₀ _ hfc hsc hresc (by omega) hvc hrunc).colon last hcolon
    have ha := @iha false (k + c.literals.length) m₁ m₂ _ hfa hsa hresa (by omega) hva hruna
    have hb := @ihb true _ m₂ m₃ post hfb hsb hresb (by omega) hvb hrunb
    obtain ⟨m₄, hround, hrun⟩ := foldlM_cons_some hrest
    obtain rfl := Option.some.inj hrun
    obtain ⟨-, rfl⟩ := executeRound_operator (by decide) hround
    have hsl₃ : m₃.sl = m.sl + 3 := by rw [hb.sl, ha.sl, hc.sl]
    have hbelow : ∀ i < m.sl, m₃.stack i = m.stack i := fun i hi =>
      ((hb.below i (by rw [ha.sl, hc.sl]; omega)).trans
        (ha.below i (by rw [hc.sl]; omega))).trans (hc.below i hi)
    have hval : operate values m₃ '?' = (Expr.cond c a b).value := by
      have hfirst : m₃.stack (m₃.sl - 3) = m₁.stack m.sl := by
        rw [hsl₃, Nat.add_sub_cancel]
        exact (hb.below m.sl (by rw [ha.sl, hc.sl]; omega)).trans
          (ha.below m.sl (by rw [hc.sl]; omega))
      have hsecond : m₃.stack (m₃.sl - 2) = m₂.stack m₁.sl := by
        have hplace : m₃.sl - 2 = m₁.sl := by rw [hb.sl, ha.sl]; rfl
        rw [hplace]
        exact hb.below m₁.sl (by rw [ha.sl]; omega)
      have hthird : m₃.sl - 1 = m₂.sl := by rw [hb.sl]; rfl
      -- the slot of the condition holds a result, so its `val` is the value
      have hresult : (last || (false || c.compound)) = true := by
        rcases hcond with rfl | h
        · rfl
        · simp [h]
      rw [operate, show opArgCount '?' = 3 by decide]
      simp only [hfirst, hsecond, hthird, ha.value, hb.value, (hc.isResult hresult).1]
      rfl
    rw [hval, show opArgCount '?' = 3 by decide]
    have hleaves := @leaves_result values m m₃ (Expr.cond c a b).value 3 hsl₃ hbelow
    simpa [Expr.compound] using hleaves

end

/-! ### Soundness -/

theorem foldlM_none {s : List Char} {c : Char} (hc : c ∈ s) (hnone : ∀ y, yardRound y c = none) :
    ∀ y, s.foldlM yardRound y = none := by
  induction s with
  | nil => cases hc
  | cons d s ih =>
    intro y
    rw [List.foldlM_cons]
    rcases List.mem_cons.mp hc with rfl | hc
    · rw [hnone]
      rfl
    · cases yardRound y d with
      | none => rfl
      | some y' => exact ih hc y'

theorem Expr.short_of_codes {e : Expr} : ∀ {k : Nat},
    (∀ op : Op, op.code ∈ codes k e.tokens → isOperator op.code = true) → e.Short := by
  induction e with
  | lit text => exact fun _ => trivial
  | paren e ih =>
    intro k h
    refine @ih k fun op hop => h op ?_
    rw [tokens, List.cons_append, codes, e.codes_tokens]
    simp [hop]
  | bin op l r ihl ihr =>
    intro k h
    rw [tokens, l.codes_tokens, codes] at h
    exact ⟨h op (by simp), @ihl k fun op' hop => h op' (by simp [hop]),
      @ihr (k + l.literals.length) fun op' hop => h op' (by simp [hop])⟩
  | cond c a b ihc iha ihb =>
    intro k h
    rw [tokens, List.append_assoc, List.cons_append, c.codes_tokens, codes, a.codes_tokens,
      codes] at h
    exact ⟨@ihc k fun op hop => h op (by simp [hop]),
      @iha (k + c.literals.length) fun op hop => h op (by simp [hop]),
      @ihb (k + c.literals.length + a.literals.length) fun op hop => h op (by simp [hop])⟩

/-- A character with its highest bit set is an unknown token. -/
theorem yardRound_unknown {op : Op} (h : isOperator op.code = false) (y : Yard) :
    yardRound y op.code = none := by
  have hcode : op.code ≠ ' ' ∧ isIdent op.code = false ∧ isFunction op.code = false ∧
      op.code ≠ ',' ∧ op.code ≠ '(' ∧ op.code ≠ ')' := by
    cases op <;> decide
  obtain ⟨h1, h2, h3, h4, h5, h6⟩ := hcode
  simp [yardRound, h, h1, h2, h3, h4, h5, h6]

/-- For an expression that meets the condition, `calc` gives its value or fails. -/
theorem calc_sound {e : Expr} {s : List Char} (hs : Written e.tokens s) (hw : e.WellFormed)
    (hfits : e.Fits) (hlen : e.literals.length ≤ 26) (hok : e.CalcOk) :
    calcValue s = none ∨ calcValue s = some e.value := by
  have halternate : Alternate true e.tokens := by
    simpa using @Expr.alternate e [] hw hfits trivial
  obtain ⟨out, hparse, hout⟩ := parseValues_written hs halternate (by rwa [e.literalsOf_tokens])
  rw [e.literalsOf_tokens] at hparse
  cases hcalc : calcValue s with
  | none => exact Or.inl rfl
  | some v =>
    right
    have hpasses : (shuntingYard out).bind (executionOrder e.literals) = some v := by
      simpa [calcValue, hparse] using hcalc
    obtain ⟨output, hyard, hexec⟩ := Option.bind_eq_some_iff.mp hpasses
    obtain ⟨y, hrun, hend⟩ := Option.bind_eq_some_iff.mp hyard
    have hrun := foldlM_unblanked hrun
    rw [hout] at hrun
    -- an unknown token would have ended the second pass
    have hshort : e.Short := by
      refine @Expr.short_of_codes e 0 fun op hop => ?_
      by_contra hnot
      rw [foldlM_none hop (yardRound_unknown (Bool.eq_false_of_not_eq_true hnot))] at hrun
      cases hrun
    obtain ⟨hflat, hres, hzero⟩ := hok.resolve_left (not_not_intro hshort)
    obtain ⟨o, p, rfl, hop, -⟩ := shunted hw hshort hflat false 0 [] [] y (by omega)
      (fun t ht => by cases ht) hrun
    have houtput : output = e.rpn false 0 := by
      split at hend
      · cases hend
      · simpa [hop] using (Option.some.inj hend).symm
    rw [houtput] at hexec
    obtain ⟨m, hrunm, hval⟩ := Option.bind_eq_some_iff.mp hexec
    have hleaves := @executed e.literals e false 0 _ m [] hfits hshort hres (by omega) (by simp)
      hrunm
    have hv : m.val = v := by
      split at hval
      · exact Option.some.inj hval
      · cases hval
    rw [← hv]
    congr 1
    cases hcompound : e.compound with
    | true => exact (hleaves.isResult (by simp [hcompound])).2
    | false =>
      rw [hleaves.isLiteral (by simp [hcompound])]
      have hne : e.compound ≠ true := by simp [hcompound]
      exact (hzero.resolve_left hne).symm

/-- `2>1?7:0?8:9`, in which the last operand has a literal for its condition. -/
theorem calc_sound_conditionals :
    calcValue ['2', '>', '1', '?', '7', ':', '0', '?', '8', ':', '9'] = none ∨
      calcValue ['2', '>', '1', '?', '7', ':', '0', '?', '8', ':', '9'] = some 7 := by
  have digit : ∀ d, isHexDigit d = true → LiteralText [d] := fun d hd =>
    ⟨[d], by simp, by simpa using hd, Or.inl rfl⟩
  have fits : ∀ d, (literalValue [d] : Int) < 2 ^ 31 → (Expr.lit [d]).Fits := fun _ h => h
  have written : ∀ {ts : List Token} {s : List Char} (d : Char), Written ts s →
      Written (.literal [d] :: ts) (d :: s) := fun d h => .token (.literal [d]) h
  exact @calc_sound (.cond (.bin .gt (.lit ['2']) (.lit ['1'])) (.lit ['7'])
      (.cond (.lit ['0']) (.lit ['8']) (.lit ['9']))) _
    (written '2' (.token (.operator .gt) (written '1' (.token .query (written '7' (.token .colon
      (written '0' (.token .query (written '8' (.token .colon (written '9' .nil)))))))))))
    ⟨⟨digit '2' rfl, digit '1' rfl, by decide⟩, digit '7' rfl,
      ⟨digit '0' rfl, digit '8' rfl, digit '9' rfl, by decide⟩, by decide⟩
    ⟨⟨fits '2' (by decide), fits '1' (by decide), by decide⟩, fits '7' (by decide),
      fits '0' (by decide), fits '8' (by decide), fits '9' (by decide)⟩
    (by decide)
    (Or.inr ⟨⟨by decide, ⟨trivial, trivial⟩, trivial, by decide, trivial, trivial, trivial⟩,
      ⟨Or.inr rfl, ⟨by decide, trivial, trivial⟩, trivial, Or.inl rfl, trivial, trivial, trivial⟩,
      Or.inl rfl⟩)

/-- The expression `5` is evaluated to zero. -/
theorem calc_literal :
    Written (Expr.lit ['5']).tokens ['5'] ∧ (Expr.lit ['5']).value = 5 ∧
      calcValue ['5'] = some 0 :=
  ⟨.token (.literal ['5']) .nil, by decide, by decide⟩

/-- So is a remainder, the percent sign having no case. -/
example : calcValue ['7', '%', '4'] = some 0 := by decide

/-- A literal for a condition counts as zero while nothing was in its place. -/
example : calcValue ['2', '?', '3', ':', '4'] = some 4 := by decide

end LibretroUae.Calc
