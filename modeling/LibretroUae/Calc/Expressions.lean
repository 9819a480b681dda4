import LibretroUae.Calc.Passes

/-!
# LibretroUae.Calc.Expressions

**Infix expressions.** An expression is a tree, with a node for every pair of parentheses; it is
grouped as the table of precedences says. It is written as its tokens, with blanks between them.
What `parse_values` makes of a written expression is its tokens, one character each, and the
values of its literals.
-/

namespace LibretroUae.Calc

/-! ### Trees -/

inductive Op
  | add | sub | mul | rem | or | and | xor | lt | gt | eq | ne | shl | shr
  deriving DecidableEq

def Op.text : Op → List Char
  | add => ['+']
  | sub => ['-']
  | mul => ['*']
  | rem => ['%']
  | or => ['|']
  | and => ['&']
  | xor => ['^']
  | lt => ['<']
  | gt => ['>']
  | eq => ['=', '=']
  | ne => ['!', '=']
  | shl => ['<', '<']
  | shr => ['>', '>']

/-- The character for an operator between the passes. -/
def Op.code : Op → Char
  | add => '+'
  | sub => '-'
  | mul => '*'
  | rem => '%'
  | or => '|'
  | and => '&'
  | xor => '^'
  | lt => '<'
  | gt => '>'
  | eq => '@'
  | ne => highBit '@'
  | shl => highBit '<'
  | shr => highBit '>'

def truth (p : Prop) [Decidable p] : Int := if p then 1 else 0

/-- The value of an operator on integers. -/
def Op.apply : Op → Int → Int → Int
  | add, v, w => v + w
  | sub, v, w => v - w
  | mul, v, w => v * w
  | rem, v, w => v.tmod w
  | or, v, w => v.lor w
  | and, v, w => v.land w
  | xor, v, w => v.xor w
  | lt, v, w => truth (v < w)
  | gt, v, w => truth (v > w)
  | eq, v, w => truth (v = w)
  | ne, v, w => truth (v ≠ w)
  | shl, v, w => v * 2 ^ w.toNat
  | shr, v, w => v / 2 ^ w.toNat

inductive Expr
  | lit (text : List Char)
  | paren (e : Expr)
  | bin (op : Op) (l r : Expr)
  | cond (c a b : Expr)

/-- Decimal digits, or hexadecimal ones with a letter or behind a dollar sign. -/
def literalValue : List Char → Nat
  | '$' :: ds => spelled 16 ds
  | ds => if ds.any isHexLetter then spelled 16 ds else spelled 10 ds

def LiteralText (text : List Char) : Prop :=
  ∃ ds, ds ≠ [] ∧ (∀ c ∈ ds, isHexDigit c = true) ∧ (text = ds ∨ text = '$' :: ds)

namespace Expr

def value : Expr → Int
  | lit text => literalValue text
  | paren e => e.value
  | bin op l r => op.apply l.value r.value
  | cond c a b => if c.value ≠ 0 then a.value else b.value

/-- The values of the literals, from the left to the right. -/
def literals : Expr → List Int
  | lit text => [(literalValue text : Int)]
  | paren e => e.literals
  | bin _ l r => l.literals ++ r.literals
  | cond c a b => c.literals ++ a.literals ++ b.literals

/-- The precedence of the operator at the top; parentheses and literals come before all. -/
def level : Expr → Int
  | lit _ => 5
  | paren _ => 5
  | bin op _ _ => opPreced op.code
  | cond _ _ _ => opPreced '?'

/-- Grouped by precedence and associativity. -/
def WellFormed : Expr → Prop
  | lit text => LiteralText text
  | paren e => e.WellFormed
  | bin op l r => l.WellFormed ∧ r.WellFormed ∧
    if opLeftAssoc op.code then opPreced op.code ≤ l.level ∧ opPreced op.code < r.level
    else opPreced op.code < l.level ∧ opPreced op.code ≤ r.level
  | cond c a b => c.WellFormed ∧ a.WellFormed ∧ b.WellFormed ∧ opPreced '?' < c.level

/-- Every value on the way is that of an `int`. -/
def Fits : Expr → Prop
  | lit text => (literalValue text : Int) < 2 ^ 31
  | paren e => e.Fits
  | bin op l r => l.Fits ∧ r.Fits ∧
    -2 ^ 31 ≤ (bin op l r).value ∧ (bin op l r).value < 2 ^ 31
  | cond c a b => c.Fits ∧ a.Fits ∧ b.Fits

end Expr

/-! ### Tokens -/

inductive Token
  | literal (text : List Char)
  | operator (op : Op)
  | query
  | colon
  | lparen
  | rparen

def Token.text : Token → List Char
  | literal text => text
  | operator op => op.text
  | query => ['?']
  | colon => [':']
  | lparen => ['(']
  | rparen => [')']

def Expr.tokens : Expr → List Token
  | lit text => [.literal text]
  | paren e => .lparen :: e.tokens ++ [.rparen]
  | bin op l r => l.tokens ++ .operator op :: r.tokens
  | cond c a b => c.tokens ++ .query :: a.tokens ++ .colon :: b.tokens

/-- A string has these tokens, and blanks wherever it has others. -/
inductive Written : List Token → List Char → Prop
  | nil : Written [] []
  | blank {ts : List Token} {s : List Char} (h : Written ts s) : Written ts (' ' :: s)
  | token {ts : List Token} {s : List Char} (t : Token) (h : Written ts s) :
    Written (t :: ts) (t.text ++ s)

/-- Operands and operators take turns: does an operand come next. -/
def Alternate : Bool → List Token → Prop
  | true, .literal text :: ts =>
    LiteralText text ∧ (literalValue text : Int) < 2 ^ 31 ∧ Alternate false ts
  | true, .lparen :: ts => Alternate true ts
  | false, .operator _ :: ts => Alternate true ts
  | false, .query :: ts => Alternate true ts
  | false, .colon :: ts => Alternate true ts
  | false, .rparen :: ts => Alternate false ts
  | false, [] => True
  | _, _ => False

theorem Expr.alternate {e : Expr} : ∀ {ts : List Token}, e.WellFormed → e.Fits →
    Alternate false ts → Alternate true (e.tokens ++ ts) := by
  induction e with
  | lit text =>
    intro ts hw hf hts
    exact ⟨hw, hf, hts⟩
  | paren e ih =>
    intro ts hw hf hts
    rw [tokens, List.append_assoc, List.cons_append]
    exact @ih (.rparen :: ts) hw hf hts
  | bin op l r ihl ihr =>
    rintro ts ⟨hl, hr, -⟩ ⟨hfl, hfr, -⟩ hts
    rw [tokens, List.append_assoc]
    exact @ihl (.operator op :: (r.tokens ++ ts)) hl hfl (ihr hr hfr hts)
  | cond c a b ihc iha ihb =>
    rintro ts ⟨hc, ha, hb, -⟩ ⟨hfc, hfa, hfb⟩ hts
    have hb' : Alternate false (.colon :: (b.tokens ++ ts)) := ihb hb hfb hts
    have ha' : Alternate false (.query :: (a.tokens ++ .colon :: (b.tokens ++ ts))) :=
      iha ha hfa hb'
    simpa [tokens] using ihc hc hfc ha'

/-- The letter of a literal. -/
def letter (k : Nat) : Char := Char.ofNat ('a'.toNat + k)

theorem letter_isIdent : ∀ k < 26, isIdent (letter k) = true ∧ letter k ≠ ' ' := by decide

theorem letter_place : ∀ k < 26, ('a' ≤ letter k ∧ letter k ≤ 'z') ∧
    (letter k).toNat - 'a'.toNat = k := by decide

/-- The tokens as characters, the literals by their letters. -/
def codes : Nat → List Token → List Char
  | _, [] => []
  | k, .literal _ :: ts => letter k :: codes (k + 1) ts
  | k, .operator op :: ts => op.code :: codes k ts
  | k, .query :: ts => '?' :: codes k ts
  | k, .colon :: ts => ':' :: codes k ts
  | k, .lparen :: ts => '(' :: codes k ts
  | k, .rparen :: ts => ')' :: codes k ts

def literalsOf : List Token → List Int
  | [] => []
  | .literal text :: ts => (literalValue text : Int) :: literalsOf ts
  | _ :: ts => literalsOf ts

theorem codes_append (k : Nat) (ts us : List Token) :
    codes k (ts ++ us) = codes k ts ++ codes (k + (literalsOf ts).length) us := by
  induction ts generalizing k with
  | nil => rfl
  | cons t ts ih => cases t <;> simp [codes, literalsOf, ih, Nat.add_assoc, Nat.add_comm 1]

theorem literalsOf_append (ts us : List Token) :
    literalsOf (ts ++ us) = literalsOf ts ++ literalsOf us := by
  induction ts with
  | nil => rfl
  | cons t ts ih => cases t <;> simp [literalsOf, ih]

theorem Expr.literalsOf_tokens (e : Expr) : literalsOf e.tokens = e.literals := by
  induction e with
  | lit text => rfl
  | paren e ih => simp [tokens, literals, literalsOf, literalsOf_append, ih]
  | bin op l r ihl ihr => simp [tokens, literals, literalsOf, literalsOf_append, ihl, ihr]
  | cond c a b ihc iha ihb =>
    simp [tokens, literals, literalsOf, literalsOf_append, ihc, iha, ihb]

/-! ### Parsing what is written -/

/-- The characters of expressions: no letter of a word or a register name among them. -/
def isPlain (c : Char) : Bool := c ≠ 'r' && c ≠ 'l'

theorem isPlain_of_hexDigit {c : Char} (h : isHexDigit c = true) : isPlain c = true := by
  by_contra hnot
  have hc : c = 'r' ∨ c = 'l' := by
    by_contra hne
    push Not at hne
    simp [isPlain, hne] at hnot
  rcases hc with rfl | rfl <;> simp [isHexDigit, isDecDigit, isHexLetter] at h

theorem isPlain_of_literal {text : List Char} (h : LiteralText text) :
    ∀ c ∈ text, isPlain c = true := by
  obtain ⟨ds, -, hds, rfl | rfl⟩ := h
  · exact fun c hc => isPlain_of_hexDigit (hds c hc)
  · intro c hc
    rcases List.mem_cons.mp hc with rfl | hc
    · decide
    · exact isPlain_of_hexDigit (hds c hc)

theorem Op.isPlain_text (op : Op) : ∀ c ∈ op.text, isPlain c = true := by
  cases op <;> simp [text, isPlain]

theorem Written.isPlain {ts : List Token} {s : List Char} (h : Written ts s) :
    ∀ {b : Bool}, Alternate b ts → ∀ c ∈ s, isPlain c = true := by
  induction h with
  | nil => exact fun _ => by simp
  | blank h ih =>
    intro b hb c hc
    rcases List.mem_cons.mp hc with rfl | hc
    · decide
    · exact ih hb c hc
  | @token ts s t h ih =>
    intro b hb
    rw [List.forall_mem_append]
    cases t with
    | literal text =>
      cases b with
      | true => exact ⟨isPlain_of_literal hb.1, ih hb.2.2⟩
      | false => exact hb.elim
    | operator op =>
      cases b with
      | true => exact hb.elim
      | false => exact ⟨op.isPlain_text, @ih true hb⟩
    | query =>
      cases b with
      | true => exact hb.elim
      | false => exact ⟨by simp [Token.text, Calc.isPlain], @ih true hb⟩
    | colon =>
      cases b with
      | true => exact hb.elim
      | false => exact ⟨by simp [Token.text, Calc.isPlain], @ih true hb⟩
    | lparen =>
      cases b with
      | true => exact ⟨by simp [Token.text, Calc.isPlain], @ih true hb⟩
      | false => exact hb.elim
    | rparen =>
      cases b with
      | true => exact hb.elim
      | false => exact ⟨by simp [Token.text, Calc.isPlain], @ih false hb⟩

/-- With a signed `char`, no character with its highest bit set is an operator. -/
theorem isOperator_iff (c : Char) : isOperator c = true ↔
    c ∈ ['+', '-', '/', '*', '!', '%', '=', '|', '&', '^', '@', '>', '<', '?', ':'] := by
  have hlt : promoted c < 128 := by
    have h := @BitVec.toInt_lt 8 (BitVec.ofNat 8 c.toNat)
    simpa [promoted] using h
  have h1 : promoted c ≠ 0xc0 := by omega
  have h2 : promoted c ≠ 0xbe := by omega
  have h3 : promoted c ≠ 0xbc := by omega
  simp [isOperator, h1, h2, h3]

theorem isOperator_of_hexDigit {c : Char} (h : isHexDigit c = true) : isOperator c = false := by
  rw [← Bool.not_eq_true, isOperator_iff]
  intro hmem
  simp only [List.mem_cons, List.not_mem_nil, or_false] at hmem
  rcases hmem with rfl | rfl | rfl | rfl | rfl | rfl | rfl | rfl | rfl | rfl | rfl | rfl | rfl |
    rfl | rfl <;> revert h <;> decide

theorem LiteralText.head {text s : List Char} (h : LiteralText text) :
    ∃ c r, text ++ s = c :: r ∧ (isHexDigit c = true ∨ c = '$') := by
  obtain ⟨ds, hne, hds, rfl | rfl⟩ := h
  · obtain ⟨c, r, rfl⟩ := List.exists_cons_of_ne_nil hne
    exact ⟨c, r ++ s, rfl, Or.inl (hds c List.mem_cons_self)⟩
  · exact ⟨'$', ds ++ s, rfl, Or.inr rfl⟩

/-- Where an operator is expected there is no digit. -/
theorem Written.head_operator {ts : List Token} {s : List Char} (h : Written ts s)
    (hts : Alternate false ts) :
    ∀ c, s.head? = some c → isHexDigit c = false ∧ c ≠ '.' := by
  cases h with
  | nil => intro c hc; cases hc
  | blank h => rintro c ⟨⟩; exact ⟨rfl, by decide⟩
  | token t h =>
    cases t with
    | literal text => exact hts.elim
    | lparen => exact hts.elim
    | operator op => cases op <;> rintro c ⟨⟩ <;> exact ⟨rfl, by decide⟩
    | query => rintro c ⟨⟩; exact ⟨rfl, by decide⟩
    | colon => rintro c ⟨⟩; exact ⟨rfl, by decide⟩
    | rparen => rintro c ⟨⟩; exact ⟨rfl, by decide⟩

/-- Where an operand is expected there is no operator. -/
theorem Written.head_operand {ts : List Token} {s : List Char} (h : Written ts s)
    (hts : Alternate true ts) :
    ∀ c, s.head? = some c → isOperator c = false := by
  cases h with
  | nil => intro c hc; cases hc
  | blank h => rintro c ⟨⟩; rfl
  | token t h =>
    cases t with
    | literal text =>
      obtain ⟨c, r, hcr, hc⟩ := @LiteralText.head text _ hts.1
      intro d hd
      rw [show Token.text (.literal text) ++ _ = c :: r from hcr] at hd
      obtain rfl := Option.some.inj hd
      rcases hc with hc | rfl
      · exact isOperator_of_hexDigit hc
      · decide
    | lparen => rintro c ⟨⟩; rfl
    | operator op => exact hts.elim
    | query => exact hts.elim
    | colon => exact hts.elim
    | rparen => exact hts.elim

theorem rewriteWord_plain {s : List Char} (hs : ∀ c ∈ s, isPlain c = true) :
    rewriteWord s = rewriteShift s := by
  have noPrefix : ∀ {w : List Char}, (∃ c ∈ w, isPlain c = false) → ¬ w <+: s := by
    rintro w ⟨c, hc, hplain⟩ hw
    rw [hs c (hw.subset hc)] at hplain
    cases hplain
  have htrue : ¬ ['t', 'r', 'u', 'e'] <+: s := noPrefix ⟨'r', by simp, rfl⟩
  have hfalse : ¬ ['f', 'a', 'l', 's', 'e'] <+: s := noPrefix ⟨'l', by simp, rfl⟩
  have hrl : ¬ ['r', 'l', '('] <+: s := noPrefix ⟨'r', by simp, rfl⟩
  have hrw : ¬ ['r', 'w', '('] <+: s := noPrefix ⟨'r', by simp, rfl⟩
  have hrb : ¬ ['r', 'b', '('] <+: s := noPrefix ⟨'r', by simp, rfl⟩
  rw [rewriteWord, if_neg (fun h => htrue h.1), if_neg (fun h => hfalse h.1), if_neg hrl,
    if_neg hrw, if_neg hrb]

theorem rewriteWord_eq {s : List Char} (hs : ∀ c ∈ s, isPlain c = true)
    (hgt : ∀ r, s ≠ '>' :: '>' :: r) (hlt : ∀ r, s ≠ '<' :: '<' :: r) : rewriteWord s = s := by
  rw [rewriteWord_plain hs]
  unfold rewriteShift
  split
  · exact absurd rfl (hgt _)
  · exact absurd rfl (hlt _)
  · rfl

end LibretroUae.Calc
