import Mathlib.Data.Int.Bitwise
import Mathlib.Logic.Function.Basic

/-!
# LibretroUae.Calc.Passes

**The three passes of `calc`.** Literals are replaced by letters and operators of two characters
by one with its highest bit set; the infix string is turned into reverse Polish notation; and a
stack machine evaluates that. The passes hand on strings of `char`, which is signed.

Values are integers: points, division and memory accesses are left out, and so are quoted strings
and registers, which need characters that no expression over literals has.
-/

namespace LibretroUae.Calc

/-- The value of a `char`. -/
def promoted (c : Char) : Int := (BitVec.ofNat 8 c.toNat).toInt

/-- A character with its highest bit set. -/
def highBit (c : Char) : Char := Char.ofNat (c.toNat ||| 0x80)

/-- `op_preced`, of an unsigned character. -/
def opPreced (c : Char) : Int :=
  if c = '!' then 4
  else if c ∈ ['*', '/', '\\', '%', '|', '&', '^'] then 3
  else if c = '+' ∨ c = '-' then 2
  else if c ∈ ['=', '@', highBit '@', '>', '<', highBit '>', highBit '<'] then 1
  else if c = ':' then -1
  else if c = '?' then -2
  else 0

/-- `op_left_assoc`. -/
def opLeftAssoc (c : Char) : Bool := c ∈ ['*', '/', '%', '+', '-', '|', '&', '^']

/-- `op_arg_count`. -/
def opArgCount (c : Char) : Nat :=
  if c = '?' then 3
  else if c = '!' ∨ c = ':' then 1
  else if c ∈ ['*', '/', '%', '+', '-', '=', '@', highBit '@', '<', '>', '|', '&', '^',
      highBit '<', highBit '>'] then 2
  else c.toNat - 'A'.toNat

/-- `is_operator`: with a signed `char` the last three comparisons never hold. -/
def isOperator (c : Char) : Bool :=
  c ∈ ['+', '-', '/', '*', '!', '%', '=', '|', '&', '^', '@', '>', '<', '?', ':'] ||
    promoted c = 0xc0 || promoted c = 0xbe || promoted c = 0xbc

def isFunction (c : Char) : Bool := 'A' ≤ c && c ≤ 'Z'

def isIdent (c : Char) : Bool := ('0' ≤ c && c ≤ '9') || ('a' ≤ c && c ≤ 'z')

/-- `is_separator`, of a character or the end. -/
def isSeparator : Option Char → Bool
  | none => true
  | some c => isOperator c || c = ')' || c = ' '

/-! ### Literals -/

def isDecDigit (c : Char) : Bool := '0' ≤ c && c ≤ '9'

def isHexLetter (c : Char) : Bool := ('a' ≤ c && c ≤ 'f') || ('A' ≤ c && c ≤ 'F')

def isHexDigit (c : Char) : Bool := isDecDigit c || isHexLetter c

def digitValue (c : Char) : Nat :=
  if isDecDigit c then c.toNat - '0'.toNat
  else if 'a' ≤ c then c.toNat - 'a'.toNat + 10
  else c.toNat - 'A'.toNat + 10

/-- The number that digits spell in a base. -/
def spelled (base : Nat) (digits : List Char) : Nat :=
  digits.foldl (fun v c => v * base + digitValue c) 0

def rewriteShift : List Char → List Char
  | '>' :: '>' :: s => highBit '>' :: ' ' :: s
  | '<' :: '<' :: s => highBit '<' :: ' ' :: s
  | s => s

/-- The words that stand for something else. -/
def rewriteWord (s : List Char) : List Char :=
  if ['t', 'r', 'u', 'e'] <+: s ∧ isSeparator s[4]? then '1' :: ' ' :: ' ' :: ' ' :: s.drop 4
  else if ['f', 'a', 'l', 's', 'e'] <+: s ∧ isSeparator s[5]? then
    '0' :: ' ' :: ' ' :: ' ' :: ' ' :: s.drop 5
  else if ['r', 'l', '('] <+: s then Char.ofNat 0xf2 :: ' ' :: s.drop 2
  else if ['r', 'w', '('] <+: s then Char.ofNat 0xf1 :: ' ' :: s.drop 2
  else if ['r', 'b', '('] <+: s then Char.ofNat 0xf0 :: ' ' :: s.drop 2
  else rewriteShift s

def rewriteEqual : List Char → List Char
  | '=' :: '=' :: s => '@' :: ' ' :: s
  | '!' :: '=' :: s => highBit '@' :: ' ' :: s
  | s => s

/-- The state of `parse_values`: the character before `in`, the operators since the last literal,
what is written and the values of the letters. -/
structure Parse where
  prev : Char
  op : Nat
  out : List Char
  values : List Int

/-- A literal, from its first character on. A sign is taken into it after two operators. -/
def parseLiteral (s : Parse) (c : Char) (rest : List Char) : Option (Parse × List Char) :=
  if 32 ≤ s.values.length then none
  else
    let signed := 1 < s.op && (s.prev = '-' || s.prev = '+')
    let out := (if signed then s.out.dropLast else s.out) ++
      [Char.ofNat ('a'.toNat + s.values.length)]
    let digits := if c = '$' then rest else c :: rest
    if c = '$' || (digits.takeWhile isHexDigit).any isHexLetter then
      let val := (digits.takeWhile isHexDigit).foldl (fun v c => (v * 16 + digitValue c) % 2 ^ 32) 0
      some (⟨(digits.takeWhile isHexDigit).getLast?.getD c, 0, out, s.values ++ [(val : Int)]⟩,
        digits.dropWhile isHexDigit)
    else
      let number := digits.takeWhile fun c => isDecDigit c || c = '.'
      let val : Int := spelled 10 (number.takeWhile isDecDigit)
      let val := if signed && s.prev = '-' then -val else val
      some (⟨number.getLast?.getD c, 0, out, s.values ++ [val]⟩,
        digits.dropWhile fun c => isDecDigit c || c = '.')

/-- A round of the loop of `parse_values`. -/
def parseRound (s : Parse) (input : List Char) : Option (Parse × List Char) :=
  match rewriteEqual (rewriteWord input) with
  | [] => some (s, [])
  | c :: rest =>
    if isHexDigit c || c = '$' then parseLiteral s c rest
    else some ({ s with prev := c, op := if isOperator c then s.op + 1 else s.op,
                        out := s.out ++ [c] }, rest)

/-- The loop: every round takes a character at least. -/
def parseLoop : Nat → Parse → List Char → Option Parse
  | _, s, [] => some s
  | 0, _, _ :: _ => none
  | fuel + 1, s, input =>
    match parseRound s input with
    | none => none
    | some (s, rest) => parseLoop fuel s rest

def parseValues (ins : List Char) : Option (List Char × List Int) :=
  let out := if ins.head? = some '-' ∨ ins.head? = some '+' then ['0'] else []
  (parseLoop ins.length ⟨' ', 0, out, []⟩ ins).map fun s => (s.out, s.values)

/-! ### The shunting yard -/

/-- What is written, and the operators that wait, the last one first. -/
structure Yard where
  out : List Char
  stack : List Char

/-- Does an operator take one that waits off the stack. -/
def pops (c sc : Char) : Bool :=
  isOperator sc && ((opLeftAssoc c && opPreced c ≤ opPreced sc) ||
    (!opLeftAssoc c && opPreced c < opPreced sc))

/-- A round of the loop of `shunting_yard`. -/
def yardRound (s : Yard) (c : Char) : Option Yard :=
  if 32 ≤ s.stack.length then none
  else if c = ' ' then some s
  else if isIdent c then some { s with out := s.out ++ [c] }
  else if isFunction c then some { s with stack := c :: s.stack }
  else if c = ',' then
    if '(' ∈ s.stack then
      some ⟨s.out ++ s.stack.takeWhile (· ≠ '('), s.stack.dropWhile (· ≠ '(')⟩
    else none
  else if isOperator c then
    some ⟨s.out ++ s.stack.takeWhile (pops c), c :: s.stack.dropWhile (pops c)⟩
  else if c = '(' then some { s with stack := c :: s.stack }
  else if c = ')' then
    match s.stack.dropWhile (· ≠ '(') with
    | [] => none
    | _ :: stack =>
      let out := s.out ++ s.stack.takeWhile (· ≠ '(')
      if stack.head?.any isFunction then some ⟨out ++ stack.take 1, stack.drop 1⟩
      else some ⟨out, stack⟩
  else none

def shuntingYard (input : List Char) : Option (List Char) :=
  (input.foldlM yardRound ⟨[], []⟩).bind fun s =>
    if '(' ∈ s.stack ∨ ')' ∈ s.stack then none else some (s.out ++ s.stack)

/-! ### The stack machine -/

/-- `calcstack`: the name of a literal, or the value of a result. -/
structure Slot where
  s : Option Char
  val : Int

/-- The slots keep what was in them when they are free. `val` is the last result. -/
structure Machine where
  stack : Nat → Slot
  sl : Nat
  val : Int

section

variable (values : List Int)

/-- `stacktoval`. -/
def stackToVal (st : Slot) : Int :=
  match st.s with
  | some c =>
    if 'a' ≤ c ∧ c ≤ 'z' then values.getD (c.toNat - 'a'.toNat) 0 else (digitValue c : Int)
  | none => st.val

/-- A value as an `int`. -/
def int32 (v : Int) : Int := (BitVec.ofInt 32 v).toInt

/-- `docalcx`, which has a case for the backslash but none for the percent sign. -/
def docalcx (op : Char) (v1 v2 : Int) : Option Int :=
  if op = '-' then some (v1 - v2)
  else if op = '+' then some (v1 + v2)
  else if op = '*' then some (v1 * v2)
  else if op = '\\' then some ((int32 v1).tmod (int32 v2))
  else if op = '|' then some ((int32 v1).lor (int32 v2))
  else if op = '&' then some ((int32 v1).land (int32 v2))
  else if op = '^' then some ((int32 v1).xor (int32 v2))
  else if op = '@' then some (if int32 v1 = int32 v2 then 1 else 0)
  else if op = highBit '@' then some (if int32 v1 ≠ int32 v2 then 1 else 0)
  else if op = '>' then some (if int32 v1 > int32 v2 then 1 else 0)
  else if op = '<' then some (if int32 v1 < int32 v2 then 1 else 0)
  else if op = highBit '<' then
    some (if v2 % 2 ^ 32 < 32 then ((v1 % 2 ^ 32) * 2 ^ (v2 % 2 ^ 32).toNat) % 2 ^ 32 else 0)
  else if op = highBit '>' then
    some (if v2 % 2 ^ 32 < 32 then (v1 % 2 ^ 32) / 2 ^ (v2 % 2 ^ 32).toNat else 0)
  else if op = ':' then some v1
  else none

/-- The value that an operator leaves. An operator that fails is not noticed: it leaves zero, or
with one argument the last result. -/
def operate (m : Machine) (c : Char) : Int :=
  match opArgCount c with
  | 1 => (docalcx c (stackToVal values (m.stack (m.sl - 1))) m.val).getD m.val
  | 2 => (docalcx c (stackToVal values (m.stack (m.sl - 2)))
      (stackToVal values (m.stack (m.sl - 1)))).getD 0
  | 3 =>
    -- the condition is tested without looking whether it is a literal
    if (m.stack (m.sl - 3)).val ≠ 0 then stackToVal values (m.stack (m.sl - 2))
    else stackToVal values (m.stack (m.sl - 1))
  | _ => m.val

/-- A round of the loop of `execution_order`. -/
def executeRound (m : Machine) (c : Char) : Option Machine :=
  if 32 ≤ m.sl then none
  else if isIdent c then
    some { m with stack := Function.update m.stack m.sl ⟨some c, (m.stack m.sl).val⟩,
                  sl := m.sl + 1 }
  else if isOperator c || isFunction c then
    if m.sl < opArgCount c then none
    else
      let val := if isFunction c then m.val else operate values m c
      let sl := m.sl - opArgCount c
      some ⟨Function.update m.stack sl ⟨none, val⟩, sl + 1, val⟩
  else some m

/-- `execution_order`: the last result, when one value is left. -/
def executionOrder (input : List Char) : Option Int :=
  (input.foldlM (executeRound values) ⟨fun _ => ⟨none, 0⟩, 0, 0⟩).bind fun m =>
    if m.sl = 1 then some m.val else none

end

/-- `calc` without an output string: the value, or none for -1. -/
def calcValue (input : List Char) : Option Int :=
  (parseValues input).bind fun (output2, values) =>
    (shuntingYard output2).bind (executionOrder values)

end LibretroUae.Calc
