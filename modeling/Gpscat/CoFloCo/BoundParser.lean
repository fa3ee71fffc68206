import Gpscat.CoFloCo.BoundLanguage

/-!
# Reading a cost bound

A parser for the language of cost bounds, with the usual precedences, as an automaton: one pass over
the characters makes tokens, and one pass over the tokens keeps what is open.
-/

namespace Gpscat.Bound

open Cpp

/-! ## Tokens -/

inductive Token where
  | num (n : Nat)
  | word (w : Text)
  /-- A word directly followed by an opening parenthesis. -/
  | call (w : Text)
  | sym (c : Char)
  deriving Repr, DecidableEq

/-- The token of a word that has been read to its end. -/
def wordToken (w : Text) : List Token :=
  if w = [] then [] else if w.all Char.isDigit then [.num (Nat.ofDigitChars 10 w 0)] else [.word w]

def isSymbol (c : Char) : Bool := "+-*/()[],".toList.contains c

/-- The tokens of a text, behind the letters `w` of an unfinished word. -/
def tokensAfter (w : Text) : Text → Option (List Token)
  | [] => some (wordToken w)
  | c :: s =>
    if isWordChar c then tokensAfter (w ++ [c]) s
    else if c = '(' ∧ w ≠ [] then (tokensAfter [] s).map (.call w :: ·)
    else if c = ' ' then (tokensAfter [] s).map (wordToken w ++ ·)
    else if isSymbol c then (tokensAfter [] s).map (wordToken w ++ .sym c :: ·)
    else none

def tokens : Text → Option (List Token) := tokensAfter []

/-! ## The automaton -/

/-- A left operand that waits for its right one. -/
abbrev Waiting := Option (BinOp × Exp)

def Waiting.apply : Waiting → Exp → Exp
  | none, e => e
  | some (op, a), e => .bin op a e

/-- What waits for the next operand: a sum, a product and minus signs. -/
structure Pending where
  sum : Waiting := none
  prod : Waiting := none
  negs : Nat := 0

inductive ListFn where
  | max | min
  deriving Repr, DecidableEq

def ListFn.exp : ListFn → Args → Exp
  | .max => .maxOf
  | .min => .minOf

/-- An open bracket. The elements of a list are kept in reverse. -/
inductive Bracket where
  | paren
  | natOf
  | list (f : ListFn) (done : List Exp)

abbrev Outer := List (Bracket × Pending)

inductive State where
  | operand (p : Pending) (outer : Outer)
  /-- After a minus sign in front of an operand. -/
  | minus (p : Pending) (outer : Outer)
  /-- After `max(` or `min(`. -/
  | listOpen (f : ListFn) (p : Pending) (outer : Outer)
  /-- After a product. -/
  | operator (sum : Waiting) (term : Exp) (outer : Outer)
  /-- After the bracket that ends a list. -/
  | listClose (e : Exp) (p : Pending) (outer : Outer)

/-- An operand has been read. -/
def Pending.complete (p : Pending) (e : Exp) (outer : Outer) : State :=
  .operator p.sum (p.prod.apply (Exp.neg^[p.negs] e)) outer

def stepOperand (p : Pending) (outer : Outer) : Token → Option State
  | .num n => some (p.complete (.int n) outer)
  | .word w =>
    if h : w.all isWordChar = true ∧ w.all Char.isDigit = false then
      some (p.complete (.ident ⟨w, h.1, h.2⟩) outer)
    else none
  | .call w =>
    if w = "nat".toList then some (.operand {} ((.natOf, p) :: outer))
    else if w = "max".toList then some (.listOpen .max p outer)
    else if w = "min".toList then some (.listOpen .min p outer)
    else none
  | .sym c =>
    if c = '-' then some (.minus p outer)
    else if c = '(' then some (.operand {} ((.paren, p) :: outer))
    else none

def binOpOf (c : Char) : Option BinOp :=
  if c = '+' then some .add else if c = '-' then some .sub
  else if c = '*' then some .mul else if c = '/' then some .div else none

/-- The end of a bracket that was opened by a parenthesis. -/
def closeParen (e : Exp) : Outer → Option State
  | (.paren, p) :: outer => some (p.complete (.paren e) outer)
  | (.natOf, p) :: outer => some (p.complete (.natOf e) outer)
  | _ => none

def listNext (e : Exp) : Outer → Option State
  | (.list f done, p) :: outer => some (.operand {} ((.list f (e :: done), p) :: outer))
  | _ => none

def listEnd (e : Exp) : Outer → Option State
  | (.list f done, p) :: outer =>
    some (.listClose (f.exp (done.foldl (fun es e => .cons e es) (.one e))) p outer)
  | _ => none

def stepOperator (sum : Waiting) (term : Exp) (outer : Outer) (c : Char) : Option State :=
  match binOpOf c with
  | some op =>
    if op.level = 2 then some (.operand { sum, prod := some (op, term) } outer)
    else some (.operand { sum := some (op, sum.apply term) } outer)
  | none =>
    if c = ')' then closeParen (sum.apply term) outer
    else if c = ',' then listNext (sum.apply term) outer
    else if c = ']' then listEnd (sum.apply term) outer
    else none

def step : State → Token → Option State
  | .operand p outer, t => stepOperand p outer t
  | .minus p outer, .num n => some (p.complete (.int (-n)) outer)
  | .minus p outer, t => stepOperand { p with negs := p.negs + 1 } outer t
  | .listOpen f p outer, t =>
    if t = .sym '[' then some (.operand {} ((.list f [], p) :: outer)) else none
  | .operator sum term outer, .sym c => stepOperator sum term outer c
  | .operator _ _ _, _ => none
  | .listClose e p outer, t => if t = .sym ')' then some (p.complete e outer) else none

def finish : State → Option Exp
  | .operator sum term [] => some (sum.apply term)
  | _ => none

def parse (s : Text) : Option Exp :=
  (tokens s).bind fun ts => (ts.foldlM step (.operand {} [])).bind finish

end Gpscat.Bound
