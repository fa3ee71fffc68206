import Gpscat.Lib.CppString
import Mathlib.Data.Rat.Defs
import Mathlib.Algebra.Order.Ring.Rat
import Mathlib.Data.Option.NAry

/-!
# The language of cost bounds

Arithmetic over integers and identifiers with `nat(x)`, `max([..])` and `min([..])`, its value, and
its text as Prolog writes terms: an operand is put in parentheses when its operator binds too
weakly, and a space separates an operator from a minus sign that follows it.
-/

namespace Gpscat.Bound

open Cpp

/-! ## Syntax -/

/-- Letters, digits and underscore. -/
def isWordChar (c : Char) : Bool := c.isAlphanum || c == '_'

/-- A word that is no numeral. -/
structure Ident where
  name : Text
  isWord : name.all isWordChar = true
  nonNumeral : name.all Char.isDigit = false

inductive BinOp where
  | add | sub | mul | div
  deriving Repr, DecidableEq

def BinOp.char : BinOp → Char
  | .add => '+'
  | .sub => '-'
  | .mul => '*'
  | .div => '/'

/-- How weakly an operator binds. -/
def BinOp.level : BinOp → Nat
  | .add | .sub => 3
  | .mul | .div => 2

/-- Division by zero has no value. -/
def BinOp.eval : BinOp → ℚ → ℚ → Option ℚ
  | .add, x, y => some (x + y)
  | .sub, x, y => some (x - y)
  | .mul, x, y => some (x * y)
  | .div, x, y => if y = 0 then none else some (x / y)

mutual

inductive Exp where
  | int (n : ℤ)
  | ident (x : Ident)
  | neg (e : Exp)
  | bin (op : BinOp) (a b : Exp)
  | paren (e : Exp)
  | natOf (e : Exp)
  | maxOf (es : Args)
  | minOf (es : Args)

/-- The elements of a list, of which there is at least one. -/
inductive Args where
  | one (e : Exp)
  | cons (e : Exp) (es : Args)

end

/-! ## Value -/

mutual

/-- The value of an expression, where `nat(x)` is `max(x, 0)`. -/
def Exp.eval (v : Ident → ℤ) : Exp → Option ℚ
  | .int n => some n
  | .ident x => some (v x)
  | .neg e => (e.eval v).map (- ·)
  | .bin op a b => (a.eval v).bind fun x => (b.eval v).bind (op.eval x)
  | .paren e => e.eval v
  | .natOf e => (e.eval v).map (max · 0)
  | .maxOf es => es.eval max v
  | .minOf es => es.eval min v

def Args.eval (f : ℚ → ℚ → ℚ) (v : Ident → ℤ) : Args → Option ℚ
  | .one e => e.eval v
  | .cons e es => Option.map₂ f (e.eval v) (es.eval f v)

end

/-! ## Text -/

/-- What follows an operator. -/
def spaced (s : Text) : Text := if s.head? = some '-' then ' ' :: s else s

mutual

/-- The text of an expression whose parentheses are those written in it. -/
def Exp.text : Exp → Text
  | .int n => if n < 0 then '-' :: Nat.toDigits 10 n.natAbs else Nat.toDigits 10 n.natAbs
  | .ident x => x.name
  | .neg e => '-' :: spaced e.text
  | .bin op a b => a.text ++ op.char :: spaced b.text
  | .paren e => '(' :: (e.text ++ [')'])
  | .natOf e => "nat(".toList ++ (e.text ++ [')'])
  | .maxOf es => "max([".toList ++ (es.text ++ "])".toList)
  | .minOf es => "min([".toList ++ (es.text ++ "])".toList)

def Args.text : Args → Text
  | .one e => e.text
  | .cons e es => e.text ++ ',' :: es.text

end

/-- The level of the outermost operator; 0 for what needs no parentheses anywhere. -/
def Exp.level : Exp → Nat
  | .neg _ => 1
  | .bin op _ _ => op.level
  | _ => 0

/-- An integer without a sign. After a minus sign it stands in parentheses, since `-1` is an
integer itself. -/
def Exp.isNumeral : Exp → Bool
  | .int n => 0 ≤ n
  | _ => false

/-- An operand where at most the given level may stand. -/
def Exp.operand (e : Exp) (level : Nat) : Exp := if e.level ≤ level then e else .paren e

mutual

/-- The expression with the parentheses that its text needs. -/
def Exp.layout : Exp → Exp
  | .int n => .int n
  | .ident x => .ident x
  | .neg e => .neg (if e.layout.isNumeral then .paren e.layout else e.layout.operand 1)
  | .bin op a b => .bin op (a.layout.operand op.level) (b.layout.operand (op.level - 1))
  | .paren e => .paren e.layout
  | .natOf e => .natOf e.layout
  | .maxOf es => .maxOf es.layout
  | .minOf es => .minOf es.layout

def Args.layout : Args → Args
  | .one e => .one e.layout
  | .cons e es => .cons e.layout es.layout

end

/-- The text of a bound as CoFloCo prints it. -/
def Exp.print (e : Exp) : Text := e.layout.text

/-! ## Translation of `nat` -/

mutual

/-- Every `nat(x)` replaced by `max([x',0])`, with `x'` the translation of `x`. -/
def Exp.natToMax : Exp → Exp
  | .int n => .int n
  | .ident x => .ident x
  | .neg e => .neg e.natToMax
  | .bin op a b => .bin op a.natToMax b.natToMax
  | .paren e => .paren e.natToMax
  | .natOf e => .maxOf (.cons e.natToMax (.one (.int 0)))
  | .maxOf es => .maxOf es.natToMax
  | .minOf es => .minOf es.natToMax

def Args.natToMax : Args → Args
  | .one e => .one e.natToMax
  | .cons e es => .cons e.natToMax es.natToMax

end

mutual

/-- Every `nat(x)` replaced by `f x'`, with `x'` the result for `x`. -/
def Exp.mapNat (f : Exp → Exp) : Exp → Exp
  | .int n => .int n
  | .ident x => .ident x
  | .neg e => .neg (e.mapNat f)
  | .bin op a b => .bin op (a.mapNat f) (b.mapNat f)
  | .paren e => .paren (e.mapNat f)
  | .natOf e => f (e.mapNat f)
  | .maxOf es => .maxOf (es.mapNat f)
  | .minOf es => .minOf (es.mapNat f)

def Args.mapNat (f : Exp → Exp) : Args → Args
  | .one e => .one (e.mapNat f)
  | .cons e es => .cons (e.mapNat f) (es.mapNat f)

end

/-- Every `nat(x)` replaced by `(x')`. -/
def Exp.natToParen : Exp → Exp := Exp.mapNat .paren

mutual

/-- The arguments of every `nat` in an expression. -/
def Exp.natArgs : Exp → List Exp
  | .int _ | .ident _ => []
  | .neg e | .paren e => e.natArgs
  | .bin _ a b => a.natArgs ++ b.natArgs
  | .natOf e => e :: e.natArgs
  | .maxOf es | .minOf es => es.natArgs

def Args.natArgs : Args → List Exp
  | .one e => e.natArgs
  | .cons e es => e.natArgs ++ es.natArgs

end

/-- No argument of a `nat` is negative. -/
def Exp.NatsNonneg (v : Ident → ℤ) (e : Exp) : Prop :=
  ∀ x ∈ e.natArgs, ∀ q, x.eval v = some q → 0 ≤ q

mutual

def Exp.NatFree : Exp → Prop
  | .int _ | .ident _ => True
  | .neg e | .paren e => e.NatFree
  | .bin _ a b => a.NatFree ∧ b.NatFree
  | .natOf _ => False
  | .maxOf es | .minOf es => es.NatFree

def Args.NatFree : Args → Prop
  | .one e => e.NatFree
  | .cons e es => e.NatFree ∧ es.NatFree

end

end Gpscat.Bound
