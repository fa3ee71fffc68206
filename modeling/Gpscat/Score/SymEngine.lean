import Gpscat.Lib.CppString
import Mathlib.Algebra.BigOperators.Group.List.Basic
import Mathlib.Algebra.Ring.Defs
import Mathlib.Data.Finmap
import Mathlib.Order.Defs.LinearOrder

/-!
# SymEngine expressions

What `gpscat-score` uses of `SymEngine::Expression`, and expressions as the trees that `get_args`
walks through. A symbol is identified by its name, and `subs` replaces each of its occurrences.
-/

namespace Gpscat.Score

open Cpp

/-- The operations of an expression with numbers in `K` in place of `double`. -/
class Symbolic (E : Type) (K : outParam Type) where
  /-- `getSymbols`. -/
  getSymbols : E → Finset Text
  /-- `func.subs({{symbol(x), real_double(t)}})`. -/
  subs : Text → K → E → E
  /-- `static_cast<double>(func)`, which throws when a symbol is left. -/
  toDouble : E → Option K

/-- A `SymEngine::Basic`. The constants are nodes without arguments. -/
inductive Basic (Op K : Type) where
  | number (q : K)
  | symbol (name : Text)
  | node (op : Op) (args : List (Basic Op K))

/-- `SymEngine::map_basic_basic` from symbols to numbers. -/
abbrev SubsMap (K : Type) := Finmap fun _ : Text => K

/-- The value of an operation for the values of its arguments. -/
class Operation (Op K : Type) where
  apply : Op → List K → Option K

namespace Basic

variable {Op K : Type}

mutual

/-- `getSymbols`. -/
def getSymbols : Basic Op K → Finset Text
  | number _ => ∅
  | symbol name => {name}
  | node _ args => getSymbolsArgs args

/-- The loop of `getSymbols` over `get_args`. -/
def getSymbolsArgs : List (Basic Op K) → Finset Text
  | [] => ∅
  | arg :: args => getSymbols arg ∪ getSymbolsArgs args

end

mutual

/-- `func.subs(subsMap)`. -/
def subs (subsMap : SubsMap K) : Basic Op K → Basic Op K
  | number q => number q
  | symbol name =>
    match subsMap.lookup name with
    | some t => number t
    | none => symbol name
  | node op args => node op (subsArgs subsMap args)

def subsArgs (subsMap : SubsMap K) : List (Basic Op K) → List (Basic Op K)
  | [] => []
  | arg :: args => subs subsMap arg :: subsArgs subsMap args

end

mutual

/-- `static_cast<double>(func)`, which throws when a symbol is left. -/
def toDouble [Operation Op K] : Basic Op K → Option K
  | number q => some q
  | symbol _ => none
  | node op args => (toDoubleArgs args).bind (Operation.apply op)

def toDoubleArgs [Operation Op K] : List (Basic Op K) → Option (List K)
  | [] => some []
  | arg :: args => Option.map₂ List.cons (toDouble arg) (toDoubleArgs args)

end

mutual

/-- The value of an expression where the symbols have the values `ρ`. -/
def eval [Operation Op K] (ρ : Text → K) : Basic Op K → Option K
  | number q => some q
  | symbol name => some (ρ name)
  | node op args => (evalArgs ρ args).bind (Operation.apply op)

def evalArgs [Operation Op K] (ρ : Text → K) : List (Basic Op K) → Option (List K)
  | [] => some []
  | arg :: args => Option.map₂ List.cons (eval ρ arg) (evalArgs ρ args)

end

end Basic

instance {Op K : Type} [Operation Op K] : Symbolic (Basic Op K) K where
  getSymbols := Basic.getSymbols
  subs x t func := func.subs (Finmap.singleton x t)
  toDouble := Basic.toDouble

/-- The operations of cost bounds. -/
inductive Arithmetic where
  | add | mul | max | min
  deriving Repr, DecidableEq

instance {K : Type} [CommSemiring K] [LinearOrder K] : Operation Arithmetic K where
  apply
    | .add, args => some args.sum
    | .mul, args => some args.prod
    | .max, args => args.max?
    | .min, args => args.min?

end Gpscat.Score
