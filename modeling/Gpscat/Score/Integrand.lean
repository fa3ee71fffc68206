import Gpscat.Score.Integration
import Mathlib.Logic.Relation

/-!
# The integrands

Both integrators put numbers for the parameters: `MonteCarloIntegration` for all at once,
`GaussKronrodIntegration` for one in each of its nested calls.
-/

namespace Gpscat.Score

open Cpp

section MonteCarloIntegration

variable {Op K : Type} [Operation Op K]

/-- `naive_monte_carlo`: it estimates the integral of a function over a box. -/
abbrev NaiveMonteCarlo (K : Type) := (List K → Option K) → List (K × K) → Option K

/-- `subsMap`, filled in the order of the parameters. A point has a coordinate for each of them. -/
def subsMap (params : List Text) (x : List K) : SubsMap K :=
  (params.zip x).foldl (fun m p => m.insert p.1 p.2) ∅

/-- The integrand of `MonteCarloIntegration`. -/
def integrand (func : Basic Op K) (params : List Text) (x : List K) : Option K :=
  (func.subs (subsMap params x)).toDouble

def MonteCarloIntegration (naiveMonteCarlo : NaiveMonteCarlo K) : MonteCarlo K (Basic Op K) :=
  fun func params bounds => naiveMonteCarlo (integrand func params) bounds

end MonteCarloIntegration

section GaussKronrodIntegration

variable {E K : Type} [Symbolic E K]

/-- A call of `GaussKronrodIntegration` with `func` and `currentIndex`, and the call that its
integrand makes for a number that the quadrature puts in. -/
inductive RecursiveCall (params : List Text) : E × Nat → E × Nat → Prop where
  | integrand {func : E} {currentIndex : Nat} {param : Text}
    (hparam : params[currentIndex]? = some param) (hmore : currentIndex + 1 ≠ params.length)
    (t : K) :
    RecursiveCall params (func, currentIndex) (Symbolic.subs param t func, currentIndex + 1)

/-- The calls that a call makes in the end, itself included. -/
def Calls (params : List Text) : E × Nat → E × Nat → Prop :=
  Relation.ReflTransGen (RecursiveCall params)

/-- The expression after numbers have been put for the first parameters, one after the other. -/
def substituted (func : E) (params : List Text) (ts : List K) : E :=
  (params.zip ts).foldl (fun func p => Symbolic.subs p.1 p.2 func) func

/-- One quadrature inside the other, that of the first bounds outside. -/
def iterate (integrate : Quadrature K) : List (K × K) → (List K → Option K) → Option K
  | [], f => f []
  | b :: bs, f => integrate (fun t => iterate integrate bs fun ts => f (t :: ts)) b.1 b.2

end GaussKronrodIntegration

end Gpscat.Score
