import Gpscat.Score.Bounds
import Gpscat.Score.SymEngine
import Mathlib.Algebra.Field.Defs
import Mathlib.Data.Char
import Mathlib.Data.Finset.Sort
import Mathlib.Data.List.Lex

/-!
# The score

`gpscat-score` integrates the cost function over the bounds of its parameters and divides by the
widths. The numbers are from a field `K` in place of `double`. The quadrature and Monte-Carlo
routines of Boost are parameters; a function that throws returns `none`. The polynomials are the cost
functions for which the score is compared with a mean.
-/

namespace Gpscat.Score

open Cpp

/-- A `SymEngine::Expression` that is a polynomial. -/
inductive Expression (K : Type) where
  | num (q : K)
  | symbol (name : Text)
  | add (a b : Expression K)
  | mul (a b : Expression K)
  | pow (a : Expression K) (n : Nat)

namespace Expression

variable {K : Type} [CommSemiring K]

/-- `getSymbols`. -/
def getSymbols : Expression K → Finset Text
  | num _ => ∅
  | symbol name => {name}
  | add a b | mul a b => getSymbols a ∪ getSymbols b
  | pow a _ => getSymbols a

/-- `func.subs({{symbol(x), real_double(t)}})`. -/
def subs (x : Text) (t : K) : Expression K → Expression K
  | num q => num q
  | symbol name => if name = x then num t else symbol name
  | add a b => add (subs x t a) (subs x t b)
  | mul a b => mul (subs x t a) (subs x t b)
  | pow a n => pow (subs x t a) n

/-- `static_cast<double>(func)`, which throws when a symbol is left. -/
def toDouble : Expression K → Option K
  | num q => some q
  | symbol _ => none
  | add a b => do return (← toDouble a) + (← toDouble b)
  | mul a b => do return (← toDouble a) * (← toDouble b)
  | pow a n => do return (← toDouble a) ^ n

end Expression

instance {K : Type} [CommSemiring K] : Symbolic (Expression K) K where
  getSymbols := Expression.getSymbols
  subs := Expression.subs
  toDouble := Expression.toDouble

@[simp] theorem Expression.symbolic_getSymbols {K : Type} [CommSemiring K] (func : Expression K) :
    Symbolic.getSymbols func = func.getSymbols := rfl

@[simp] theorem Expression.symbolic_toDouble {K : Type} [CommSemiring K] (func : Expression K) :
    Symbolic.toDouble func = func.toDouble := rfl

section Integration

variable {E K : Type} [Symbolic E K]

/-- `gauss_kronrod<double, 15>::integrate(f, lo, hi)`: it throws when `f` does. -/
abbrev Quadrature (K : Type) := (K → Option K) → K → K → Option K

/-- `MonteCarloIntegration(func, params, bounds)`. -/
abbrev MonteCarlo (K : Type) (E : Type := Expression K) :=
  E → List Text → List (K × K) → Option K

/-- `GaussKronrodIntegration`. Parameters or bounds that are missing are out of range. -/
def GaussKronrodIntegration (integrate : Quadrature K) (func : E) (params : List Text)
    (bounds : List (K × K)) (currentIndex : Nat) : Option K :=
  match hparam : params[currentIndex]?, bounds[currentIndex]? with
  | some param, some bound =>
    if currentIndex + 1 = params.length then
      integrate (fun t => Symbolic.toDouble (Symbolic.subs param t func)) bound.1 bound.2
    else
      integrate (fun t =>
        GaussKronrodIntegration integrate (Symbolic.subs param t func) params bounds
          (currentIndex + 1))
        bound.1 bound.2
  | _, _ => none
termination_by params.length - currentIndex
decreasing_by
  have hlt := (List.getElem?_eq_some_iff.mp hparam).1
  omega

/-- A `double` result. -/
inductive Result (K : Type) where
  /-- A quiet NaN, after the message `The numerical integration algorithm is not supported.` -/
  | unsupported
  | value (x : K)

/-- The bounds in the order of the map, which is that of the names. -/
def mapBounds (boundsMap : BoundsMap) : List (Int × Int) :=
  (boundsMap.keys.sort (· ≤ ·)).filterMap boundsMap.lookup

variable [Field K]

/-- `numericallyIntegrate`, with the value of `-algorithm`. -/
def numericallyIntegrate (integrate : Quadrature K) (monteCarlo : MonteCarlo K E)
    (numericalIntegrationAlgo : String) (func : E) (paramsName : List Text)
    (boundsMap : BoundsMap) : Option (Result K) :=
  let bounds := (mapBounds boundsMap).map fun b => ((b.1 : K), (b.2 : K))
  -- Special case where the function is a constant
  if paramsName.length = 0 then (Symbolic.toDouble func).map .value
  else if numericalIntegrationAlgo = "auto" then
    if paramsName.length ≤ 4 then
      (GaussKronrodIntegration integrate func paramsName bounds 0).map .value
    else (monteCarlo func paramsName bounds).map .value
  else if numericalIntegrationAlgo = "monte_carlo" then
    (monteCarlo func paramsName bounds).map .value
  else if numericalIntegrationAlgo = "gauss_kronrod" then
    (GaussKronrodIntegration integrate func paramsName bounds 0).map .value
  else some .unsupported

/-- The width of a side, computed in `int`. -/
def width (b : Int × Int) : Int := (b.2 - b.1).bmod (2 ^ 32)

/-- The loop that calculates the mean. -/
def divideByWidths : List (Int × Int) → K → K
  | [], result => result
  | b :: bs, result =>
    divideByWidths bs (if width b = 0 then result else result / (width b : K))

def Result.divide : Result K → List (Int × Int) → Result K
  | unsupported, _ => unsupported
  | value x, bs => value (divideByWidths bs x)

/-- What `main` does once the bounds are read. -/
inductive Output (K : Type) where
  /-- `Some variables are unbounded`, and the exit code 1. -/
  | unbounded
  | printed (result : Result K)

/-- The rest of `main`. -/
def score (integrate : Quadrature K) (monteCarlo : MonteCarlo K E)
    (numericalIntegrationAlgo : String) (func : E) (bounds : BoundsMap) :
    Option (Output K) :=
  let paramsSet := Symbolic.getSymbols func
  if bounds.keys.card ≠ paramsSet.card then some .unbounded
  else
    (numericallyIntegrate integrate monteCarlo numericalIntegrationAlgo func
      (paramsSet.sort (· ≤ ·)) bounds).map fun result => .printed (result.divide (mapBounds bounds))

end Integration

/-! ## What the score is for -/

/-- The function that an expression denotes. -/
def Expression.eval {K : Type} [CommSemiring K] (ρ : Text → K) : Expression K → K
  | num q => q
  | symbol name => ρ name
  | add a b => eval ρ a + eval ρ b
  | mul a b => eval ρ a * eval ρ b
  | pow a n => eval ρ a ^ n

/-- The bounds with which `main` reaches the integration: there is one pair for each parameter, in
order. -/
structure Accepted {K : Type} [CommSemiring K] (func : Expression K) (bounds : BoundsMap) : Prop where
  keys : bounds.keys = func.getSymbols
  ordered : ∀ name b, bounds.lookup name = some b → b.1 ≤ b.2

end Gpscat.Score
