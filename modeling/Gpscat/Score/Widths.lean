import Gpscat.Lib.IteratedIntegral
import Gpscat.Score.Integrand

/-!
# Widths

The loop at the end of `main` divides by widths that are computed in `int`. What it means that these
are the lengths of the sides over which the cost function is integrated.
-/

namespace Gpscat.Score

open Cpp IteratedIntegral

/-- The bounds that the integrators get. -/
noncomputable def integrationBox (bounds : BoundsMap) : List (ℝ × ℝ) :=
  (mapBounds bounds).map fun b => ((b.1 : ℝ), (b.2 : ℝ))

/-- The quadrature computes integrals. -/
def ExactQuadrature (integrate : Quadrature ℝ) : Prop :=
  ∀ (f : ℝ → Option ℝ) (g : ℝ → ℝ) (lo hi : ℝ), lo ≤ hi →
    (∀ t ∈ Set.Icc lo hi, f t = some (g t)) → integrate f lo hi = some (∫ t in lo..hi, g t)

/-- Monte-Carlo integration computes integrals. -/
def ExactMonteCarlo (naiveMonteCarlo : NaiveMonteCarlo ℝ) : Prop :=
  ∀ (f : List ℝ → Option ℝ) (g : List ℝ → ℝ) (sides : List (ℝ × ℝ)),
    (∀ side ∈ sides, side.1 ≤ side.2) → (∀ x, InBox sides x → f x = some (g x)) →
      naiveMonteCarlo f sides = some (iteratedIntegral sides g)

/-- The algorithms that `numericallyIntegrate` knows. -/
def Supported (numericalIntegrationAlgo : String) : Prop :=
  numericalIntegrationAlgo = "auto" ∨ numericalIntegrationAlgo = "monte_carlo" ∨
    numericalIntegrationAlgo = "gauss_kronrod"

/-- Each parameter has a side of positive length. -/
structure ProperBounds (paramsSet : Finset Text) (bounds : BoundsMap) : Prop where
  keys : bounds.keys = paramsSet
  lt : ∀ name b, bounds.lookup name = some b → b.1 < b.2

section Score

variable {Op : Type} [Operation Op ℝ]

/-- The cost function has values on the box, and none is negative. -/
structure NonnegOn (func : Basic Op ℝ) (sides : List (ℝ × ℝ)) : Prop where
  value : ∀ x, InBox sides x →
    ∃ cost, integrand func (func.getSymbols.sort (· ≤ ·)) x = some cost ∧ 0 ≤ cost

/-- The divisors of the mean are the lengths of the sides. -/
structure DivisorsMatch (integrate : Quadrature ℝ) (naiveMonteCarlo : NaiveMonteCarlo ℝ)
    (algo : String) (func : Basic Op ℝ) (bounds : BoundsMap) : Prop where
  width : ∀ name b, bounds.lookup name = some b → (width b : ℝ) = (b.2 : ℝ) - (b.1 : ℝ)
  volume : 0 < volume (integrationBox bounds) ∧
    ∀ x : ℝ, divideByWidths (mapBounds bounds) x = x / volume (integrationBox bounds)
  nonneg : NonnegOn func (integrationBox bounds) →
    ∃ v, score integrate (MonteCarloIntegration naiveMonteCarlo) algo func bounds =
      some (.printed (.value v)) ∧ 0 ≤ v

end Score

end Gpscat.Score
