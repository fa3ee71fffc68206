import Mathlib.Algebra.BigOperators.Group.List.Basic
import Mathlib.Algebra.Order.Ring.Int

/-!
# Runs with hidden steps

A labelled transition system is a relation `step : σ → ℓ → σ → Prop`. A run is the list of its labels
and of the states they lead to. A second system may take further steps that the first one does not
see: `hide` names the label that is seen, or `none`.
-/

namespace Simulation

variable {σ τ ℓ κ : Type*}

/-- A run from `s` to `t`. -/
inductive Run (step : σ → ℓ → σ → Prop) : σ → List (ℓ × σ) → σ → Prop where
  | nil (s : σ) : Run step s [] s
  | cons {s s₁ t : σ} {l : ℓ} {r : List (ℓ × σ)} (h : step s l s₁) (hr : Run step s₁ r t) :
    Run step s ((l, s₁) :: r) t

/-- What is seen of a run. -/
def seen (abs : τ → σ) (hide : κ → Option ℓ) (r : List (κ × τ)) : List (ℓ × σ) :=
  r.filterMap fun x => (hide x.1).map fun l => (l, abs x.2)

/-- Every step of the second system is a step of the first one, or hidden and without effect. -/
def Forward (stepA : σ → ℓ → σ → Prop) (stepB : τ → κ → τ → Prop) (abs : τ → σ)
    (hide : κ → Option ℓ) (Inv : τ → Prop) : Prop :=
  ∀ s l t, Inv s → stepB s l t → Inv t ∧
    match hide l with
    | some l' => stepA (abs s) l' (abs t)
    | none => abs t = abs s

/-- Every step of the first system is a step of the second one, after which hidden steps may be
needed before the next one can be followed. -/
def Backward (stepA : σ → ℓ → σ → Prop) (stepB : τ → κ → τ → Prop) (abs : τ → σ)
    (hide : κ → Option ℓ) (Inv : τ → Prop) : Prop :=
  ∀ s l t, Inv s → stepA (abs s) l t → ∃ k s₁ r t', stepB s k s₁ ∧ hide k = some l ∧
    Run stepB s₁ r t' ∧ seen abs hide r = [] ∧ abs s₁ = t ∧ abs t' = t ∧ Inv t'

end Simulation
