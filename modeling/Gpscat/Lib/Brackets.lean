import Mathlib.Algebra.BigOperators.Group.List.Basic
import Mathlib.Algebra.Order.Ring.Int

/-!
# Brackets

Words over an alphabet in which some letters open and some letters close a bracket: `w` is 1 on the
former, -1 on the latter and 0 elsewhere. `depth` counts, `Balanced` words return to 0 and never
fall below it, and `Matching` says which bracket closes which.
-/

namespace Brackets

variable {α : Type*} (w : α → ℤ)

/-- Opened minus closed brackets. -/
def depth (l : List α) : ℤ := (l.map w).sum

structure Balanced (l : List α) : Prop where
  depth_eq : depth w l = 0
  nonneg : ∀ n, 0 ≤ depth w (l.take n)

/-- The bracket opened at position `i` is closed at position `j`: counted from `i`, the depth comes
back to 0 at `j` for the first time. -/
def Matching (l : List α) (i j : ℕ) : Prop :=
  i < j ∧ j < l.length ∧ depth w ((l.drop i).take (j + 1 - i)) = 0 ∧
    ∀ k < j, i ≤ k → 0 < depth w ((l.drop i).take (k + 1 - i))

instance (l : List α) (i j : ℕ) : Decidable (Matching w l i j) :=
  inferInstanceAs (Decidable (_ ∧ _ ∧ _ ∧ ∀ k < j, i ≤ k → _))

end Brackets
