import Mathlib.MeasureTheory.Integral.IntervalIntegral.Basic

/-!
# Iterated integrals

Integrals over the sides of a box, one inside the other. Of a function nothing is assumed: an inner
integral that does not exist counts as 0.
-/

namespace IteratedIntegral

open MeasureTheory

/-- The point lies in the box with the given sides. -/
def InBox (sides : List (ℝ × ℝ)) (x : List ℝ) : Prop :=
  List.Forall₂ (fun side t => t ∈ Set.Icc side.1 side.2) sides x

/-- The integral over the first side is the outer one. -/
noncomputable def iteratedIntegral : List (ℝ × ℝ) → (List ℝ → ℝ) → ℝ
  | [], f => f []
  | side :: sides, f => ∫ t in side.1..side.2, iteratedIntegral sides fun x => f (t :: x)

/-- The volume of a box. -/
def volume (sides : List (ℝ × ℝ)) : ℝ := (sides.map fun side => side.2 - side.1).prod

theorem volume_pos {sides : List (ℝ × ℝ)} (h : ∀ side ∈ sides, side.1 < side.2) :
    0 < volume sides := by
  refine List.prod_pos fun length hlength => ?_
  obtain ⟨side, hside, rfl⟩ := List.mem_map.mp hlength
  exact sub_pos.mpr (h side hside)

theorem iteratedIntegral_congr {sides : List (ℝ × ℝ)} (h : ∀ side ∈ sides, side.1 ≤ side.2)
    {f g : List ℝ → ℝ} (hfg : ∀ x, InBox sides x → f x = g x) :
    iteratedIntegral sides f = iteratedIntegral sides g := by
  induction sides generalizing f g with
  | nil => exact hfg [] .nil
  | cons side sides ih =>
    refine intervalIntegral.integral_congr fun t ht => ?_
    rw [Set.uIcc_of_le (h side List.mem_cons_self)] at ht
    refine ih (fun s hs => h s (List.mem_cons_of_mem side hs)) fun x hx => ?_
    exact hfg (t :: x) (.cons ht hx)

/-- A function that is not negative on the box has no negative integral. -/
theorem iteratedIntegral_nonneg {sides : List (ℝ × ℝ)} (h : ∀ side ∈ sides, side.1 ≤ side.2)
    {f : List ℝ → ℝ} (hf : ∀ x, InBox sides x → 0 ≤ f x) : 0 ≤ iteratedIntegral sides f := by
  induction sides generalizing f with
  | nil => exact hf [] .nil
  | cons side sides ih =>
    refine intervalIntegral.integral_nonneg (h side List.mem_cons_self) fun t ht => ?_
    refine ih (fun s hs => h s (List.mem_cons_of_mem side hs)) fun x hx => ?_
    exact hf (t :: x) (.cons ht hx)

end IteratedIntegral
