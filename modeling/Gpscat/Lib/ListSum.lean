import Mathlib.Algebra.BigOperators.Group.List.Basic
import Mathlib.Data.List.Nodup

/-!
# Sums over lists

Re-indexing of double sums, where each summand is selected by a key.
-/

namespace ListSum

variable {α β γ : Type} [AddCommMonoid γ]

/-- A sum whose summands vanish except at the one element with key `k`. -/
theorem sum_map_ite_key {κ : Type} [DecidableEq κ] (l : List α) (key : α → κ) (f : α → γ)
    (hnd : (l.map key).Nodup) {x : α} (hx : x ∈ l) :
    (l.map fun y => if key y = key x then f y else 0).sum = f x := by
  induction l with
  | nil => exact absurd hx List.not_mem_nil
  | cons y l ih =>
    rw [List.map_cons, List.nodup_cons] at hnd
    rw [List.map_cons, List.sum_cons]
    rcases List.mem_cons.mp hx with rfl | hxl
    · have hzero : (l.map fun y => if key y = key x then f y else 0) = l.map fun _ => 0 := by
        refine List.map_congr_left fun z hz => if_neg fun hzx => hnd.1 ?_
        rw [← hzx]
        exact List.mem_map_of_mem hz
      rw [if_pos rfl, hzero, List.sum_map_zero, add_zero]
    · have hne : key y ≠ key x := fun hyx => hnd.1 (hyx ▸ List.mem_map_of_mem hxl)
      rw [if_neg hne, zero_add, ih hnd.2 hxl]

/-- A constant summed over the elements of a duplicate-free list that are some `a`. -/
theorem sum_map_ite_mem [DecidableEq α] (l : List α) (hnd : l.Nodup) (a : α) (c : γ) :
    (l.map fun y => if y = a then c else 0).sum = if a ∈ l then c else 0 := by
  by_cases ha : a ∈ l
  · rw [if_pos ha]
    exact sum_map_ite_key l id (fun _ => c) (by simpa using hnd) ha
  · rw [if_neg ha]
    have hzero : (l.map fun y => if y = a then c else 0) = l.map fun _ => 0 := by
      refine List.map_congr_left fun z hz => if_neg ?_
      rintro rfl
      exact ha hz
    rw [hzero, List.sum_map_zero]

/-- A filtered sum as a sum over the whole list. -/
theorem sum_map_filter (l : List α) (p : α → Bool) (f : α → γ) :
    ((l.filter p).map f).sum = (l.map fun x => if p x then f x else 0).sum := by
  induction l with
  | nil => rfl
  | cons x l ih =>
    by_cases hx : p x = true
    · rw [List.filter_cons_of_pos hx, List.map_cons, List.sum_cons, ih, List.map_cons,
        List.sum_cons, if_pos hx]
    · rw [List.filter_cons_of_neg hx, ih, List.map_cons, List.sum_cons, if_neg hx, zero_add]

/-- The order of two summations does not matter. -/
theorem sum_comm (l : List α) (m : List β) (f : α → β → γ) :
    (l.map fun x => (m.map fun y => f x y).sum).sum =
      (m.map fun y => (l.map fun x => f x y).sum).sum := by
  induction l with
  | nil => simp
  | cons x l ih =>
    simp only [List.map_cons, List.sum_cons, ih]
    rw [← List.sum_map_add]

/-- A sum over a flattened list. -/
theorem sum_map_flatMap (l : List α) (g : α → List β) (f : β → γ) :
    ((l.flatMap g).map f).sum = (l.map fun x => ((g x).map f).sum).sum := by
  induction l with
  | nil => rfl
  | cons x l ih =>
    rw [List.flatMap_cons, List.map_append, List.sum_append, ih, List.map_cons, List.sum_cons]

/-- A sum over the `some` results of a partial function. -/
theorem sum_map_filterMap (l : List α) (g : α → Option β) (f : β → γ) :
    ((l.filterMap g).map f).sum = (l.map fun x => ((g x).map f).getD 0).sum := by
  induction l with
  | nil => rfl
  | cons x l ih =>
    rw [List.map_cons, List.sum_cons, ← ih]
    cases hx : g x with
    | none => rw [List.filterMap_cons_none hx, Option.map_none, Option.getD_none, zero_add]
    | some y =>
      rw [List.filterMap_cons_some hx, List.map_cons, List.sum_cons, Option.map_some,
        Option.getD_some]

end ListSum
