import Mathlib.Data.BitVec
import Mathlib.Algebra.BigOperators.Group.List.Basic
import Mathlib.Data.List.Infix

/-!
# Sums of machine integers

A sum of 32-bit integers that is computed modulo `2 ^ 32` is the exact sum of their values as long
as that sum is a 32-bit integer.
-/

namespace MachineInt

/-- The value is one of a 32-bit signed integer. -/
def Fits (n : Int) : Prop := -2 ^ 31 ≤ n ∧ n < 2 ^ 31

instance (n : Int) : Decidable (Fits n) := inferInstanceAs (Decidable (_ ∧ _))

/-- Every value of an accumulator that starts at 0 and adds up the list is a 32-bit integer. -/
def PartialSumsFit (l : List (BitVec 32)) : Prop :=
  ∀ p ∈ l.inits, Fits (p.map BitVec.toInt).sum

instance (l : List (BitVec 32)) : Decidable (PartialSumsFit l) :=
  inferInstanceAs (Decidable (∀ p ∈ l.inits, Fits (p.map BitVec.toInt).sum))

theorem bmod_of_fits {n : Int} (h : Fits n) : n.bmod (2 ^ 32) = n := by
  obtain ⟨hlo, hhi⟩ := h
  exact Int.bmod_eq_of_le (by omega) (by omega)

/-- The wrapping sum, in terms of the exact one. -/
theorem toInt_sum (l : List (BitVec 32)) :
    l.sum.toInt = (l.map BitVec.toInt).sum.bmod (2 ^ 32) := by
  induction l with
  | nil => rfl
  | cons x l ih =>
    rw [List.sum_cons, BitVec.toInt_add, ih, List.map_cons, List.sum_cons, Int.add_bmod_bmod]

theorem toInt_sum_of_fits {l : List (BitVec 32)} (h : Fits (l.map BitVec.toInt).sum) :
    l.sum.toInt = (l.map BitVec.toInt).sum := by
  rw [toInt_sum, bmod_of_fits h]

theorem PartialSumsFit.toInt_sum {l : List (BitVec 32)} (h : PartialSumsFit l) :
    l.sum.toInt = (l.map BitVec.toInt).sum :=
  toInt_sum_of_fits (h l ((List.mem_inits l l).mpr List.prefix_rfl))

theorem natAbs_sum_le {l : List (BitVec 32)} {bound : Nat} (h : ∀ x ∈ l, x.toInt.natAbs ≤ bound) :
    (l.map BitVec.toInt).sum.natAbs ≤ l.length * bound := by
  induction l with
  | nil => simp
  | cons x l ih =>
    have hx := h x List.mem_cons_self
    have hrest := ih fun y hy => h y (List.mem_cons_of_mem _ hy)
    rw [List.map_cons, List.sum_cons, List.length_cons, Nat.succ_mul]
    omega

/-- Small values, and not too many of them. -/
theorem partialSumsFit_of_le {l : List (BitVec 32)} {bound : Nat}
    (h : ∀ x ∈ l, x.toInt.natAbs ≤ bound) (hlen : l.length * bound < 2 ^ 31) :
    PartialSumsFit l := by
  intro p hp
  have hbegins : p <+: l := (List.mem_inits p l).mp hp
  have hsum := natAbs_sum_le fun x hx => h x (hbegins.subset hx)
  have hmul : p.length * bound ≤ l.length * bound := Nat.mul_le_mul_right _ hbegins.length_le
  constructor <;> omega

end MachineInt
