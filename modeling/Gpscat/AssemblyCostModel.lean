import Gpscat.Lib.CppString
import Gpscat.Lib.UnorderedMap

/-!
# The assembly cost model

`AssemblyCostModel` maps the opcode names of the target assembly to their costs.
-/

namespace Gpscat

open Cpp

/-- `using CostTy = std::int32_t`. Arithmetic on it wraps modulo `2 ^ 32`. -/
abbrev CostTy := BitVec 32

/-- The cost of every known opcode. -/
structure AssemblyCostModel where
  costModel : UnorderedMap Text CostTy

namespace AssemblyCostModel

/-- `get`, which throws `std::out_of_range` for an unknown opcode. -/
def get (m : AssemblyCostModel) (instName : Text) : Except Exception CostTy :=
  match m.costModel.lookup instName with
  | some cost => .ok cost
  | none => .error .outOfRange

/-- `set`. -/
def set (m : AssemblyCostModel) (instName : Text) (cost : CostTy) : AssemblyCostModel :=
  ⟨m.costModel.insert instName cost⟩

/-- `hasInst`. -/
def hasInst (m : AssemblyCostModel) (instName : Text) : Bool :=
  (m.costModel.lookup instName).isSome

/-- The constructor, from the rows `Opcode, Cost` of the csv file; a later row overrides an earlier
one of the same opcode. -/
def ofRows (rows : List (Text × CostTy)) : AssemblyCostModel :=
  rows.foldl (fun m row => m.set row.1 row.2) ⟨∅⟩

/-- The cost of an opcode as an integer, `0` for an unknown one. -/
def costOf (m : AssemblyCostModel) (instName : Text) : CostTy :=
  m.costModel.findD instName 0

theorem get_of_hasInst {m : AssemblyCostModel} {instName : Text} (h : m.hasInst instName) :
    m.get instName = .ok (m.costOf instName) := by
  obtain ⟨cost, hcost⟩ := Option.isSome_iff_exists.mp h
  simp [get, costOf, UnorderedMap.findD, hcost]

theorem get_of_not_hasInst {m : AssemblyCostModel} {instName : Text} (h : ¬ m.hasInst instName) :
    m.get instName = .error .outOfRange := by
  have hnone : m.costModel.lookup instName = none := by simpa [hasInst] using h
  simp [get, hnone]

end AssemblyCostModel

end Gpscat
