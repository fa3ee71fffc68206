import Gpscat.CoFloCo.Tick
import Gpscat.Visits

/-!
# The range of a cost

Costs are added up as `CostTy` without a check. What it means that none of the sums has left the
range of `CostTy`, from the two cost maps to the argument of a call of `tick`.
-/

namespace Gpscat

open Cpp LLVM

/-- No opcode has a negative cost. -/
def AssemblyCostModel.Nonneg (costModel : AssemblyCostModel) : Prop :=
  ∀ instName cost, costModel.costModel.lookup instName = some cost → 0 ≤ cost.toInt

namespace IRCostCalculator

/-- The cost of a list of assembly instructions as a mathematical sum. -/
def exactCost (costModel : AssemblyCostModel) (asms : List AssemblyInstruction) : Int :=
  (asms.map fun a => (costModel.costOf a.getName).toInt).sum

/-- `cost` is the exact cost of `asms`, and so neither negative nor below that of one of them. -/
structure IsExact (costModel : AssemblyCostModel) (asms : List AssemblyInstruction)
    (cost : CostTy) : Prop where
  exact : cost.toInt = exactCost costModel asms
  nonneg : 0 ≤ cost.toInt
  single : ∀ a ∈ asms, (costModel.costOf a.getName).toInt ≤ cost.toInt

/-- No cost of the calculator `c` over `M` has overflowed. -/
structure CostsExact (M : Module) (c : IRCostCalculator) : Prop where
  /-- Both maps have keys of the module only. -/
  instKeys : ∀ I ∈ c.instCostMap, I ∈ M.instructions.map Prod.fst
  blockKeys : ∀ p ∈ c.blockCostMap, p ∈ M.blockPtrs.map Prod.fst
  inst : ∀ I ∈ M.instructions.map Prod.fst,
    IsExact c.costModel (c.IRAsmMap.findD I []) (c.getInstCost I)
  block : ∀ x ∈ M.blockPtrs, IsExact c.costModel (blockAsms c.IRAsmMap x) (c.getBlockCost x.1)
  /-- A block to which fewer assembly instructions are attributed does not cost more. -/
  mono : ∀ m₀ c₀, create M c.costModel m₀ = .ok c₀ → ∀ x ∈ M.blockPtrs,
    List.Subperm (blockAsms m₀ x) (blockAsms c.IRAsmMap x) →
      (c₀.getBlockCost x.1).toInt ≤ (c.getBlockCost x.1).toInt
  /-- `cost2tick` puts a call of `tick` with the exact cost into every block of the map. -/
  tick : ∀ U M', CoFloCoWrapper.cost2tick U M c.blockCostMap = some M' →
    ∀ x ∈ M.blockPtrs, x.1 ∈ c.blockCostMap →
      M'.blockAt x.1 = some (x.2.insertBeforeTerminator
        { op := .call (.function M.functions.length)
            [.constInt 32 (exactCost c.costModel (blockAsms c.IRAsmMap x))] .plain })

end IRCostCalculator

end Gpscat
