import Gpscat.IRCostCalculator
import Mathlib.Data.BitVec

/-!
# Sequences of visits

Calls of `visitInstruction` in any order, also behind a call that has thrown. What holds between the
costs of the instructions and those of their blocks.
-/

namespace Gpscat.IRCostCalculator

open Cpp LLVM

/-- Calls of `visitInstruction` one after the other, and how each of them ended. -/
def visits : List InstructionPtr → IRCostCalculator →
    IRCostCalculator × List (Except Exception Unit)
  | [], c => (c, [])
  | I :: Is, c =>
    let r := c.visitInstruction I
    let rs := visits Is r.1
    (rs.1, r.2 :: rs.2)

/-- The cost of each block is the sum of the costs of its instructions. -/
def Consistent (M : Module) (c : IRCostCalculator) : Prop :=
  ∀ x ∈ M.blockPtrs,
    c.getBlockCost x.1 = ((Module.instructionPtrs x).map fun I => c.getInstCost I.1).sum

/-- The assembly instructions attributed to the instructions of a block. -/
def blockAsms (IRAsmMap : IRAsmMapType) (x : BasicBlockPtr × BasicBlock) :
    List AssemblyInstruction :=
  (Module.instructionPtrs x).flatMap fun I => IRAsmMap.findD I.1 []

end Gpscat.IRCostCalculator
