import Gpscat.IRCostCalculator
import Gpscat.LLVM.Metadata

/-!
# Costs as metadata

`generateInstCostMetadata` attaches the cost of every instruction to it, and
`generateBlockCostMetadata` that of every block to the terminator of the block.
-/

namespace Gpscat.IRCostCalculator

open Cpp LLVM

/-- `costAsMD`, a node around an `i32` constant. -/
def costAsMD (cost : CostTy) : MDNode := [.int cost]

/-- `generateInstCostMetadata`. -/
def generateInstCostMetadata (c : IRCostCalculator) (A : AnnotatedModule) : AnnotatedModule :=
  A.module.instructions.foldl
    (fun A I => A.setMetadata I.1 "cost" (costAsMD (c.getInstCost I.1))) A

/-- `generateBlockCostMetadata`. -/
def generateBlockCostMetadata (c : IRCostCalculator) (A : AnnotatedModule) : AnnotatedModule :=
  A.module.blockPtrs.foldl
    (fun A x => A.setMetadata (Module.getTerminator x) "cost" (costAsMD (c.getBlockCost x.1))) A

/-- The cost that a node of the kind `cost` has as its operand. -/
def readCost (A : AnnotatedModule) (I : InstructionPtr) : Option CostTy :=
  match A.getMetadata I "cost" with
  | some [.int cost] => some cost
  | _ => none

/-- Both orders of the two annotations leave the same module, in which the cost of every instruction
and the cost of every block can be read. -/
structure Independent (c : IRCostCalculator) (A : AnnotatedModule) : Prop where
  same : c.generateBlockCostMetadata (c.generateInstCostMetadata A) =
    c.generateInstCostMetadata (c.generateBlockCostMetadata A)
  inst : ∀ I ∈ A.module.instructions.map Prod.fst,
    readCost (c.generateBlockCostMetadata (c.generateInstCostMetadata A)) I = some (c.getInstCost I)
  block : ∀ x ∈ A.module.blockPtrs,
    readCost (c.generateBlockCostMetadata (c.generateInstCostMetadata A)) (Module.getTerminator x) =
      some (c.getBlockCost x.1)

end Gpscat.IRCostCalculator
