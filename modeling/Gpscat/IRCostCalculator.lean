import Gpscat.MappingExtractor

/-!
# Costs of instructions and blocks

`IRCostCalculator` charges the cost of every assembly instruction to the LLVM IR instruction it was
mapped to, and to the basic block of that instruction.

`visitInstruction` can leave its loop by the exception of `costModel.get`; the maps keep what was
added before. So a visit returns the calculator together with the outcome.
-/

namespace Gpscat

open Cpp LLVM

abbrev InstCostMapType := UnorderedMap InstructionPtr CostTy

abbrev BlockCostMapType := UnorderedMap BasicBlockPtr CostTy

/-- The members of the class. -/
structure IRCostCalculator where
  costModel : AssemblyCostModel
  IRAsmMap : IRAsmMapType
  instCostMap : InstCostMapType := ∅
  blockCostMap : BlockCostMapType := ∅

namespace IRCostCalculator

/-- `getInstCost`. -/
def getInstCost (c : IRCostCalculator) (I : InstructionPtr) : CostTy := c.instCostMap.findD I 0

/-- `getBlockCost`. -/
def getBlockCost (c : IRCostCalculator) (BB : BasicBlockPtr) : CostTy := c.blockCostMap.findD BB 0

/-- `instCostMap[&I] += cost; blockCostMap[I.getParent()] += cost;` -/
def addCost (c : IRCostCalculator) (I : InstructionPtr) (cost : CostTy) : IRCostCalculator :=
  { c with
    instCostMap := c.instCostMap.modify I 0 (· + cost)
    blockCostMap := c.blockCostMap.modify I.parent 0 (· + cost) }

/-- The loop of `visitInstruction` over the assembly instructions of `I`. -/
def addAsms (I : InstructionPtr) :
    List AssemblyInstruction → IRCostCalculator → IRCostCalculator × Except Exception Unit
  | [], c => (c, .ok ())
  | asmInst :: asms, c =>
    match c.costModel.get asmInst.getName with
    | .error e => (c, .error e)
    | .ok cost => addAsms I asms (c.addCost I cost)

/-- `visitInstruction`. -/
def visitInstruction (c : IRCostCalculator) (I : InstructionPtr) :
    IRCostCalculator × Except Exception Unit :=
  match c.IRAsmMap.lookup I with
  | none => (c, .ok ())
  | some asms => addAsms I asms c

/-- `visit(M)`: the instructions are visited in order, up to the first exception. -/
def visit : List InstructionPtr → IRCostCalculator → IRCostCalculator × Except Exception Unit
  | [], c => (c, .ok ())
  | I :: Is, c =>
    match c.visitInstruction I with
    | (c, .ok ()) => visit Is c
    | (c, .error e) => (c, .error e)

/-- The constructor. An exception leaves no object. -/
def create (M : Module) (costModel : AssemblyCostModel) (IRAsmMap : IRAsmMapType) :
    Except Exception IRCostCalculator :=
  match visit (M.instructions.map Prod.fst) { costModel := costModel, IRAsmMap := IRAsmMap } with
  | (c, .ok ()) => .ok c
  | (_, .error e) => .error e

end IRCostCalculator

end Gpscat
