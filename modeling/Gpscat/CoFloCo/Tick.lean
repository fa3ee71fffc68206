import Gpscat.IRCostCalculator
import Gpscat.LLVM.Semantics
import Gpscat.LLVM.SymbolTable

/-!
# Costs as calls of `tick`

`CoFloCoWrapper::cost2tick` gives the name `tick` to a new function and puts a call of it, with the
cost of the block as its argument, in front of the terminator of every block of the cost map.
-/

namespace Gpscat.CoFloCoWrapper

open Cpp LLVM

/-- The type `void(i32)`. -/
def tickType : FunctionType := ⟨.void, [.int 32]⟩

def originalTickName : String := "__original_tick_function"

/-- The module and `tickFunc` after the symbols have been dealt with. -/
def createTick (U : NameUniquer) (M : Module) : Module × Option FunctionPtr :=
  let M := match M.getFunction "tick" with
    | some F => M.setName U F originalTickName
    | none => M
  let (M, tickConstant) := M.getOrInsertFunction "tick" tickType
  (M, tickConstant.asFunction)

/-- `llvm::CallInst::Create(tickFunc->getFunctionType(), tickFunc, {cost}, "", ..)`. -/
def tickCall (tickFunc : FunctionPtr) (cost : CostTy) : Instruction where
  op := .call (.function tickFunc) [.constInt 32 cost.toInt] .plain

/-- The body of the loop over the blocks. -/
def insertTick (tickFunc : FunctionPtr) (blockCostMap : BlockCostMapType) (p : BasicBlockPtr)
    (BB : BasicBlock) : BasicBlock :=
  match blockCostMap.lookup p with
  | some cost => BB.insertBeforeTerminator (tickCall tickFunc cost)
  | none => BB

/-- `cost2tick`; `none` when its assertion fails. -/
def cost2tick (U : NameUniquer) (M : Module) (blockCostMap : BlockCostMapType) : Option Module :=
  match createTick U M with
  | (M, some tickFunc) => some (M.mapBlocks (insertTick tickFunc blockCostMap))
  | (_, none) => none

/-- The assertion holds, and the function that is called is a new one of type `void(i32)`, next to
the functions that were there. -/
def NamesTick (U : NameUniquer) (M : Module) (blockCostMap : BlockCostMapType) : Prop :=
  ∃ M₁ tickFunc, createTick U M = (M₁, some tickFunc) ∧ tickFunc = M.functions.length ∧
    M₁.functions = M.functions ++ [{ type := tickType }] ∧
    M₁.getFunction "tick" = some tickFunc ∧
    cost2tick U M blockCostMap = some (M₁.mapBlocks (insertTick tickFunc blockCostMap))

/-! ## Runs of the instrumented module -/

/-- A configuration without the calls of the new `tick`: behind the instructions that a block of `M`
has, there is only its terminator. -/
def eraseCtrl (M : Module) : Ctrl → Ctrl
  | .code p k => .code p (min k (M.bodyLength p))
  | c => c

def eraseTicks {D : Type} (M : Module) (s : Config D) : Config D :=
  { s with ctrl := eraseCtrl M s.ctrl }

/-- The steps that remain. -/
def visible : Label → Option Label
  | .act => some .act
  | .tick _ => none

/-- The counter of `tick` after a run. -/
def tickCounter {D : Type} (r : List (Label × Config D)) : Int := (r.map (·.1.count)).sum

/-- The cost of the block whose terminator control has reached. -/
def reachedCost {D : Type} (M : Module) (blockCostMap : BlockCostMapType) (s : Config D) : Int :=
  match M.reached s with
  | some p => (blockCostMap.findD p 0).toInt
  | none => 0

/-- The costs of the block executions of a run that reached their terminator. -/
def runCost {D : Type} (M : Module) (blockCostMap : BlockCostMapType) (s : Config D)
    (r : List (Label × Config D)) : Int :=
  reachedCost M blockCostMap s + (r.map fun x => reachedCost M blockCostMap x.2).sum

/-- Every block of the map has one call of `tick` and no other block has one; what a run of `M'`
leaves of `M` is a run of `M`, and its counter is the cost of the blocks whose terminator it reached;
and every run of `M` is what a run of `M'` leaves, with the cost of its blocks on the counter. -/
structure Simulates (M M' : Module) (blockCostMap : BlockCostMapType) (tick : FunctionPtr) :
    Prop where
  calls : ∀ p BB', M'.blockAt p = some BB' →
    BB'.callsOf tick = if (blockCostMap.lookup p).isSome then 1 else 0
  erased : ∀ (D : Type) (I : Interp D M.functions.length) (f : FunctionPtr) (d : D)
    (r : List (Label × Config D)) (s : Config D),
    Simulation.Run (Step M' I (some tick)) (M'.start f d) r s →
      Simulation.Run (Step M I none) (M.start f d) (Simulation.seen (eraseTicks M) visible r)
          (eraseTicks M s) ∧
        tickCounter r = runCost M' blockCostMap (M'.start f d) r
  followed : ∀ (D : Type) (I : Interp D M.functions.length) (f : FunctionPtr) (d : D)
    (r : List (Label × Config D)) (s : Config D),
    Simulation.Run (Step M I none) (M.start f d) r s →
      ∃ r' s', Simulation.Run (Step M' I (some tick)) (M'.start f d) r' s' ∧
        Simulation.seen (eraseTicks M) visible r' = r ∧ eraseTicks M s' = s ∧
        tickCounter r' = runCost M blockCostMap (M.start f d) r

end Gpscat.CoFloCoWrapper
