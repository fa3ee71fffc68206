import Gpscat.CoFloCo.Proofs.TickProofs
import Gpscat.LLVM.Proofs.BlockShapeProofs

/-!
# `cost2tick` and the shape of blocks

The call of `tick` is put directly before the terminator. In a block that ends in a `musttail` call,
and in one that ends in a `catchswitch`, no instruction may stand there.
-/

namespace Gpscat.CoFloCoWrapper

open Cpp LLVM

theorem tickCall_plain (f : FunctionPtr) (cost : CostTy) : (tickCall f cost).Plain :=
  ⟨rfl, rfl, rfl, fun _ => rfl⟩

theorem insertTick_wellShaped_iff {f : FunctionPtr} {blockCostMap : BlockCostMapType}
    {p : BasicBlockPtr} {BB : BasicBlock} (hBB : BB.WellShaped) :
    (insertTick f blockCostMap p BB).WellShaped ↔
      ((blockCostMap.lookup p).isSome → BB.AllowsInsertion) := by
  unfold insertTick
  cases blockCostMap.lookup p with
  | none => exact iff_of_true hBB fun h => absurd h Bool.false_ne_true
  | some cost =>
    rw [BasicBlock.wellShaped_insert_iff (tickCall_plain f cost) hBB]
    exact ⟨fun h _ => h, fun h => h rfl⟩

/-- `cost2tick` keeps the shape of blocks if and only if no block that gets a call ends in a `musttail`
call or in a `catchswitch`. -/
theorem cost2tick_wellShaped_iff (U : NameUniquer) (M M' : Module)
    (blockCostMap : BlockCostMapType) (hM : M.WellShaped)
    (h : cost2tick U M blockCostMap = some M') :
    M'.WellShaped ↔
      ∀ p BB, M.blockAt p = some BB → (blockCostMap.lookup p).isSome → BB.AllowsInsertion := by
  constructor
  · intro hM' p BB hBB
    have hBB' : M'.blockAt p = some (insertTick M.functions.length blockCostMap p BB) := by
      rw [blockAt_cost2tick h, hBB, Option.map_some]
    have hold := hM (p, BB) (M.mem_blockPtrs.mpr hBB)
    exact (insertTick_wellShaped_iff hold).mp (hM' _ (M'.mem_blockPtrs.mpr hBB'))
  · rintro hallow ⟨p, BB'⟩ hp
    have hBB' := M'.mem_blockPtrs.mp hp
    rw [blockAt_cost2tick h, Option.map_eq_some_iff] at hBB'
    obtain ⟨BB, hBB, rfl⟩ := hBB'
    have hold := hM (p, BB) (M.mem_blockPtrs.mpr hBB)
    exact (insertTick_wellShaped_iff hold).mpr (hallow p BB hBB)

/-- A function that ends in a `musttail` call of itself. -/
def tailCaller : Module where
  functions := [
    { type := ⟨.void, []⟩
      blocks := [{
        body := [{ op := .call (.function 0) [] .mustTail }]
        term := { op := .ret none } }] }]
  symbols := (∅ : SymbolTable).insert "f" (.function 0)

def tailCallerCosts : BlockCostMapType := (∅ : BlockCostMapType).insert ⟨0, 0⟩ 45

theorem cost2tick_tailCaller :
    ∃ M', cost2tick paddedUniquer tailCaller tailCallerCosts = some M' ∧
      (M'.WellShaped ↔ ∀ p BB, tailCaller.blockAt p = some BB →
        (tailCallerCosts.lookup p).isSome → BB.AllowsInsertion) := by
  refine ⟨_, rfl, cost2tick_wellShaped_iff paddedUniquer tailCaller _ tailCallerCosts ?_ rfl⟩
  decide

/-- The call of `tick` parts the `musttail` call from the `ret`. -/
theorem cost2tick_tailCaller_not_wellShaped :
    tailCaller.WellShaped ∧
      ∃ M', cost2tick paddedUniquer tailCaller tailCallerCosts = some M' ∧ ¬ M'.WellShaped := by
  have hshape : tailCaller.WellShaped := by decide
  refine ⟨hshape, _, rfl, ?_⟩
  decide

end Gpscat.CoFloCoWrapper
