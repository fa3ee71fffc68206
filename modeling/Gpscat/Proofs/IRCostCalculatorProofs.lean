import Gpscat.IRCostCalculator
import Gpscat.LLVM.Proofs.IRProofs
import Gpscat.Lib.ListSum
import Mathlib.Data.BitVec
import Mathlib.Data.List.TakeWhile

/-!
# What a visit adds to the cost maps

A visit adds the costs of the assembly instructions of `I`, up to the first unknown opcode, to the
entry of `I` and to the entry of the block of `I`, and leaves every other entry alone.
-/

namespace Gpscat.IRCostCalculator

open Cpp LLVM

/-- The assembly instructions that are charged before the first unknown opcode. -/
def knownAsms (costModel : AssemblyCostModel) (asms : List AssemblyInstruction) :
    List AssemblyInstruction :=
  asms.takeWhile fun a => costModel.hasInst a.getName

/-- The cost of a list of assembly instructions. -/
def asmsCost (costModel : AssemblyCostModel) (asms : List AssemblyInstruction) : CostTy :=
  (asms.map fun a => costModel.costOf a.getName).sum

/-- What one visit of `I` charges. -/
def visitCost (c : IRCostCalculator) (I : InstructionPtr) : CostTy :=
  asmsCost c.costModel (knownAsms c.costModel (c.IRAsmMap.findD I []))

/-- `c'` is `c` after `cost` was added for the instruction `I`. -/
structure Charged (c c' : IRCostCalculator) (I : InstructionPtr) (cost : CostTy) : Prop where
  costModel : c'.costModel = c.costModel
  IRAsmMap : c'.IRAsmMap = c.IRAsmMap
  inst : ∀ J, c'.getInstCost J = c.getInstCost J + if J = I then cost else 0
  block : ∀ BB, c'.getBlockCost BB = c.getBlockCost BB + if BB = I.parent then cost else 0

theorem Charged.refl (c : IRCostCalculator) (I : InstructionPtr) : Charged c c I 0 :=
  ⟨rfl, rfl, by simp, by simp⟩

theorem charged_addCost (c : IRCostCalculator) (I : InstructionPtr) (cost : CostTy) :
    Charged c (c.addCost I cost) I cost where
  costModel := rfl
  IRAsmMap := rfl
  inst J := by
    unfold getInstCost addCost
    rw [UnorderedMap.findD_modify]
    by_cases h : J = I
    · subst h; simp
    · simp [h]
  block BB := by
    unfold getBlockCost addCost
    rw [UnorderedMap.findD_modify]
    by_cases h : BB = I.parent
    · subst h; simp
    · simp [h]

theorem Charged.trans {c c' c'' : IRCostCalculator} {I : InstructionPtr} {cost cost' : CostTy}
    (h : Charged c c' I cost) (h' : Charged c' c'' I cost') : Charged c c'' I (cost + cost') where
  costModel := h'.costModel.trans h.costModel
  IRAsmMap := h'.IRAsmMap.trans h.IRAsmMap
  inst J := by
    rw [h'.inst, h.inst]
    by_cases hJ : J = I
    · simp only [if_pos hJ, add_assoc]
    · simp only [if_neg hJ, add_zero]
  block BB := by
    rw [h'.block, h.block]
    by_cases hBB : BB = I.parent
    · simp only [if_pos hBB, add_assoc]
    · simp only [if_neg hBB, add_zero]

/-- The loop of `visitInstruction`: the known opcodes up to the first unknown one are charged, and
the loop ends normally when there is no unknown one. -/
theorem addAsms_charged (I : InstructionPtr) (asms : List AssemblyInstruction)
    (c : IRCostCalculator) :
    Charged c (addAsms I asms c).1 I (asmsCost c.costModel (knownAsms c.costModel asms)) ∧
      ((addAsms I asms c).2 = .ok () ↔ ∀ a ∈ asms, c.costModel.hasInst a.getName) := by
  induction asms generalizing c with
  | nil => exact ⟨Charged.refl c I, by simp [addAsms]⟩
  | cons a asms ih =>
    by_cases hknown : c.costModel.hasInst a.getName = true
    · have hget := AssemblyCostModel.get_of_hasInst hknown
      obtain ⟨ihcharged, ihok⟩ := ih (c.addCost I (c.costModel.costOf a.getName))
      simp only [addAsms, hget]
      refine ⟨?_, ?_⟩
      · have hstep := (charged_addCost c I (c.costModel.costOf a.getName)).trans ihcharged
        rw [knownAsms, List.takeWhile_cons_of_pos (by simpa using hknown), asmsCost, List.map_cons,
          List.sum_cons]
        exact hstep
      · rw [ihok]
        simp [addCost, hknown]
    · have hget := AssemblyCostModel.get_of_not_hasInst hknown
      simp only [addAsms, hget]
      refine ⟨?_, ?_⟩
      · rw [knownAsms, List.takeWhile_cons_of_neg (by simpa using hknown)]
        exact Charged.refl c I
      · simp [hknown]

/-- One call of `visitInstruction`, also when it throws. -/
theorem visitInstruction_charged (c : IRCostCalculator) (I : InstructionPtr) :
    Charged c (c.visitInstruction I).1 I (c.visitCost I) ∧
      ((c.visitInstruction I).2 = .ok () ↔
        ∀ a ∈ c.IRAsmMap.findD I [], c.costModel.hasInst a.getName) := by
  unfold visitInstruction visitCost UnorderedMap.findD
  cases hlook : c.IRAsmMap.lookup I with
  | none => exact ⟨Charged.refl c I, by simp⟩
  | some asms => exact addAsms_charged I asms c

/-- A traversal of instructions whose opcodes are all known does not throw. -/
theorem visit_of_known (Is : List InstructionPtr) (c : IRCostCalculator)
    (hknown : ∀ I ∈ Is, ∀ a ∈ c.IRAsmMap.findD I [], c.costModel.hasInst a.getName) :
    ∃ c', visit Is c = (c', .ok ()) := by
  induction Is generalizing c with
  | nil => exact ⟨c, rfl⟩
  | cons I Is ih =>
    obtain ⟨hcharged, hok⟩ := visitInstruction_charged c I
    have hpair : c.visitInstruction I = ((c.visitInstruction I).1, .ok ()) :=
      Prod.ext rfl (hok.mpr (hknown I List.mem_cons_self))
    rw [visit, hpair]
    refine ih (c.visitInstruction I).1 ?_
    rw [hcharged.IRAsmMap, hcharged.costModel]
    exact fun J hJ => hknown J (List.mem_cons_of_mem _ hJ)

end Gpscat.IRCostCalculator
