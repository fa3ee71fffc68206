import Gpscat.CoFloCo.Proofs.TickProofs
import Gpscat.CostRange
import Gpscat.Proofs.AttributionProofs

/-!
# When the costs are exact

The constructor visits each instruction once. So the cost of a block is the wrapping sum of the costs
of its assembly instructions, which is the exact one as long as that is a 32-bit integer.
-/

namespace Gpscat

open Cpp LLVM MachineInt

/-! ## Cost models -/

namespace AssemblyCostModel

theorem Nonneg.costOf {costModel : AssemblyCostModel} (h : costModel.Nonneg) (instName : Text) :
    0 ≤ (costModel.costOf instName).toInt := by
  unfold AssemblyCostModel.costOf UnorderedMap.findD
  cases hcost : costModel.costModel.lookup instName with
  | none => decide
  | some cost => exact h instName cost hcost

theorem Nonneg.set {costModel : AssemblyCostModel} (h : costModel.Nonneg) (instName : Text)
    {cost : CostTy} (hcost : 0 ≤ cost.toInt) : (costModel.set instName cost).Nonneg := by
  intro name c hc
  by_cases hname : name = instName
  · subst hname
    rw [AssemblyCostModel.set, AList.lookup_insert] at hc
    exact Option.some.inj hc ▸ hcost
  · rw [AssemblyCostModel.set, AList.lookup_insert_ne hname] at hc
    exact h name c hc

theorem nonneg_ofRows {rows : List (Text × CostTy)} (h : ∀ row ∈ rows, 0 ≤ row.2.toInt) :
    (ofRows rows).Nonneg := by
  have hfold : ∀ m : AssemblyCostModel, m.Nonneg →
      (rows.foldl (fun m row => m.set row.1 row.2) m).Nonneg := by
    induction rows with
    | nil => exact fun m hm => hm
    | cons row rows ih =>
      intro m hm
      exact ih (fun r hr => h r (List.mem_cons_of_mem _ hr)) _
        (hm.set row.1 (h row List.mem_cons_self))
  refine hfold ⟨∅⟩ fun instName cost hcost => ?_
  rw [AList.lookup_empty] at hcost
  exact absurd hcost.symm (Option.some_ne_none _)

end AssemblyCostModel

namespace IRCostCalculator

variable {costModel : AssemblyCostModel} {M : Module}

/-! ## Exact sums -/

theorem exactCost_eq (costModel : AssemblyCostModel) (asms : List AssemblyInstruction) :
    exactCost costModel asms =
      ((asms.map fun a => costModel.costOf a.getName).map BitVec.toInt).sum := by
  rw [exactCost, List.map_map]
  rfl

theorem exactCost_nonneg (h : costModel.Nonneg) (asms : List AssemblyInstruction) :
    0 ≤ exactCost costModel asms := by
  refine List.sum_nonneg fun n hn => ?_
  obtain ⟨a, -, rfl⟩ := List.mem_map.mp hn
  exact h.costOf a.getName

/-- Fewer assembly instructions do not cost more. -/
theorem exactCost_mono (h : costModel.Nonneg) {asms asms' : List AssemblyInstruction}
    (hsub : List.Subperm asms asms') : exactCost costModel asms ≤ exactCost costModel asms' := by
  obtain ⟨l, hperm, hl⟩ := hsub
  calc exactCost costModel asms
      = exactCost costModel l := ((hperm.map _).sum_eq).symm
    _ ≤ exactCost costModel asms' := by
        refine (hl.map _).sum_le_sum fun n hn => ?_
        obtain ⟨a, -, rfl⟩ := List.mem_map.mp hn
        exact h.costOf a.getName

/-- The wrapping sum is exact as long as the exact one is a 32-bit integer. -/
theorem isExact_asmsCost (h : costModel.Nonneg) {asms : List AssemblyInstruction}
    (hfit : exactCost costModel asms < 2 ^ 31) :
    IsExact costModel asms (asmsCost costModel asms) := by
  have hnonneg := exactCost_nonneg h asms
  have hexact : (asmsCost costModel asms).toInt = exactCost costModel asms := by
    rw [exactCost_eq] at hfit hnonneg ⊢
    exact toInt_sum_of_fits ⟨by omega, hfit⟩
  refine ⟨hexact, hexact ▸ hnonneg, fun a ha => ?_⟩
  rw [hexact]
  calc (costModel.costOf a.getName).toInt
      = exactCost costModel [a] := by simp [exactCost]
    _ ≤ exactCost costModel asms :=
        exactCost_mono h (List.singleton_sublist.mpr ha).subperm

/-! ## The range -/

/-- What is attributed to an instruction is attributed to its block. -/
theorem subperm_blockAsms {m : IRAsmMapType} {x : BasicBlockPtr × BasicBlock}
    {I : InstructionPtr} (hI : I ∈ (Module.instructionPtrs x).map Prod.fst) :
    List.Subperm (m.findD I []) (blockAsms m x) := by
  obtain ⟨J, hJ, rfl⟩ := List.mem_map.mp hI
  have hmem : m.findD J.1 [] ∈ (Module.instructionPtrs x).map fun I => m.findD I.1 [] :=
    List.mem_map.mpr ⟨J, hJ, rfl⟩
  rw [blockAsms, List.flatMap_def]
  exact (List.sublist_flatten_of_mem hmem).subperm

/-- The call that `cost2tick` inserts has the cost of the map as its argument. -/
theorem insertTick_of_mem {tickFunc : FunctionPtr} {blockCostMap : BlockCostMapType}
    {p : BasicBlockPtr} (hp : p ∈ blockCostMap) (BB : BasicBlock) :
    CoFloCoWrapper.insertTick tickFunc blockCostMap p BB =
      BB.insertBeforeTerminator (CoFloCoWrapper.tickCall tickFunc (blockCostMap.findD p 0)) := by
  obtain ⟨cost, hcost⟩ := Option.isSome_iff_exists.mp (AList.lookup_isSome.mpr hp)
  rw [CoFloCoWrapper.insertTick, UnorderedMap.findD, hcost]
  rfl

theorem Constructed.costsExact {m : IRAsmMapType} {c : IRCostCalculator}
    (hc : Constructed M costModel m c) (hnonneg : costModel.Nonneg)
    (hfit : ∀ x ∈ M.blockPtrs, exactCost costModel (blockAsms m x) < 2 ^ 31) :
    CostsExact M c := by
  have hblock : ∀ x ∈ M.blockPtrs, IsExact costModel (blockAsms m x) (c.getBlockCost x.1) := by
    intro x hx
    rw [hc.block x hx]
    exact isExact_asmsCost hnonneg (hfit x hx)
  refine ⟨hc.instKeys, hc.blockKeys, fun I hI => ?_, fun x hx => ?_, ?_, ?_⟩
  · rw [hc.model_eq, hc.map_eq, hc.inst I hI]
    obtain ⟨J, hJ, rfl⟩ := List.mem_map.mp hI
    obtain ⟨x, hx, hJx⟩ := List.mem_flatMap.mp hJ
    have hle := exactCost_mono hnonneg (subperm_blockAsms (m := m) (List.mem_map_of_mem hJx))
    exact isExact_asmsCost hnonneg (lt_of_le_of_lt hle (hfit x hx))
  · rw [hc.model_eq, hc.map_eq]
    exact hblock x hx
  · intro m₀ c₀ hc₀ x hx hsub
    rw [hc.model_eq] at hc₀
    rw [hc.map_eq] at hsub
    have hle := exactCost_mono hnonneg hsub
    have hexact₀ := isExact_asmsCost hnonneg (lt_of_le_of_lt hle (hfit x hx))
    calc (c₀.getBlockCost x.1).toInt
        = exactCost costModel (blockAsms m₀ x) := by
          rw [(create_constructed hc₀).block x hx, hexact₀.exact]
      _ ≤ exactCost costModel (blockAsms m x) := hle
      _ = (c.getBlockCost x.1).toInt := (hblock x hx).exact.symm
  · intro U M' htick x hx hmem
    have hx' : M.blockAt x.1 = some x.2 := M.mem_blockPtrs.mp hx
    have hcost : (c.blockCostMap.findD x.1 0).toInt = exactCost costModel (blockAsms m x) :=
      (hblock x hx).exact
    rw [CoFloCoWrapper.blockAt_cost2tick htick, hx', Option.map_some, insertTick_of_mem hmem,
      hc.model_eq, hc.map_eq, ← hcost]
    rfl

/-- **Block costs do not overflow** exactly when the exact cost of every block is below `2 ^ 31`:
then the stored costs and the arguments of the `tick` calls are exact, and not otherwise. -/
theorem costsExact_iff {costModel : AssemblyCostModel} (hnonneg : costModel.Nonneg)
    {m : IRAsmMapType} {M : Module} {c : IRCostCalculator} (hc : create M costModel m = .ok c) :
    CostsExact M c ↔ ∀ x ∈ M.blockPtrs, exactCost costModel (blockAsms m x) < 2 ^ 31 := by
  have hconstructed := create_constructed hc
  constructor
  · intro hexact x hx
    have hblock := (hexact.block x hx).exact
    rw [hconstructed.model_eq, hconstructed.map_eq] at hblock
    rw [← hblock]
    exact BitVec.toInt_lt
  · exact hconstructed.costsExact hnonneg

/-! ## An overflow -/

/-- A cost that a cost model file can have, and of which two do not fit. -/
def heavyCosts : AssemblyCostModel := .ofRows [("i32.add".toList, 1073741824)]

theorem heavyCosts_nonneg : heavyCosts.Nonneg :=
  AssemblyCostModel.nonneg_ofRows (by decide)

/-- One addition under the line of the addition of `sampleModule`. -/
def addAsm : List Text := ["	.loc	1 1 0".toList, "	i32.add".toList]

theorem costsExact_iff_add :
    ∃ m cerr c, MappingExtractor.extractMapping addAsm heavyCosts sampleModule = .ok (m, cerr) ∧
      create sampleModule heavyCosts m = .ok c ∧
      (CostsExact sampleModule c ↔
        ∀ x ∈ sampleModule.blockPtrs, exactCost heavyCosts (blockAsms m x) < 2 ^ 31) := by
  obtain ⟨m, cerr, hm, hext⟩ : ∃ m cerr,
      MappingExtractor.extractMapping addAsm heavyCosts sampleModule = .ok (m, cerr) ∧
        Extracted sampleModule (occurrences heavyCosts addAsm) m :=
    extractMapping_extracted addAsm (by decide +kernel) sampleModule_distinctLines
  obtain ⟨c, hc, -⟩ := create_blockCost hext
  exact ⟨m, cerr, c, hm, hc, costsExact_iff heavyCosts_nonneg hc⟩

/-- A second one makes the cost of the block negative. -/
def addTwiceAsm : List Text := addAsm ++ ["	i32.add".toList]

theorem addTwice_overflows : heavyCosts.Nonneg ∧
    ∃ m cerr c,
      MappingExtractor.extractMapping addTwiceAsm heavyCosts sampleModule = .ok (m, cerr) ∧
      create sampleModule heavyCosts m = .ok c ∧
      (c.getBlockCost ⟨0, 0⟩).toInt = -2147483648 ∧ ¬ CostsExact sampleModule c := by
  obtain ⟨m, cerr, hm, hext⟩ : ∃ m cerr,
      MappingExtractor.extractMapping addTwiceAsm heavyCosts sampleModule = .ok (m, cerr) ∧
        Extracted sampleModule (occurrences heavyCosts addTwiceAsm) m :=
    extractMapping_extracted addTwiceAsm (by decide +kernel) sampleModule_distinctLines
  obtain ⟨c, hc, hblock⟩ := create_blockCost hext
  obtain ⟨x, hx, hp⟩ : ∃ x ∈ sampleModule.blockPtrs, x.1 = ⟨0, 0⟩ :=
    ⟨_, List.mem_singleton.mpr rfl, rfl⟩
  have hwrapped : ∀ y ∈ sampleModule.blockPtrs, (blockCharges heavyCosts
      (occurrences heavyCosts addTwiceAsm) y.2).sum.toInt = -2147483648 := by decide +kernel
  have hcost : (c.getBlockCost x.1).toInt = -2147483648 := by
    rw [hblock x hx]
    exact hwrapped x hx
  refine ⟨heavyCosts_nonneg, m, cerr, c, hm, hc, hp ▸ hcost, fun hexact => ?_⟩
  have hnonneg := (hexact.block x hx).nonneg
  rw [hcost] at hnonneg
  omega

end IRCostCalculator

end Gpscat
