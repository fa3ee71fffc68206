import Gpscat.Proofs.MappingExtractorProofs
import Gpscat.Proofs.VisitsProofs

/-!
# Cost conservation

The three stages composed: the cost of a block is the cost of the occurrences governed by the lines
of the block, and no occurrence is lost, duplicated or moved.
-/

namespace Gpscat

open Cpp LLVM MappingExtractor IRCostCalculator MachineInt

variable {costModel : AssemblyCostModel}

/-! ## The instructions of a block -/

theorem mem_blockLines {BB : BasicBlock} {line : InstructionID} :
    line ∈ blockLines BB ↔ some line ∈ BB.debugLocs := by
  simp [blockLines]

theorem instructionPtrs_map_snd (x : BasicBlockPtr × BasicBlock) :
    (Module.instructionPtrs x).map Prod.snd = x.2.debugLocs := by
  rw [Module.instructionPtrs, List.map_map]
  exact List.zipIdx_map_fst 0 x.2.debugLocs

theorem locatedLines_eq_flatMap (M : Module) :
    M.locatedLines = M.blockPtrs.flatMap fun x => blockLines x.2 := by
  rw [Module.locatedLines, Module.instructions, List.filterMap_flatMap]
  congr 1
  funext x
  rw [blockLines, ← instructionPtrs_map_snd, List.filterMap_map]
  rfl

/-- The lines of one block are distinct. -/
theorem DistinctLines.nodup_blockLines {M : Module} (hM : DistinctLines M)
    {x : BasicBlockPtr × BasicBlock} (hx : x ∈ M.blockPtrs) : (blockLines x.2).Nodup := by
  have hnd := hM.nodup
  rw [locatedLines_eq_flatMap, List.nodup_flatMap] at hnd
  exact hnd.1 x hx

/-- A line of a block is the line of one of its instructions. -/
theorem exists_of_mem_blockLines {M : Module} {x : BasicBlockPtr × BasicBlock}
    (hx : x ∈ M.blockPtrs) {line : InstructionID} (hline : line ∈ blockLines x.2) :
    ∃ I : InstructionPtr, I.parent = x.1 ∧ (I, some line) ∈ M.instructions := by
  rw [mem_blockLines, ← instructionPtrs_map_snd x] at hline
  obtain ⟨I, hI, hloc⟩ := List.mem_map.mp hline
  have hpair : (I.1, some line) = I := by rw [← hloc]
  refine ⟨I.1, Module.parent_of_mem_instructionPtrs hI, ?_⟩
  rw [hpair]
  exact List.mem_flatMap.mpr ⟨x, hx, hI⟩

/-- Two blocks have no line in common. -/
theorem DistinctLines.block_unique {M : Module} (hM : DistinctLines M)
    {x y : BasicBlockPtr × BasicBlock} (hx : x ∈ M.blockPtrs) (hy : y ∈ M.blockPtrs)
    {line : InstructionID} (hlx : line ∈ blockLines x.2) (hly : line ∈ blockLines y.2) :
    x.1 = y.1 := by
  obtain ⟨I, hIx, hI⟩ := exists_of_mem_blockLines hx hlx
  obtain ⟨J, hJy, hJ⟩ := exists_of_mem_blockLines hy hly
  rw [← hIx, ← hJy, M.ptr_unique_of_nodup hM.nodup hI hJ]

/-! ## Charges -/

/-- What the calculator adds for an instruction is the cost of the occurrences its line governs. -/
theorem asmsCost_opcodesUnder (occs : List Occurrence) (line : InstructionID) :
    asmsCost costModel (opcodesUnder occs line) =
      ((occs.filter (·.governing = line)).map (Occurrence.cost costModel)).sum := by
  rw [asmsCost, opcodesUnder, List.map_map]
  rfl

/-- The charges of a block add up to the visits of its instructions. -/
theorem sum_blockCharges {M : Module} {occs : List Occurrence} {m : IRAsmMapType}
    (hext : Extracted M occs m) {x : BasicBlockPtr × BasicBlock} (hx : x ∈ M.blockPtrs) :
    ((Module.instructionPtrs x).map fun I => asmsCost costModel (m.findD I.1 [])).sum =
      (blockCharges costModel occs x.2).sum := by
  have hmem : ∀ I ∈ Module.instructionPtrs x, I ∈ M.instructions := fun I hI =>
    List.mem_flatMap.mpr ⟨x, hx, hI⟩
  have hcongr : ((Module.instructionPtrs x).map fun I => asmsCost costModel (m.findD I.1 [])) =
      (Module.instructionPtrs x).map fun I => ((I.2.map fun line =>
        ((occs.filter (·.governing = line)).map (Occurrence.cost costModel)).sum).getD 0) := by
    refine List.map_congr_left fun I hI => ?_
    obtain ⟨I, loc⟩ := I
    cases loc with
    | none => rw [hext.unlocated I (hmem _ hI)]; rfl
    | some line => rw [hext.located I line (hmem _ hI), asmsCost_opcodesUnder]; rfl
  have hlines : blockLines x.2 = (Module.instructionPtrs x).filterMap Prod.snd := by
    rw [blockLines, ← instructionPtrs_map_snd, List.filterMap_map]; rfl
  rw [hcongr, blockCharges, hlines, ← ListSum.sum_map_filterMap,
    ← List.map_id (List.flatMap _ _), ListSum.sum_map_flatMap]
  simp only [List.map_id]

/-- The exact sum of the charges of a block: each occurrence governed by one of its lines, once. -/
theorem sum_blockCharges_toInt {occs : List Occurrence} {BB : BasicBlock}
    (hnd : (blockLines BB).Nodup) :
    ((blockCharges costModel occs BB).map BitVec.toInt).sum =
      totalCost costModel occs fun o => o.governing ∈ blockLines BB := by
  rw [blockCharges, ListSum.sum_map_flatMap, totalCost, ListSum.sum_map_filter]
  have hfilter : ((blockLines BB).map fun line => (((occs.filter (·.governing = line)).map
      (Occurrence.cost costModel)).map BitVec.toInt).sum) =
      (blockLines BB).map fun line => (occs.map fun o =>
        if line = o.governing then (o.cost costModel).toInt else 0).sum := by
    refine List.map_congr_left fun line _ => ?_
    rw [List.map_map, ListSum.sum_map_filter]
    congr 1
    refine List.map_congr_left fun o _ => ?_
    simp only [decide_eq_true_eq, @eq_comm _ o.governing, Function.comp_apply]
  rw [hfilter, ListSum.sum_comm]
  congr 1
  refine List.map_congr_left fun o _ => ?_
  rw [ListSum.sum_map_ite_mem _ hnd]
  simp only [decide_eq_true_eq]

/-- The cost of a block after the constructor ran, as a sum of 32-bit integers. -/
theorem create_blockCost {M : Module} {inputFile : List Text} {m : IRAsmMapType}
    (hext : Extracted M (occurrences costModel inputFile) m) :
    ∃ c, IRCostCalculator.create M costModel m = .ok c ∧
      ∀ x ∈ M.blockPtrs, c.getBlockCost x.1 =
        (blockCharges costModel (occurrences costModel inputFile) x.2).sum := by
  have hknown : ∀ I ∈ M.instructions.map Prod.fst, ∀ a ∈ m.findD I [],
      costModel.hasInst a.getName := by
    intro I hI a ha
    obtain ⟨⟨I, loc⟩, hIl, rfl⟩ := List.mem_map.mp hI
    cases loc with
    | none => rw [hext.unlocated I hIl] at ha; exact absurd ha List.not_mem_nil
    | some line =>
      rw [hext.located I line hIl] at ha
      obtain ⟨o, ho, rfl⟩ := List.mem_map.mp ha
      exact hasInst_of_mem_occurrences (List.mem_of_mem_filter ho)
  obtain ⟨c, hvisit⟩ :=
    visit_of_known (M.instructions.map Prod.fst) { costModel, IRAsmMap := m } hknown
  have hc : IRCostCalculator.create M costModel m = .ok c := by rw [create, hvisit]
  refine ⟨c, hc, fun x hx => ?_⟩
  rw [(create_constructed hc).block x hx, asmsCost_blockAsms, sum_blockCharges hext hx]

/-! ## Conservation -/

/-- An occurrence is governed by line 0, by the line of an instruction, or by neither. -/
theorem totalCost_split {M : Module} (hM : DistinctLines M) (occs : List Occurrence) :
    totalCost costModel occs (fun o => o.governing ∈ M.locatedLines) +
        totalCost costModel occs (fun o => o.governing = 0) +
        totalCost costModel occs (fun o => o.governing ≠ 0 ∧ o.governing ∉ M.locatedLines) =
      totalCost costModel occs fun _ => true := by
  unfold totalCost
  simp only [ListSum.sum_map_filter, ← List.sum_map_add]
  congr 1
  refine List.map_congr_left fun o _ => ?_
  by_cases hzero : o.governing = 0
  · have hnot : (0 : InstructionID) ∉ M.locatedLines := fun hmem => hM.ne_zero _ hmem rfl
    simp only [hnot, hzero, ne_eq, not_true_eq_false, false_and, decide_false, decide_true,
      Bool.false_eq_true, if_false, if_true, zero_add, add_zero]
  · by_cases hmem : o.governing ∈ M.locatedLines
    · simp only [hmem, decide_true, if_true, hzero, decide_false, Bool.false_eq_true, if_false,
        not_true_eq_false, and_false, add_zero]
    · simp only [hmem, decide_false, Bool.false_eq_true, if_false, hzero, ne_eq, not_false_eq_true,
        and_self, decide_true, if_true, zero_add]

/-- The costs of all blocks add up to the cost of the occurrences governed by located lines. -/
theorem sum_totalCost_blocks {M : Module} (hM : DistinctLines M) (occs : List Occurrence) :
    (M.blockPtrs.map fun x => totalCost costModel occs fun o => o.governing ∈ blockLines x.2).sum =
      totalCost costModel occs fun o => o.governing ∈ M.locatedLines := by
  unfold totalCost
  simp only [ListSum.sum_map_filter]
  rw [ListSum.sum_comm]
  congr 1
  refine List.map_congr_left fun o _ => ?_
  by_cases hmem : o.governing ∈ M.locatedLines
  · simp only [hmem, decide_true, if_true]
    rw [locatedLines_eq_flatMap] at hmem
    obtain ⟨x, hx, hox⟩ := List.mem_flatMap.mp hmem
    have hcongr : (M.blockPtrs.map fun y => if decide (o.governing ∈ blockLines y.2) = true then
        (o.cost costModel).toInt else 0) =
        M.blockPtrs.map fun y => if y.1 = x.1 then (o.cost costModel).toInt else 0 := by
      refine List.map_congr_left fun y hy => ?_
      by_cases hyx : y.1 = x.1
      · have hyx' : y = x := by
          have hBB := M.mem_blockPtrs.mp (show (y.1, y.2) ∈ M.blockPtrs from hy)
          rw [hyx, M.mem_blockPtrs.mp (show (x.1, x.2) ∈ M.blockPtrs from hx)] at hBB
          exact Prod.ext hyx (Option.some.inj hBB).symm
        rw [hyx', if_pos rfl, if_pos (decide_eq_true hox)]
      · rw [if_neg hyx, if_neg]
        rw [decide_eq_true_eq]
        exact fun hoy => hyx (hM.block_unique hy hx hoy hox)
    rw [hcongr]
    exact ListSum.sum_map_ite_key M.blockPtrs Prod.fst (fun _ => (o.cost costModel).toInt)
      M.nodup_blockPtrs hx
  · simp only [hmem, decide_false, Bool.false_eq_true, if_false]
    have hzero : (M.blockPtrs.map fun y => if decide (o.governing ∈ blockLines y.2) = true then
        (o.cost costModel).toInt else 0) = M.blockPtrs.map fun _ => 0 := by
      refine List.map_congr_left fun y hy => if_neg ?_
      rw [decide_eq_true_eq]
      intro hoy
      exact hmem (by rw [locatedLines_eq_flatMap]; exact List.mem_flatMap.mpr ⟨y, hy, hoy⟩)
    rw [hzero, List.sum_map_zero]

/-- **Cost conservation** of `extractMapping` followed by `IRCostCalculator`, for a module with
distinct lines, as long as no block accumulator leaves the range of `CostTy`: no opcode lookup
throws, the cost of a block is the cost of the occurrences governed by the lines of the block, and
all blocks together, with the occurrences that no line of the module governs, have the cost of the
file. -/
theorem attribution_conserves_cost (costModel : AssemblyCostModel) (inputFile : List Text)
    (M : Module) (hdec : LocsDecimal inputFile) (hM : DistinctLines M)
    (hfit : ∀ x ∈ M.blockPtrs,
      PartialSumsFit (blockCharges costModel (occurrences costModel inputFile) x.2)) :
    ∃ m cerr c, extractMapping inputFile costModel M = .ok (m, cerr) ∧
      IRCostCalculator.create M costModel m = .ok c ∧
      (∀ x ∈ M.blockPtrs, (c.getBlockCost x.1).toInt =
        totalCost costModel (occurrences costModel inputFile)
          fun o => o.governing ∈ blockLines x.2) ∧
      (M.blockPtrs.map fun x => (c.getBlockCost x.1).toInt).sum +
          totalCost costModel (occurrences costModel inputFile) (fun o => o.governing = 0) +
          totalCost costModel (occurrences costModel inputFile)
            (fun o => o.governing ≠ 0 ∧ o.governing ∉ M.locatedLines) =
        totalCost costModel (occurrences costModel inputFile) fun _ => true := by
  obtain ⟨m, cerr, hm, hext⟩ := extractMapping_extracted inputFile hdec hM
  obtain ⟨c, hc, hblock⟩ := create_blockCost hext
  have hcost : ∀ x ∈ M.blockPtrs, (c.getBlockCost x.1).toInt =
      totalCost costModel (occurrences costModel inputFile)
        fun o => o.governing ∈ blockLines x.2 := by
    intro x hx
    rw [hblock x hx, (hfit x hx).toInt_sum, sum_blockCharges_toInt (hM.nodup_blockLines hx)]
  refine ⟨m, cerr, c, hm, hc, hcost, ?_⟩
  rw [List.map_congr_left hcost, sum_totalCost_blocks hM, totalCost_split hM]

/-- A function of one block, located at the lines 1 and 2. -/
def sampleModule : Module where
  functions := [{
    type := ⟨.int 32, []⟩
    blocks := [{
      body := [{ op := .other "add" [], result := some 0, debugLoc := some 1 }]
      term := { op := .ret (some (.inst 0)), debugLoc := some 2 } }] }]

/-- Its assembly, with an opcode before the first `.loc` and one under a line of no instruction. -/
def sampleAsm : List Text :=
  ["f:".toList, "	local.get	0".toList, "	.loc	1 1 0".toList, "	i32.add".toList,
    "	.loc	1 2 0".toList, "	return".toList, "	.loc	1 7 0".toList, "	i32.add".toList]

def sampleCosts : AssemblyCostModel :=
  .ofRows [("local.get".toList, 135), ("i32.add".toList, 45), ("return".toList, 90)]

theorem sampleModule_distinctLines : DistinctLines sampleModule := by
  have hlines : sampleModule.locatedLines = [1, 2] := rfl
  refine ⟨by rw [hlines]; decide, fun line hline => ?_⟩
  rw [hlines] at hline
  rcases List.mem_pair.mp hline with rfl | rfl <;> decide

theorem attribution_conserves_cost_sample :
    ∃ m cerr c, extractMapping sampleAsm sampleCosts sampleModule = .ok (m, cerr) ∧
      IRCostCalculator.create sampleModule sampleCosts m = .ok c ∧
      (∀ x ∈ sampleModule.blockPtrs, (c.getBlockCost x.1).toInt =
        totalCost sampleCosts (occurrences sampleCosts sampleAsm)
          fun o => o.governing ∈ blockLines x.2) ∧
      (sampleModule.blockPtrs.map fun x => (c.getBlockCost x.1).toInt).sum +
          totalCost sampleCosts (occurrences sampleCosts sampleAsm) (fun o => o.governing = 0) +
          totalCost sampleCosts (occurrences sampleCosts sampleAsm)
            (fun o => o.governing ≠ 0 ∧ o.governing ∉ sampleModule.locatedLines) =
        totalCost sampleCosts (occurrences sampleCosts sampleAsm) fun _ => true :=
  attribution_conserves_cost sampleCosts sampleAsm sampleModule (by decide +kernel)
    sampleModule_distinctLines (by decide +kernel)

end Gpscat
