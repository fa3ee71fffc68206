import Gpscat.CostMetadata
import Gpscat.Proofs.AttributionProofs

/-!
# The two annotations meet at the terminators

Both functions attach a node of the kind `cost` to the terminator of a block, and the later one
replaces the node of the earlier one.
-/

namespace Gpscat.IRCostCalculator

open Cpp LLVM

variable {c : IRCostCalculator}

/-! ## One annotation -/

@[simp] theorem module_generateInstCostMetadata (A : AnnotatedModule) :
    (c.generateInstCostMetadata A).module = A.module :=
  AnnotatedModule.module_foldl Prod.fst "cost" _ A.module.instructions A

@[simp] theorem module_generateBlockCostMetadata (A : AnnotatedModule) :
    (c.generateBlockCostMetadata A).module = A.module :=
  AnnotatedModule.module_foldl Module.getTerminator "cost" _ A.module.blockPtrs A

/-- Every instruction gets its cost. -/
theorem getMetadata_generateInstCostMetadata (A : AnnotatedModule) (J : InstructionPtr)
    (kind : String) :
    (c.generateInstCostMetadata A).getMetadata J kind =
      if J ∈ A.module.instructions.map Prod.fst ∧ kind = "cost" then
        some (costAsMD (c.getInstCost J)) else A.getMetadata J kind :=
  AnnotatedModule.getMetadata_foldl Prod.fst "cost" (fun I => costAsMD (c.getInstCost I))
    A.module.instructions A J kind

/-- Every terminator gets the cost of its block. -/
theorem getMetadata_generateBlockCostMetadata (A : AnnotatedModule) (J : InstructionPtr)
    (kind : String) :
    (c.generateBlockCostMetadata A).getMetadata J kind =
      if J ∈ A.module.blockPtrs.map Module.getTerminator ∧ kind = "cost" then
        some (costAsMD (c.getBlockCost J.parent)) else A.getMetadata J kind :=
  AnnotatedModule.getMetadata_foldl Module.getTerminator "cost"
    (fun I => costAsMD (c.getBlockCost I.parent)) A.module.blockPtrs A J kind

theorem readCost_of_getMetadata {A : AnnotatedModule} {I : InstructionPtr} {cost : CostTy}
    (h : A.getMetadata I "cost" = some (costAsMD cost)) : readCost A I = some cost := by
  rw [readCost, h]
  rfl

/-! ## Both annotations -/

/-- The later annotation decides what the terminators have. -/
theorem getMetadata_block_inst (A : AnnotatedModule) (J : InstructionPtr) (kind : String) :
    (c.generateBlockCostMetadata (c.generateInstCostMetadata A)).getMetadata J kind =
      if J ∈ A.module.blockPtrs.map Module.getTerminator ∧ kind = "cost" then
        some (costAsMD (c.getBlockCost J.parent))
      else if J ∈ A.module.instructions.map Prod.fst ∧ kind = "cost" then
        some (costAsMD (c.getInstCost J)) else A.getMetadata J kind := by
  rw [getMetadata_generateBlockCostMetadata, getMetadata_generateInstCostMetadata,
    module_generateInstCostMetadata]

/-- The terminators are instructions, so nothing is left of the block costs. -/
theorem getMetadata_inst_block (A : AnnotatedModule) (J : InstructionPtr) (kind : String) :
    (c.generateInstCostMetadata (c.generateBlockCostMetadata A)).getMetadata J kind =
      if J ∈ A.module.instructions.map Prod.fst ∧ kind = "cost" then
        some (costAsMD (c.getInstCost J)) else A.getMetadata J kind := by
  rw [getMetadata_generateInstCostMetadata, getMetadata_generateBlockCostMetadata,
    module_generateBlockCostMetadata]
  by_cases hinst : J ∈ A.module.instructions.map Prod.fst ∧ kind = "cost"
  · rw [if_pos hinst, if_pos hinst]
  · rw [if_neg hinst, if_neg hinst, if_neg]
    rintro ⟨hJ, hkind⟩
    obtain ⟨x, hx, rfl⟩ := List.mem_map.mp hJ
    exact hinst ⟨A.module.getTerminator_mem hx, hkind⟩

/-- What is read at a terminator is one value. -/
theorem Independent.terminator {A : AnnotatedModule} (h : Independent c A)
    {x : BasicBlockPtr × BasicBlock} (hx : x ∈ A.module.blockPtrs) :
    c.getBlockCost x.1 = c.getInstCost (Module.getTerminator x) := by
  have hblock := h.block x hx
  rw [h.inst _ (A.module.getTerminator_mem hx)] at hblock
  exact (Option.some.inj hblock).symm

/-- **The two annotations do not interfere** exactly when every block has the cost of its
terminator. -/
theorem independent_iff (c : IRCostCalculator) (A : AnnotatedModule) :
    Independent c A ↔
      ∀ x ∈ A.module.blockPtrs, c.getBlockCost x.1 = c.getInstCost (Module.getTerminator x) := by
  constructor
  · intro h x hx
    exact h.terminator hx
  · intro h
    have hsame : c.generateBlockCostMetadata (c.generateInstCostMetadata A) =
        c.generateInstCostMetadata (c.generateBlockCostMetadata A) := by
      refine AnnotatedModule.ext_getMetadata (by simp) fun J kind => ?_
      rw [getMetadata_block_inst, getMetadata_inst_block]
      by_cases hterm : J ∈ A.module.blockPtrs.map Module.getTerminator ∧ kind = "cost"
      · obtain ⟨hJ, hkind⟩ := hterm
        obtain ⟨x, hx, rfl⟩ := List.mem_map.mp hJ
        have hcost : c.getBlockCost (Module.getTerminator x).parent = c.getInstCost (Module.getTerminator x) :=
          h x hx
        rw [if_pos ⟨hJ, hkind⟩, if_pos ⟨A.module.getTerminator_mem hx, hkind⟩, hcost]
      · rw [if_neg hterm]
    have hinst : ∀ I ∈ A.module.instructions.map Prod.fst,
        readCost (c.generateBlockCostMetadata (c.generateInstCostMetadata A)) I =
          some (c.getInstCost I) := by
      intro I hI
      apply readCost_of_getMetadata
      rw [hsame, getMetadata_inst_block, if_pos ⟨hI, rfl⟩]
    refine ⟨hsame, hinst, fun x hx => ?_⟩
    rw [hinst _ (A.module.getTerminator_mem hx), h x hx]

/-- When the cost of a block is the sum of the costs of its instructions, the cost of the terminator
is that of the block exactly when the instructions before it cost nothing, as in a block that has
none. -/
theorem Consistent.eq_terminator_iff {M : Module} (h : Consistent M c)
    {x : BasicBlockPtr × BasicBlock} (hx : x ∈ M.blockPtrs) :
    c.getBlockCost x.1 = c.getInstCost (Module.getTerminator x) ↔
      ((Module.instructionPtrs x).dropLast.map fun I => c.getInstCost I.1).sum = 0 := by
  have hblock : c.getBlockCost x.1 =
      ((Module.instructionPtrs x).dropLast.map fun I => c.getInstCost I.1).sum +
        c.getInstCost (Module.getTerminator x) := by
    rw [h x hx, Module.instructionPtrs_eq x, List.dropLast_concat, List.map_append, List.sum_append,
      List.map_singleton, List.sum_singleton]
  rw [hblock]
  exact add_eq_right

/-- The block of `sampleModule` costs more than its terminator: the addition costs 45. -/
theorem sampleModule_not_independent :
    ∃ m cerr c, MappingExtractor.extractMapping sampleAsm sampleCosts sampleModule = .ok (m, cerr) ∧
      create sampleModule sampleCosts m = .ok c ∧
      c.getBlockCost ⟨0, 0⟩ = 135 ∧ c.getInstCost ⟨⟨0, 0⟩, 1⟩ = 90 ∧
      ¬ Independent c { module := sampleModule } := by
  obtain ⟨m, cerr, hm, hext⟩ : ∃ m cerr,
      MappingExtractor.extractMapping sampleAsm sampleCosts sampleModule = .ok (m, cerr) ∧
        Extracted sampleModule (occurrences sampleCosts sampleAsm) m :=
    extractMapping_extracted sampleAsm (by decide +kernel) sampleModule_distinctLines
  obtain ⟨c, hc, hblock⟩ := create_blockCost hext
  obtain ⟨x, hx, hp, hterm⟩ : ∃ x ∈ sampleModule.blockPtrs, x.1 = ⟨0, 0⟩ ∧
      Module.getTerminator x = ⟨⟨0, 0⟩, 1⟩ := ⟨_, List.mem_singleton.mpr rfl, rfl, rfl⟩
  have hcost : c.getBlockCost ⟨0, 0⟩ = 135 := by
    have hsum : ∀ y ∈ sampleModule.blockPtrs,
        (blockCharges sampleCosts (occurrences sampleCosts sampleAsm) y.2).sum = 135 := by
      decide +kernel
    rw [← hp, hblock x hx, hsum x hx]
  have hline : ((⟨⟨0, 0⟩, 1⟩ : InstructionPtr), some 2) ∈ sampleModule.instructions := by decide
  have hinst : c.getInstCost ⟨⟨0, 0⟩, 1⟩ = 90 := by
    rw [(create_constructed hc).inst _ (List.mem_map_of_mem hline), hext.located _ _ hline]
    decide +kernel
  refine ⟨m, cerr, c, hm, hc, hcost, hinst, fun h => ?_⟩
  have heq := h.terminator hx
  rw [hp, hterm, hcost, hinst] at heq
  exact absurd heq (by decide)

end Gpscat.IRCostCalculator
