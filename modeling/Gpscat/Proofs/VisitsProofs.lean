import Gpscat.Proofs.IRCostCalculatorProofs
import Gpscat.Visits

/-!
# Instruction and block costs do not drift apart

A visit adds the same amount to the entry of its instruction and to that of the block of the
instruction, also when it throws.
-/

namespace Gpscat.IRCostCalculator

open Cpp LLVM

variable {M : Module} {costModel : AssemblyCostModel}

/-! ## One visit -/

/-- A charge of an instruction of the module keeps the sums. -/
theorem Consistent.charged {c c' : IRCostCalculator} {I : InstructionPtr} {cost : CostTy}
    (h : Consistent M c) (hI : I ∈ M.instructions.map Prod.fst) (hcharged : Charged c c' I cost) :
    Consistent M c' := by
  intro x hx
  have hsum := ListSum.sum_map_ite_mem _ (Module.nodup_instructionPtrs x) I cost
  rw [List.map_map] at hsum
  calc c'.getBlockCost x.1
      = c.getBlockCost x.1 + if x.1 = I.parent then cost else 0 := hcharged.block x.1
    _ = ((Module.instructionPtrs x).map fun J => c.getInstCost J.1).sum +
          ((Module.instructionPtrs x).map fun J => if J.1 = I then cost else 0).sum := by
        rw [h x hx]
        congr 1
        refine Eq.trans ?_ hsum.symm
        simp only [M.mem_instructionPtrs_iff_parent hI hx, eq_comm]
    _ = ((Module.instructionPtrs x).map fun J => c'.getInstCost J.1).sum := by
        rw [← List.sum_map_add]
        simp only [hcharged.inst]

/-- The cost of a visit of `J` depends on the members that no visit changes. -/
theorem Charged.visitCost_eq {c c' : IRCostCalculator} {I : InstructionPtr} {cost : CostTy}
    (h : Charged c c' I cost) (J : InstructionPtr) : c'.visitCost J = c.visitCost J := by
  rw [visitCost, visitCost, h.costModel, h.IRAsmMap]

/-! ## Sequences of visits -/

/-- The cost of an instruction that is not visited. -/
theorem visits_inst_of_not_mem {Is : List InstructionPtr} {J : InstructionPtr} (hJ : J ∉ Is)
    (c : IRCostCalculator) : (visits Is c).1.getInstCost J = c.getInstCost J := by
  induction Is generalizing c with
  | nil => rfl
  | cons I Is ih =>
    rw [List.mem_cons, not_or] at hJ
    obtain ⟨hcharged, -⟩ := visitInstruction_charged c I
    calc (visits (I :: Is) c).1.getInstCost J
        = (c.visitInstruction I).1.getInstCost J := ih hJ.2 _
      _ = c.getInstCost J := by rw [hcharged.inst, if_neg hJ.1, add_zero]

/-- The cost of a block of which no instruction is visited. -/
theorem visits_block_of_not_mem {Is : List InstructionPtr} {BB : BasicBlockPtr}
    (hBB : ∀ I ∈ Is, BB ≠ I.parent) (c : IRCostCalculator) :
    (visits Is c).1.getBlockCost BB = c.getBlockCost BB := by
  induction Is generalizing c with
  | nil => rfl
  | cons I Is ih =>
    obtain ⟨hcharged, -⟩ := visitInstruction_charged c I
    calc (visits (I :: Is) c).1.getBlockCost BB
        = (c.visitInstruction I).1.getBlockCost BB :=
          ih (fun J hJ => hBB J (List.mem_cons_of_mem I hJ)) _
      _ = c.getBlockCost BB := by
          rw [hcharged.block, if_neg (hBB I List.mem_cons_self), add_zero]

theorem Consistent.visits {c : IRCostCalculator} (h : Consistent M c) {Is : List InstructionPtr}
    (hIs : ∀ I ∈ Is, I ∈ M.instructions.map Prod.fst) :
    Consistent M (IRCostCalculator.visits Is c).1 := by
  induction Is generalizing c with
  | nil => exact h
  | cons I Is ih =>
    have hstep := h.charged (hIs I List.mem_cons_self) (visitInstruction_charged c I).1
    exact ih hstep fun J hJ => hIs J (List.mem_cons_of_mem I hJ)

/-- Each visit of an instruction charges the opcodes in front of the first unknown one, so a visit
that throws has charged these. -/
theorem visits_inst (Is : List InstructionPtr) (c : IRCostCalculator) (J : InstructionPtr) :
    (visits Is c).1.getInstCost J = c.getInstCost J + Is.count J • c.visitCost J := by
  induction Is generalizing c with
  | nil => simp [visits]
  | cons I Is ih =>
    obtain ⟨hcharged, -⟩ := visitInstruction_charged c I
    have hrest : (visits (I :: Is) c).1.getInstCost J =
        (c.visitInstruction I).1.getInstCost J + Is.count J • c.visitCost J := by
      rw [← hcharged.visitCost_eq J]
      exact ih (c.visitInstruction I).1
    rw [hrest, hcharged.inst, add_assoc]
    congr 1
    by_cases hJ : J = I
    · subst hJ
      rw [if_pos rfl, List.count_cons_self, succ_nsmul']
    · rw [if_neg hJ, List.count_cons_of_ne (Ne.symm hJ), zero_add]

/-- No visit throws exactly when every opcode of a visited instruction has a cost. -/
theorem visits_ok_iff (Is : List InstructionPtr) (c : IRCostCalculator) :
    (∀ o ∈ (visits Is c).2, o = .ok ()) ↔
      ∀ I ∈ Is, ∀ a ∈ c.IRAsmMap.findD I [], c.costModel.hasInst a.getName := by
  induction Is generalizing c with
  | nil => simp [visits]
  | cons I Is ih =>
    obtain ⟨hcharged, hok⟩ := visitInstruction_charged c I
    have hrest := ih (c.visitInstruction I).1
    rw [hcharged.IRAsmMap, hcharged.costModel] at hrest
    rw [visits, List.forall_mem_cons, List.forall_mem_cons, hrest, hok]

/-- Without an exception, each visit charges the whole list of its instruction. -/
theorem visits_inst_of_ok {Is : List InstructionPtr} {c : IRCostCalculator}
    (hok : ∀ o ∈ (visits Is c).2, o = .ok ()) (J : InstructionPtr) :
    (visits Is c).1.getInstCost J =
      c.getInstCost J + Is.count J • asmsCost c.costModel (c.IRAsmMap.findD J []) := by
  by_cases hJ : J ∈ Is
  · have hall : knownAsms c.costModel (c.IRAsmMap.findD J []) = c.IRAsmMap.findD J [] := by
      rw [knownAsms, List.takeWhile_eq_self_iff]
      exact (visits_ok_iff Is c).mp hok J hJ
    rw [visits_inst, visitCost, hall]
  · rw [visits_inst, List.count_eq_zero_of_not_mem hJ, zero_nsmul, zero_nsmul]

theorem consistent_empty (M : Module) (costModel : AssemblyCostModel) (m : IRAsmMapType) :
    Consistent M { costModel, IRAsmMap := m } := by
  intro x _
  have hzero : ∀ I : InstructionPtr × Option (BitVec 32),
      ({ costModel, IRAsmMap := m } : IRCostCalculator).getInstCost I.1 = 0 := fun _ => rfl
  simp only [hzero, List.sum_map_zero]
  rfl

/-! ## The constructor -/

/-- A traversal that does not throw is a sequence of visits of which none throws. -/
theorem visits_of_visit {Is : List InstructionPtr} {c c' : IRCostCalculator}
    (h : visit Is c = (c', .ok ())) :
    c' = (visits Is c).1 ∧ ∀ o ∈ (visits Is c).2, o = .ok () := by
  induction Is generalizing c with
  | nil => exact ⟨(Prod.mk.inj h).1.symm, fun o ho => absurd ho List.not_mem_nil⟩
  | cons I Is ih =>
    rw [visit] at h
    split at h
    · rename_i c₁ hfirst
      obtain ⟨heq, hok⟩ := ih h
      rw [visits, hfirst]
      refine ⟨heq, fun o ho => ?_⟩
      rcases List.mem_cons.mp ho with rfl | ho
      · rfl
      · exact hok o ho
    · exact absurd (Prod.mk.inj h).2 (by simp)

/-- The calculator after a visit of each instruction of the module. -/
structure Constructed (M : Module) (costModel : AssemblyCostModel) (m : IRAsmMapType)
    (c : IRCostCalculator) : Prop where
  model_eq : c.costModel = costModel
  map_eq : c.IRAsmMap = m
  inst : ∀ I ∈ M.instructions.map Prod.fst, c.getInstCost I = asmsCost costModel (m.findD I [])
  block : ∀ x ∈ M.blockPtrs, c.getBlockCost x.1 = asmsCost costModel (blockAsms m x)
  instKeys : ∀ I ∈ c.instCostMap, I ∈ M.instructions.map Prod.fst
  blockKeys : ∀ p ∈ c.blockCostMap, p ∈ M.blockPtrs.map Prod.fst

/-- The entries that `visitInstruction` can make are those of `I` and of its block. -/
theorem addAsms_keys (I : InstructionPtr) (asms : List AssemblyInstruction) (c : IRCostCalculator) :
    (∀ J ∈ (addAsms I asms c).1.instCostMap, J = I ∨ J ∈ c.instCostMap) ∧
      ∀ p ∈ (addAsms I asms c).1.blockCostMap, p = I.parent ∨ p ∈ c.blockCostMap := by
  induction asms generalizing c with
  | nil => exact ⟨fun J hJ => Or.inr hJ, fun p hp => Or.inr hp⟩
  | cons a asms ih =>
    rw [addAsms]
    split
    · exact ⟨fun J hJ => Or.inr hJ, fun p hp => Or.inr hp⟩
    · rename_i cost _
      obtain ⟨hinst, hblock⟩ := ih (c.addCost I cost)
      constructor
      · intro J hJ
        rcases hinst J hJ with hJI | hJc
        · exact Or.inl hJI
        · exact (AList.mem_insert _).mp hJc
      · intro p hp
        rcases hblock p hp with hpI | hpc
        · exact Or.inl hpI
        · exact (AList.mem_insert _).mp hpc

theorem visitInstruction_keys (I : InstructionPtr) (c : IRCostCalculator) :
    (∀ J ∈ (c.visitInstruction I).1.instCostMap, J = I ∨ J ∈ c.instCostMap) ∧
      ∀ p ∈ (c.visitInstruction I).1.blockCostMap, p = I.parent ∨ p ∈ c.blockCostMap := by
  unfold visitInstruction
  split
  · exact ⟨fun J hJ => Or.inr hJ, fun p hp => Or.inr hp⟩
  · exact addAsms_keys I _ c

theorem visits_keys (Is : List InstructionPtr) (c : IRCostCalculator) :
    (∀ J ∈ (visits Is c).1.instCostMap, J ∈ Is ∨ J ∈ c.instCostMap) ∧
      ∀ p ∈ (visits Is c).1.blockCostMap, p ∈ Is.map InstructionPtr.parent ∨ p ∈ c.blockCostMap := by
  induction Is generalizing c with
  | nil => exact ⟨fun J hJ => Or.inr hJ, fun p hp => Or.inr hp⟩
  | cons I Is ih =>
    obtain ⟨hinst, hblock⟩ := visitInstruction_keys I c
    obtain ⟨ihinst, ihblock⟩ := ih (c.visitInstruction I).1
    constructor
    · intro J hJ
      rw [List.mem_cons, or_right_comm]
      rcases ihinst J hJ with hJIs | hJc
      · exact Or.inr hJIs
      · exact Or.inl (hinst J hJc)
    · intro p hp
      rw [List.map_cons, List.mem_cons, or_right_comm]
      rcases ihblock p hp with hpIs | hpc
      · exact Or.inr hpIs
      · exact Or.inl (hblock p hpc)

theorem visits_parts (Is : List InstructionPtr) (c : IRCostCalculator) :
    (visits Is c).1.costModel = c.costModel ∧ (visits Is c).1.IRAsmMap = c.IRAsmMap := by
  induction Is generalizing c with
  | nil => exact ⟨rfl, rfl⟩
  | cons I Is ih =>
    obtain ⟨hcharged, -⟩ := visitInstruction_charged c I
    obtain ⟨hmodel, hmap⟩ := ih (c.visitInstruction I).1
    exact ⟨hmodel.trans hcharged.costModel, hmap.trans hcharged.IRAsmMap⟩

/-- The cost of what is attributed to a block, instruction by instruction. -/
theorem asmsCost_blockAsms (costModel : AssemblyCostModel) (m : IRAsmMapType)
    (x : BasicBlockPtr × BasicBlock) :
    asmsCost costModel (blockAsms m x) =
      ((Module.instructionPtrs x).map fun I => asmsCost costModel (m.findD I.1 [])).sum := by
  rw [asmsCost, blockAsms, ListSum.sum_map_flatMap]
  rfl

theorem create_constructed {m : IRAsmMapType} {c : IRCostCalculator}
    (h : create M costModel m = .ok c) : Constructed M costModel m c := by
  unfold create at h
  split at h
  · rename_i c' hvisit
    obtain rfl := Except.ok.inj h
    obtain ⟨rfl, hok⟩ := visits_of_visit hvisit
    obtain ⟨hmodel, hmap⟩ := visits_parts (M.instructions.map Prod.fst) { costModel, IRAsmMap := m }
    obtain ⟨hinstKeys, hblockKeys⟩ :=
      visits_keys (M.instructions.map Prod.fst) { costModel, IRAsmMap := m }
    have hconsistent := (consistent_empty M costModel m).visits fun I hI => hI
    have hinst : ∀ I ∈ M.instructions.map Prod.fst,
        (visits (M.instructions.map Prod.fst) { costModel, IRAsmMap := m }).1.getInstCost I =
          asmsCost costModel (m.findD I []) := by
      intro I hI
      have hempty : ({ costModel, IRAsmMap := m } : IRCostCalculator).getInstCost I = 0 := rfl
      rw [visits_inst_of_ok hok I, hempty, zero_add,
        List.count_eq_one_of_mem M.nodup_instructions hI, one_nsmul]
    refine ⟨hmodel, hmap, hinst, fun x hx => ?_, fun I hI => ?_, fun p hp => ?_⟩
    · rw [hconsistent x hx, asmsCost_blockAsms]
      congr 1
      refine List.map_congr_left fun I hI => ?_
      exact hinst I.1 (List.mem_map_of_mem (List.mem_flatMap.mpr ⟨x, hx, hI⟩))
    · rcases hinstKeys I hI with hmem | hempty
      · exact hmem
      · exact absurd hempty (AList.notMem_empty I)
    · rcases hblockKeys p hp with hmem | hempty
      · obtain ⟨I, hI, rfl⟩ := List.mem_map.mp hmem
        exact M.parent_mem_blockPtrs hI
      · exact absurd hempty (AList.notMem_empty p)
  · exact absurd h (by simp)

/-! ## Any order -/

/-- **Instruction and block costs do not drift apart**, whatever is visited in whatever order and
however the visits end. What further visits do not touch keeps its cost. Without an exception an
instruction has the cost of its assembly list once for each visit; in any case each of its visits
has charged the opcodes in front of the first unknown one, and a visit throws when there is one. -/
theorem visits_consistent (costModel : AssemblyCostModel) (m : IRAsmMapType) (M : Module)
    (Is : List InstructionPtr) (hIs : ∀ I ∈ Is, I ∈ M.instructions.map Prod.fst) :
    let r := visits Is { costModel, IRAsmMap := m }
    Consistent M r.1 ∧
    (∀ Js, (∀ J ∉ Js, (visits Js r.1).1.getInstCost J = r.1.getInstCost J) ∧
      ∀ BB, (∀ J ∈ Js, BB ≠ J.parent) →
        (visits Js r.1).1.getBlockCost BB = r.1.getBlockCost BB) ∧
    ((∀ o ∈ r.2, o = .ok ()) →
      ∀ I, r.1.getInstCost I = Is.count I • asmsCost costModel (m.findD I [])) ∧
    (∀ I, r.1.getInstCost I =
      Is.count I • asmsCost costModel (knownAsms costModel (m.findD I []))) ∧
    ((∀ o ∈ r.2, o = .ok ()) ↔ ∀ I ∈ Is, ∀ a ∈ m.findD I [], costModel.hasInst a.getName) := by
  intro r
  have hempty : ∀ I, ({ costModel, IRAsmMap := m } : IRCostCalculator).getInstCost I = 0 :=
    fun _ => rfl
  refine ⟨(consistent_empty M costModel m).visits hIs, fun Js => ⟨?_, ?_⟩, fun hok I => ?_,
    fun I => ?_, visits_ok_iff Is _⟩
  · intro J hJ
    exact visits_inst_of_not_mem hJ r.1
  · intro BB hBB
    exact visits_block_of_not_mem hBB r.1
  · rw [visits_inst_of_ok hok I, hempty, zero_add]
  · rw [visits_inst, hempty, zero_add, visitCost]

/-- An addition whose assembly list has an opcode of no cost between two others. -/
def additionModule : Module where
  functions := [{
    type := ⟨.int 32, []⟩
    blocks := [{
      body := [{ op := .other "add" [], result := some 0 }]
      term := { op := .ret (some (.inst 0)) } }] }]

def additionCosts : AssemblyCostModel := .ofRows [("local.get".toList, 135), ("i32.add".toList, 45)]

def additionAsmMap : IRAsmMapType :=
  (∅ : IRAsmMapType).insert ⟨⟨0, 0⟩, 0⟩
    [⟨"local.get".toList⟩, ⟨"i32.mul".toList⟩, ⟨"i32.add".toList⟩]

/-- The same without the unknown opcode. -/
def knownAsmMap : IRAsmMapType :=
  (∅ : IRAsmMapType).insert ⟨⟨0, 0⟩, 0⟩ [⟨"local.get".toList⟩, ⟨"i32.add".toList⟩]

/-- The terminator first, and the addition twice. -/
def additionVisits : List InstructionPtr := [⟨⟨0, 0⟩, 1⟩, ⟨⟨0, 0⟩, 0⟩, ⟨⟨0, 0⟩, 0⟩]

/-- Both visits of the addition throw, behind the opcode of cost 135; with the other map none does,
and each charges 180. -/
theorem visits_consistent_addition :
    let r := visits additionVisits { costModel := additionCosts, IRAsmMap := additionAsmMap }
    let r' := visits additionVisits { costModel := additionCosts, IRAsmMap := knownAsmMap }
    (Consistent additionModule r.1 ∧ r.1.getInstCost ⟨⟨0, 0⟩, 0⟩ = 270 ∧
      ¬ ∀ o ∈ r.2, o = .ok ()) ∧
    (Consistent additionModule r'.1 ∧ r'.1.getInstCost ⟨⟨0, 0⟩, 0⟩ = 360 ∧
      ∀ o ∈ r'.2, o = .ok ()) := by
  intro r r'
  obtain ⟨hconsistent, -, -, hcharged, hok⟩ :=
    visits_consistent additionCosts additionAsmMap additionModule additionVisits (by decide)
  obtain ⟨hconsistent', -, hwhole, -, hok'⟩ :=
    visits_consistent additionCosts knownAsmMap additionModule additionVisits (by decide)
  have hnone := hok'.mpr (by decide)
  refine ⟨⟨hconsistent, ?_, ?_⟩, hconsistent', ?_, hnone⟩
  · rw [hcharged]
    decide
  · rw [hok]
    decide
  · rw [hwhole hnone]
    decide

end Gpscat.IRCostCalculator
