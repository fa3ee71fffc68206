import Gpscat.LLVM.Proofs.BlockShapeProofs
import Mathlib.Data.List.TakeWhile
import Gpscat.Lib.ListEdit

/-!
# The shape of blocks without debug info

The rules for the instructions of a block are not about debug locations, and debug intrinsics can be
left out.
-/

namespace LLVM

open ListEdit

namespace BasicBlock

variable {BB : BasicBlock}

/-! ## PHIs -/

theorem take_getFirstNonPHI (BB : BasicBlock) :
    BB.body.take BB.getFirstNonPHI = BB.body.takeWhile Inst.isPhi :=
  (List.prefix_iff_eq_take.mp (List.takeWhile_prefix Inst.isPhi)).symm

theorem isPhi_of_mem_take {I : Instruction} (hI : I ∈ BB.body.take BB.getFirstNonPHI) :
    I.isPhi = true := by
  rw [take_getFirstNonPHI] at hI
  exact List.mem_takeWhile_imp hI

theorem isPhi_of_mem_drop (hBB : BB.WellShaped) {I : Instruction}
    (hI : I ∈ BB.body.drop BB.getFirstNonPHI) : I.isPhi = false := by
  obtain ⟨i, hi, rfl⟩ := List.getElem_of_mem hI
  rw [List.getElem_drop]
  by_contra hphi
  rw [Bool.not_eq_false] at hphi
  rw [List.length_drop] at hi
  have := hBB.phi (BB.getFirstNonPHI + i) (by omega) hphi
  omega

/-! ## Debug locations -/

theorem getFirstNonPHI_unlocated (BB : BasicBlock) :
    BB.unlocated.getFirstNonPHI = BB.getFirstNonPHI := by
  have hsame : (Inst.isPhi ∘ fun I : Instruction => I.setDebugLoc none) = Inst.isPhi := rfl
  rw [BasicBlock.getFirstNonPHI, BasicBlock.unlocated, List.takeWhile_map, hsame, List.length_map]
  rfl

theorem endsInRet_unlocated (call : Instruction) (rest : List Instruction) (term : Terminator) :
    EndsInRet (call.setDebugLoc none) (rest.map (·.setDebugLoc none)) (term.setDebugLoc none) =
      EndsInRet call rest term := by
  cases rest with
  | nil => rfl
  | cons cast rest =>
    cases rest with
    | nil => rfl
    | cons J rest => rfl

theorem wellShaped_unlocated_iff : BB.unlocated.WellShaped ↔ BB.WellShaped := by
  have hlen : BB.unlocated.body.length = BB.body.length := List.length_map _
  have hget : ∀ i (h : i < BB.body.length) (h' : i < BB.unlocated.body.length),
      BB.unlocated.body[i] = BB.body[i].setDebugLoc none := fun i h h' => List.getElem_map _
  have hdrop : ∀ i, BB.unlocated.body.drop i = (BB.body.drop i).map (·.setDebugLoc none) :=
    fun i => List.map_drop.symm
  have hterm : BB.unlocated.term = BB.term.setDebugLoc none := rfl
  constructor
  · intro h
    constructor
    · intro i hi htail
      have := h.tail i (by omega) (by rw [hget i hi]; exact htail)
      rwa [hget i hi, hdrop, hterm, endsInRet_unlocated] at this
    · intro i hi hpad
      rw [← getFirstNonPHI_unlocated]
      exact h.pad i (by omega) (by rw [hget i hi]; exact hpad)
    · intro hswitch
      rw [← getFirstNonPHI_unlocated, ← hlen]
      exact h.catchSwitch hswitch
    · intro i hi hphi
      rw [← getFirstNonPHI_unlocated]
      exact h.phi i (by omega) (by rw [hget i hi]; exact hphi)
  · intro h
    constructor
    · intro i hi htail
      have hi' : i < BB.body.length := by omega
      rw [hget i hi', hdrop, hterm, endsInRet_unlocated]
      exact h.tail i hi' (by rw [hget i hi'] at htail; exact htail)
    · intro i hi hpad
      have hi' : i < BB.body.length := by omega
      rw [getFirstNonPHI_unlocated]
      exact h.pad i hi' (by rw [hget i hi'] at hpad; exact hpad)
    · intro hswitch
      rw [getFirstNonPHI_unlocated, hlen]
      exact h.catchSwitch hswitch
    · intro i hi hphi
      have hi' : i < BB.body.length := by omega
      rw [getFirstNonPHI_unlocated]
      exact h.phi i hi' (by rw [hget i hi'] at hphi; exact hphi)

theorem isEHPad_unlocated (BB : BasicBlock) : BB.unlocated.isEHPad = BB.isEHPad := by
  have hsame : (Inst.isPhi ∘ fun I : Instruction => I.setDebugLoc none) = Inst.isPhi := rfl
  rw [BasicBlock.isEHPad, BasicBlock.isEHPad, BasicBlock.unlocated, List.dropWhile_map, hsame]
  cases BB.body.dropWhile Inst.isPhi with
  | nil => rfl
  | cons I rest => rfl

/-! ## Debug intrinsics -/

theorem isDbgInfo_of_isPhi {I : Instruction} (hI : I.isPhi = true) : I.isDbgInfo = false := by
  rw [Inst.isPhi, beq_iff_eq] at hI
  simp [Inst.isDbgInfo, hI]

theorem isDbgInfo_of_isEHPad {I : Instruction} (hI : I.isEHPad = true) : I.isDbgInfo = false := by
  rw [Inst.isEHPad, beq_iff_eq] at hI
  simp [Inst.isDbgInfo, hI]

/-- No PHI is left out, so the PHIs stay apart from the other instructions. -/
theorem body_eraseDbgInfo (BB : BasicBlock) :
    BB.eraseDbgInfo.body = BB.body.take BB.getFirstNonPHI ++
      (BB.body.drop BB.getFirstNonPHI).filter (!·.isDbgInfo) := by
  have hphis : (BB.body.take BB.getFirstNonPHI).filter (!·.isDbgInfo) =
      BB.body.take BB.getFirstNonPHI := by
    rw [List.filter_eq_self]
    intro I hI
    rw [isDbgInfo_of_isPhi (isPhi_of_mem_take hI)]
    rfl
  conv_lhs => rw [eraseDbgInfo, ← List.take_append_drop BB.getFirstNonPHI BB.body,
    List.filter_append, hphis]

theorem getFirstNonPHI_eraseDbgInfo (hBB : BB.WellShaped) :
    BB.eraseDbgInfo.getFirstNonPHI = BB.getFirstNonPHI := by
  have hnone : ((BB.body.drop BB.getFirstNonPHI).filter (!·.isDbgInfo)).takeWhile Inst.isPhi = [] := by
    rw [List.takeWhile_eq_nil_iff]
    intro hlen hphi
    have hnot := isPhi_of_mem_drop hBB (List.mem_of_mem_filter (List.getElem_mem hlen))
    exact Bool.false_ne_true (hnot.symm.trans hphi)
  have hlen : (BB.body.take BB.getFirstNonPHI).length = BB.getFirstNonPHI := by
    rw [List.length_take, Nat.min_eq_left BB.getFirstNonPHI_le]
  rw [getFirstNonPHI, body_eraseDbgInfo, List.takeWhile_append_of_pos fun I hI => isPhi_of_mem_take hI,
    hnone, List.append_nil, hlen]

/-- What follows a `musttail` call is no debug intrinsic. -/
theorem endsInRet_filter {call : Instruction} {rest : List Instruction} {term : Terminator}
    (h : EndsInRet call rest term = true) :
    EndsInRet call (rest.filter (!·.isDbgInfo)) term = true := by
  have hself : rest.filter (!·.isDbgInfo) = rest := by
    cases rest with
    | nil => rfl
    | cons cast rest =>
      cases rest with
      | nil =>
        rw [EndsInRet, Bool.and_eq_true, Inst.castsValue] at h
        refine List.filter_cons_of_pos ?_
        cases hop : cast.op with
        | bitCast operand => simp [Inst.isDbgInfo, hop]
        | _ => simp [hop] at h
      | cons J rest => exact absurd h Bool.false_ne_true
  rwa [hself]

/-- Leaving out the debug intrinsics keeps the shape of a block. -/
theorem WellShaped.eraseDbgInfo (hBB : BB.WellShaped) : BB.eraseDbgInfo.WellShaped := by
  have hfirst := getFirstNonPHI_eraseDbgInfo hBB
  have hplace : ∀ {i : Nat} (hi : i < BB.eraseDbgInfo.body.length),
      ∃ j, ∃ hj : j < BB.body.length, BB.eraseDbgInfo.body[i] = BB.body[j] ∧
        BB.eraseDbgInfo.body.drop (i + 1) = (BB.body.drop (j + 1)).filter (!·.isDbgInfo) := by
    intro i hi
    obtain ⟨j, hj, -, hget, hdrop⟩ := exists_of_lt_length_filter hi
    exact ⟨j, hj, hget, hdrop⟩
  have hphis : (BB.body.take BB.getFirstNonPHI).length = BB.getFirstNonPHI := by
    rw [List.length_take, Nat.min_eq_left BB.getFirstNonPHI_le]
  constructor
  · intro i hi htail
    obtain ⟨j, hj, hget, hdrop⟩ := hplace hi
    rw [hget] at htail ⊢
    rw [hdrop]
    exact endsInRet_filter (hBB.tail j hj htail)
  · intro i hi hpad
    obtain ⟨j, hj, hget, hdrop⟩ := hplace hi
    have hjfirst : j = BB.getFirstNonPHI := hBB.pad j hj (by rw [← hget]; exact hpad)
    rw [hfirst]
    -- Behind the EH pad, there are as many instructions as behind the PHIs, but one.
    have hrest : (BB.body.drop BB.getFirstNonPHI).filter (!·.isDbgInfo) =
        BB.body[j] :: (BB.body.drop (j + 1)).filter (!·.isDbgInfo) := by
      rw [← hjfirst, List.drop_eq_getElem_cons hj]
      refine List.filter_cons_of_pos ?_
      rw [← hget, isDbgInfo_of_isEHPad hpad]
      rfl
    have hlen := congrArg List.length (body_eraseDbgInfo BB)
    have hlen' := congrArg List.length hdrop
    rw [List.length_append, hphis, hrest, List.length_cons] at hlen
    rw [List.length_drop] at hlen'
    omega
  · intro hswitch
    have hall : BB.getFirstNonPHI = BB.body.length := hBB.catchSwitch hswitch
    rw [hfirst, body_eraseDbgInfo, List.drop_of_length_le hall.ge, List.filter_nil, List.append_nil,
      hphis]
  · intro i hi hphi
    rw [hfirst]
    by_contra hge
    simp only [body_eraseDbgInfo] at hi hphi
    have hnot : ∀ I ∈ (BB.body.drop BB.getFirstNonPHI).filter (!·.isDbgInfo), I.isPhi = false :=
      fun I hI => isPhi_of_mem_drop hBB (List.mem_of_mem_filter hI)
    rw [List.getElem_append_right (by omega), hnot _ (List.getElem_mem _)] at hphi
    exact Bool.false_ne_true hphi

end BasicBlock

end LLVM
