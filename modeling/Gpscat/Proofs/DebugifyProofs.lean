import Gpscat.Debugify
import Gpscat.Attribution
import Gpscat.LLVM.Proofs.BlockShapeProofs

/-!
# Debugify numbers the instructions

The debug values that a block gets do not matter once they are erased: what stays is the block with
its instructions numbered. The traversals of blocks and functions then number without gaps.
-/

namespace Gpscat.Debugify

open Cpp LLVM MapAccum ListEdit

/-! ## Debug values -/

/-- Whatever is inserted, the other instructions stay as they are. -/
theorem attachValues_filter (body : List Instruction) (I InsertBefore LastInst : Nat)
    (st : DebugifyState) :
    (attachValues body I InsertBefore LastInst st).1.filter (!·.isDbgInfo) =
      body.filter (!·.isDbgInfo) := by
  fun_induction attachValues body I InsertBefore LastInst st with
  | case1 => rfl
  | case2 => rfl
  | case3 body I InsertBefore LastInst st _ inst hI hvoid ih => exact ih
  | case4 body I InsertBefore LastInst st _ inst hI hvoid pos ih =>
    exact ih.trans (filter_insertIdx rfl body pos)

/-- The debug values count the variables, and need the intrinsic; the other variables of the pass
stay as they are. -/
theorem attachValues_state (body : List Instruction) (I InsertBefore LastInst : Nat)
    (st : DebugifyState) :
    ∃ NextVar valueFn, (attachValues body I InsertBefore LastInst st).2 =
      { st with NextVar := NextVar, valueFn := valueFn } := by
  fun_induction attachValues body I InsertBefore LastInst st with
  | case1 => exact ⟨_, _, rfl⟩
  | case2 => exact ⟨_, _, rfl⟩
  | case3 body I InsertBefore LastInst st _ inst hI hvoid ih => exact ih
  | case4 body I InsertBefore LastInst st _ inst hI hvoid pos ih => exact ih

/-! ## Blocks -/

/-- The block with its instructions numbered from `st` on. -/
def locate (st : DebugifyState) (BB : BasicBlock) : BasicBlock where
  body := (mapAccum attachLoc st BB.body).1
  term := (attachLoc (mapAccum attachLoc st BB.body).2 BB.term).1

/-- The number of instructions, the terminator's included. -/
def size (BB : BasicBlock) : Nat := BB.body.length + 1

theorem filter_mapAccum_attachLoc {body : List Instruction}
    (hdbg : ∀ I ∈ body, I.isDbgInfo = false) (st : DebugifyState) :
    (mapAccum attachLoc st body).1.filter (!·.isDbgInfo) = (mapAccum attachLoc st body).1 := by
  rw [List.filter_eq_self]
  intro J hJ
  obtain ⟨I, hI, s, rfl⟩ := mem_mapAccum hJ
  have hsame : (attachLoc s I).1.isDbgInfo = I.isDbgInfo := rfl
  rw [hsame, hdbg I hI]
  rfl

/-- The state behind the numbered block. -/
def located (st : DebugifyState) (BB : BasicBlock) : DebugifyState :=
  (attachLoc (mapAccum attachLoc st BB.body).2 BB.term).2

theorem visitBlock_of_isEHPad {st : DebugifyState} {BB : BasicBlock}
    (h : (locate st BB).isEHPad = true) : visitBlock st BB = (locate st BB, located st BB) :=
  if_pos h

theorem visitBlock_of_not_isEHPad {st : DebugifyState} {BB : BasicBlock}
    (h : ¬ (locate st BB).isEHPad = true) :
    visitBlock st BB =
      let r := attachValues (locate st BB).body 0 (locate st BB).getFirstInsertionPt
        (findTerminatingInstruction (locate st BB))
        { located st BB with
          asserts := (located st BB).asserts &&
            decide ((locate st BB).getFirstInsertionPt ≠ (locate st BB).body.length + 1) }
      ({ locate st BB with body := r.1 }, r.2) :=
  if_neg h

/-- Once the debug values are erased, a visited block is the numbered one. -/
theorem eraseDbgInfo_visitBlock {BB : BasicBlock} (hdbg : ∀ I ∈ BB.body, I.isDbgInfo = false)
    (st : DebugifyState) : (visitBlock st BB).1.eraseDbgInfo = locate st BB := by
  have hfilter : (locate st BB).body.filter (!·.isDbgInfo) = (locate st BB).body :=
    filter_mapAccum_attachLoc hdbg st
  by_cases hpad : (locate st BB).isEHPad = true
  · rw [visitBlock_of_isEHPad hpad, BasicBlock.eraseDbgInfo, hfilter]
  · rw [visitBlock_of_not_isEHPad hpad, BasicBlock.eraseDbgInfo]
    dsimp only
    rw [attachValues_filter, hfilter]

/-- A visited block leaves the variables as the numbering does, but for those of the debug values. The
assertion holds: a block that is no EH pad has an insertion point. -/
theorem visitBlock_state (st : DebugifyState) (BB : BasicBlock) :
    ∃ NextVar valueFn, (visitBlock st BB).2 =
      { located st BB with NextVar := NextVar, valueFn := valueFn } := by
  by_cases hpad : (locate st BB).isEHPad = true
  · exact ⟨_, _, congrArg Prod.snd (visitBlock_of_isEHPad hpad)⟩
  · have hle := (locate st BB).getFirstNonPHI_le
    have hpt : (locate st BB).getFirstInsertionPt = (locate st BB).getFirstNonPHI := if_neg hpad
    have hinsert : (locate st BB).getFirstInsertionPt ≠ (locate st BB).body.length + 1 := by
      omega
    rw [visitBlock_of_not_isEHPad hpad, decide_eq_true hinsert, Bool.and_true]
    exact attachValues_state _ _ _ _ _

theorem visitBlock_NextLine (st : DebugifyState) (BB : BasicBlock) :
    (visitBlock st BB).2.NextLine = (mapAccum attachLoc st BB.body).2.NextLine + 1 := by
  obtain ⟨NextVar, valueFn, hst⟩ := visitBlock_state st BB
  rw [hst]
  rfl

theorem attachLoc_numbers {ω : Type} (I : Inst ω) :
    Numbers attachLoc DebugifyState.NextLine (fun _ => 1) (fun J : Inst ω => J.debugLoc.toList) I :=
  fun _ => ⟨rfl, rfl⟩

theorem blockLines_eq (BB : BasicBlock) :
    blockLines BB = (BB.body.flatMap fun I => I.debugLoc.toList) ++ BB.term.debugLoc.toList := by
  rw [blockLines, BasicBlock.debugLocs, List.filterMap_append, List.filterMap_map,
    List.filterMap_eq_flatMap_toList]
  congr 1

theorem visitBlock_numbers {BB : BasicBlock} (hdbg : ∀ I ∈ BB.body, I.isDbgInfo = false) :
    Numbers visitBlock DebugifyState.NextLine size (fun BB => blockLines BB.eraseDbgInfo) BB := by
  intro st
  have hsum : (BB.body.map fun _ : Instruction => 1).sum = BB.body.length := by
    simp
  obtain ⟨hlines, hnext⟩ : (mapAccum attachLoc st BB.body).1.flatMap (fun J => J.debugLoc.toList) =
        numbered st.NextLine BB.body.length ∧
      (mapAccum attachLoc st BB.body).2.NextLine = st.NextLine + BitVec.ofNat 32 BB.body.length := by
    rw [← hsum]
    exact Numbers.mapAccum (fun I _ => attachLoc_numbers I) st
  constructor
  · change blockLines (visitBlock st BB).1.eraseDbgInfo = _
    rw [eraseDbgInfo_visitBlock hdbg, blockLines_eq, size, numbered_add, ← hnext]
    exact congrArg (· ++ _) hlines
  · rw [visitBlock_NextLine, hnext, size, BitVec.add_assoc, BitVec.ofNat_add]
    rfl

/-- Numbering changes nothing but the lines. -/
theorem unlocated_locate (st : DebugifyState) (BB : BasicBlock) :
    (locate st BB).unlocated = BB.unlocated := by
  have hbody : (mapAccum attachLoc st BB.body).1.map (fun I => I.setDebugLoc none) =
      BB.body.map fun I => I.setDebugLoc none := by
    refine map_mapAccum (fun I _ s => ?_) st
    rfl
  unfold BasicBlock.unlocated locate
  rw [hbody]
  rfl

/-- Every instruction of a numbered block has a line. -/
theorem isSome_of_mem_locate {st : DebugifyState} {BB : BasicBlock} {loc : Option (BitVec 32)}
    (h : loc ∈ (locate st BB).debugLocs) : loc.isSome := by
  rcases List.mem_append.mp h with h | h
  · obtain ⟨J, hJ, rfl⟩ := List.mem_map.mp h
    obtain ⟨I, -, s, rfl⟩ := mem_mapAccum hJ
    rfl
  · rw [List.mem_singleton.mp h]
    rfl

theorem isDbgInfo_locate {st : DebugifyState} {BB : BasicBlock}
    (hdbg : ∀ I ∈ BB.body, I.isDbgInfo = false) :
    ∀ J ∈ (locate st BB).body, J.isDbgInfo = false := by
  intro J hJ
  obtain ⟨I, hI, s, rfl⟩ := mem_mapAccum hJ
  exact hdbg I hI

/-! ## Functions -/

/-- No debug intrinsic and no debug location. -/
def Bare (F : Function) : Prop :=
  ∀ BB ∈ F.blocks, (∀ I ∈ BB.body, I.isDbgInfo = false) ∧ blockLines BB = []

/-- How many instructions of a function get a line. -/
def locatedSize (F : Function) : Nat :=
  if isFunctionSkipped F then 0 else (F.blocks.map size).sum

theorem eraseDbgInfo_of_bare {BB : BasicBlock} (hdbg : ∀ I ∈ BB.body, I.isDbgInfo = false) :
    BB.eraseDbgInfo = BB := by
  have hself : BB.body.filter (!·.isDbgInfo) = BB.body := by
    rw [List.filter_eq_self]
    intro I hI
    rw [hdbg I hI]
    rfl
  rw [BasicBlock.eraseDbgInfo, hself]

theorem visitFunction_numbers {F : Function} (hbare : Bare F) :
    Numbers visitFunction DebugifyState.NextLine locatedSize
      (fun F => F.blocks.flatMap fun BB => blockLines BB.eraseDbgInfo) F := by
  intro st
  unfold visitFunction locatedSize
  by_cases hskip : isFunctionSkipped F
  · rw [if_pos hskip, if_pos hskip]
    refine ⟨?_, (BitVec.add_zero _).symm⟩
    change F.blocks.flatMap (fun BB => blockLines BB.eraseDbgInfo) = []
    rw [List.flatMap_eq_nil_iff]
    intro BB hBB
    rw [eraseDbgInfo_of_bare (hbare BB hBB).1, (hbare BB hBB).2]
  · rw [if_neg hskip, if_neg hskip]
    exact Numbers.mapAccum (fun BB hBB => visitBlock_numbers (hbare BB hBB).1) st

end Gpscat.Debugify
