import Gpscat.Proofs.DebugValuesProofs
import Gpscat.Proofs.RepetitionProofs

/-!
# The module after Debugify

What holds of one visited block, for all blocks of a module, and the two numbers that the pass keeps
in the metadata.
-/

namespace Gpscat.Debugify

open Cpp LLVM MapAccum ListEdit IRLocator

/-! ## Blocks of the module -/

variable {M : Module}

/-- A block after Debugify: visited, unless its function is skipped. -/
theorem blockAt_applyDebugifyMetadata (hcu : M.namedMetadata.lookup "llvm.dbg.cu" = none)
    (p : BasicBlockPtr) :
    ∃ st, (applyDebugifyMetadata M).1.blockAt p = (M.functions[p.fn]?).bind fun F =>
      (F.blocks[p.idx]?).map fun BB => if isFunctionSkipped F then BB else (visitBlock st BB).1 := by
  obtain ⟨decls, hdecls, hfun⟩ := applyDebugifyMetadata_functions hcu
  have hlen : (mapAccum visitFunction {} M.functions).1.length = M.functions.length :=
    length_mapAccum visitFunction {} M.functions
  rw [Module.blockAt, hfun]
  cases hF : M.functions[p.fn]? with
  | none =>
    refine ⟨{}, ?_⟩
    have hge := List.getElem?_eq_none_iff.mp hF
    rw [List.getElem?_append_right (by rwa [hlen]), Option.bind_none, Option.bind_eq_none_iff]
    intro D hD
    rw [hdecls D (List.mem_of_getElem? hD)]
    rfl
  | some F =>
    have hlt := (List.getElem?_eq_some_iff.mp hF).1
    obtain ⟨st, hst⟩ := getElem?_mapAccum visitFunction {} M.functions p.fn
    rw [List.getElem?_append_left (by rwa [hlen]), hst, hF, Option.map_some]
    simp only [Option.bind_some, visitFunction]
    by_cases hskip : isFunctionSkipped F = true
    · simp only [if_pos hskip]
      exact ⟨st, Option.map_id'.symm⟩
    · simp only [if_neg hskip]
      obtain ⟨st', hst'⟩ := getElem?_mapAccum visitBlock st F.blocks p.idx
      exact ⟨st', hst'⟩

/-- A block of the module after Debugify comes from one of the module. -/
theorem exists_of_blockAt_applyDebugifyMetadata
    (hcu : M.namedMetadata.lookup "llvm.dbg.cu" = none) {p : BasicBlockPtr} {BB' : BasicBlock}
    (hBB' : (applyDebugifyMetadata M).1.blockAt p = some BB') :
    ∃ st BB, M.blockAt p = some BB ∧ (BB' = BB ∨ BB' = (visitBlock st BB).1) := by
  obtain ⟨st, hst⟩ := blockAt_applyDebugifyMetadata hcu p
  rw [hst, Option.bind_eq_some_iff] at hBB'
  obtain ⟨F, hF, hmap⟩ := hBB'
  obtain ⟨BB, hBB, heq⟩ := Option.map_eq_some_iff.mp hmap
  have hat : M.blockAt p = some BB := by rw [Module.blockAt, hF, Option.bind_some, hBB]
  refine ⟨st, BB, hat, ?_⟩
  split_ifs at heq
  · exact .inl heq.symm
  · exact .inr heq.symm

/-- Debugify keeps the rules for the instructions of a block: no debug value comes between the PHIs,
before an EH pad, or between a `musttail` call and the `ret`. -/
theorem applyDebugifyMetadata_wellShaped (M : Module) (hM : M.WellShaped)
    (htyped : ∀ x ∈ M.blockPtrs, TailTyped x.2) : (applyDebugifyMetadata M).1.WellShaped := by
  cases hcu : M.namedMetadata.lookup "llvm.dbg.cu" with
  | some ops =>
    have hsame : applyDebugifyMetadata M = (M, true) := by
      rw [applyDebugifyMetadata, hcu]
      rfl
    rw [hsame]
    exact hM
  | none =>
    rintro ⟨p, BB'⟩ hx
    obtain ⟨st, BB, hBB, hcases⟩ :=
      exists_of_blockAt_applyDebugifyMetadata hcu ((Module.mem_blockPtrs _).mp hx)
    have hmem : (p, BB) ∈ M.blockPtrs := M.mem_blockPtrs.mpr hBB
    have hshape : BB.WellShaped := hM (p, BB) hmem
    show BB'.WellShaped
    rcases hcases with rfl | rfl
    · exact hshape
    · rw [visitBlock_eq st hshape]
      refine visited_wellShaped ((wellShaped_locate_iff st).mpr hshape) ?_
      rw [← tailTyped_unlocated_iff, unlocated_locate, tailTyped_unlocated_iff]
      exact htyped (p, BB) hmem

/-- Blocks with PHIs, with an EH pad behind a PHI, and with a `musttail` call, and a function that is
skipped. -/
def shapedModule : Module where
  functions := [
    { type := ⟨.void, []⟩
      blocks := [
        { body := [
            { op := .phi, result := some 0 }, { op := .phi, result := some 1 },
            { op := .other "add" [.inst 0, .inst 1], result := some 2 }]
          term := { op := .invoke (.function 1) [] 1 2 } },
        { body := [{ op := .call (.function 1) [] .mustTail }]
          term := { op := .ret none } },
        { body := [{ op := .phi, result := some 3 }, { op := .ehPad, result := some 4 }]
          term := { op := .unwind none } }] },
    { type := ⟨.void, []⟩, linkage := .weakAny, blocks := [⟨[], { op := .ret none }⟩] }]

theorem applyDebugifyMetadata_wellShaped_shapedModule :
    (applyDebugifyMetadata shapedModule).1.WellShaped :=
  applyDebugifyMetadata_wellShaped shapedModule (by decide) (by decide)

/-- `IRLocator::run` keeps them as well, and all blocks that it goes through obey them. -/
theorem run_wellShaped (strip : StripSymbolsPass) (M : Module) (hM : M.WellShaped) :
    (run strip M).1.WellShaped := by
  rintro ⟨p, BB'⟩ hx
  obtain ⟨st, hst⟩ := blockAt_run strip M p
  rw [(Module.mem_blockPtrs _).mp hx, eq_comm, Option.bind_eq_some_iff] at hst
  obtain ⟨F, hF, hmap⟩ := hst
  obtain ⟨BB, hBB, heq⟩ := Option.map_eq_some_iff.mp hmap
  have hat : M.blockAt p = some BB := by rw [Module.blockAt, hF, Option.bind_some, hBB]
  have hshape : BB.eraseDbgInfo.unlocated.WellShaped :=
    BasicBlock.wellShaped_unlocated_iff.mpr (hM (p, BB) (M.mem_blockPtrs.mpr hat)).eraseDbgInfo
  show BB'.WellShaped
  split_ifs at heq
  · rw [← heq]
    exact hshape
  · rw [← heq]
    exact (wellShaped_locate_iff st).mpr hshape

theorem run_wellShaped_shapedModule : (run stripDebugInfo shapedModule).1.WellShaped :=
  run_wellShaped stripDebugInfo shapedModule (by decide)

/-! ## Lines -/

theorem mapAccum_attachLoc (body : List Instruction) (st : DebugifyState) :
    (mapAccum attachLoc st body).1 =
        body.mapIdx (fun k I => I.setDebugLoc (some (st.NextLine + BitVec.ofNat 32 k))) ∧
      (mapAccum attachLoc st body).2.NextLine = st.NextLine + BitVec.ofNat 32 body.length := by
  induction body generalizing st with
  | nil => exact ⟨rfl, (BitVec.add_zero _).symm⟩
  | cons I body ih =>
    obtain ⟨hbody, hline⟩ := ih (attachLoc st I).2
    have hnext : ∀ k,
        st.NextLine + 1#32 + BitVec.ofNat 32 k = st.NextLine + BitVec.ofNat 32 (k + 1) := by
      intro k
      rw [BitVec.add_assoc, Nat.add_comm k 1, BitVec.ofNat_add]
    constructor
    · show (attachLoc st I).1 :: (mapAccum attachLoc (attachLoc st I).2 body).1 = _
      rw [hbody, List.mapIdx_cons]
      simp [attachLoc, hnext]
    · show (mapAccum attachLoc (attachLoc st I).2 body).2.NextLine = _
      rw [hline, List.length_cons, ← hnext]
      rfl

theorem locate_eq_atLines (st : DebugifyState) (BB : BasicBlock) :
    locate st BB = atLines st.NextLine BB := by
  obtain ⟨hbody, hline⟩ := mapAccum_attachLoc BB.body st
  rw [locate, atLines, hbody, attachLoc, hline]

/-! ## The numbers in the metadata -/

theorem visitBlock_counters {BB : BasicBlock} (hBB : BB.WellShaped) (st : DebugifyState) :
    (visitBlock st BB).2.NextLine = st.NextLine + BitVec.ofNat 32 (size BB) ∧
      (visitBlock st BB).2.NextVar = st.NextVar + BitVec.ofNat 32 (valueCount BB) := by
  have hline := (mapAccum_attachLoc BB.body st).2
  have hvar : (mapAccum attachLoc st BB.body).2.NextVar = st.NextVar :=
    mapAccum_invariant (P := fun s : DebugifyState => s.NextVar = st.NextVar)
      (fun I _ s hs => hs) rfl
  rw [visitBlock_eq st hBB]
  constructor
  · show (mapAccum attachLoc st BB.body).2.NextLine + 1 = _
    rw [hline, size, BitVec.add_assoc, BitVec.ofNat_add]
    rfl
  · show (mapAccum attachLoc st BB.body).2.NextVar + _ = _
    rw [hvar]

theorem wellShaped_of_mem (hM : M.WellShaped) {F : Function} (hF : F ∈ M.functions)
    {BB : BasicBlock} (hBB : BB ∈ F.blocks) : BB.WellShaped := by
  obtain ⟨i, hi⟩ := List.getElem?_of_mem hF
  obtain ⟨j, hj⟩ := List.getElem?_of_mem hBB
  refine hM (⟨i, j⟩, BB) (M.mem_blockPtrs.mpr ?_)
  rw [Module.blockAt, hi, Option.bind_some, hj]

theorem visitFunction_counters {F : Function} (hF : ∀ BB ∈ F.blocks, BB.WellShaped)
    (st : DebugifyState) :
    (visitFunction st F).2.NextLine = st.NextLine + BitVec.ofNat 32 (locatedSize F) ∧
      (visitFunction st F).2.NextVar = st.NextVar + BitVec.ofNat 32 (functionValueCount F) := by
  unfold visitFunction locatedSize functionValueCount
  by_cases hskip : isFunctionSkipped F = true
  · simp [hskip]
  · simp only [if_neg hskip]
    exact ⟨mapAccum_counter (fun BB hBB s => (visitBlock_counters (hF BB hBB) s).1) st,
      mapAccum_counter (fun BB hBB s => (visitBlock_counters (hF BB hBB) s).2) st⟩

/-- Lines do not matter to how many debug intrinsics there are. -/
theorem countP_locate (st : DebugifyState) (BB : BasicBlock) :
    (locate st BB).body.countP Inst.isDbgInfo = BB.body.countP Inst.isDbgInfo := by
  have hbody : (locate st BB).body.map Inst.isDbgInfo = BB.body.map Inst.isDbgInfo := by
    refine map_mapAccum (fun I _ s => ?_) st
    rfl
  have hcount := congrArg (List.countP id) hbody
  rwa [List.countP_map, List.countP_map] at hcount

theorem dbgInfoCount_visitFunction {F : Function} (hF : ∀ BB ∈ F.blocks, BB.WellShaped)
    (st : DebugifyState) :
    dbgInfoCount (visitFunction st F).1 = dbgInfoCount F + functionValueCount F := by
  unfold visitFunction functionValueCount
  by_cases hskip : isFunctionSkipped F = true
  · simp [hskip]
  · have hblock : ∀ BB ∈ F.blocks, ∀ s,
        (visitBlock s BB).1.body.countP Inst.isDbgInfo =
          BB.body.countP Inst.isDbgInfo + valueCount BB := by
      intro BB hBB s
      rw [visitBlock_eq s (hF BB hBB), countP_visited, countP_locate, valueCount_locate]
    simp only [if_neg hskip, dbgInfoCount]
    rw [map_mapAccum hblock, List.sum_map_add]

/-- The two numbers that Debugify leaves in `llvm.debugify` are, up to the width of an `unsigned`,
the number of instructions with a line and the number of debug values. The debug values are all that
the pass adds to the debug intrinsics of the module. -/
theorem applyDebugifyMetadata_counts (M : Module) (hM : M.WellShaped)
    (hcu : M.namedMetadata.lookup "llvm.dbg.cu" = none) :
    ∃ lines values,
      debugifyOperands (applyDebugifyMetadata M).1 =
        debugifyOperands M ++ [.int (BitVec.ofNat 32 lines), .int (BitVec.ofNat 32 values)] ∧
      lines = (M.functions.map locatedSize).sum ∧
      values = (M.functions.map functionValueCount).sum ∧
      ((applyDebugifyMetadata M).1.functions.map dbgInfoCount).sum =
        (M.functions.map dbgInfoCount).sum + values := by
  have hshape : ∀ F ∈ M.functions, ∀ BB ∈ F.blocks, BB.WellShaped := fun F hF BB hBB =>
    wellShaped_of_mem hM hF hBB
  refine ⟨_, _, ?_, rfl, rfl, ?_⟩
  · have hlines : (mapAccum visitFunction {} M.functions).2.NextLine =
        1 + BitVec.ofNat 32 (M.functions.map locatedSize).sum :=
      mapAccum_counter (fun F hF s => (visitFunction_counters (hshape F hF) s).1) {}
    have hvalues : (mapAccum visitFunction {} M.functions).2.NextVar =
        1 + BitVec.ofNat 32 (M.functions.map functionValueCount).sum :=
      mapAccum_counter (fun F hF s => (visitFunction_counters (hshape F hF) s).2) {}
    have hsub : ∀ x : BitVec 32, 1 + x - 1 = x := fun x => by
      rw [BitVec.add_comm, BitVec.add_sub_cancel]
    rw [applyDebugifyMetadata_operands hcu]
    simp only [hlines, hvalues, hsub]
  · obtain ⟨decls, hdecls, hfun⟩ := applyDebugifyMetadata_functions hcu
    have hnone : (decls.map dbgInfoCount).sum = 0 := by
      rw [List.sum_eq_zero]
      intro n hn
      obtain ⟨F, hF, rfl⟩ := List.mem_map.mp hn
      rw [dbgInfoCount, hdecls F hF]
      rfl
    rw [hfun, List.map_append, List.sum_append, hnone, Nat.add_zero,
      map_mapAccum fun F hF s => dbgInfoCount_visitFunction (hshape F hF) s, List.sum_map_add]

theorem applyDebugifyMetadata_counts_shapedModule :
    ∃ lines values,
      debugifyOperands (applyDebugifyMetadata shapedModule).1 =
        debugifyOperands shapedModule ++
          [.int (BitVec.ofNat 32 lines), .int (BitVec.ofNat 32 values)] ∧
      lines = (shapedModule.functions.map locatedSize).sum ∧
      values = (shapedModule.functions.map functionValueCount).sum ∧
      ((applyDebugifyMetadata shapedModule).1.functions.map dbgInfoCount).sum =
        (shapedModule.functions.map dbgInfoCount).sum + values :=
  applyDebugifyMetadata_counts shapedModule (by decide) rfl

example : (shapedModule.functions.map locatedSize, shapedModule.functions.map functionValueCount) =
    ([9, 0], [3, 0]) := by decide

/-! ## The closed form -/

theorem visitFunction_closed {F : Function} (hF : ∀ BB ∈ F.blocks, BB.WellShaped)
    (st : DebugifyState) :
    (visitFunction st F).1 =
      if isFunctionSkipped F then F
      else
        { F with
          blocks := F.blocks.mapIdx fun j BB =>
            visited (atLines (st.NextLine + BitVec.ofNat 32 ((F.blocks.take j).map size).sum) BB) } := by
  have hblock : ∀ BB ∈ F.blocks, ∀ s : DebugifyState,
      (visitBlock s BB).1 = visited (atLines s.NextLine BB) ∧
        (visitBlock s BB).2.NextLine = s.NextLine + BitVec.ofNat 32 (size BB) := by
    intro BB hBB s
    refine ⟨?_, (visitBlock_counters (hF BB hBB) s).1⟩
    rw [visitBlock_eq s (hF BB hBB), locate_eq_atLines]
  unfold visitFunction
  by_cases hskip : isFunctionSkipped F = true
  · rw [if_pos hskip, if_pos hskip]
  · rw [if_neg hskip, if_neg hskip]
    dsimp only
    rw [mapAccum_eq_mapIdx DebugifyState.NextLine (fun line BB => visited (atLines line BB))
      hblock st]

/-- The intrinsic is needed as soon as a function gets a debug value. -/
theorem visitFunction_valueFn {F : Function} (hF : ∀ BB ∈ F.blocks, BB.WellShaped)
    (st : DebugifyState) :
    (visitFunction st F).2.valueFn = (st.valueFn || decide (0 < functionValueCount F)) := by
  have hblock : ∀ BB ∈ F.blocks, ∀ s : DebugifyState,
      (visitBlock s BB).2.valueFn = (s.valueFn || decide (0 < valueCount BB)) := by
    intro BB hBB s
    have hbody : (mapAccum attachLoc s BB.body).2.valueFn = s.valueFn :=
      mapAccum_invariant (P := fun t : DebugifyState => t.valueFn = s.valueFn)
        (fun I _ t ht => ht) rfl
    rw [visitBlock_eq s (hF BB hBB)]
    show ((mapAccum attachLoc s BB.body).2.valueFn || _) = _
    rw [hbody]
  unfold visitFunction functionValueCount
  by_cases hskip : isFunctionSkipped F = true
  · simp [hskip]
  · simp only [if_neg hskip]
    rw [mapAccum_flag hblock st]
    congr 1
    rw [Bool.eq_iff_iff, List.any_eq_true, decide_eq_true_iff, List.sum_pos_iff_exists_pos_nat]
    simp

/-- Debugify in closed form: consecutive lines, the debug values behind the PHIs and behind the other
instructions, and a declaration of the intrinsic when it is needed and its name is free. -/
theorem applyDebugifyMetadata_debugified (M : Module) (hM : M.WellShaped)
    (hcu : M.namedMetadata.lookup "llvm.dbg.cu" = none) :
    (applyDebugifyMetadata M).1.functions = debugified M.functions ++
      if (M.functions.map functionValueCount).sum ≠ 0 ∧ M.symbols.lookup "llvm.dbg.value" = none then
        [{ type := dbgValueType }]
      else [] := by
  have hshape : ∀ F ∈ M.functions, ∀ BB ∈ F.blocks, BB.WellShaped := fun F hF BB hBB =>
    wellShaped_of_mem hM hF hBB
  have hfunctions : (mapAccum visitFunction {} M.functions).1 = debugified M.functions := by
    rw [mapAccum_eq_mapIdx DebugifyState.NextLine
      (fun line F =>
        if isFunctionSkipped F then F
        else
          { F with
            blocks := F.blocks.mapIdx fun j BB =>
              visited (atLines (line + BitVec.ofNat 32 ((F.blocks.take j).map size).sum) BB) })
      (fun F hF s => ⟨visitFunction_closed (hshape F hF) s,
        (visitFunction_counters (hshape F hF) s).1⟩)]
    simp only [debugified, firstLine, BitVec.ofNat_add, BitVec.add_assoc]
  have hvalueFn : (mapAccum visitFunction {} M.functions).2.valueFn =
      decide ((M.functions.map functionValueCount).sum ≠ 0) := by
    rw [mapAccum_flag (fun F hF s => visitFunction_valueFn (hshape F hF) s), Bool.eq_iff_iff,
      Bool.false_or, List.any_eq_true, decide_eq_true_iff, ← Nat.pos_iff_ne_zero,
      List.sum_pos_iff_exists_pos_nat]
    simp
  unfold applyDebugifyMetadata
  rw [if_neg (not_isSome_compileUnit hcu)]
  dsimp only
  rw [hfunctions, hvalueFn]
  by_cases hneeded : (M.functions.map functionValueCount).sum = 0
  · simp [hneeded]
  · cases hname : M.symbols.lookup "llvm.dbg.value" with
    | none => simp [hneeded, hname, Module.getOrInsertFunction]
    | some g => simp [hneeded, hname, Module.getOrInsertFunction]

theorem applyDebugifyMetadata_debugified_shapedModule :
    (applyDebugifyMetadata shapedModule).1.functions = debugified shapedModule.functions ++
      [{ type := dbgValueType }] :=
  applyDebugifyMetadata_debugified shapedModule (by decide) rfl

end Gpscat.Debugify
