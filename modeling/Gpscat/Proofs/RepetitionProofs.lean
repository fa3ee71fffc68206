import Gpscat.Repetition
import Gpscat.Proofs.IRLocatorProofs
import Gpscat.LLVM.Proofs.SymbolTableProofs

/-!
# A repeated run keeps the lines, but does not complete

The strip pass takes a module back to what the first run has started from, so the second run numbers
the same instructions again. The assertion on the operands of `llvm.debugify` is the only one that
can fail, and it fails from the second run on.
-/

namespace Gpscat

open Cpp LLVM MapAccum Debugify

/-! ## Assertions on the way -/

namespace Debugify

theorem visitBlock_asserts {st : DebugifyState} (h : st.asserts = true) (BB : BasicBlock) :
    (visitBlock st BB).2.asserts = true := by
  have hlocated : (located st BB).asserts = true :=
    mapAccum_invariant (P := fun s : DebugifyState => s.asserts = true) (fun _ _ _ hs => hs) h
  obtain ⟨NextVar, valueFn, hst⟩ := visitBlock_state st BB
  rw [hst]
  exact hlocated

theorem visitFunction_asserts {st : DebugifyState} (h : st.asserts = true) (F : Function) :
    (visitFunction st F).2.asserts = true := by
  unfold visitFunction
  split_ifs with hskip
  · exact h
  · exact mapAccum_invariant (P := fun s : DebugifyState => s.asserts = true)
      (fun BB _ s hs => visitBlock_asserts hs BB) h

end Debugify

namespace IRLocator

variable (strip : StripSymbolsPass) (M : Module)

/-! ## The operands of the node -/

theorem applyDebugifyMetadata_operands {M : Module}
    (hcu : M.namedMetadata.lookup "llvm.dbg.cu" = none) :
    debugifyOperands (applyDebugifyMetadata M).1 =
      let st := (mapAccum visitFunction {} M.functions).2
      debugifyOperands M ++ [.int (st.NextLine - 1), .int (st.NextVar - 1)] := by
  have hne : "llvm.debugify" ≠ "llvm.dbg.cu" := by decide
  unfold applyDebugifyMetadata debugifyOperands
  rw [if_neg (not_isSome_compileUnit hcu)]
  dsimp only
  rw [UnorderedMap.findD_modify, if_pos rfl]
  congr 1
  split_ifs
  · rw [Module.namedMetadata_getOrInsertFunction, UnorderedMap.findD_modify, if_neg hne]
  · rw [UnorderedMap.findD_modify, if_neg hne]

theorem applyDebugifyMetadata_asserts {M : Module}
    (hcu : M.namedMetadata.lookup "llvm.dbg.cu" = none) :
    (applyDebugifyMetadata M).2 =
      decide ((debugifyOperands (applyDebugifyMetadata M).1).length = 2) := by
  have hvisited : (mapAccum visitFunction {} M.functions).2.asserts = true :=
    mapAccum_invariant (P := fun s : DebugifyState => s.asserts = true)
      (fun F _ s hs => visitFunction_asserts hs F) rfl
  unfold applyDebugifyMetadata debugifyOperands
  rw [if_neg (not_isSome_compileUnit hcu)]
  dsimp only
  rw [hvisited, Bool.true_and]

/-- Every run adds two operands. -/
theorem length_debugifyOperands_run :
    (debugifyOperands (run strip M).1).length = (debugifyOperands M).length + 2 := by
  have hkept : debugifyOperands (strip.run M) = debugifyOperands M := by
    rw [debugifyOperands, UnorderedMap.findD, strip.kept M "llvm.debugify" (by decide)]
    rfl
  have hops := applyDebugifyMetadata_operands (no_compileUnit strip M)
  have hrun : debugifyOperands (run strip M).1 =
    debugifyOperands (applyDebugifyMetadata (strip.run M)).1 := rfl
  rw [hrun, hops, hkept, List.length_append]
  rfl

/-- The run completes exactly when the node has had no operands. -/
theorem completes_iff : Completes strip M ↔ debugifyOperands M = [] := by
  have hasserts : (run strip M).2 = decide ((debugifyOperands (run strip M).1).length = 2) :=
    applyDebugifyMetadata_asserts (no_compileUnit strip M)
  rw [Completes, hasserts, decide_eq_true_iff, length_debugifyOperands_run,
    ← List.length_eq_zero_iff]
  exact Nat.add_eq_right

theorem length_debugifyOperands_runs (n : Nat) :
    (debugifyOperands (runs strip n M)).length = (debugifyOperands M).length + 2 * n := by
  induction n with
  | zero => rfl
  | succ n ih => rw [runs, length_debugifyOperands_run, ih, Nat.mul_succ, Nat.add_assoc]

/-- A module that the locator has run on makes the next run fail. -/
theorem not_completes_runs (n : Nat) : ¬ Completes strip (runs strip (n + 1) M) := by
  rw [completes_iff, ← List.length_eq_zero_iff, length_debugifyOperands_runs]
  omega

/-! ## The functions that are stripped again -/

/-- The strip pass sees of the blocks only what it leaves of them. -/
theorem stripped_of_blocks {F : Function} {blocks : List BasicBlock}
    (h : blocks.map (fun BB => BB.eraseDbgInfo.unlocated) =
      F.blocks.map fun BB => BB.eraseDbgInfo.unlocated) :
    stripped { F with blocks := blocks } = stripped F := by
  unfold stripped
  dsimp only
  rw [h]

theorem stripped_stripped (F : Function) : stripped (stripped F) = stripped F := by
  refine stripped_of_blocks ?_
  rw [List.map_map]
  refine List.map_congr_left fun BB hBB => ?_
  have hdbg := (bare_stripped F _ (List.mem_map_of_mem hBB)).1
  rw [Function.comp_apply, eraseDbgInfo_of_bare hdbg, BasicBlock.unlocated_unlocated]

theorem stripped_erased (F : Function) : stripped (erased F) = stripped F := by
  refine stripped_of_blocks ?_
  rw [List.map_map]
  refine List.map_congr_left fun BB _ => ?_
  rw [Function.comp_apply, BasicBlock.eraseDbgInfo_eraseDbgInfo]

theorem stripped_of_declaration {F : Function} (h : F.blocks = []) : stripped F = F := by
  unfold stripped
  rw [h, List.map_nil, ← h]

/-- What Debugify does to a bare function, the strip pass takes back. -/
theorem stripped_visitFunction {F : Function} (hbare : Bare F) (st : DebugifyState) :
    stripped (visitFunction st F).1 = stripped F := by
  unfold visitFunction
  split_ifs with hskip
  · rfl
  · refine stripped_of_blocks (map_mapAccum (fun BB hBB s => ?_) st)
    have hdbg := (hbare BB hBB).1
    rw [eraseDbgInfo_visitBlock hdbg, unlocated_locate, eraseDbgInfo_of_bare hdbg]

theorem visitFunction_of_declaration {F : Function} (h : F.blocks = []) (st : DebugifyState) :
    visitFunction st F = (F, st) := by
  have hskip : isFunctionSkipped F = true := by
    rw [isFunctionSkipped, Function.isDeclaration, h]
    rfl
  exact if_pos hskip

/-- Whatever the states in which the functions were visited, stripping them again yields the
functions that the run has started from. -/
theorem map_stripped_visited (st : DebugifyState) (Fs : List Function) :
    ((mapAccum visitFunction st (Fs.map stripped)).1.map erased).map stripped =
      Fs.map stripped := by
  rw [List.map_map]
  have hview : ∀ F ∈ Fs.map stripped, ∀ s,
      (stripped ∘ erased) (visitFunction s F).1 = stripped F := by
    intro F hF s
    obtain ⟨F₀, -, rfl⟩ := List.mem_map.mp hF
    rw [Function.comp_apply, stripped_erased, stripped_visitFunction (bare_stripped F₀)]
  rw [map_mapAccum hview, List.map_map]
  exact List.map_congr_left fun F _ => stripped_stripped F

/-- The second run has the functions of the first one, and perhaps more declarations. -/
theorem functions_run_run : ∃ decls : List Function, (∀ F ∈ decls, F.blocks = []) ∧
    (run strip (run strip M).1).1.functions = (run strip M).1.functions ++ decls := by
  obtain ⟨decls, hdecls, hfun⟩ := functions_run strip M
  obtain ⟨decls', hdecls', hfun'⟩ := functions_run strip (run strip M).1
  have hagain : (run strip M).1.functions.map stripped = M.functions.map stripped ++ decls := by
    rw [hfun, List.map_append, map_stripped_visited,
      map_declarations stripped_of_declaration hdecls]
  have hvisited : ∀ st, mapAccum visitFunction st decls = (decls, st) :=
    mapAccum_of_fixed fun F hF st => visitFunction_of_declaration (hdecls F hF) st
  rw [hagain, fst_mapAccum_append, hvisited] at hfun'
  refine ⟨decls', hdecls', ?_⟩
  rw [hfun', hfun, List.map_append, map_declarations erased_of_declaration hdecls]

/-- A second run gives every instruction the line that it has. -/
theorem sameLines_run : SameLines (run strip (run strip M).1).1 (run strip M).1 := by
  obtain ⟨decls, hdecls, hfun⟩ := functions_run_run strip M
  exact Module.blockAt_of_append hdecls hfun

/-- So does every further run. -/
theorem sameLines_runs (n : Nat) : SameLines (runs strip (n + 1) M) (run strip M).1 := by
  induction n with
  | zero => exact fun _ => rfl
  | succ n ih => exact fun p => (sameLines_run strip (runs strip n M) p).trans (ih p)

/-- **The run cannot be repeated**, whatever the module. It completes exactly when the node
`llvm.debugify` has no operands; then it leaves some, so that no further run completes. What does
hold, with the assertions off, is that all of them give the lines of the first run. -/
theorem run_not_repeatable (strip : StripSymbolsPass) (M : Module) :
    ¬ Repeatable strip M ∧ (Completes strip M ↔ debugifyOperands M = []) ∧
      ∀ n, ¬ Completes strip (runs strip (n + 1) M) ∧
        SameLines (runs strip (n + 1) M) (run strip M).1 := by
  refine ⟨fun h => ?_, completes_iff strip M, fun n => ?_⟩
  · exact not_completes_runs strip M 0 h.again
  · exact ⟨not_completes_runs strip M n, sameLines_runs strip M n⟩

/-- The first run on `mixedModule` completes, and the second one does not. -/
theorem mixedModule_not_repeatable :
    Completes stripDebugInfo mixedModule ∧
      ¬ Completes stripDebugInfo (run stripDebugInfo mixedModule).1 ∧
      ¬ Repeatable stripDebugInfo mixedModule := by
  have hfirst : Completes stripDebugInfo mixedModule :=
    (completes_iff stripDebugInfo mixedModule).mpr (by decide)
  have hsecond := not_completes_runs stripDebugInfo mixedModule 0
  exact ⟨hfirst, hsecond, fun h => hsecond h.again⟩

end IRLocator

end Gpscat
