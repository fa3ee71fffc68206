import Gpscat.IRLocator
import Gpscat.Proofs.DebugifyProofs
import Gpscat.Proofs.AttributionProofs

/-!
# The locator identifies instructions

`IRLocator::run` makes the lines of a module the numbers from 1 on, in module order. A function whose
definition is not exact is skipped by Debugify and gets no lines.
-/

namespace Gpscat

open Cpp LLVM MapAccum ListEdit Debugify

/-! ## Lines of a module -/

/-- The lines of a list of functions, in order. -/
def functionLines (Fs : List Function) : List InstructionID :=
  Fs.flatMap fun F => F.blocks.flatMap blockLines

theorem map_snd_blockPtrs (M : Module) :
    M.blockPtrs.map Prod.snd = M.functions.flatMap Function.blocks := by
  have hfun : ∀ (F : Function) (f : Nat),
      (F.blocks.zipIdx.map fun x => ((⟨f, x.2⟩ : BasicBlockPtr), x.1)).map Prod.snd = F.blocks := by
    intro F f
    rw [List.map_map]
    exact List.zipIdx_map_fst 0 F.blocks
  rw [Module.blockPtrs, List.map_flatMap]
  conv_rhs => rw [← List.zipIdx_map_fst 0 M.functions, List.flatMap_map]
  exact List.flatMap_congr fun x _ => hfun x.1 x.2

theorem locatedLines_eq_functionLines (M : Module) :
    M.locatedLines = functionLines M.functions := by
  have hblocks : M.locatedLines = (M.blockPtrs.map Prod.snd).flatMap blockLines := by
    rw [locatedLines_eq_flatMap, List.flatMap_map]
  rw [hblocks, map_snd_blockPtrs, List.flatMap_assoc]
  rfl

namespace IRLocator

theorem removeDebugIntrinsics_eq (BB : BasicBlock) :
    removeDebugIntrinsics BB = BB.eraseDbgInfo := by
  rw [removeDebugIntrinsics, eraseLoop_eq_filter, List.nil_append]
  rfl

variable (strip : StripSymbolsPass) (M : Module)

/-! ## What is stripped -/

/-- A function after the strip pass. -/
def stripped (F : Function) : Function :=
  { F with blocks := F.blocks.map (·.eraseDbgInfo.unlocated) }

/-- A function without its debug intrinsics. -/
def erased (F : Function) : Function := { F with blocks := F.blocks.map BasicBlock.eraseDbgInfo }

theorem isFunctionSkipped_stripped (F : Function) :
    isFunctionSkipped (stripped F) = isFunctionSkipped F := by
  have hdecl : (stripped F).isDeclaration = F.isDeclaration := List.isEmpty_map
  rw [isFunctionSkipped, Function.hasExactDefinition, hdecl]
  rfl

theorem bare_stripped (F : Function) : Bare (stripped F) := by
  intro BB hBB
  obtain ⟨BB₀, -, rfl⟩ := List.mem_map.mp hBB
  constructor
  · intro I hI
    obtain ⟨I₀, hI₀, rfl⟩ := List.mem_map.mp hI
    have hnot := (List.mem_filter.mp hI₀).2
    rwa [Bool.not_eq_true'] at hnot
  · rw [blockLines, List.filterMap_eq_nil_iff]
    intro loc hloc
    exact BasicBlock.debugLocs_unlocated hloc

theorem erased_of_declaration {F : Function} (h : F.blocks = []) : erased F = F := by
  unfold erased
  rw [h, List.map_nil, ← h]

/-- Declarations pass a rewriting that changes blocks only. -/
theorem map_declarations {g : Function → Function} (hg : ∀ {F}, F.blocks = [] → g F = F)
    {decls : List Function} (hdecls : ∀ F ∈ decls, F.blocks = []) : decls.map g = decls :=
  (List.map_congr_left fun F hF => hg (hdecls F hF)).trans (List.map_id decls)

/-! ## What is numbered -/

/-- Debugify does not skip a module without a compile unit. -/
theorem not_isSome_compileUnit {M : Module}
    (hcu : M.namedMetadata.lookup "llvm.dbg.cu" = none) :
    ¬ (M.namedMetadata.lookup "llvm.dbg.cu").isSome = true := by
  rw [hcu]
  exact Bool.false_ne_true

/-- The functions after Debugify: the visited ones, and perhaps the declaration of the intrinsic. -/
theorem applyDebugifyMetadata_functions {M : Module}
    (hcu : M.namedMetadata.lookup "llvm.dbg.cu" = none) :
    ∃ decls : List Function, (∀ F ∈ decls, F.blocks = []) ∧
      (applyDebugifyMetadata M).1.functions = (mapAccum visitFunction {} M.functions).1 ++ decls := by
  unfold applyDebugifyMetadata
  rw [if_neg (not_isSome_compileUnit hcu)]
  dsimp only
  split
  · unfold Module.getOrInsertFunction
    split
    · exact ⟨[], fun F hF => absurd hF List.not_mem_nil, (List.append_nil _).symm⟩
    · refine ⟨[{ type := dbgValueType }], fun F hF => ?_, rfl⟩
      rw [List.mem_singleton.mp hF]
  · exact ⟨[], fun F hF => absurd hF List.not_mem_nil, (List.append_nil _).symm⟩

/-- The strip pass removes the compile unit. -/
theorem no_compileUnit : (strip.run M).namedMetadata.lookup "llvm.dbg.cu" = none :=
  strip.stripped M "llvm.dbg.cu" (by decide)

/-- The functions after the run: the visited ones, and perhaps the declaration of the intrinsic. -/
theorem functions_run :
    ∃ decls : List Function, (∀ F ∈ decls, F.blocks = []) ∧
      (run strip M).1.functions =
        (mapAccum visitFunction {} (M.functions.map stripped)).1.map erased ++ decls := by
  obtain ⟨decls, hdecls, hfun⟩ := applyDebugifyMetadata_functions (no_compileUnit strip M)
  refine ⟨decls, hdecls, ?_⟩
  have hremove : removeDebugIntrinsics = BasicBlock.eraseDbgInfo := funext removeDebugIntrinsics_eq
  have herased : (run strip M).1.functions =
      (applyDebugifyMetadata (strip.run M)).1.functions.map erased := by
    rw [run, Module.functions_mapBlocks, hremove]
    rfl
  rw [herased, hfun, strip.functions, List.map_append,
    map_declarations erased_of_declaration hdecls]
  rfl

/-- The lines after the run: one number for each instruction of a function that is not skipped. -/
theorem locatedLines_run :
    (run strip M).1.locatedLines =
      numbered 1 ((M.functions.map fun F => locatedSize (stripped F)).sum) := by
  obtain ⟨decls, hdecls, hfun⟩ := functions_run strip M
  have hdeclLines : (decls.flatMap fun F => F.blocks.flatMap blockLines) = [] := by
    rw [List.flatMap_eq_nil_iff]
    intro F hF
    rw [hdecls F hF]
    rfl
  have hnumbers : ∀ F ∈ M.functions.map stripped, Numbers visitFunction DebugifyState.NextLine
      locatedSize (fun F => F.blocks.flatMap fun BB => blockLines BB.eraseDbgInfo) F := by
    intro F hF
    obtain ⟨F₀, -, rfl⟩ := List.mem_map.mp hF
    exact visitFunction_numbers (bare_stripped F₀)
  rw [locatedLines_eq_functionLines, functionLines, hfun, List.flatMap_append, hdeclLines,
    List.append_nil]
  simp only [erased, List.flatMap_map]
  refine (Numbers.mapAccum hnumbers ({} : DebugifyState)).1.trans ?_
  change numbered 1 ((M.functions.map stripped).map locatedSize).sum = _
  rw [List.map_map]
  rfl

/-! ## What becomes of a block -/

theorem getElem?_visitFunction (st : DebugifyState) (F : Function) (b : Nat) :
    ∃ st', ((visitFunction st (stripped F)).1.blocks[b]?).map BasicBlock.eraseDbgInfo =
      (F.blocks[b]?).map fun BB => if isFunctionSkipped F then BB.eraseDbgInfo.unlocated
        else locate st' BB.eraseDbgInfo.unlocated := by
  have hbare : ∀ BB ∈ F.blocks, ∀ I ∈ BB.eraseDbgInfo.unlocated.body, I.isDbgInfo = false :=
    fun BB hBB => (bare_stripped F _ (List.mem_map_of_mem hBB)).1
  unfold visitFunction
  rw [isFunctionSkipped_stripped]
  by_cases hskip : isFunctionSkipped F = true
  · simp only [if_pos hskip]
    refine ⟨st, ?_⟩
    rw [stripped, List.getElem?_map, Option.map_map]
    cases hBB : F.blocks[b]? with
    | none => rfl
    | some BB =>
      rw [Option.map_some, Option.map_some, Function.comp_apply,
        eraseDbgInfo_of_bare (hbare BB (List.mem_of_getElem? hBB))]
  · simp only [if_neg hskip]
    obtain ⟨st', hst'⟩ := getElem?_mapAccum visitBlock st (stripped F).blocks b
    refine ⟨st', ?_⟩
    rw [hst', stripped, List.getElem?_map, Option.map_map, Option.map_map]
    cases hBB : F.blocks[b]? with
    | none => rfl
    | some BB =>
      rw [Option.map_some, Option.map_some, Function.comp_apply, Function.comp_apply,
        eraseDbgInfo_visitBlock (hbare BB (List.mem_of_getElem? hBB))]

/-- A block after the run: numbered from some state on, or bare when its function is skipped. -/
theorem blockAt_run (p : BasicBlockPtr) :
    ∃ st, (run strip M).1.blockAt p = (M.functions[p.fn]?).bind fun F =>
      (F.blocks[p.idx]?).map fun BB =>
        if isFunctionSkipped F then BB.eraseDbgInfo.unlocated
        else locate st BB.eraseDbgInfo.unlocated := by
  obtain ⟨decls, hdecls, hfun⟩ := functions_run strip M
  have hlen : ((mapAccum visitFunction {} (M.functions.map stripped)).1.map erased).length =
      M.functions.length := by
    rw [List.length_map, length_mapAccum, List.length_map]
  rw [Module.blockAt, hfun]
  cases hF : M.functions[p.fn]? with
  | none =>
    -- Beyond the functions of `M` there are only declarations.
    refine ⟨{}, ?_⟩
    have hge := List.getElem?_eq_none_iff.mp hF
    rw [List.getElem?_append_right (by rwa [hlen]), Option.bind_none, Option.bind_eq_none_iff]
    intro D hD
    rw [hdecls D (List.mem_of_getElem? hD)]
    rfl
  | some F =>
    have hlt := (List.getElem?_eq_some_iff.mp hF).1
    obtain ⟨st, hst⟩ := getElem?_mapAccum visitFunction {} (M.functions.map stripped) p.fn
    obtain ⟨st', hst'⟩ := getElem?_visitFunction st F p.idx
    refine ⟨st', ?_⟩
    rw [List.getElem?_append_left (by rwa [hlen]), List.getElem?_map, hst, List.getElem?_map, hF,
      Option.map_some, Option.map_some, Option.map_some, Option.bind_some, Option.bind_some, erased,
      List.getElem?_map, hst']

/-! ## Identification -/

/-- The run leaves `M'` of `M`: every instruction of a function with an exact definition has a line
other than 0, no two instructions share one, no debug intrinsic is left, and the other instructions
are those of `M`, in their order. A function without an exact definition has no lines. -/
structure Identifies (M M' : Module) : Prop where
  located : ∀ p F, M.functions[p.fn]? = some F → F.hasExactDefinition = true →
    ∀ BB, M'.blockAt p = some BB → ∀ loc ∈ BB.debugLocs, ∃ line, loc = some line ∧ line ≠ 0
  skipped : ∀ p F, M.functions[p.fn]? = some F → F.hasExactDefinition = false →
    ∀ BB, M'.blockAt p = some BB → ∀ loc ∈ BB.debugLocs, loc = none
  distinct : M'.locatedLines.Nodup
  erased : ∀ p BB, M'.blockAt p = some BB → ∀ I ∈ BB.body, I.isDbgInfo = false
  blocks : ∀ p, (M'.blockAt p).map BasicBlock.unlocated =
    (M.blockAt p).map fun BB => BB.eraseDbgInfo.unlocated

/-- The number of instructions that are no debug intrinsics, in functions with an exact
definition. -/
def instructionCount (M : Module) : Nat :=
  (M.functions.map fun F =>
    if F.hasExactDefinition then (F.blocks.map fun BB => size BB.eraseDbgInfo).sum else 0).sum

/-- A function with a body is skipped when its definition is not exact. -/
theorem isFunctionSkipped_eq (F : Function) : isFunctionSkipped F = !F.hasExactDefinition := by
  unfold isFunctionSkipped Function.hasExactDefinition
  cases F.isDeclaration <;> rfl

theorem locatedSize_stripped (F : Function) :
    locatedSize (stripped F) =
      if F.hasExactDefinition then (F.blocks.map fun BB => size BB.eraseDbgInfo).sum else 0 := by
  have hsize : (stripped F).blocks.map size = F.blocks.map fun BB => size BB.eraseDbgInfo := by
    rw [stripped, List.map_map]
    refine List.map_congr_left fun BB _ => ?_
    rw [Function.comp_apply, size, BasicBlock.unlocated, List.length_map, size]
  rw [locatedSize, isFunctionSkipped_stripped, isFunctionSkipped_eq, hsize]
  cases F.hasExactDefinition <;> rfl

/-- The lines of the module after the run are the numbers from 1 on. -/
theorem locatedLines_run_eq :
    (run strip M).1.locatedLines = numbered 1 (instructionCount M) := by
  rw [locatedLines_run, instructionCount]
  simp only [locatedSize_stripped]

/-- The run establishes what the extractor relies on. -/
theorem distinctLines_run (hsize : instructionCount M < 2 ^ 32) :
    DistinctLines (run strip M).1 := by
  have hrange : (1 : InstructionID).toNat + instructionCount M ≤ 2 ^ 32 := by
    change 1 + instructionCount M ≤ 2 ^ 32
    omega
  constructor
  · rw [locatedLines_run_eq]
    exact nodup_numbered hrange
  · intro line hline
    rw [locatedLines_run_eq] at hline
    exact ne_zero_of_mem_numbered hrange Nat.one_pos hline

/-- A block of a function after the run: numbered when the definition is exact, else bare. -/
theorem exists_of_blockAt_run {p : BasicBlockPtr} {BB : BasicBlock}
    (hBB : (run strip M).1.blockAt p = some BB) :
    ∃ (st : DebugifyState) (F : Function) (BB₀ : BasicBlock), M.functions[p.fn]? = some F ∧
      BB = if F.hasExactDefinition then locate st BB₀.eraseDbgInfo.unlocated
        else BB₀.eraseDbgInfo.unlocated := by
  obtain ⟨st, hst⟩ := blockAt_run strip M p
  rw [hst, Option.bind_eq_some_iff] at hBB
  obtain ⟨F, hF, hmap⟩ := hBB
  obtain ⟨BB₀, -, rfl⟩ := Option.map_eq_some_iff.mp hmap
  refine ⟨st, F, BB₀, hF, ?_⟩
  rw [isFunctionSkipped_eq]
  cases F.hasExactDefinition <;> rfl

theorem line_of_exact {p : BasicBlockPtr} {F : Function} (hF : M.functions[p.fn]? = some F)
    (hexact : F.hasExactDefinition = true) {BB : BasicBlock}
    (hBB : (run strip M).1.blockAt p = some BB) {loc : Option InstructionID}
    (hloc : loc ∈ BB.debugLocs) : ∃ line ∈ (run strip M).1.locatedLines, loc = some line := by
  obtain ⟨st, F', BB₀, hF', hBB'⟩ := exists_of_blockAt_run strip M hBB
  obtain rfl : F = F' := Option.some.inj (hF.symm.trans hF')
  rw [hexact, if_pos rfl] at hBB'
  have hsome : loc.isSome := by
    rw [hBB'] at hloc
    exact isSome_of_mem_locate hloc
  obtain ⟨line, rfl⟩ := Option.isSome_iff_exists.mp hsome
  refine ⟨line, ?_, rfl⟩
  rw [locatedLines_eq_flatMap]
  exact List.mem_flatMap.mpr ⟨_, (Module.mem_blockPtrs _).mpr hBB, mem_blockLines.mpr hloc⟩

theorem no_line_of_not_exact {p : BasicBlockPtr} {F : Function}
    (hF : M.functions[p.fn]? = some F) (hexact : F.hasExactDefinition = false) {BB : BasicBlock}
    (hBB : (run strip M).1.blockAt p = some BB) {loc : Option InstructionID}
    (hloc : loc ∈ BB.debugLocs) : loc = none := by
  obtain ⟨st, F', BB₀, hF', rfl⟩ := exists_of_blockAt_run strip M hBB
  obtain rfl : F = F' := Option.some.inj (hF.symm.trans hF')
  rw [hexact, if_neg Bool.false_ne_true] at hloc
  exact BasicBlock.debugLocs_unlocated hloc

/-- No debug intrinsic is left by the run. -/
theorem isDbgInfo_run {p : BasicBlockPtr} {BB : BasicBlock}
    (hBB : (run strip M).1.blockAt p = some BB) : ∀ I ∈ BB.body, I.isDbgInfo = false := by
  obtain ⟨st, F, BB₀, -, rfl⟩ := exists_of_blockAt_run strip M hBB
  have hbare := (bare_stripped { F with blocks := [BB₀] } _ List.mem_cons_self).1
  split
  · exact isDbgInfo_locate hbare
  · exact hbare

/-- But for the lines, the blocks are those of `M` without its debug intrinsics. -/
theorem unlocated_blockAt_run (p : BasicBlockPtr) :
    ((run strip M).1.blockAt p).map BasicBlock.unlocated =
      (M.blockAt p).map fun BB => BB.eraseDbgInfo.unlocated := by
  obtain ⟨st, hst⟩ := blockAt_run strip M p
  rw [hst, Module.blockAt]
  cases M.functions[p.fn]? with
  | none => rfl
  | some F =>
    rw [Option.bind_some, Option.bind_some, Option.map_map]
    cases F.blocks[p.idx]? with
    | none => rfl
    | some BB =>
      rw [Option.map_some, Option.map_some, Function.comp_apply]
      split
      · rw [BasicBlock.unlocated_unlocated]
      · rw [unlocated_locate, BasicBlock.unlocated_unlocated]

/-- An instruction has line 0 when the counter of the lines wraps around. -/
theorem zero_mem_locatedLines_run (hsize : 2 ^ 32 ≤ instructionCount M) :
    0 ∈ (run strip M).1.locatedLines := by
  have hwrap : 2 ^ 32 < (1 : InstructionID).toNat + instructionCount M := by
    change 2 ^ 32 < 1 + instructionCount M
    omega
  rw [locatedLines_run_eq]
  exact zero_mem_numbered hwrap

/-- `IRLocator::run` identifies the instructions of the functions with an exact definition, as long
as their number fits the 32 bits of a line, and only then. -/
theorem run_identifies_iff (strip : StripSymbolsPass) (M : Module) :
    Identifies M (run strip M).1 ↔ instructionCount M < 2 ^ 32 := by
  constructor
  · intro h
    by_contra hsize
    have hzero := zero_mem_locatedLines_run strip M (not_lt.mp hsize)
    rw [locatedLines_eq_flatMap] at hzero
    obtain ⟨⟨p, BB⟩, hp, hline⟩ := List.mem_flatMap.mp hzero
    have hBB := (Module.mem_blockPtrs _).mp hp
    have hloc := mem_blockLines.mp hline
    obtain ⟨-, F, -, hF, -⟩ := exists_of_blockAt_run strip M hBB
    cases hexact : F.hasExactDefinition with
    | true =>
      obtain ⟨line, hsome, hne⟩ := h.located p F hF hexact BB hBB _ hloc
      exact hne (Option.some.inj hsome).symm
    | false => exact Option.some_ne_none _ (h.skipped p F hF hexact BB hBB _ hloc)
  · intro hsize
    have hlines := distinctLines_run strip M hsize
    constructor
    · intro p F hF hexact BB hBB loc hloc
      obtain ⟨line, hline, rfl⟩ := line_of_exact strip M hF hexact hBB hloc
      exact ⟨line, rfl, hlines.ne_zero line hline⟩
    · intro p F hF hexact BB hBB loc hloc
      exact no_line_of_not_exact strip M hF hexact hBB hloc
    · exact hlines.nodup
    · intro p BB hBB
      exact isDbgInfo_run strip M hBB
    · exact unlocated_blockAt_run strip M

/-- The strip pass as a function. -/
def stripDebugInfo : StripSymbolsPass where
  run M := { M with
    functions := M.functions.map stripped
    namedMetadata := M.namedMetadata.filterKeys (!isDebugInfoName ·) }
  functions := fun _ => rfl
  stripped := by
    intro M key hkey
    rw [UnorderedMap.lookup_filterKeys, hkey]
    rfl
  kept := by
    intro M key hkey
    rw [UnorderedMap.lookup_filterKeys, hkey]
    rfl
  moduleFlags := fun _ => rfl

/-- An external function with a debug intrinsic, and a weak one. -/
def mixedModule : Module where
  functions := [
    { type := ⟨.void, []⟩
      blocks := [{
        body := [{ op := .other "add" [], result := some 0 }, { op := .dbgInfo }]
        term := { op := .ret none } }] },
    { type := ⟨.void, []⟩, linkage := .weakAny, blocks := [⟨[], { op := .ret none }⟩] }]

theorem run_identifies_mixedModule : Identifies mixedModule (run stripDebugInfo mixedModule).1 :=
  (run_identifies_iff stripDebugInfo mixedModule).mpr (by decide)

/-- The `ret` of the weak function has no line after the run. -/
theorem run_mixedModule_not_located :
    ¬ ∀ p BB, (run stripDebugInfo mixedModule).1.blockAt p = some BB →
      ∀ loc ∈ BB.debugLocs, ∃ line, loc = some line ∧ line ≠ 0 := by
  intro hall
  obtain ⟨st, hst⟩ := blockAt_run stripDebugInfo mixedModule ⟨1, 0⟩
  obtain ⟨line, hline, -⟩ := hall ⟨1, 0⟩ ⟨[], { op := .ret none }⟩ hst none (List.mem_singleton_self _)
  exact Option.some_ne_none line hline.symm

end IRLocator

end Gpscat
