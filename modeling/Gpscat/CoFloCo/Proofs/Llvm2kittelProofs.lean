import Gpscat.CoFloCo.Llvm2kittel
import Gpscat.CoFloCo.Proofs.TickProofs

/-!
# The entry function of the analysis

The option string is built from the name that the user gave, while `cost2tick` may have given that
name to another function.
-/

namespace Gpscat.CoFloCoWrapper

open Cpp LLVM

theorem getLast?_llvm2kittelArgs {opts : Options} (hname : opts.functionName ≠ "")
    (bitcodePath : String) :
    (llvm2kittelArgs opts bitcodePath).getLast? = some ("-function=" ++ opts.functionName) := by
  unfold llvm2kittelArgs
  dsimp only
  rw [if_pos hname, List.getLast?_append, List.getLast?_singleton, Option.some_or]

/-- The functions of the result: those of `M`, with the calls inserted. -/
theorem functions_cost2tick {U : NameUniquer} {M M' : Module} {blockCostMap : BlockCostMapType}
    (h : cost2tick U M blockCostMap = some M') {f : FunctionPtr} {F : Function}
    (hF : M.functions[f]? = some F) :
    M'.functions[f]? = some (withTicks M.functions.length blockCostMap f F) := by
  obtain ⟨M₁, hM₁, rfl⟩ := cost2tick_eq_some h
  have hlt : f < M.functions.length := (List.getElem?_eq_some_iff.mp hF).1
  rw [Module.mapBlocks, List.getElem?_mapIdx, hM₁.functions, List.getElem?_append_left hlt, hF]
  rfl

/-- Llvm2kittel is run if and only if it is found and the assertion of `cost2tick` holds. -/
theorem annotateAndExtract_eq_some_iff {U : NameUniquer} {llvm2kittelPath : Option String}
    {opts : Options} {M : Module} {blockCostMap : BlockCostMapType} {bitcodePath : String}
    {inv : Invocation} :
    annotateAndExtract U llvm2kittelPath opts M blockCostMap bitcodePath = some (some inv) ↔
      ∃ path M', llvm2kittelPath = some path ∧ cost2tick U M blockCostMap = some M' ∧
        inv = { program := path, args := llvm2kittelArgs opts bitcodePath, bitcode := M' } := by
  rw [annotateAndExtract, Option.map_eq_some_iff]
  constructor
  · rintro ⟨M', hM', hinv⟩
    cases llvm2kittelPath with
    | none => exact nomatch hinv
    | some path => exact ⟨path, M', rfl, hM', (Option.some.inj hinv).symm⟩
  · rintro ⟨path, M', rfl, hM', rfl⟩
    exact ⟨M', hM', rfl⟩

/-- The function that the user chose is analysed if and only if its name is not `tick` and no variable
and no alias has that name. -/
theorem analyses_iff (U : NameUniquer) (llvm2kittelPath : String) (opts : Options) (M : Module)
    (blockCostMap : BlockCostMapType) (bitcodePath : String) (f : FunctionPtr) (F : Function)
    (hnames : M.symbols.OneName) (hgiven : opts.functionName ≠ "")
    (hf : M.getFunction opts.functionName = some f) (hF : M.functions[f]? = some F) :
    (∃ inv, annotateAndExtract U (some llvm2kittelPath) opts M blockCostMap bitcodePath =
        some (some inv) ∧
      inv.Analyses opts.functionName f (withTicks M.functions.length blockCostMap f F)) ↔
      opts.functionName ≠ "tick" ∧ ∀ i, M.symbols.lookup "tick" ≠ some (.global i) := by
  constructor
  · rintro ⟨inv, hinv, hanalyses⟩
    obtain ⟨path, M', -, hM', rfl⟩ := annotateAndExtract_eq_some_iff.mp hinv
    refine ⟨fun htick => ?_, cost2tick_isSome_iff.mp (Option.isSome_iff_exists.mpr ⟨M', hM'⟩)⟩
    have hresolves : M'.getFunction opts.functionName = some f := hanalyses.resolves
    rw [htick, getFunction_cost2tick_tick hM'] at hresolves
    have hlt : f < M.functions.length := (List.getElem?_eq_some_iff.mp hF).1
    exact absurd (Option.some.inj hresolves) hlt.ne'
  · rintro ⟨hname, hsym⟩
    obtain ⟨M', hM'⟩ := Option.isSome_iff_exists.mp
      ((@cost2tick_isSome_iff U M blockCostMap).mpr hsym)
    refine ⟨_, annotateAndExtract_eq_some_iff.mpr ⟨llvm2kittelPath, M', rfl, hM', rfl⟩, ?_⟩
    exact ⟨getLast?_llvm2kittelArgs hgiven bitcodePath, getFunction_cost2tick hnames hM' hname hf,
      functions_cost2tick hM' hF⟩

/-- An endless loop. -/
def loopFunction : Function where
  type := tickType
  blocks := [{ body := [], term := { op := .jump [] [0] } }]

/-- A program that consists of the loop, under the given name. -/
def loopProgram (name : String) : Module where
  functions := [loopFunction]
  symbols := (∅ : SymbolTable).insert name (.function 0)

def loopCosts : BlockCostMapType := (∅ : BlockCostMapType).insert ⟨0, 0⟩ 45

theorem analyses_loopProgram :
    (∃ inv, annotateAndExtract paddedUniquer (some "/usr/bin/llvm2kittel")
        { functionName := "main" } (loopProgram "main") loopCosts "tmp.bc" = some (some inv) ∧
      inv.Analyses "main" 0 (withTicks 1 loopCosts 0 loopFunction)) ↔
      "main" ≠ "tick" ∧ ∀ i, (loopProgram "main").symbols.lookup "tick" ≠ some (.global i) :=
  analyses_iff paddedUniquer "/usr/bin/llvm2kittel" { functionName := "main" } (loopProgram "main")
    loopCosts "tmp.bc" 0 loopFunction (by decide) (by decide) (by decide) rfl

/-- With `-function=tick`, the declaration of the new `tick` is analysed. -/
theorem not_analyses_loopProgram :
    (loopProgram "tick").getFunction "tick" = some 0 ∧
    (∃ inv, annotateAndExtract paddedUniquer (some "/usr/bin/llvm2kittel")
      { functionName := "tick" } (loopProgram "tick") loopCosts "tmp.bc" = some (some inv)) ∧
    ¬ ∃ inv, annotateAndExtract paddedUniquer (some "/usr/bin/llvm2kittel")
        { functionName := "tick" } (loopProgram "tick") loopCosts "tmp.bc" = some (some inv) ∧
      inv.Analyses "tick" 0 (withTicks 1 loopCosts 0 loopFunction) := by
  refine ⟨by decide, ⟨_, rfl⟩, ?_⟩
  rintro ⟨inv, hinv, hanalyses⟩
  obtain ⟨path, M', -, hM', rfl⟩ := annotateAndExtract_eq_some_iff.mp hinv
  have hresolves : M'.getFunction "tick" = some 0 := hanalyses.resolves
  rw [getFunction_cost2tick_tick hM'] at hresolves
  exact absurd (Option.some.inj hresolves) (by decide)

end Gpscat.CoFloCoWrapper
