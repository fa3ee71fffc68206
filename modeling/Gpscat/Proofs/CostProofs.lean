import Gpscat.Cost
import Gpscat.Proofs.LocationProofs
import Gpscat.Proofs.MessagesProofs
import Gpscat.Proofs.RepetitionProofs
import Gpscat.CoFloCo.Proofs.Llvm2kittelProofs
import Gpscat.CoFloCo.Proofs.TickSimulationProofs

/-!
# The annotated module counts the cost of the program

The stages of `main` composed. Locating keeps the runs of the module, the attribution gives every
block of the located module its share of the assembly, and `cost2tick` turns the shares into calls of
`tick`. So the counter of `tick` is the cost of the run of the module that `main` has read.
-/

namespace Gpscat

open Cpp LLVM MappingExtractor CoFloCoWrapper Simulation

/-! ## The located module -/

namespace IRLocator

variable (strip : StripSymbolsPass) (M : Module)

/-- Debugify may add the name of its intrinsic, and changes no other. -/
theorem lookup_symbols_applyDebugifyMetadata (M : Module) {name : String}
    (hname : name ≠ "llvm.dbg.value" ∨ M.symbols.lookup name ≠ none) :
    (Debugify.applyDebugifyMetadata M).1.symbols.lookup name = M.symbols.lookup name := by
  unfold Debugify.applyDebugifyMetadata
  split
  · rfl
  · dsimp only
    split
    · unfold Module.getOrInsertFunction
      split
      · rfl
      · rename_i hfree
        refine AList.lookup_insert_ne ?_
        rintro rfl
        rcases hname with hname | hname
        · exact hname rfl
        · exact hname hfree
    · rfl

theorem lookup_symbols_run (hstrip : (strip.run M).symbols = M.symbols) {name : String}
    (hname : name ≠ "llvm.dbg.value" ∨ M.symbols.lookup name ≠ none) :
    (run strip M).1.symbols.lookup name = M.symbols.lookup name := by
  have hsymbols : (run strip M).1.symbols =
      (Debugify.applyDebugifyMetadata (strip.run M)).1.symbols := rfl
  rw [hsymbols, lookup_symbols_applyDebugifyMetadata, hstrip]
  rwa [hstrip]

theorem length_functions_run : M.functions.length ≤ (run strip M).1.functions.length := by
  obtain ⟨decls, -, hfun⟩ := functions_run strip M
  rw [hfun, List.length_append, List.length_map, MapAccum.length_mapAccum, List.length_map]
  exact Nat.le_add_right _ _

theorem erasesDebugInfo_run : M.ErasesDebugInfo (run strip M).1 := unlocated_blockAt_run strip M

theorem closed_run (hM : M.Closed) : (run strip M).1.Closed :=
  (erasesDebugInfo_run strip M).closed (length_functions_run strip M) hM

end IRLocator

/-! ## Charges -/

namespace Cost

variable {costModel : AssemblyCostModel}

/-- The cost that is due at a configuration, when the map has the charges of the blocks. -/
theorem reachedCost_eq_chargeAt {D : Type} {M : Module} {costs : BlockCostMapType}
    {charge : BasicBlockPtr → Int}
    (hcharge : ∀ p BB, M.blockAt p = some BB → (costs.findD p 0).toInt = charge p) (s : Config D) :
    reachedCost M costs s = M.chargeAt charge s := by
  unfold reachedCost Module.chargeAt
  cases hp : M.reached s with
  | none => rfl
  | some p =>
    obtain ⟨ctrl, conts, d⟩ := s
    cases ctrl with
    | code q k =>
      rw [reached_code, Option.bind_eq_some_iff] at hp
      obtain ⟨BB, hBB, hif⟩ := hp
      split_ifs at hif
      obtain rfl := Option.some.inj hif
      exact hcharge q BB hBB
    | outside => exact nomatch hp
    | returning => exact nomatch hp
    | unwinding => exact nomatch hp

theorem runCost_eq_chargeAlong {D : Type} {M : Module} {costs : BlockCostMapType}
    {charge : BasicBlockPtr → Int}
    (hcharge : ∀ p BB, M.blockAt p = some BB → (costs.findD p 0).toInt = charge p) (s : Config D)
    (r : List (Label × Config D)) : runCost M costs s r = M.chargeAlong charge s r := by
  unfold runCost Module.chargeAlong
  simp only [reachedCost_eq_chargeAt hcharge]

/-- The attribution charges every block of a module with distinct lines its share. -/
theorem create_attributedCost {M : Module} {inputFile : List Text} {m : IRAsmMapType}
    (hM : DistinctLines M) (hext : Extracted M (occurrences costModel inputFile) m)
    (hfit : ∀ x ∈ M.blockPtrs, MachineInt.PartialSumsFit
      (blockCharges costModel (occurrences costModel inputFile) x.2)) :
    ∃ c, IRCostCalculator.create M costModel m = .ok c ∧
      ∀ p BB, M.blockAt p = some BB →
        (c.blockCostMap.findD p 0).toInt = attributedCost costModel inputFile M p := by
  obtain ⟨c, hc, hblock⟩ := create_blockCost hext
  refine ⟨c, hc, fun p BB hBB => ?_⟩
  have hx : (p, BB) ∈ M.blockPtrs := M.mem_blockPtrs.mpr hBB
  have hcost : c.blockCostMap.findD p 0 = c.getBlockCost p := rfl
  rw [hcost, hblock (p, BB) hx, (hfit _ hx).toInt_sum,
    sum_blockCharges_toInt (hM.nodup_blockLines hx), attributedCost, hBB]

/-- Erasing debug info and inserting the calls of `tick`, one after the other. -/
theorem countsCost_of_instrumented {M N M' : Module} {costs : BlockCostMapType}
    {charge : BasicBlockPtr → Int} (herases : M.ErasesDebugInfo N) (hclosed : N.Closed)
    (hinst : Instrumented N M' costs)
    (hcharge : ∀ p BB, N.blockAt p = some BB → (costs.findD p 0).toInt = charge p) :
    CountsCost M N M' charge N.functions.length where
  followed D I hI f d r s hr hend := by
    have hkeeps : KeepsRuns M N I none := herases.keepsRuns hI
    obtain ⟨r', s', hr', -, hs', hcount⟩ :=
      (hinst.simulates hclosed).followed D I f d _ _ (hkeeps.erased f d r s hr)
    refine ⟨r', s', hr', hs', ?_⟩
    have hplaced := Module.placed_start M f d
    have hs := ((forward_erased hI herases).run hplaced hr).2
    have hsame := chargeAlong_seen charge hI herases hplaced hr
    rw [herases.eraseConfig_start, chargeAt_eraseConfig charge herases hs hend, sub_self,
      add_zero] at hsame
    rw [hcount, runCost_eq_chargeAlong hcharge, hsame]
  erased D I hI f d r' s' hr' := by
    have hkeeps : KeepsRuns M N I none := herases.keepsRuns hI
    obtain ⟨hseen, -⟩ := (hinst.simulates hclosed).erased D I f d r' s' hr'
    obtain ⟨r, s, hr, hrseen, hs, hend⟩ := hkeeps.followed f d _ _ hseen
    refine ⟨r, s, hr, hend, hs.symm, ?_⟩
    have hplaced := Module.placed_start M f d
    have hinv := ((forward_erased hI herases).run hplaced hr).2
    have hsame := chargeAlong_seen charge hI herases hplaced hr
    rw [herases.eraseConfig_start, chargeAt_eraseConfig charge herases hinv hend, sub_self,
      add_zero, hrseen] at hsame
    have hstart : M'.start f d = N.start f d := by rw [Module.start, Module.start, hinst.entry]
    rw [hstart] at hr'
    have hdue := tickCounter_seen hclosed hinst (within_start f d) hr'
    rw [reachedCost_eq_chargeAt hcharge, runCost_eq_chargeAlong hcharge] at hdue
    rw [← hdue, hsame]

/-! ## `annotate` -/

section Annotate

variable (env : Environment) (opts : CoFloCoWrapper.Options) (costModel : AssemblyCostModel)
  (module : Module) {llc : Module → List Text}

/-- The attribution of the located module succeeds, and its costs are those of the assembly. -/
theorem attribution_located (hsize : IRLocator.instructionCount module < 2 ^ 32)
    (hdec : LocsDecimal (llc (env.located module))) :
    ∃ m cerr c, extractMapping (llc (env.located module)) costModel (env.located module) =
        .ok (m, cerr) ∧
      IRCostCalculator.create (env.located module) costModel m = .ok c ∧
      Extracted (env.located module) (occurrences costModel (llc (env.located module))) m := by
  have hlines : DistinctLines (env.located module) :=
    IRLocator.distinctLines_run env.strip module hsize
  obtain ⟨m, cerr, hm, hext⟩ := extractMapping_extracted (llc (env.located module)) hdec hlines
  obtain ⟨c, hc, -⟩ := create_blockCost hext
  exact ⟨m, cerr, c, hm, hc, hext⟩

/-- The attribution of any module succeeds, also of one with repeated lines: only known opcodes are
attributed. -/
theorem attribution_succeeds {inputFile : List Text} (hdec : LocsDecimal inputFile) (M : Module) :
    ∃ m cerr c, extractMapping inputFile costModel M = .ok (m, cerr) ∧
      IRCostCalculator.create M costModel m = .ok c := by
  obtain ⟨idMap, hid, hgroups⟩ := @extractIDMapping_groups costModel inputFile hdec
  obtain ⟨⟨m, cerr⟩, hassigned⟩ : ∃ r, assignInOrder M idMap.entries
      (unlocatedMessages (occurrences costModel inputFile)) = r := ⟨_, rfl⟩
  have hm : extractMapping inputFile costModel M = .ok (m, cerr) := by
    rw [← hassigned, extractMapping, hid]
    rfl
  have hknown : ∀ I ∈ M.instructions.map Prod.fst, ∀ a ∈ m.findD I [],
      costModel.hasInst a.getName = true := by
    intro I _ a ha
    rw [UnorderedMap.findD] at ha
    cases hI : m.lookup I with
    | none =>
      rw [hI] at ha
      exact absurd ha List.not_mem_nil
    | some asms =>
      obtain ⟨-, line, -, rfl⟩ := sound_assignInOrder (M := M) hgroups (List.Perm.refl _)
        (unlocatedMessages (occurrences costModel inputFile)) (by rw [hassigned]; exact hI)
      rw [hI] at ha
      obtain ⟨o, ho, rfl⟩ := List.mem_map.mp ha
      exact hasInst_of_mem_occurrences (List.mem_of_mem_filter ho)
  obtain ⟨c, hvisit⟩ := IRCostCalculator.visit_of_known (M.instructions.map Prod.fst)
    { costModel := costModel, IRAsmMap := m } hknown
  exact ⟨m, cerr, c, hm, by rw [IRCostCalculator.create, hvisit]⟩

/-- The locator fails its assertion on a module that has been through Debugify before. -/
theorem annotate_of_operands (hops : IRLocator.debugifyOperands module ≠ []) :
    annotate env opts costModel module = .error .aborted := by
  have hasserts : ¬ IRLocator.Completes env.strip module := fun h =>
    hops ((IRLocator.completes_iff env.strip module).mp h)
  unfold IRLocator.Completes at hasserts
  unfold annotate
  dsimp only
  rw [if_neg hasserts]

theorem annotate_of_llc_none (hops : IRLocator.debugifyOperands module = [])
    (hllc : env.llc = none) : annotate env opts costModel module = .error (.exit 3) := by
  have hasserts : IRLocator.Completes env.strip module :=
    (IRLocator.completes_iff env.strip module).mpr hops
  unfold IRLocator.Completes at hasserts
  unfold annotate
  dsimp only
  rw [if_pos hasserts, hllc]

/-- What is left once the attribution has succeeded. -/
theorem annotate_eq (hops : IRLocator.debugifyOperands module = []) (hllc : env.llc = some llc)
    {m : IRAsmMapType} {cerr : List Diagnostic} {c : IRCostCalculator}
    (hm : extractMapping (llc (env.located module)) costModel (env.located module) =
      .ok (m, cerr))
    (hc : IRCostCalculator.create (env.located module) costModel m = .ok c) :
    annotate env opts costModel module =
      orAbort (annotateAndExtract env.uniquer env.llvm2kittelPath opts (env.located module)
        c.blockCostMap env.bitcodePath) := by
  have hasserts : IRLocator.Completes env.strip module :=
    (IRLocator.completes_iff env.strip module).mpr hops
  unfold IRLocator.Completes at hasserts
  have hmapping : orThrow (extractMapping (llc (IRLocator.run env.strip module).1) costModel
      (IRLocator.run env.strip module).1) = .ok (m, cerr) := congrArg orThrow hm
  have hcalculator : orThrow (IRCostCalculator.create (IRLocator.run env.strip module).1 costModel m) =
      .ok c := congrArg orThrow hc
  unfold annotate
  dsimp only
  rw [if_pos hasserts, hllc]
  dsimp only
  rw [hmapping]
  show (do
    let irCostCalculator ←
      orThrow (IRCostCalculator.create (IRLocator.run env.strip module).1 costModel m)
    orAbort (annotateAndExtract env.uniquer env.llvm2kittelPath opts (env.located module)
      irCostCalculator.blockCostMap env.bitcodePath)) = _
  rw [hcalculator]
  rfl

theorem lookup_tick_located (i : Nat) :
    (env.located module).symbols.lookup "tick" = some (.global i) ↔
      module.symbols.lookup "tick" = some (.global i) := by
  have hne : "tick" ≠ "llvm.dbg.value" := by decide
  rw [Environment.located,
    IRLocator.lookup_symbols_run env.strip module (env.strip_symbols module) (.inl hne)]

/-- With a name for the dummy, `annotate` ends with the run of llvm2kittel, if the program is found, and
without one an assertion fails. -/
theorem annotate_of_found (hops : IRLocator.debugifyOperands module = []) (hllc : env.llc = some llc)
    (hdec : LocsDecimal (llc (env.located module))) :
    (∃ costs M', cost2tick env.uniquer (env.located module) costs = some M' ∧
        (∀ i, module.symbols.lookup "tick" ≠ some (.global i)) ∧
        annotate env opts costModel module =
          .ok (extractKoatCostRelationSystem env.llvm2kittelPath opts M' env.bitcodePath)) ∨
      (∃ i, module.symbols.lookup "tick" = some (.global i)) ∧
        annotate env opts costModel module = .error .aborted := by
  obtain ⟨m, cerr, c, hm, hc⟩ := @attribution_succeeds costModel _ hdec (env.located module)
  rw [annotate_eq env opts costModel module hops hllc hm hc, annotateAndExtract]
  have hsome := @cost2tick_isSome_iff env.uniquer (env.located module) c.blockCostMap
  simp only [ne_eq, lookup_tick_located] at hsome
  cases hM' : cost2tick env.uniquer (env.located module) c.blockCostMap with
  | some M' =>
    rw [hM'] at hsome
    exact .inl ⟨_, M', hM', hsome.mp rfl, rfl⟩
  | none =>
    rw [hM'] at hsome
    refine .inr ⟨?_, rfl⟩
    by_contra hnone
    exact Bool.false_ne_true (hsome.mpr fun i hi => hnone ⟨i, hi⟩)

/-- With the programs, and unless an assertion fails, llvm2kittel is run. -/
theorem exists_annotate (hops : IRLocator.debugifyOperands module = []) (hllc : env.llc = some llc)
    (hdec : LocsDecimal (llc (env.located module)))
    (htick : ∀ i, module.symbols.lookup "tick" ≠ some (.global i)) {path : String}
    (hpath : env.llvm2kittelPath = some path) :
    ∃ inv, annotate env opts costModel module = .ok (some inv) := by
  rcases annotate_of_found env opts costModel module hops hllc hdec with
    ⟨costs, M', -, -, heq⟩ | ⟨⟨i, hi⟩, -⟩
  · rw [hpath] at heq
    exact ⟨_, heq⟩
  · exact absurd hi (htick i)

/-- What `annotate` has done when it succeeds. -/
theorem annotated_of_ok (hllc : env.llc = some llc)
    (hsize : IRLocator.instructionCount module < 2 ^ 32)
    (hdec : LocsDecimal (llc (env.located module)))
    (hfit : ∀ x ∈ (env.located module).blockPtrs, MachineInt.PartialSumsFit
      (blockCharges costModel (occurrences costModel (llc (env.located module))) x.2))
    {inv : Invocation} (h : annotate env opts costModel module = .ok (some inv)) :
    ∃ costs, cost2tick env.uniquer (env.located module) costs = some inv.bitcode ∧
      ∀ p BB, (env.located module).blockAt p = some BB → (costs.findD p 0).toInt =
        attributedCost costModel (llc (env.located module)) (env.located module) p := by
  have hops : IRLocator.debugifyOperands module = [] := by
    by_contra hops
    rw [annotate_of_operands env opts costModel module hops] at h
    cases h
  obtain ⟨m, cerr, c, hm, hc, hext⟩ := attribution_located env costModel module hsize hdec
  obtain ⟨c', hc', hcharge⟩ := create_attributedCost
    (IRLocator.distinctLines_run env.strip module hsize) hext hfit
  obtain rfl : c = c' := Except.ok.inj (hc.symm.trans hc')
  rw [annotate_eq env opts costModel module hops hllc hm hc] at h
  unfold orAbort at h
  split at h
  · rename_i inv' hinv
    obtain rfl := Except.ok.inj h
    obtain ⟨path, M', -, hM', rfl⟩ := annotateAndExtract_eq_some_iff.mp hinv
    exact ⟨c.blockCostMap, hM', hcharge⟩
  · exact nomatch h

/-- The annotated module counts the attributed costs. -/
theorem countsCost_of_cost2tick (hclosed : module.Closed) {costs : BlockCostMapType} {M' : Module}
    (hM' : cost2tick env.uniquer (env.located module) costs = some M') {charge : BasicBlockPtr → Int}
    (hcharge : ∀ p BB, (env.located module).blockAt p = some BB →
      (costs.findD p 0).toInt = charge p) :
    CountsCost module (env.located module) M' charge (env.located module).functions.length :=
  countsCost_of_instrumented (IRLocator.erasesDebugInfo_run env.strip module)
    (IRLocator.closed_run env.strip module hclosed) (blockAt_cost2tick hM') hcharge

/-- The chosen function keeps its name. -/
theorem getFunction_annotated (hnames : (env.located module).symbols.OneName)
    {costs : BlockCostMapType} {M' : Module}
    (hM' : cost2tick env.uniquer (env.located module) costs = some M') {name : String}
    {f : FunctionPtr} (hname : name ≠ "tick") (hf : module.getFunction name = some f) :
    M'.getFunction name = some f := by
  refine getFunction_cost2tick hnames hM' hname ?_
  rw [Module.getFunction_eq_some] at hf ⊢
  rw [Environment.located, IRLocator.lookup_symbols_run env.strip module
    (env.strip_symbols module) (.inr (by rw [hf]; exact Option.some_ne_none _)), hf]

/-- How `main` gets along up to llvm2kittel. An assertion fails when the module has been through
Debugify before, or when `llc` has been found and a variable or an alias has the name `tick`; without
`llc` it gives up; without llvm2kittel it goes on; and otherwise llvm2kittel is run. -/
theorem annotate_outcomes
    (hdec : ∀ llc, env.llc = some llc → LocsDecimal (llc (env.located module))) :
    (annotate env opts costModel module = .error .aborted ↔
      IRLocator.debugifyOperands module ≠ [] ∨
        env.llc.isSome = true ∧ ∃ i, module.symbols.lookup "tick" = some (.global i)) ∧
    (annotate env opts costModel module = .error (.exit 3) ↔
      IRLocator.debugifyOperands module = [] ∧ env.llc = none) ∧
    (annotate env opts costModel module = .ok none ↔
      IRLocator.debugifyOperands module = [] ∧ env.llc.isSome = true ∧
        (∀ i, module.symbols.lookup "tick" ≠ some (.global i)) ∧ env.llvm2kittelPath = none) ∧
    ((∃ inv, annotate env opts costModel module = .ok (some inv)) ↔
      IRLocator.debugifyOperands module = [] ∧ env.llc.isSome = true ∧
        (∀ i, module.symbols.lookup "tick" ≠ some (.global i)) ∧
        env.llvm2kittelPath.isSome = true) := by
  by_cases hops : IRLocator.debugifyOperands module = []
  · cases hllc : env.llc with
    | none =>
      have heq := annotate_of_llc_none env opts costModel module hops hllc
      simp [heq, hops]
    | some llc =>
      rcases annotate_of_found env opts costModel module hops hllc (hdec llc hllc) with
        ⟨costs, M', -, htick, heq⟩ | ⟨⟨i, hi⟩, heq⟩
      · cases hpath : env.llvm2kittelPath with
        | none =>
          rw [hpath] at heq
          simp [heq, hops, htick, extractKoatCostRelationSystem]
        | some path =>
          rw [hpath] at heq
          simp [heq, hops, htick, extractKoatCostRelationSystem]
      · simp [heq, hops, hi]
  · have heq := annotate_of_operands env opts costModel module hops
    simp [heq, hops]

/-- The module that llvm2kittel reads counts, on `tick`, the cost of the assembly that is attributed
to the blocks which a run of the program executes. The function that the user has chosen has its name
in it. -/
theorem annotate_countsCost (hllc : env.llc = some llc) (hclosed : module.Closed)
    (hsize : IRLocator.instructionCount module < 2 ^ 32)
    (hdec : LocsDecimal (llc (env.located module)))
    (hfit : ∀ x ∈ (env.located module).blockPtrs, MachineInt.PartialSumsFit
      (blockCharges costModel (occurrences costModel (llc (env.located module))) x.2))
    (hnames : (env.located module).symbols.OneName)
    (inv : Invocation) (h : annotate env opts costModel module = .ok (some inv)) :
    inv.bitcode.getFunction "tick" = some (env.located module).functions.length ∧
      (∀ f, opts.functionName ≠ "tick" → module.getFunction opts.functionName = some f →
        inv.bitcode.getFunction opts.functionName = some f) ∧
      CountsCost module (env.located module) inv.bitcode
        (attributedCost costModel (llc (env.located module)) (env.located module))
        (env.located module).functions.length := by
  obtain ⟨costs, hM', hcharge⟩ :=
    annotated_of_ok env opts costModel module hllc hsize hdec hfit h
  exact ⟨getFunction_cost2tick_tick hM',
    fun f hname hf => getFunction_annotated env module hnames hM' hname hf,
    countsCost_of_cost2tick env module hclosed hM' hcharge⟩

end Annotate

/-! ## A sample -/

/-- An addition and a debug intrinsic. -/
def sampleBlock : BasicBlock where
  body := [{ op := .other "add" [], result := some 0 }, { op := .dbgInfo }]
  term := { op := .ret (some (.inst 0)) }

def sampleProgram : Module where
  functions := [{ type := ⟨.int 32, []⟩, blocks := [sampleBlock] }]
  symbols := (∅ : SymbolTable).insert "f" (.function 0)

def sampleBound : Bound.Exp := .natOf (.int 135)

def sampleCostReport : Report where
  leads := ["Computed strongly connected components".toList]
  head := "f()".toList
  bound := sampleBound.print
  trail := []
  leads_lines := by decide
  leads_other := by decide
  head_colon := by decide
  head_line := by decide
  bound_line := by decide

/-- Every module is compiled to the sample assembly, and the sample report is the answer to every
question. -/
def sampleEnvironment : Environment where
  strip := IRLocator.stripDebugInfo
  strip_symbols _ := rfl
  uniquer := paddedUniquer
  llc := some fun _ => sampleAsm
  bitcodePath := "tmp.bc"
  llvm2kittelPath := some "/usr/bin/llvm2kittel"
  llvm2kittel _ := []
  koat2cfg := some id
  cfg2ces := some id
  cofloco := some fun _ => sampleCostReport.text
  symengine := .ok

theorem sampleEnvironment_fits : ∀ x ∈ (sampleEnvironment.located sampleProgram).blockPtrs,
    MachineInt.PartialSumsFit (blockCharges sampleCosts (occurrences sampleCosts sampleAsm) x.2) := by
  decide +kernel

theorem annotate_outcomes_sampleProgram :
    (annotate sampleEnvironment {} sampleCosts sampleProgram = .error .aborted ↔
      IRLocator.debugifyOperands sampleProgram ≠ [] ∨
        true = true ∧ ∃ i, sampleProgram.symbols.lookup "tick" = some (.global i)) ∧
    (annotate sampleEnvironment {} sampleCosts sampleProgram = .error (.exit 3) ↔
      IRLocator.debugifyOperands sampleProgram = [] ∧ sampleEnvironment.llc = none) ∧
    (annotate sampleEnvironment {} sampleCosts sampleProgram = .ok none ↔
      IRLocator.debugifyOperands sampleProgram = [] ∧ true = true ∧
        (∀ i, sampleProgram.symbols.lookup "tick" ≠ some (.global i)) ∧
        sampleEnvironment.llvm2kittelPath = none) ∧
    ((∃ inv, annotate sampleEnvironment {} sampleCosts sampleProgram = .ok (some inv)) ↔
      IRLocator.debugifyOperands sampleProgram = [] ∧ true = true ∧
        (∀ i, sampleProgram.symbols.lookup "tick" ≠ some (.global i)) ∧ true = true) := by
  refine annotate_outcomes sampleEnvironment {} sampleCosts sampleProgram fun llc hllc => ?_
  obtain rfl := Option.some.inj hllc
  exact (by decide +kernel : LocsDecimal sampleAsm)

theorem annotate_countsCost_sampleProgram :
    ∃ inv, annotate sampleEnvironment { functionName := "f" } sampleCosts sampleProgram =
        .ok (some inv) ∧
      inv.bitcode.getFunction "tick" =
        some (sampleEnvironment.located sampleProgram).functions.length ∧
      (∀ f, "f" ≠ "tick" → sampleProgram.getFunction "f" = some f →
        inv.bitcode.getFunction "f" = some f) ∧
      CountsCost sampleProgram (sampleEnvironment.located sampleProgram) inv.bitcode
        (attributedCost sampleCosts sampleAsm (sampleEnvironment.located sampleProgram))
        (sampleEnvironment.located sampleProgram).functions.length := by
  obtain ⟨inv, hinv⟩ := exists_annotate sampleEnvironment { functionName := "f" } sampleCosts
    sampleProgram (by decide) rfl (by decide +kernel) (fun i h => nomatch h) rfl
  exact ⟨inv, hinv, annotate_countsCost sampleEnvironment { functionName := "f" } sampleCosts
    sampleProgram rfl (by decide) (by decide) (by decide +kernel) sampleEnvironment_fits
    (by decide +kernel) inv hinv⟩

end Cost

end Gpscat
