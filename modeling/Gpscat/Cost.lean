import Gpscat.Attribution
import Gpscat.IRLocator
import Gpscat.LLVM.DebugErasure
import Gpscat.CoFloCo.BoundLanguage
import Gpscat.CoFloCo.Llvm2kittel
import Gpscat.CoFloCo.NatRemoval
import Gpscat.CoFloCo.Output

/-!
# gpscat-cost

`main` locates the instructions of the module, lets `llc` compile it, attributes the costs of the
assembly to the blocks, turns them into calls of `tick`, and lets llvm2kittel and CoFloCo bound the
calls. What it prints besides the bound, at a verbosity above 0, is not modelled.
-/

namespace Gpscat.Cost

open Cpp LLVM MappingExtractor CoFloCoWrapper

/-- The programs that `main` starts and the libraries it calls. -/
structure Environment where
  strip : StripSymbolsPass
  /-- Only the debug info is stripped: the names of the globals stay. -/
  strip_symbols : ∀ M, (strip.run M).symbols = M.symbols
  uniquer : NameUniquer
  /-- The lines of the assembly that `llc` makes of a module, when the program is found. -/
  llc : Option (Module → List Text)
  /-- The file that llvm2kittel is told to read. -/
  bitcodePath : String
  /-- Where llvm2kittel is, when the program is found. -/
  llvm2kittelPath : Option String
  /-- The output of llvm2kittel. -/
  llvm2kittel : Invocation → Text
  /-- What the two scripts make of a file, when they are found. -/
  koat2cfg : Option (Text → Text)
  cfg2ces : Option (Text → Text)
  /-- The output of CoFloCo for a file, when the program is found. -/
  cofloco : Option (Text → Text)
  /-- `expand(SymEngine::Expression(s)).get_basic()->__str__()`. -/
  symengine : Text → Except Exception Text

/-- The options of the command line. -/
structure Flags extends CoFloCoWrapper.Options where
  removeNat : Bool := false
  replaceNat : Bool := false
  symengineFormat : Bool := false

/-- How `main` can end without a bound. -/
inductive Failure where
  /-- `return code`. -/
  | exit (code : Nat)
  | threw (e : Exception)
  /-- An assertion failed. -/
  | aborted
  deriving Repr, DecidableEq

/-- The outcome of a call that may throw. -/
def orThrow {α : Type} : Except Exception α → Except Failure α
  | .ok x => .ok x
  | .error e => .error (.threw e)

/-- The outcome of a call with an assertion. -/
def orAbort {α : Type} : Option α → Except Failure α
  | some x => .ok x
  | none => .error .aborted

/-- `main` up to the run of llvm2kittel, which there is none of when the program is not found. -/
def annotate (env : Environment) (opts : CoFloCoWrapper.Options) (costModel : AssemblyCostModel)
    (module : Module) : Except Failure (Option Invocation) :=
  let (module, asserts) := IRLocator.run env.strip module
  if asserts then
    match env.llc with
    | none => .error (.exit 3)
    | some llc => do
      let (IRAsmMap, _) ← orThrow (extractMapping (llc module) costModel module)
      let irCostCalculator ← orThrow (IRCostCalculator.create module costModel IRAsmMap)
      orAbort (annotateAndExtract env.uniquer env.llvm2kittelPath opts module
        irCostCalculator.blockCostMap env.bitcodePath)
  else .error .aborted

/-- `convertToCoFloCoFormat`. The file for the result is empty until the second script writes it. -/
def convertToCoFloCoFormat (env : Environment) (koatCRS : Text) : Text :=
  match env.koat2cfg with
  | none => []
  | some koat2cfg =>
    match env.cfg2ces with
    | none => []
    | some cfg2ces => cfg2ces (koat2cfg koatCRS)

/-- `extractCostRelationSystem`, from the run of llvm2kittel on: the file for CoFloCo. The file between
them is empty when there is no such run. -/
def extractCostRelationSystem (env : Environment) (inv : Option Invocation) : Text :=
  convertToCoFloCoFormat env ((inv.map env.llvm2kittel).getD [])

/-- `readCRSAndSolveUpperBound`: the empty string when CoFloCo is not found. -/
def readCRSAndSolveUpperBound (env : Environment) (crs : Text) : Except Failure Text :=
  match env.cofloco with
  | none => .ok []
  | some cofloco => orThrow (parseCoFloCoOutput (cofloco crs))

/-- What the options make of the bound. -/
def rewriteBound (env : Environment) (flags : Flags) (costUpperBound : Text) :
    Except Failure Text := do
  let costUpperBound ←
    if flags.removeNat then orThrow (removeNat costUpperBound) else .ok costUpperBound
  let costUpperBound ←
    if flags.replaceNat then orAbort (replaceNatWithMax costUpperBound) else .ok costUpperBound
  if flags.symengineFormat then orThrow (env.symengine costUpperBound) else .ok costUpperBound

/-- `main`, from the module that is read, if any, to the bound that is printed. -/
def main (env : Environment) (flags : Flags) (costModel : AssemblyCostModel)
    (module : Option Module) : Except Failure Text :=
  match module with
  | none => .error (.exit 1)
  | some module => do
    let inv ← annotate env flags.toOptions costModel module
    let costUpperBound ← readCRSAndSolveUpperBound env (extractCostRelationSystem env inv)
    rewriteBound env flags costUpperBound

/-! ## What it is for -/

/-- The module that `llc` compiles. -/
def Environment.located (env : Environment) (module : Module) : Module :=
  (IRLocator.run env.strip module).1

/-- The cost of the assembly that is attributed to a block of the located module. -/
def attributedCost (costModel : AssemblyCostModel) (inputFile : List Text) (located : Module)
    (p : BasicBlockPtr) : Int :=
  match located.blockAt p with
  | some BB => totalCost costModel (occurrences costModel inputFile) fun o =>
      o.governing ∈ blockLines BB
  | none => 0

/-- A run of the annotated module `M'` counts on `tick` what the executions of the blocks of `M` cost:
every run of `M` that does not stop at a debug intrinsic has a run of `M'` with its cost, and every
run of `M'` comes from a run of `M`, where the counter lags behind by the block that control is about
to leave. The two runs end at the same place, of the located module `located`, with the same data. -/
structure CountsCost (M located M' : Module) (charge : BasicBlockPtr → Int) (tick : FunctionPtr) :
    Prop where
  followed : ∀ (D : Type) (I : Interp D located.functions.length), I.IgnoresDebugInfo →
    ∀ (f : FunctionPtr) (d : D) (r : List (Option Label × Config D)) (s : Config D),
      Simulation.Run (MarkedStep M I none) (M.start f d) r s → M.atDbgInfo s = false →
      ∃ r' s', Simulation.Run (Step M' I (some tick)) (M'.start f d) r' s' ∧
        eraseTicks located s' = M.eraseConfig s ∧
        tickCounter r' = M.chargeAlong charge (M.start f d) r
  erased : ∀ (D : Type) (I : Interp D located.functions.length), I.IgnoresDebugInfo →
    ∀ (f : FunctionPtr) (d : D) (r' : List (Label × Config D)) (s' : Config D),
      Simulation.Run (Step M' I (some tick)) (M'.start f d) r' s' →
      ∃ r s, Simulation.Run (MarkedStep M I none) (M.start f d) r s ∧ M.atDbgInfo s = false ∧
        eraseTicks located s' = M.eraseConfig s ∧
        tickCounter r' + located.chargeAt charge s' = M.chargeAlong charge (M.start f d) r

/-- What the options `-remove-nat` and `-replace-nat` make of a bound. -/
def Flags.rewrite (flags : Flags) (e : Bound.Exp) : Bound.Exp :=
  let e := if flags.removeNat then e.natToParen else e
  if flags.replaceNat then e.natToMax else e

/-- In every run of the module from `f`, at most the value of `e` is counted on `tick`. The
parameters of `f` have the values `params d` when the run starts with the data `d`. -/
def BoundsCounter {D : Type} {n : Nat} (M : Module) (I : Interp D n) (tick f : FunctionPtr)
    (params : D → Bound.Ident → Int) (e : Bound.Exp) : Prop :=
  ∀ (d : D) (r : List (Label × Config D)) (s : Config D),
    Simulation.Run (Step M I (some tick)) (M.start f d) r s →
      ∃ q, e.eval (params d) = some q ∧ (tickCounter r : ℚ) ≤ q

end Gpscat.Cost
