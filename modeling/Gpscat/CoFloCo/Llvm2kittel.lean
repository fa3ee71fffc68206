import Gpscat.CoFloCo.Tick

/-!
# The call of llvm2kittel

`extractCostRelationSystem` writes the module with the calls of `tick` to a file and lets llvm2kittel
read it. The entry function of the analysis is passed by its name.
-/

namespace Gpscat.CoFloCoWrapper

open Cpp LLVM

/-- The options of the command line that are passed on. -/
structure Options where
  numInlines : Nat := 0
  eagerInline : Bool := false
  /-- Entry function for the cost analysis; empty when none is given. -/
  functionName : String := ""
  deriving Repr, DecidableEq

/-- The arguments that `extractKoatCostRelationSystem` builds. -/
def llvm2kittelArgs (opts : Options) (bitcodePath : String) : List String :=
  let args := ["llvm2kittel", bitcodePath, "-complexity-tuples", "-division-constraint", "exact",
    "-increase-strength", "-select-is-control"]
  let args := if opts.numInlines ≠ 0
    then args ++ ["-inline=" ++ toString opts.numInlines, "-inline-voids"] else args
  let args := if opts.eagerInline then args ++ ["-eager-inline"] else args
  if opts.functionName ≠ "" then args ++ ["-function=" ++ opts.functionName] else args

/-- A run of llvm2kittel: where the program has been found, its arguments, and the module in the file
that they name. -/
structure Invocation where
  program : String
  args : List String
  bitcode : Module

/-- `extractKoatCostRelationSystem`: the run of llvm2kittel. The program is looked up first, and
without it the function returns. -/
def extractKoatCostRelationSystem (llvm2kittelPath : Option String) (opts : Options) (M : Module)
    (bitcodePath : String) : Option Invocation :=
  match llvm2kittelPath with
  | none => none
  | some path => some
    { program := path
      args := llvm2kittelArgs opts bitcodePath
      bitcode := M }

/-- What `main` does with the block costs: `cost2tick`, then `extractCostRelationSystem`, up to the run
of llvm2kittel. -/
def annotateAndExtract (U : NameUniquer) (llvm2kittelPath : Option String) (opts : Options)
    (M : Module) (blockCostMap : BlockCostMapType) (bitcodePath : String) :
    Option (Option Invocation) :=
  (cost2tick U M blockCostMap).map fun M =>
    extractKoatCostRelationSystem llvm2kittelPath opts M bitcodePath

/-! ## What is analysed -/

/-- Function `f` with its calls of `tick`. -/
def withTicks (tickFunc : FunctionPtr) (blockCostMap : BlockCostMapType) (f : FunctionPtr)
    (F : Function) : Function :=
  { F with blocks := F.blocks.mapIdx fun b BB => insertTick tickFunc blockCostMap ⟨f, b⟩ BB }

/-- `name` is passed as the entry function, and in the module that is passed it is the name of `f`,
which is the function `F`. -/
structure Invocation.Analyses (inv : Invocation) (name : String) (f : FunctionPtr) (F : Function) :
    Prop where
  passed : inv.args.getLast? = some ("-function=" ++ name)
  resolves : inv.bitcode.getFunction name = some f
  body : inv.bitcode.functions[f]? = some F

end Gpscat.CoFloCoWrapper
