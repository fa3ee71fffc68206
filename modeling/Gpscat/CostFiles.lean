import Gpscat.Cost
import Gpscat.CostModelFile

/-!
# gpscat-cost and its files

`main` reads the module first and the cost model second. What a block costs is said here of the rows of
the cost model and the lines of the assembly, in integers.
-/

namespace Gpscat

open Cpp LLVM MappingExtractor

/-- The cost model that has the rows of a table. -/
def AssemblyCostModel.ofEntries (entries : List (Text × Int)) : AssemblyCostModel :=
  ofRows (entries.map fun e => (e.1, BitVec.ofInt 32 e.2))

namespace Cost

/-- `main`, with the text of the cost model, or none when it cannot be opened. An exception of
csv-parser is not caught. -/
def mainOfFiles (pageSize : Nat) (env : Environment) (flags : Flags) (costModelFilename : Text)
    (costModelFile : Option Text) (module : Option Module) : Except (Csv.Error ⊕ Failure) Text :=
  match module with
  | none => .error (.inr (.exit 1))
  | some module =>
    match AssemblyCostModel.ofFile pageSize costModelFilename costModelFile with
    | .error e => .error (.inl e)
    | .ok costModel => (main env flags costModel (some module)).mapError .inr

/-! ## What it is for -/

/-- The cost of an opcode: that of the last row with it, or 0. -/
def listedCost (entries : List (Text × Int)) (opcode : Text) : Int :=
  (entries.reverse.lookup opcode).getD 0

/-- The cost of a line of the assembly. A `.loc` directive costs nothing, whatever the rows are. -/
def lineCost (entries : List (Text × Int)) (line : Text) : Int :=
  match locLine line with
  | some _ => 0
  | none => ((words line).head?.map (listedCost entries)).getD 0

/-- The cost of the lines of the assembly that the lines of a block govern. -/
def tableCharge (entries : List (Text × Int)) (inputFile : List Text) (located : Module)
    (p : BasicBlockPtr) : Int :=
  match located.blockAt p with
  | some BB => ((List.range inputFile.length).map fun i =>
      if (blockLines BB).contains (governingLine inputFile i) then
        lineCost entries (inputFile.getD i [])
      else 0).sum
  | none => 0

end Cost

end Gpscat
