import Gpscat.Attribution

/-!
# The grouping of the assembly lines

What the first `extractMapping` returns, said of the lines of the file: under each id stand the first
tokens of the lines that it governs, as far as the cost model knows them.
-/

namespace Gpscat

open Cpp MappingExtractor

/-- The first token of a line, when the cost model knows it. -/
def knownToken (costModel : AssemblyCostModel) (line : Text) : Option AssemblyInstruction :=
  ((words line).head?.filter costModel.hasInst).map AssemblyInstruction.mk

/-- The known first tokens of the lines that `id` governs, in file order. -/
def groupedUnder (costModel : AssemblyCostModel) (inputFile : List Text) (id : InstructionID) :
    List AssemblyInstruction :=
  (List.range inputFile.length).filterMap fun i =>
    if governingLine inputFile i = id then inputFile[i]?.bind (knownToken costModel) else none

/-- The file starts with a `.loc` directive that has at least three tokens. -/
def StartsWithLoc : List Text → Prop
  | line :: _ => (locLine line).isSome
  | [] => False

/-- The map has the group of each id, and no entry for an id whose group is empty. -/
def GroupsExactly (costModel : AssemblyCostModel) (inputFile : List Text) (m : IRIDAsmMapType) :
    Prop :=
  ∀ id, m.lookup id = if groupedUnder costModel inputFile id = [] then none
    else some (groupedUnder costModel inputFile id)

end Gpscat
