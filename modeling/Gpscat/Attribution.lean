import Gpscat.IRCostCalculator
import Gpscat.Lib.MachineInt

/-!
# What the attribution is for

The assembly file as a list of occurrences: each line whose first token is a known opcode, together
with the line of the last `.loc` directive before it. This is the closed form against which the
loops of `MappingExtractor` and `IRCostCalculator` are compared; nothing here keeps a register or a
map.
-/

namespace Gpscat

open Cpp LLVM MappingExtractor

/-- The line named by a `.loc` directive with at least three tokens. -/
def locLine (line : Text) : Option InstructionID :=
  (locLineno (words line)).map fun lineno => BitVec.ofNat 32 (Nat.ofDigitChars 10 lineno 0)

/-- The first token of a line when it is a known opcode. A `.loc` directive with at least three
tokens is no opcode line, whatever the cost model knows. -/
def opcodeOf (costModel : AssemblyCostModel) (line : Text) : Option Text :=
  match locLine line with
  | some _ => none
  | none => (words line).head?.filter costModel.hasInst

/-- The line that governs line `i` of the file: the one named by the last `.loc` directive before
it, or 0. -/
def governingLine (inputFile : List Text) (i : Nat) : InstructionID :=
  ((inputFile.take i).filterMap locLine).getLast?.getD 0

/-- A known opcode of the file. -/
structure Occurrence where
  /-- The number of the line in the file, from 1. -/
  lineNum : Nat
  /-- The line that governs it. -/
  governing : InstructionID
  opcode : Text
  deriving Repr, DecidableEq

/-- The occurrences of known opcodes, in file order. -/
def occurrences (costModel : AssemblyCostModel) (inputFile : List Text) : List Occurrence :=
  (List.range inputFile.length).filterMap fun i =>
    (inputFile[i]?.bind (opcodeOf costModel)).map fun opcode =>
      ⟨i + 1, governingLine inputFile i, opcode⟩

/-- The cost of an occurrence. -/
def Occurrence.cost (costModel : AssemblyCostModel) (o : Occurrence) : CostTy :=
  costModel.costOf o.opcode

/-- The opcodes governed by a line, in file order. -/
def opcodesUnder (occs : List Occurrence) (line : InstructionID) : List AssemblyInstruction :=
  (occs.filter (·.governing = line)).map fun o => ⟨o.opcode⟩

/-- Every `.loc` directive of the file with at least three tokens carries a decimal line number
below `2 ^ 32`. -/
def LocsDecimal (inputFile : List Text) : Prop :=
  ∀ line ∈ inputFile, ∀ lineno ∈ locLineno (words line),
    lineno ≠ [] ∧ lineno.all Char.isDigit ∧ Nat.ofDigitChars 10 lineno 0 < 2 ^ 32

instance (inputFile : List Text) : Decidable (LocsDecimal inputFile) :=
  inferInstanceAs (Decidable (∀ line ∈ inputFile, ∀ lineno ∈ locLineno (words line),
    lineno ≠ [] ∧ lineno.all Char.isDigit ∧ Nat.ofDigitChars 10 lineno 0 < 2 ^ 32))

/-- The located instructions of the module carry pairwise distinct lines, none of which is 0. -/
structure DistinctLines (M : Module) : Prop where
  nodup : M.locatedLines.Nodup
  ne_zero : ∀ line ∈ M.locatedLines, line ≠ 0

/-- The lines of the located instructions of a block. -/
def blockLines (BB : BasicBlock) : List InstructionID := BB.debugLocs.filterMap id

/-- The costs of the occurrences that the lines of a block govern, in the order in which the
instructions of the block are visited. -/
def blockCharges (costModel : AssemblyCostModel) (occs : List Occurrence) (BB : BasicBlock) :
    List CostTy :=
  (blockLines BB).flatMap fun line =>
    (occs.filter (·.governing = line)).map (Occurrence.cost costModel)

/-- The exact sum of the costs of the occurrences that satisfy `p`. -/
def totalCost (costModel : AssemblyCostModel) (occs : List Occurrence) (p : Occurrence → Bool) :
    Int :=
  ((occs.filter p).map fun o => (o.cost costModel).toInt).sum

end Gpscat
