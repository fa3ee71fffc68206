import Gpscat.AssemblyCostModel
import Gpscat.LLVM.IR

/-!
# From assembly lines to instructions

`MappingExtractor` reads the assembly that `llc` made of the located module. The first
`extractMapping` groups the known opcodes of the file under the line of the last `.loc` directive;
the second one replaces a line by the instruction that carries it as its debug line.

An input file is the list of lines that `std::getline` reads from it. What the code prints on
`std::cerr` is kept as a list of `Diagnostic`s.
-/

namespace Gpscat

open Cpp LLVM

/-- An assembly instruction, known by its opcode name. -/
structure AssemblyInstruction where
  opcodeName : Text
  deriving Repr, DecidableEq

/-- `getName`. -/
def AssemblyInstruction.getName (a : AssemblyInstruction) : Text := a.opcodeName

/-- `using InstructionID = std::uint32_t`. -/
abbrev InstructionID := BitVec 32

abbrev IRIDAsmMapType := UnorderedMap InstructionID (List AssemblyInstruction)

abbrev InstIDPtrMapType := UnorderedMap InstructionID InstructionPtr

abbrev IRAsmMapType := UnorderedMap InstructionPtr (List AssemblyInstruction)

namespace MappingExtractor

/-- The messages on `std::cerr`. -/
inductive Diagnostic where
  /-- An opcode under line 0, with the number of its line in the file. -/
  | noCorrespondingInst (lineNum : Nat) (opcodeName : Text)
  /-- A line that no instruction carries. -/
  | cannotFindID (id : InstructionID)
  deriving Repr, DecidableEq

/-- The text of a message, without the line end. -/
def Diagnostic.render : Diagnostic → Text
  | .noCorrespondingInst lineNum opcodeName =>
    "No corresponding LLVM IR instruction for Assembly instruction: ".toList ++
      Nat.toDigits 10 lineNum ++ ['\t'] ++ opcodeName
  | .cannotFindID id =>
    "Cannot find corresponding instruction ID : ".toList ++ Nat.toDigits 10 id.toNat

/-! ## The scan of the file -/

/-- The line number argument of a `.loc` directive: `tokens[2]` when `tokens[0] == ".loc"` and
`tokens.size() >= 3`. -/
def locLineno : List Text → Option Text
  | token :: tokens => if token = ".loc".toList then tokens[1]? else none
  | [] => none

/-- The variables of the scan. -/
structure ScanState where
  IRIDAsmMap : IRIDAsmMapType := ∅
  currentLocLineno : InstructionID := 0
  lineNum : Nat := 0
  cerr : List Diagnostic := []

/-- One iteration of the loop over the lines of the file. -/
def scanLine (costModel : AssemblyCostModel) (st : ScanState) (line : Text) :
    Except Exception ScanState :=
  let st := { st with lineNum := st.lineNum + 1 }
  match words line with
  | [] => .ok st
  | token :: tokens =>
    match locLineno (token :: tokens) with
    | some lineno => do
      -- `std::stoul` yields 64 bits, of which the assignment keeps 32.
      let n ← stoul lineno
      .ok { st with currentLocLineno := BitVec.ofNat 32 n }
    | none =>
      if costModel.hasInst token then
        .ok { st with
          IRIDAsmMap := st.IRIDAsmMap.modify st.currentLocLineno [] (· ++ [⟨token⟩])
          cerr := if st.currentLocLineno = 0
            then st.cerr ++ [.noCorrespondingInst st.lineNum token] else st.cerr }
      else .ok st

/-- The loop over the lines of the file. -/
def scan (costModel : AssemblyCostModel) (inputFile : List Text) (st : ScanState) :
    Except Exception ScanState :=
  inputFile.foldlM (scanLine costModel) st

/-- `extractMapping(path, costModel)`. -/
def extractIDMapping (inputFile : List Text) (costModel : AssemblyCostModel) :
    Except Exception (IRIDAsmMapType × List Diagnostic) := do
  let st ← scan costModel inputFile {}
  .ok (st.IRIDAsmMap, st.cerr)

/-! ## From lines to instructions -/

/-- The loop that builds `instIDPtrMap`. An instruction without a debug location is left out; of
two instructions with one line the later one stays. -/
def instIDPtrMap (M : Module) : InstIDPtrMapType :=
  M.instructions.foldl (fun m I =>
    match I.2 with
    | some line => m.insert line I.1
    | none => m) ∅

/-- One iteration of the loop over `IRIDAsmMap`. -/
def assignAsms (ids : InstIDPtrMapType) (acc : IRAsmMapType × List Diagnostic)
    (entry : (_ : InstructionID) × List AssemblyInstruction) : IRAsmMapType × List Diagnostic :=
  match ids.lookup entry.1 with
  | some I => (acc.1.insert I entry.2, acc.2)
  | none => if entry.1 ≠ 0 then (acc.1, acc.2 ++ [.cannotFindID entry.1]) else acc

/-- `extractMapping(path, costModel, M)`: the map, and all that was printed. -/
def extractMapping (inputFile : List Text) (costModel : AssemblyCostModel) (M : Module) :
    Except Exception (IRAsmMapType × List Diagnostic) := do
  let (IRIDAsmMap, cerr) ← extractIDMapping inputFile costModel
  .ok (IRIDAsmMap.entries.foldl (assignAsms (instIDPtrMap M)) (∅, cerr))

end MappingExtractor

end Gpscat
