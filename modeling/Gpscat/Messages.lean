import Gpscat.Attribution

/-!
# What is said of lost costs

An occurrence of a known opcode is either attributed to an instruction, or a message says that it is
not. The messages on line 0 come in file order. The others come in the order in which an unordered map
is traversed.
-/

namespace Gpscat

open Cpp LLVM MappingExtractor

/-- The loop over `IRIDAsmMap`, for an order of its entries. -/
def MappingExtractor.assignInOrder (M : Module)
    (es : List ((_ : InstructionID) × List AssemblyInstruction)) (cerr : List Diagnostic) :
    IRAsmMapType × List Diagnostic :=
  es.foldl (assignAsms (instIDPtrMap M)) (∅, cerr)

/-- The message on an occurrence that no instruction is found for. -/
def Occurrence.diagnostic (o : Occurrence) : Diagnostic :=
  if o.governing = 0 then .noCorrespondingInst o.lineNum o.opcode else .cannotFindID o.governing

/-- Every occurrence is attributed or reported, and nothing else is. An occurrence under line 0 is
reported also when an instruction has that line. -/
structure Accounted (M : Module) (occs : List Occurrence) (m : IRAsmMapType)
    (cerr : List Diagnostic) : Prop where
  attributed : ∀ o ∈ occs, o.governing ∈ M.locatedLines →
    ∃ I, (I, some o.governing) ∈ M.instructions ∧ m.findD I [] = opcodesUnder occs o.governing
  reported : ∀ o ∈ occs, o.governing ∉ M.locatedLines → o.diagnostic ∈ cerr
  /-- An instruction has all the opcodes under its line, and at least one. -/
  sound : ∀ I asms, m.lookup I = some asms → asms ≠ [] ∧
    ∃ line, (I, some line) ∈ M.instructions ∧ asms = opcodesUnder occs line
  needed : ∀ msg ∈ cerr, ∃ o ∈ occs, (o.governing = 0 ∨ o.governing ∉ M.locatedLines) ∧
    msg = o.diagnostic
  /-- No text is printed twice. -/
  nodup : (cerr.map Diagnostic.render).Nodup

end Gpscat
