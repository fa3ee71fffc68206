import Gpscat.Attribution

/-!
# The assembly file as sections

`llc` writes the functions of a module one after the other. `MappingExtractor` reads their text as
one file and keeps its register across the borders of the sections. The definitions below say which
opcodes belong to which function.
-/

namespace Gpscat

open Cpp LLVM MappingExtractor

/-- The assembly of one function. -/
structure AsmSection where
  fn : FunctionPtr
  lines : List Text

/-- The file of the sections, in the given order. -/
def fileOf (sections : List AsmSection) : List Text := sections.flatMap AsmSection.lines

/-- The line that is current after the whole text. -/
def lineAfter (text : List Text) : InstructionID := governingLine text text.length

/-- The known opcodes before the first `.loc` directive. -/
def headOpcodes (costModel : AssemblyCostModel) (text : List Text) : List AssemblyInstruction :=
  ((text.takeWhile fun line => (locLine line).isNone).filterMap (opcodeOf costModel)).map
    fun opcode => ⟨opcode⟩

/-- The functions with a body. -/
def definedFunctions (M : Module) : List FunctionPtr :=
  (List.range M.functions.length).filter fun f => M.functions[f]?.any (!·.isDeclaration)

/-- The file of a located module: one section for each function with a body, in any order, whose
`.loc` directives name lines of that function or line 0. A function whose definition is not exact
got no lines, and its section holds no `.loc`. -/
structure SectionsOf (M : Module) (sections : List AsmSection) : Prop where
  functions : (sections.map AsmSection.fn).Perm (definedFunctions M)
  decimal : ∀ s ∈ sections, LocsDecimal s.lines
  locs : ∀ s ∈ sections, ∀ line ∈ s.lines.filterMap locLine,
    line = 0 ∨ ∃ I : InstructionPtr, (I, some line) ∈ M.instructions ∧ I.parent.fn = s.fn
  skipped : ∀ s ∈ sections, ∀ F, M.functions[s.fn]? = some F → F.hasExactDefinition = false →
    s.lines.filterMap locLine = []

/-- The pipeline charges each function the known opcodes of its own section, and no other: an
instruction gets the opcodes that its line governs there, and a block costs their sum. -/
def OwnCosts (costModel : AssemblyCostModel) (M : Module) (sections : List AsmSection) : Prop :=
  ∃ m cerr c, extractMapping (fileOf sections) costModel M = .ok (m, cerr) ∧
    IRCostCalculator.create M costModel m = .ok c ∧
    ∀ s ∈ sections,
      (∀ I line, (I, some line) ∈ M.instructions → I.parent.fn = s.fn →
        m.findD I [] = opcodesUnder (occurrences costModel s.lines) line) ∧
      (∀ x ∈ M.blockPtrs, x.1.fn = s.fn →
        c.getBlockCost x.1 = (blockCharges costModel (occurrences costModel s.lines) x.2).sum)

/-- A section with a known opcode before its first `.loc` starts while the current line is 0. -/
def EnteredAtZero (costModel : AssemblyCostModel) (sections : List AsmSection) : Prop :=
  ∀ before s after, sections = before ++ s :: after → headOpcodes costModel s.lines ≠ [] →
    lineAfter (fileOf before) = 0

end Gpscat
