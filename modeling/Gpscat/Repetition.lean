import Gpscat.IRLocator

/-!
# Running the locator again

`IRLocator::run` may be given a module that it has produced itself. The strip pass takes back the
lines and the compile unit; the node `llvm.debugify`, where Debugify leaves its counts, is kept.
-/

namespace Gpscat.IRLocator

open Cpp LLVM

/-- The operands of the node `llvm.debugify`. -/
def debugifyOperands (M : Module) : List MDOperand := M.namedMetadata.findD "llvm.debugify" []

/-- Both modules have the same blocks, and every instruction has the same line in both. -/
def SameLines (M M' : Module) : Prop := ∀ p, M.blockAt p = M'.blockAt p

variable (strip : StripSymbolsPass)

/-- The module after `n` runs. -/
def runs : Nat → Module → Module
  | 0, M => M
  | n + 1, M => (run strip (runs n M)).1

/-- Every assertion that the run reaches holds. -/
def Completes (M : Module) : Prop := (run strip M).2 = true

/-- The run and a second one on its result complete, and the second one keeps every line. -/
structure Repeatable (M : Module) : Prop where
  completes : Completes strip M
  again : Completes strip (run strip M).1
  sameLines : SameLines (run strip (run strip M).1).1 (run strip M).1

end Gpscat.IRLocator
