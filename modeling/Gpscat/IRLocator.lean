import Gpscat.Debugify

/-!
# Lines as the ids of instructions

`IRLocator::run` strips the debug info of the module, lets Debugify number the instructions, and
erases the debug intrinsics that Debugify has inserted.
-/

namespace Gpscat

open Cpp LLVM ListEdit

/-- The names of the metadata that the strip pass removes. -/
def isDebugInfoName (key : String) : Bool :=
  "llvm.dbg.".toList.isPrefixOf key.toList || key == "llvm.gcov"

/-- `llvm::createStripSymbolsPass(true)`: debug locations, debug intrinsics and the named metadata
of debug info are removed; the rest of the blocks, the other named metadata and the module flags
stay. -/
structure StripSymbolsPass where
  run : Module → Module
  functions : ∀ M, (run M).functions =
    M.functions.map fun F => { F with blocks := F.blocks.map (·.eraseDbgInfo.unlocated) }
  stripped : ∀ M key, isDebugInfoName key = true → (run M).namedMetadata.lookup key = none
  kept : ∀ M key, isDebugInfoName key = false →
    (run M).namedMetadata.lookup key = M.namedMetadata.lookup key
  moduleFlags : ∀ M, (run M).moduleFlags = M.moduleFlags

namespace IRLocator

/-- The loop that removes the debug intrinsics of a block. -/
def removeDebugIntrinsics (BB : BasicBlock) : BasicBlock :=
  { BB with body := eraseLoop Inst.isDbgInfo [] BB.body }

/-- `run`: the module, and whether all assertions held. -/
def run (strip : StripSymbolsPass) (M : Module) : Module × Bool :=
  let (M, asserts) := Debugify.applyDebugifyMetadata (strip.run M)
  (M.mapBlocks fun _ => removeDebugIntrinsics, asserts)

end IRLocator

end Gpscat
