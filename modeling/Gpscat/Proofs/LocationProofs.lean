import Gpscat.Proofs.IRLocatorProofs
import Gpscat.LLVM.Proofs.DebugErasureProofs

/-!
# Locating does not change what a module does

The debug intrinsics of the module are stripped, those of Debugify come and go, and the lines are new.
None of this is seen by a run.
-/

namespace Gpscat.IRLocator

open Cpp LLVM

/-- `IRLocator::run` keeps the runs of a module, whatever its instructions do, as long as they ignore
debug info. -/
theorem run_keepsRuns (strip : StripSymbolsPass) (M : Module) {D : Type} {n : Nat} (I : Interp D n)
    (hI : I.IgnoresDebugInfo) (tick : Option FunctionPtr) :
    KeepsRuns M (run strip M).1 I tick :=
  Module.ErasesDebugInfo.keepsRuns (unlocated_blockAt_run strip M) hI

/-- Instructions that count how many of them have been executed. -/
def counting (n : Nat) : Interp Nat n where
  exec inst d d' := d' = if inst.isDbgInfo then d else d + 1
  resolve _ _ := none
  pass _ d d' := d' = d
  result _ d d' := d' = d
  branch _ d _ d' := d' = d
  leave _ d d' := d' = d
  outside _ d d' := d' = d
  callback _ _ _ _ := False

theorem counting_ignoresDebugInfo (n : Nat) : (counting n).IgnoresDebugInfo where
  intrinsic inst hdbg d d' := by
    show (d' = if inst.isDbgInfo then d else d + 1) ↔ d' = d
    rw [if_pos hdbg]
  location _ _ _ _ := Iff.rfl

theorem run_keepsRuns_mixedModule :
    KeepsRuns mixedModule (run stripDebugInfo mixedModule).1 (counting 2) none :=
  run_keepsRuns stripDebugInfo mixedModule (counting 2) (counting_ignoresDebugInfo 2) none

end Gpscat.IRLocator
