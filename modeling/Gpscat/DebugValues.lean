import Gpscat.Proofs.DebugifyProofs
import Gpscat.LLVM.BlockShape

/-!
# Where the debug values stand

The functions after Debugify in closed form. Instructions have consecutive lines. The debug values of
the PHIs follow the PHIs, every other one follows its instruction, and from the terminating instruction
on nothing is inserted.
-/

namespace Gpscat.Debugify

open LLVM

/-- An instruction with its debug value behind it. -/
def withValue (I : Instruction) : List Instruction :=
  if I.isVoidTy then [I] else [I, dbgValue I.debugLoc]

/-- The instructions of a block that is no EH pad, with the debug values. -/
def withValues (BB : BasicBlock) : List Instruction :=
  let firstNonPHI := BB.getFirstNonPHI
  let LastInst := findTerminatingInstruction BB
  let phis := BB.body.take firstNonPHI
  phis ++ (phis.filter (!·.isVoidTy)).map (fun I => dbgValue I.debugLoc) ++
    ((BB.body.take LastInst).drop firstNonPHI).flatMap withValue ++ BB.body.drop LastInst

/-- A block with its debug values. EH pads get none. -/
def visited (BB : BasicBlock) : BasicBlock :=
  if BB.isEHPad then BB else { BB with body := withValues BB }

/-- How many debug values a block gets. -/
def valueCount (BB : BasicBlock) : Nat :=
  if BB.isEHPad then 0
  else (BB.body.take (findTerminatingInstruction BB)).countP (!·.isVoidTy)

/-- How many debug values a function gets. -/
def functionValueCount (F : Function) : Nat :=
  if isFunctionSkipped F then 0 else (F.blocks.map valueCount).sum

/-- The debug intrinsics of a function. -/
def dbgInfoCount (F : Function) : Nat := (F.blocks.map (·.body.countP Inst.isDbgInfo)).sum

/-- The types of a `musttail` call and of the function that makes it agree: before a `ret void` the
call has no value. -/
def TailTyped (BB : BasicBlock) : Prop :=
  BB.term.op = .ret none → ∀ I ∈ BB.body, I.isMustTailCall = true → I.result = none

instance (BB : BasicBlock) : Decidable (TailTyped BB) :=
  inferInstanceAs (Decidable (_ → _))

/-- The block with its instructions at `line` and the lines after it. -/
def atLines (line : BitVec 32) (BB : BasicBlock) : BasicBlock where
  body := BB.body.mapIdx fun k I => I.setDebugLoc (some (line + BitVec.ofNat 32 k))
  term := BB.term.setDebugLoc (some (line + BitVec.ofNat 32 BB.body.length))

/-- The line of the first instruction behind the given functions and blocks. -/
def firstLine (functions : List Function) (blocks : List BasicBlock) : BitVec 32 :=
  1 + BitVec.ofNat 32 ((functions.map locatedSize).sum + (blocks.map size).sum)

/-- The functions of a module with lines and debug values. -/
def debugified (functions : List Function) : List Function :=
  functions.mapIdx fun i F =>
    if isFunctionSkipped F then F
    else
      { F with
        blocks := F.blocks.mapIdx fun j BB =>
          visited (atLines (firstLine (functions.take i) (F.blocks.take j)) BB) }

end Gpscat.Debugify
