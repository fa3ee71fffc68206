import Gpscat.LLVM.SymbolTable
import Gpscat.Lib.MapAccum
import Gpscat.Lib.ListEdit

/-!
# Debugify

`applyDebugifyMetadata` gives every instruction of the functions it does not skip a line of its own,
and attaches a debug value, as a call of an intrinsic, to every instruction that has a value. The
descriptors of subprograms, variables and types that it also creates are not modelled: nothing reads
them again.
-/

namespace Gpscat.Debugify

open Cpp LLVM MapAccum ListEdit

/-- The variables of the pass. -/
structure DebugifyState where
  NextLine : BitVec 32 := 1
  NextVar : BitVec 32 := 1
  /-- Whether the builder has declared `llvm.dbg.value`. -/
  valueFn : Bool := false
  /-- Whether all assertions so far held. -/
  asserts : Bool := true

def isFunctionSkipped (F : Function) : Bool := F.isDeclaration || !F.hasExactDefinition

/-- The position of the terminating instruction, the terminator's being the length of the body.
`musttail` and deoptimize calls behave like terminators. -/
def findTerminatingInstruction (BB : BasicBlock) : Nat :=
  match BB.getTerminatingMustTailCall with
  | some I => I
  | none =>
    match BB.getTerminatingDeoptimizeCall with
    | some I => I
    | none => BB.body.length

/-- `I.setDebugLoc(DILocation::get(Ctx, NextLine++, 1, SP))`. -/
def attachLoc {ω : Type} (st : DebugifyState) (I : Inst ω) : Inst ω × DebugifyState :=
  (I.setDebugLoc (some st.NextLine), { st with NextLine := st.NextLine + 1 })

/-- The call of `llvm.dbg.value` for an instruction at `loc`. Its operands are metadata. -/
def dbgValue (loc : Option (BitVec 32)) : Instruction where
  op := .dbgInfo
  debugLoc := loc

theorem dbgValue_isVoidTy (loc : Option (BitVec 32)) : (dbgValue loc).isVoidTy = true := rfl

/-- The insertion point once the loop is at `inst`. PHIs and EH pads stay together at the beginning
of the block. -/
def advance (inst : Instruction) (I InsertBefore : Nat) : Nat :=
  if !inst.isPhi && !inst.isEHPad then I + 1 else InsertBefore

/-- The loop that attaches the debug values: from `I` on, up to `LastInst`, with the insertion point
`InsertBefore`. The loop also meets the calls it has inserted, which have no value. -/
def attachValues (body : List Instruction) (I InsertBefore LastInst : Nat) (st : DebugifyState) :
    List Instruction × DebugifyState :=
  if I = LastInst then (body, st)
  else
    match hI : body[I]? with
    | none => (body, st)
    | some inst =>
      if hvoid : inst.isVoidTy then attachValues body (I + 1) InsertBefore LastInst st
      else
        let pos := advance inst I InsertBefore
        attachValues (body.insertIdx pos (dbgValue inst.debugLoc)) (shift pos I + 1) (pos + 1)
          (shift pos LastInst) { st with NextVar := st.NextVar + 1, valueFn := true }
termination_by body.length - I + (body.drop I).countP (!·.isVoidTy)
decreasing_by
  · have hlt : I < body.length := (List.getElem?_eq_some_iff.mp hI).1
    have hcount := countP_drop (p := (!·.isVoidTy)) hI
    omega
  · have hlt : I < body.length := (List.getElem?_eq_some_iff.mp hI).1
    have hcount := countP_drop (p := (!·.isVoidTy)) hI
    have hvalue : (!(dbgValue inst.debugLoc).isVoidTy) = false := by
      rw [dbgValue_isVoidTy]; rfl
    have hrest := countP_drop_insertIdx (p := (!·.isVoidTy)) hvalue body
      (advance inst I InsertBefore) I
    have hlen := List.length_insertIdx_le_succ (l := body) (x := dbgValue inst.debugLoc)
      (i := advance inst I InsertBefore)
    have hshift := le_shift (advance inst I InsertBefore) I
    rw [if_pos (by simpa using hvoid)] at hcount
    omega

/-- The body of the loop over the blocks of a function. -/
def visitBlock (st : DebugifyState) (BB : BasicBlock) : BasicBlock × DebugifyState :=
  let (body, st) := mapAccum attachLoc st BB.body
  let (term, st) := attachLoc st BB.term
  let BB : BasicBlock := ⟨body, term⟩
  if BB.isEHPad then (BB, st)
  else
    let LastInst := findTerminatingInstruction BB
    let InsertPt := BB.getFirstInsertionPt
    -- `assert(InsertPt != BB.end() && "Expected to find an insertion point")`
    let st := { st with asserts := st.asserts && decide (InsertPt ≠ BB.body.length + 1) }
    let (body, st) := attachValues BB.body 0 InsertPt LastInst st
    ({ BB with body := body }, st)

/-- The body of the loop over the functions. -/
def visitFunction (st : DebugifyState) (F : Function) : Function × DebugifyState :=
  if isFunctionSkipped F then (F, st)
  else
    let (blocks, st) := mapAccum visitBlock st F.blocks
    ({ F with blocks := blocks }, st)

/-- The type of `llvm.dbg.value`. -/
def dbgValueType : FunctionType := ⟨.void, [.metadata, .metadata, .metadata]⟩

/-- `applyDebugifyMetadata` on all functions: the module, and whether all assertions held. -/
def applyDebugifyMetadata (M : Module) : Module × Bool :=
  -- Skip modules with debug info.
  if (M.namedMetadata.lookup "llvm.dbg.cu").isSome then (M, true)
  else
    let (functions, st) := mapAccum visitFunction {} M.functions
    let M := { M with
      functions := functions
      namedMetadata := M.namedMetadata.modify "llvm.dbg.cu" []
        (· ++ [MDOperand.compileUnit]) }
    let M := if st.valueFn then (M.getOrInsertFunction "llvm.dbg.value" dbgValueType).1 else M
    let M := { M with
      namedMetadata := M.namedMetadata.modify "llvm.debugify" []
        (· ++ [MDOperand.int (st.NextLine - 1), MDOperand.int (st.NextVar - 1)])
      moduleFlags :=
        if (M.moduleFlags.lookup "Debug Info Version").isSome then M.moduleFlags
        else M.moduleFlags.insert "Debug Info Version" 3 }
    -- `assert(NMD->getNumOperands() == 2)`
    (M, st.asserts && decide ((M.namedMetadata.findD "llvm.debugify" []).length = 2))

end Gpscat.Debugify
