import Gpscat.LLVM.Semantics
import Gpscat.Lib.ListEdit

/-!
# Runs without debug info

Debug intrinsics and debug locations are there for the reader of a program only. A module and the
module that is left of it without them have the same runs, once the steps of the debug intrinsics are
hidden.
-/

namespace LLVM

open Simulation ListEdit

variable {D : Type} {n : Nat}

/-- Debug intrinsics do nothing, and no instruction looks at its debug location. -/
structure Interp.IgnoresDebugInfo (I : Interp D n) : Prop where
  intrinsic : ∀ inst : Instruction, inst.isDbgInfo = true → ∀ d d', I.exec inst d d' ↔ d' = d
  location : ∀ (inst : Instruction) loc d d', I.exec (inst.setDebugLoc loc) d d' ↔ I.exec inst d d'

/-- `N` has the blocks of `M` without the debug intrinsics, at any debug locations. -/
def Module.ErasesDebugInfo (M N : Module) : Prop :=
  ∀ p, (N.blockAt p).map BasicBlock.unlocated =
    (M.blockAt p).map fun BB => BB.eraseDbgInfo.unlocated

/-- Control is at a debug intrinsic. -/
def Module.atDbgInfo (M : Module) (s : Config D) : Bool :=
  match s.ctrl with
  | .code p k => ((M.blockAt p).bind (·.body[k]?)).any Inst.isDbgInfo
  | _ => false

/-- A step, with its label unless a debug intrinsic takes it. -/
def MarkedStep (M : Module) (I : Interp D n) (tick : Option FunctionPtr) (s : Config D)
    (l : Option Label) (t : Config D) : Prop :=
  ∃ l', Step M I tick s l' t ∧ l = if M.atDbgInfo s then none else some l'

/-! ## Configurations without the debug intrinsics -/

/-- The position of an instruction of a block without the debug intrinsics before it. -/
def Module.erasedIndex (M : Module) (p : BasicBlockPtr) (k : Nat) : Nat :=
  match M.blockAt p with
  | some BB => rank (!·.isDbgInfo) BB.body k
  | none => k

def Module.eraseCtrl (M : Module) : Ctrl → Ctrl
  | .code p k => .code p (M.erasedIndex p k)
  | c => c

def Module.eraseCont (M : Module) : Cont → Cont
  | .call p k r => .call p (M.erasedIndex p k) r
  | c => c

def Module.eraseConfig (M : Module) (s : Config D) : Config D where
  ctrl := M.eraseCtrl s.ctrl
  conts := s.conts.map M.eraseCont
  data := s.data

/-- Every run of `M` is, but for the steps of its debug intrinsics, a run of `N`, and every run of `N`
comes from such a run of `M`, which does not stop at a debug intrinsic. -/
structure KeepsRuns (M N : Module) (I : Interp D n) (tick : Option FunctionPtr) : Prop where
  erased : ∀ (f : FunctionPtr) (d : D) (r : List (Option Label × Config D)) (s : Config D),
    Run (MarkedStep M I tick) (M.start f d) r s →
      Run (Step N I tick) (N.start f d) (seen M.eraseConfig id r) (M.eraseConfig s)
  followed : ∀ (f : FunctionPtr) (d : D) (r : List (Label × Config D)) (s : Config D),
    Run (Step N I tick) (N.start f d) r s →
      ∃ r' s', Run (MarkedStep M I tick) (M.start f d) r' s' ∧
        seen M.eraseConfig id r' = r ∧ M.eraseConfig s' = s ∧ M.atDbgInfo s' = false

/-! ## Charges along a run -/

/-- The charge of the block whose terminator control has reached. -/
def Module.chargeAt (M : Module) (charge : BasicBlockPtr → Int) (s : Config D) : Int :=
  match M.reached s with
  | some p => charge p
  | none => 0

/-- The charges of the block executions of a run that reached their terminator. -/
def Module.chargeAlong {κ : Type} (M : Module) (charge : BasicBlockPtr → Int) (s : Config D)
    (r : List (κ × Config D)) : Int :=
  M.chargeAt charge s + (r.map fun x => M.chargeAt charge x.2).sum

end LLVM
