import Gpscat.LLVM.IR
import Gpscat.Lib.Simulation

/-!
# Runs of a module

A small-step semantics over the positions of a module. What instructions do to memory and registers
is left to an `Interp`; the semantics says which position comes next, through calls, invokes, returns,
unwinding and code outside the module. A distinguished function `tick` only counts: a call of it adds
its constant argument and goes on.
-/

namespace LLVM

open Cpp Simulation

/-! ## Operands and successors -/

def Op.isCall : Op → Bool
  | .call _ _ _ => true
  | _ => false

def Op.values : Op → List Value
  | .call callee args _ => callee :: args
  | .bitCast v => [v]
  | .other _ operands => operands
  | .phi | .ehPad | .dbgInfo => []

def TermOp.values : TermOp → List Value
  | .ret v => v.toList
  | .jump operands _ => operands
  | .invoke callee args _ _ => callee :: args
  | .catchSwitch _ _ | .unwind _ | .unreachable => []

/-- The blocks control can go to without entering or leaving a function. -/
def TermOp.successors : TermOp → List Nat
  | .jump _ successors => successors
  | .catchSwitch handlers dest => handlers ++ dest.toList
  | .unwind dest => dest.toList
  | .ret _ | .invoke _ _ _ _ | .unreachable => []

def TermOp.unwindsToCaller : TermOp → Bool
  | .catchSwitch _ none | .unwind none => true
  | _ => false

/-- A pointer to a function of a module with `n` functions. -/
def Value.InRange (n : Nat) : Value → Prop
  | .function f => f < n
  | _ => True

instance (n : Nat) : (v : Value) → Decidable (v.InRange n)
  | .function f => inferInstanceAs (Decidable (f < n))
  | .inst _ | .constInt _ _ | .other _ => isTrue trivial

/-- Every function operand points to a function of the module. -/
def Module.Closed (M : Module) : Prop :=
  ∀ x ∈ M.blockPtrs, (∀ I ∈ x.2.body, ∀ v ∈ I.op.values, v.InRange M.functions.length) ∧
    ∀ v ∈ x.2.term.op.values, v.InRange M.functions.length

instance (M : Module) : Decidable M.Closed :=
  inferInstanceAs (Decidable (∀ x ∈ M.blockPtrs,
    (∀ I ∈ x.2.body, ∀ v ∈ I.op.values, v.InRange M.functions.length) ∧
      ∀ v ∈ x.2.term.op.values, v.InRange M.functions.length))

/-! ## Configurations -/

/-- The meaning of instructions and of code outside the module, over memories and registers `D`, for
a module with `n` functions. -/
structure Interp (D : Type) (n : Nat) where
  exec : Instruction → D → D → Prop
  /-- The function a computed callee points to, if it points into the module. -/
  resolve : Value → D → Option (Fin n)
  pass : List Value → D → D → Prop
  result : Option ValueId → D → D → Prop
  branch : TermOp → D → Nat → D → Prop
  leave : TermOp → D → D → Prop
  /-- A step of a function without a body, or of code that is no function of the module. -/
  outside : Option FunctionPtr → D → D → Prop
  /-- Such code calls a function of the module, or again code outside of it. -/
  callback : Option FunctionPtr → D → Option (Fin n) → D → Prop

/-- Where control is. Position `k` of a block is its `k`-th instruction; the terminator comes last. -/
inductive Ctrl where
  | code (p : BasicBlockPtr) (k : Nat)
  /-- In the given function, which has no body, or in code that is no function of the module. -/
  | outside (callee : Option FunctionPtr)
  | returning
  | unwinding
  deriving DecidableEq

/-- What waits for a callee. -/
inductive Cont where
  | call (p : BasicBlockPtr) (k : Nat) (result : Option ValueId)
  | invoke (normal unwind : BasicBlockPtr) (result : Option ValueId)
  | callback (caller : Option FunctionPtr)

structure Config (D : Type) where
  ctrl : Ctrl
  conts : List Cont
  data : D

/-- What a step does: a call of the function that counts, with its argument, or anything else. -/
inductive Label where
  | act
  | tick (c : Int)
  deriving DecidableEq

def Label.count : Label → Int
  | .act => 0
  | .tick c => c

/-- Where a call starts: at the first block of a definition, or in the function that has no body. -/
def Module.entry (M : Module) : Option FunctionPtr → Ctrl
  | some f => if (M.blockAt ⟨f, 0⟩).isSome then .code ⟨f, 0⟩ 0 else .outside (some f)
  | none => .outside none

variable {D : Type} {n : Nat}

/-- The function that a call reaches, other than `tick`. -/
def Interp.Target (I : Interp D n) (tick : Option FunctionPtr) (d : D) (target : Option FunctionPtr) :
    Value → Prop
  | .function f => tick ≠ some f ∧ target = some f
  | v => target = (I.resolve v d).map Fin.val

/-- One step of a run. -/
inductive Step (M : Module) (I : Interp D n) (tick : Option FunctionPtr) :
    Config D → Label → Config D → Prop where
  | exec {p BB k inst cs d d'} (hBB : M.blockAt p = some BB) (hk : BB.body[k]? = some inst)
      (hop : inst.op.isCall = false) (hd : I.exec inst d d') :
    Step M I tick ⟨.code p k, cs, d⟩ .act ⟨.code p (k + 1), cs, d'⟩
  | tick {p BB k inst cs d f c} (hBB : M.blockAt p = some BB) (hk : BB.body[k]? = some inst)
      (hop : inst.op = .call (.function f) [.constInt 32 c] .plain) (hf : tick = some f) :
    Step M I tick ⟨.code p k, cs, d⟩ (.tick c) ⟨.code p (k + 1), cs, d⟩
  | call {p BB k inst cs d d' callee args kind target} (hBB : M.blockAt p = some BB)
      (hk : BB.body[k]? = some inst) (hop : inst.op = .call callee args kind)
      (htarget : I.Target tick d target callee) (hd : I.pass args d d') :
    Step M I tick ⟨.code p k, cs, d⟩ .act ⟨M.entry target, .call p k inst.result :: cs, d'⟩
  | branch {p BB k s cs d d'} (hBB : M.blockAt p = some BB) (hk : k = BB.body.length)
      (hs : s ∈ BB.term.op.successors) (hd : I.branch BB.term.op d s d') :
    Step M I tick ⟨.code p k, cs, d⟩ .act ⟨.code ⟨p.fn, s⟩ 0, cs, d'⟩
  | invoke {p BB k cs d d' callee args normal unwind target} (hBB : M.blockAt p = some BB)
      (hk : k = BB.body.length) (hop : BB.term.op = .invoke callee args normal unwind)
      (htarget : I.Target tick d target callee) (hd : I.pass args d d') :
    Step M I tick ⟨.code p k, cs, d⟩ .act
      ⟨M.entry target, .invoke ⟨p.fn, normal⟩ ⟨p.fn, unwind⟩ BB.term.result :: cs, d'⟩
  | ret {p BB k cs d d' v} (hBB : M.blockAt p = some BB) (hk : k = BB.body.length)
      (hop : BB.term.op = .ret v) (hd : I.leave BB.term.op d d') :
    Step M I tick ⟨.code p k, cs, d⟩ .act ⟨.returning, cs, d'⟩
  | unwind {p BB k cs d d'} (hBB : M.blockAt p = some BB) (hk : k = BB.body.length)
      (hop : BB.term.op.unwindsToCaller = true) (hd : I.leave BB.term.op d d') :
    Step M I tick ⟨.code p k, cs, d⟩ .act ⟨.unwinding, cs, d'⟩
  | returnCall {p k r cs d d'} (hd : I.result r d d') :
    Step M I tick ⟨.returning, .call p k r :: cs, d⟩ .act ⟨.code p (k + 1), cs, d'⟩
  | returnInvoke {normal unwind r cs d d'} (hd : I.result r d d') :
    Step M I tick ⟨.returning, .invoke normal unwind r :: cs, d⟩ .act ⟨.code normal 0, cs, d'⟩
  | returnOutside {caller cs d} :
    Step M I tick ⟨.returning, .callback caller :: cs, d⟩ .act ⟨.outside caller, cs, d⟩
  | unwindCall {p k r cs d} :
    Step M I tick ⟨.unwinding, .call p k r :: cs, d⟩ .act ⟨.unwinding, cs, d⟩
  | unwindInvoke {normal unwind r cs d} :
    Step M I tick ⟨.unwinding, .invoke normal unwind r :: cs, d⟩ .act ⟨.code unwind 0, cs, d⟩
  | unwindOutside {caller cs d} :
    Step M I tick ⟨.unwinding, .callback caller :: cs, d⟩ .act ⟨.outside caller, cs, d⟩
  | outside {callee cs d d'} (hd : I.outside callee d d') :
    Step M I tick ⟨.outside callee, cs, d⟩ .act ⟨.outside callee, cs, d'⟩
  | callback {caller cs d d' target} (hd : I.callback caller d target d') :
    Step M I tick ⟨.outside caller, cs, d⟩ .act
      ⟨M.entry (target.map Fin.val), .callback caller :: cs, d'⟩
  | outsideReturn {callee cs d} : Step M I tick ⟨.outside callee, cs, d⟩ .act ⟨.returning, cs, d⟩
  | outsideUnwind {callee cs d} : Step M I tick ⟨.outside callee, cs, d⟩ .act ⟨.unwinding, cs, d⟩

/-- A run that starts with a call of the function `f` of the module. -/
def Module.start (M : Module) (f : FunctionPtr) (d : D) : Config D := ⟨M.entry (some f), [], d⟩

/-- How many instructions stand before the terminator of a block. -/
def Module.bodyLength (M : Module) (p : BasicBlockPtr) : Nat :=
  ((M.blockAt p).map (·.body.length)).getD 0

/-- The terminator that control has reached, if any. -/
def Module.reached (M : Module) (s : Config D) : Option BasicBlockPtr :=
  match s.ctrl with
  | .code p k => (M.blockAt p).bind fun BB => if k = BB.body.length then some p else none
  | _ => none

end LLVM
