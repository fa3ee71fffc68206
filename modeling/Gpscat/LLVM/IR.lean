import Gpscat.Lib.UnorderedMap
import Mathlib.Data.List.Basic

/-!
# LLVM IR

The data of an `llvm::Module` that the passes of this repository read or write. A function, a basic
block and an instruction are addressed by their position (`FunctionPtr`, `BasicBlockPtr`,
`InstructionPtr`), which stands for the pointer the C++ code uses as a map key: the code never
reorders or removes functions and blocks, and the maps keyed by instructions do not outlive a
change of a block.

A block is a list of instructions followed by one terminator, so a block without a terminator, or
with one in the middle, cannot be built. Names are kept in the symbol table of the module, as in
LLVM, where functions, variables and aliases share one name space.
-/

namespace LLVM

open Cpp

/-! ## Pointers -/

/-- An `llvm::Function*`: the position of the function in the module. -/
abbrev FunctionPtr := Nat

/-- An `llvm::BasicBlock*`. -/
structure BasicBlockPtr where
  /-- The function the block belongs to. -/
  fn : FunctionPtr
  /-- The position of the block in the function. -/
  idx : Nat
  deriving Repr, DecidableEq

/-- An `llvm::Instruction*`. -/
structure InstructionPtr where
  /-- The block the instruction belongs to, `I.getParent()`. -/
  parent : BasicBlockPtr
  /-- The position of the instruction in the block; the terminator comes last. -/
  idx : Nat
  deriving Repr, DecidableEq

/-! ## Instructions -/

/-- The number of an SSA value inside its function. -/
abbrev ValueId := Nat

/-- An operand. -/
inductive Value where
  /-- The result of an instruction. -/
  | inst (v : ValueId)
  /-- An integer constant of the given width. -/
  | constInt (width : Nat) (n : Int)
  /-- The address of a function. -/
  | function (f : FunctionPtr)
  /-- Any other operand: an argument, a global variable, a constant expression. -/
  | other (tag : Nat)
  deriving Repr, DecidableEq

/-- What distinguishes a call instruction from a plain call. -/
inductive CallKind where
  | plain
  | mustTail
  /-- A call of the `llvm.experimental.deoptimize` intrinsic. -/
  | deoptimize
  deriving Repr, DecidableEq

/-- The instructions that are no terminators. -/
inductive Op where
  | phi
  /-- `landingpad`, `catchpad` and `cleanuppad`. -/
  | ehPad
  /-- A call of an `llvm.dbg.*` intrinsic (`DbgInfoIntrinsic`). -/
  | dbgInfo
  | call (callee : Value) (args : List Value) (kind : CallKind)
  | bitCast (operand : Value)
  /-- Any other instruction, with its opcode and operands. -/
  | other (opcode : String) (operands : List Value)
  deriving Repr, DecidableEq

/-- The terminators. Successors are positions of blocks of the same function. -/
inductive TermOp where
  | ret (v : Option Value)
  /-- `br`, `switch`, `indirectbr` and `catchret`. -/
  | jump (operands : List Value) (successors : List Nat)
  | invoke (callee : Value) (args : List Value) (normal unwind : Nat)
  /-- `catchswitch`, itself an EH pad: the handlers, and the block to unwind to. -/
  | catchSwitch (handlers : List Nat) (unwind : Option Nat)
  /-- `cleanupret` and `resume`: unwinding to a block, or to the caller. -/
  | unwind (dest : Option Nat)
  | unreachable
  deriving Repr, DecidableEq

/-- An instruction with operation `ω`, the value it defines (`none` for type `void`), and the line
of its debug location when it has one. -/
structure Inst (ω : Type) where
  op : ω
  result : Option ValueId := none
  debugLoc : Option (BitVec 32) := none
  deriving Repr, DecidableEq

abbrev Instruction := Inst Op

abbrev Terminator := Inst TermOp

/-- The operand that a call calls. -/
def Op.callee : Op → Option Value
  | .call callee _ _ => some callee
  | _ => none

def TermOp.callee : TermOp → Option Value
  | .invoke callee _ _ _ => some callee
  | _ => none

/-- `llvm::isa<llvm::DbgInfoIntrinsic>`. -/
def Inst.isDbgInfo (I : Instruction) : Bool := I.op == .dbgInfo

/-- `llvm::isa<llvm::PHINode>`. -/
def Inst.isPhi (I : Instruction) : Bool := I.op == .phi

/-- `I->isEHPad()` for an instruction that is no terminator. -/
def Inst.isEHPad (I : Instruction) : Bool := I.op == .ehPad

/-- `CI->isMustTailCall()` of a call. -/
def Inst.isMustTailCall (I : Instruction) : Bool :=
  match I.op with
  | .call _ _ kind => kind == .mustTail
  | _ => false

/-- A call of `llvm.experimental.deoptimize`. -/
def Inst.isDeoptimizeCall (I : Instruction) : Bool :=
  match I.op with
  | .call _ _ kind => kind == .deoptimize
  | _ => false

/-- The instruction as an operand. -/
def Inst.asValue {ω : Type} (I : Inst ω) : Option Value := I.result.map .inst

/-- `I->getType()->isVoidTy()`. -/
def Inst.isVoidTy {ω : Type} (I : Inst ω) : Bool := I.result.isNone

/-- The instruction at the given debug line, or without one. -/
def Inst.setDebugLoc {ω : Type} (I : Inst ω) (loc : Option (BitVec 32)) : Inst ω :=
  { I with debugLoc := loc }

/-! ## Blocks and functions -/

/-- A basic block: its instructions in order, and its terminator. -/
structure BasicBlock where
  body : List Instruction
  term : Terminator
  deriving Repr, DecidableEq

/-- The debug locations of all instructions of the block, the terminator's last. -/
def BasicBlock.debugLocs (BB : BasicBlock) : List (Option (BitVec 32)) :=
  BB.body.map Inst.debugLoc ++ [BB.term.debugLoc]

/-- `BB.isEHPad()`: the first instruction that is no PHI is an EH pad. -/
def BasicBlock.isEHPad (BB : BasicBlock) : Bool :=
  match BB.body.dropWhile Inst.isPhi with
  | I :: _ => I.isEHPad
  | [] => match BB.term.op with
    | .catchSwitch _ _ => true
    | _ => false

/-- The position of the first instruction that is no PHI. -/
def BasicBlock.getFirstNonPHI (BB : BasicBlock) : Nat := (BB.body.takeWhile Inst.isPhi).length

/-- `getFirstInsertionPt`: behind the PHIs and an EH pad that follows them. The position after the
terminator is `end()`. -/
def BasicBlock.getFirstInsertionPt (BB : BasicBlock) : Nat :=
  if BB.isEHPad then BB.getFirstNonPHI + 1 else BB.getFirstNonPHI

/-- `getTerminatingMustTailCall`: the position of the `musttail` call before a `ret` of its value, or
of a bitcast of its value. -/
def BasicBlock.getTerminatingMustTailCall (BB : BasicBlock) : Option Nat :=
  match BB.term.op, BB.body.reverse with
  | .ret none, prev :: rest => if prev.isMustTailCall then some rest.length else none
  | .ret (some v), prev :: rest =>
    if prev.asValue = some v then
      match prev.op, rest with
      | .bitCast operand, call :: rest =>
        if call.asValue = some operand && call.isMustTailCall then some rest.length else none
      | _, _ => if prev.isMustTailCall then some rest.length else none
    else none
  | _, _ => none

/-- `getTerminatingDeoptimizeCall`: the position of the deoptimize call before the `ret`. -/
def BasicBlock.getTerminatingDeoptimizeCall (BB : BasicBlock) : Option Nat :=
  match BB.term.op, BB.body.reverse with
  | .ret _, prev :: rest => if prev.isDeoptimizeCall then some rest.length else none
  | _, _ => none

/-- How often the block calls a function directly. -/
def BasicBlock.callsOf (BB : BasicBlock) (f : FunctionPtr) : Nat :=
  BB.body.countP (·.op.callee = some (.function f)) +
    if BB.term.op.callee = some (.function f) then 1 else 0

/-- The block with every debug location cleared. -/
def BasicBlock.unlocated (BB : BasicBlock) : BasicBlock where
  body := BB.body.map (·.setDebugLoc none)
  term := BB.term.setDebugLoc none

/-- The block without its debug intrinsics. -/
def BasicBlock.eraseDbgInfo (BB : BasicBlock) : BasicBlock :=
  { BB with body := BB.body.filter (!·.isDbgInfo) }

/-- Insertion of a new instruction directly before `BB.getTerminator()`. -/
def BasicBlock.insertBeforeTerminator (BB : BasicBlock) (I : Instruction) : BasicBlock :=
  { BB with body := BB.body ++ [I] }

/-- Linkage types. -/
inductive Linkage where
  | external | availableExternally | linkOnceAny | linkOnceODR | weakAny | weakODR | appending
  | internal | privateLinkage | externalWeak | common
  deriving Repr, DecidableEq

/-- `isDefinitionExact()`: a definition of this linkage cannot be replaced by another one. -/
def Linkage.isDefinitionExact : Linkage → Bool
  | .external | .appending | .internal | .privateLinkage => true
  | .availableExternally | .linkOnceAny | .linkOnceODR | .weakAny | .weakODR | .externalWeak
  | .common => false

/-- First-class types, `void`, and the type of metadata operands. -/
inductive Ty where
  | void
  | metadata
  | int (width : Nat)
  | other (tag : Nat)
  deriving Repr, DecidableEq

structure FunctionType where
  ret : Ty
  params : List Ty
  deriving Repr, DecidableEq

/-- A function. A declaration has no blocks. -/
structure Function where
  type : FunctionType
  linkage : Linkage := .external
  blocks : List BasicBlock := []
  deriving Repr, DecidableEq

/-- `F.isDeclaration()`. -/
def Function.isDeclaration (F : Function) : Bool := F.blocks.isEmpty

/-- `F.hasExactDefinition()`. -/
def Function.hasExactDefinition (F : Function) : Bool :=
  !F.isDeclaration && F.linkage.isDefinitionExact

/-! ## Modules -/

/-- What a global name is bound to. Variables and aliases are positions in `Module.globals`. -/
inductive GlobalRef where
  | function (f : FunctionPtr)
  | global (idx : Nat)
  deriving Repr, DecidableEq

/-- A global that is no function: a variable, or an alias, whose aliasee may be a function. -/
inductive Global where
  | variable (ty : Ty)
  | aliasOf (ty : Ty ⊕ FunctionType)
  deriving Repr, DecidableEq

/-- An operand of a named metadata node. -/
inductive MDOperand where
  | compileUnit
  | int (n : BitVec 32)
  deriving Repr, DecidableEq

/-- The symbol table: the names of the functions, variables and aliases. -/
abbrev SymbolTable := UnorderedMap String GlobalRef

/-- A module. -/
structure Module where
  functions : List Function
  globals : List Global := []
  symbols : SymbolTable := ∅
  namedMetadata : UnorderedMap String (List MDOperand) := ∅
  moduleFlags : UnorderedMap String (BitVec 32) := ∅

namespace Module

variable (M : Module)

/-- The block a pointer points to. -/
def blockAt (p : BasicBlockPtr) : Option BasicBlock :=
  (M.functions[p.fn]?).bind (·.blocks[p.idx]?)

/-- All blocks of the module, in the order of `for(auto& F : *M) for(auto& BB : F)`. -/
def blockPtrs : List (BasicBlockPtr × BasicBlock) :=
  (M.functions.zipIdx).flatMap fun (F, f) =>
    F.blocks.zipIdx.map fun (BB, b) => (⟨f, b⟩, BB)

/-- The instructions of a block with their debug locations. -/
def instructionPtrs (p : BasicBlockPtr × BasicBlock) :
    List (InstructionPtr × Option (BitVec 32)) :=
  p.2.debugLocs.zipIdx.map fun (loc, i) => (⟨p.1, i⟩, loc)

/-- `BB.getTerminator()`. -/
def getTerminator (x : BasicBlockPtr × BasicBlock) : InstructionPtr := ⟨x.1, x.2.body.length⟩

/-- All instructions of the module, in the order of `for(auto& F : *M) for(auto& BB : F)
for(auto& I : BB)`, with their debug locations. -/
def instructions : List (InstructionPtr × Option (BitVec 32)) :=
  M.blockPtrs.flatMap instructionPtrs

/-- The lines of the located instructions, in module order. -/
def locatedLines : List (BitVec 32) := M.instructions.filterMap Prod.snd

/-- Every block rewritten by `g`, which also sees where the block is. -/
def mapBlocks (g : BasicBlockPtr → BasicBlock → BasicBlock) : Module :=
  { M with
    functions := M.functions.mapIdx fun f F =>
      { F with blocks := F.blocks.mapIdx fun b BB => g ⟨f, b⟩ BB } }

end Module

end LLVM
