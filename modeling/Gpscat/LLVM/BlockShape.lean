import Gpscat.LLVM.IR

/-!
# The shape of blocks

LLVM's rules about the order of the instructions of a block. That a block ends in its only terminator
is part of the type `BasicBlock`.
-/

namespace LLVM

/-- A `catchswitch`. -/
def Inst.isCatchSwitch (I : Terminator) : Bool :=
  match I.op with
  | .catchSwitch _ _ => true
  | _ => false

/-- A `ret` of the given value, or of none. -/
def Inst.returns (I : Terminator) (value : Option Value) : Bool :=
  match I.op with
  | .ret none => true
  | .ret (some v) => some v = value
  | _ => false

/-- A bitcast of the given value. -/
def Inst.castsValue (I : Instruction) (value : Option Value) : Bool :=
  match I.op with
  | .bitCast operand => some operand = value
  | _ => false

/-- `call` is followed by an optional bitcast of its value and then by the `ret`. -/
def EndsInRet (call : Instruction) (rest : List Instruction) (term : Terminator) : Bool :=
  match rest with
  | [] => term.returns call.asValue
  | [cast] => cast.castsValue call.asValue && term.returns cast.asValue
  | _ => false

/-- The rules for the instructions of a block. -/
structure BasicBlock.WellShaped (BB : BasicBlock) : Prop where
  /-- A `musttail` call is followed by the `ret`. -/
  tail : ∀ i (h : i < BB.body.length), BB.body[i].isMustTailCall = true →
    EndsInRet BB.body[i] (BB.body.drop (i + 1)) BB.term = true
  /-- An EH pad is the first instruction that is no PHI. -/
  pad : ∀ i (h : i < BB.body.length), BB.body[i].isEHPad = true → i = BB.getFirstNonPHI
  catchSwitch : BB.term.isCatchSwitch = true → BB.getFirstNonPHI = BB.body.length
  /-- PHIs come first. -/
  phi : ∀ i (h : i < BB.body.length), BB.body[i].isPhi = true → i < BB.getFirstNonPHI

instance (BB : BasicBlock) : Decidable BB.WellShaped :=
  decidable_of_iff
    ((∀ i (h : i < BB.body.length), BB.body[i].isMustTailCall = true →
      EndsInRet BB.body[i] (BB.body.drop (i + 1)) BB.term = true) ∧
      (∀ i (h : i < BB.body.length), BB.body[i].isEHPad = true → i = BB.getFirstNonPHI) ∧
      (BB.term.isCatchSwitch = true → BB.getFirstNonPHI = BB.body.length) ∧
      ∀ i (h : i < BB.body.length), BB.body[i].isPhi = true → i < BB.getFirstNonPHI)
    ⟨fun h => ⟨h.1, h.2.1, h.2.2.1, h.2.2.2⟩, fun h => ⟨h.tail, h.pad, h.catchSwitch, h.phi⟩⟩

/-- An instruction may be put before the terminator: the terminator does not have to follow a
`musttail` call, and is no EH pad. -/
def BasicBlock.AllowsInsertion (BB : BasicBlock) : Prop :=
  (∀ I ∈ BB.body, I.isMustTailCall = false) ∧ BB.term.isCatchSwitch = false

instance (BB : BasicBlock) : Decidable BB.AllowsInsertion :=
  inferInstanceAs (Decidable (_ ∧ _))

/-- All blocks of the module obey the rules. -/
def Module.WellShaped (M : Module) : Prop := ∀ x ∈ M.blockPtrs, x.2.WellShaped

instance (M : Module) : Decidable M.WellShaped :=
  inferInstanceAs (Decidable (∀ x ∈ M.blockPtrs, x.2.WellShaped))

/-- An instruction that no rule is about. -/
structure Inst.Plain (I : Instruction) : Prop where
  phi : I.isPhi = false
  pad : I.isEHPad = false
  tail : I.isMustTailCall = false
  cast : ∀ value, I.castsValue value = false

end LLVM
