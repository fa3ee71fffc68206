import Gpscat.LLVM.IR
import Mathlib.Data.Finmap

/-!
# Metadata of instructions

A module together with the metadata nodes that are attached to its instructions, one for each kind.
The order of the attachments cannot be observed, so they are a finite map.
-/

namespace LLVM

/-- An `llvm::MDNode`, by its operands. -/
abbrev MDNode := List MDOperand

/-- The nodes attached to the instructions, by kind. The kind `dbg` is `Inst.debugLoc`. -/
abbrev Attachments := Finmap fun _ : InstructionPtr × String => MDNode

/-- A module with attachments. -/
@[ext]
structure AnnotatedModule where
  module : Module
  attachments : Attachments := ∅

namespace AnnotatedModule

/-- `I->setMetadata(kind, node)`. -/
def setMetadata (A : AnnotatedModule) (I : InstructionPtr) (kind : String) (node : MDNode) :
    AnnotatedModule :=
  { A with attachments := A.attachments.insert (I, kind) node }

/-- `I->getMetadata(kind)`. -/
def getMetadata (A : AnnotatedModule) (I : InstructionPtr) (kind : String) : Option MDNode :=
  A.attachments.lookup (I, kind)

@[simp] theorem module_setMetadata (A : AnnotatedModule) (I : InstructionPtr) (kind : String)
    (node : MDNode) : (A.setMetadata I kind node).module = A.module := rfl

theorem getMetadata_setMetadata (A : AnnotatedModule) (I J : InstructionPtr) (kind kind' : String)
    (node : MDNode) :
    (A.setMetadata I kind node).getMetadata J kind' =
      if J = I ∧ kind' = kind then some node else A.getMetadata J kind' := by
  unfold getMetadata setMetadata
  by_cases h : J = I ∧ kind' = kind
  · obtain ⟨rfl, rfl⟩ := h
    rw [Finmap.lookup_insert, if_pos ⟨rfl, rfl⟩]
  · have hne : (J, kind') ≠ (I, kind) := fun heq => h (Prod.mk.inj heq)
    rw [Finmap.lookup_insert_of_ne _ hne, if_neg h]

/-- Modules with the same attachments are the same. -/
theorem ext_getMetadata {A B : AnnotatedModule} (hmodule : A.module = B.module)
    (h : ∀ I kind, A.getMetadata I kind = B.getMetadata I kind) : A = B := by
  refine AnnotatedModule.ext hmodule (Finmap.ext_lookup fun x => ?_)
  obtain ⟨I, kind⟩ := x
  exact h I kind

/-- Attachments of one kind, made one after the other. -/
theorem getMetadata_foldl {ι : Type} (ptr : ι → InstructionPtr) (kind : String)
    (node : InstructionPtr → MDNode) (l : List ι) (A : AnnotatedModule) (J : InstructionPtr)
    (kind' : String) :
    (l.foldl (fun A i => A.setMetadata (ptr i) kind (node (ptr i))) A).getMetadata J kind' =
      if J ∈ l.map ptr ∧ kind' = kind then some (node J) else A.getMetadata J kind' := by
  induction l generalizing A with
  | nil => simp
  | cons i l ih =>
    rw [List.foldl_cons, ih, getMetadata_setMetadata, List.map_cons]
    by_cases hl : J ∈ l.map ptr ∧ kind' = kind
    · rw [if_pos hl, if_pos ⟨List.mem_cons_of_mem _ hl.1, hl.2⟩]
    · rw [if_neg hl]
      by_cases hi : J = ptr i ∧ kind' = kind
      · obtain ⟨rfl, rfl⟩ := hi
        rw [if_pos ⟨rfl, rfl⟩, if_pos ⟨List.mem_cons_self, rfl⟩]
      · rw [if_neg hi, if_neg]
        rintro ⟨hmem, hkind⟩
        rcases List.mem_cons.mp hmem with hJ | hJ
        · exact hi ⟨hJ, hkind⟩
        · exact hl ⟨hJ, hkind⟩

theorem module_foldl {ι : Type} (ptr : ι → InstructionPtr) (kind : String) (node : ι → MDNode)
    (l : List ι) (A : AnnotatedModule) :
    (l.foldl (fun A i => A.setMetadata (ptr i) kind (node i)) A).module = A.module := by
  induction l generalizing A with
  | nil => rfl
  | cons i l ih => rw [List.foldl_cons, ih, module_setMetadata]

end AnnotatedModule

end LLVM
