import Gpscat.LLVM.SymbolTable

/-!
# Lemmas about names of globals
-/

namespace LLVM

open Cpp

theorem SymbolTable.lookup_removeValue (t : SymbolTable) (g : GlobalRef) (name : String) :
    (t.removeValue g).lookup name = if t.lookup name = some g then none else t.lookup name := by
  have hmem : ∀ v, v ∈ (t.removeValue g).lookup name ↔ v ∈ t.lookup name ∧ v ≠ g := by
    intro v
    rw [AList.mem_lookup_iff, AList.mem_lookup_iff, removeValue, List.mem_filter, decide_eq_true_eq]
  refine Option.ext fun v => ?_
  rw [← Option.mem_def, hmem]
  split_ifs with h
  · rw [h, Option.mem_some_iff]
    exact iff_of_false (fun hv => hv.2 hv.1.symm) (by simp)
  · refine ⟨fun hv => hv.1, fun hv => ⟨hv, ?_⟩⟩
    rintro rfl
    exact h hv

theorem SymbolTable.OneName.eq_of_lookup {t : SymbolTable} (ht : t.OneName) {g : GlobalRef}
    {name name' : String} (h : t.lookup name = some g) (h' : t.lookup name' = some g) :
    name = name' := by
  rw [← Option.mem_def, AList.mem_lookup_iff] at h h'
  exact congrArg Sigma.fst (List.inj_on_of_nodup_map ht h h' rfl)

namespace Module

variable (M : Module)

theorem getFunction_eq_some {name : String} {f : FunctionPtr} :
    M.getFunction name = some f ↔ M.symbols.lookup name = some (.function f) := by
  unfold getFunction
  split <;> simp_all

theorem getOrInsertFunction_of_free {name : String} (type : FunctionType)
    (h : M.symbols.lookup name = none) :
    M.getOrInsertFunction name type =
      ({ M with
          functions := M.functions ++ [{ type := type }]
          symbols := M.symbols.insert name (.function M.functions.length) },
        .global (.function M.functions.length)) := by
  rw [getOrInsertFunction, h]

/-- A global that is no function stays in the way of a function of its name. -/
theorem getOrInsertFunction_of_global {name : String} (type : FunctionType) {i : Nat}
    (h : M.symbols.lookup name = some (.global i)) :
    (M.getOrInsertFunction name type).2.asFunction = none := by
  rw [getOrInsertFunction, h]
  dsimp only
  split_ifs <;> rfl

theorem namedMetadata_getOrInsertFunction (name : String) (type : FunctionType) :
    (M.getOrInsertFunction name type).1.namedMetadata = M.namedMetadata := by
  unfold getOrInsertFunction
  split <;> rfl

/-- More declarations leave the blocks as they are. -/
theorem blockAt_of_append {M M' : Module} {decls : List Function}
    (hdecls : ∀ F ∈ decls, F.blocks = []) (h : M'.functions = M.functions ++ decls)
    (p : BasicBlockPtr) : M'.blockAt p = M.blockAt p := by
  rw [blockAt, blockAt, h]
  rcases Nat.lt_or_ge p.fn M.functions.length with hlt | hge
  · rw [List.getElem?_append_left hlt]
  · rw [List.getElem?_append_right hge, List.getElem?_eq_none hge, Option.bind_none,
      Option.bind_eq_none_iff]
    intro F hF
    rw [hdecls F (List.mem_of_getElem? hF)]
    rfl

end Module

end LLVM
