import Gpscat.CoFloCo.Tick
import Gpscat.LLVM.Proofs.IRProofs
import Gpscat.LLVM.Proofs.SymbolTableProofs
import Mathlib.Algebra.Order.BigOperators.Group.List
import Mathlib.Algebra.Order.Ring.Nat

/-!
# The name `tick`

When the name is free or names a function, `cost2tick` makes a new function of that name. When it
names a variable or an alias, the assertion fails.
-/

namespace Gpscat.CoFloCoWrapper

open Cpp LLVM

variable {U : NameUniquer} {M : Module}

/-- The module after the renaming. -/
def renameTick (U : NameUniquer) (M : Module) : Module :=
  match M.getFunction "tick" with
  | some F => M.setName U F originalTickName
  | none => M

theorem createTick_eq (U : NameUniquer) (M : Module) :
    createTick U M =
      (((renameTick U M).getOrInsertFunction "tick" tickType).1,
        ((renameTick U M).getOrInsertFunction "tick" tickType).2.asFunction) := rfl

theorem renameTick_functions (U : NameUniquer) (M : Module) :
    (renameTick U M).functions = M.functions := by
  unfold renameTick
  split <;> rfl

theorem unique_ne_tick (U : NameUniquer) (t : SymbolTable) : U.unique t originalTickName ≠ "tick" := by
  intro h
  have hpre := U.startsWith t originalTickName
  rw [h] at hpre
  exact absurd hpre.length_le (by decide)

/-- After the renaming the name is free, unless it names a variable or an alias. -/
theorem renameTick_lookup (hsym : ∀ i, M.symbols.lookup "tick" ≠ some (.global i)) :
    (renameTick U M).symbols.lookup "tick" = none := by
  unfold renameTick
  cases hF : M.getFunction "tick" with
  | none =>
    cases htick : M.symbols.lookup "tick" with
    | none => rfl
    | some g =>
      cases g with
      | function f =>
        rw [M.getFunction_eq_some.mpr htick] at hF
        exact absurd hF (by simp)
      | global i => exact absurd htick (hsym i)
  | some F =>
    have htick := M.getFunction_eq_some.mp hF
    refine (AList.lookup_insert_ne (unique_ne_tick U _).symm).trans ?_
    rw [SymbolTable.lookup_removeValue, if_pos htick]

/-- The function that was named `tick` keeps a name. -/
theorem renameTick_original {u : FunctionPtr} (hu : M.getFunction "tick" = some u) :
    ∃ name, name ≠ "tick" ∧ (renameTick U M).symbols.lookup name = some (.function u) := by
  refine ⟨U.unique (M.symbols.removeValue (.function u)) originalTickName, unique_ne_tick U _, ?_⟩
  rw [renameTick, hu]
  exact AList.lookup_insert _

/-- What `createTick` makes of a module in which `tick` is free or a function. -/
structure Created (U : NameUniquer) (M M₁ : Module) : Prop where
  eq : createTick U M = (M₁, some M.functions.length)
  functions : M₁.functions = M.functions ++ [{ type := tickType }]
  tick : M₁.getFunction "tick" = some M.functions.length
  original : ∀ u, M.getFunction "tick" = some u →
    ∃ name, name ≠ "tick" ∧ M₁.getFunction name = some u
  kept : ∀ name, name ≠ "tick" → M₁.symbols.lookup name = (renameTick U M).symbols.lookup name

theorem createTick_created (U : NameUniquer)
    (hsym : ∀ i, M.symbols.lookup "tick" ≠ some (.global i)) : ∃ M₁, Created U M M₁ := by
  have hfree := renameTick_lookup (U := U) hsym
  have hcreate := (renameTick U M).getOrInsertFunction_of_free tickType hfree
  have hlen := congrArg List.length (renameTick_functions U M)
  refine ⟨_, by rw [createTick_eq, hcreate, hlen]; rfl, ?_, ?_, fun u hu => ?_, fun name hne => ?_⟩
  · rw [← renameTick_functions U M]
  · rw [Module.getFunction_eq_some, ← hlen]
    exact AList.lookup_insert _
  · obtain ⟨name, hne, hname⟩ := renameTick_original (U := U) hu
    refine ⟨name, hne, ?_⟩
    rw [Module.getFunction_eq_some]
    exact (AList.lookup_insert_ne hne).trans hname
  · exact AList.lookup_insert_ne hne

/-- With a variable or an alias named `tick` there is no function to call. -/
theorem createTick_of_global {i : Nat} (h : M.symbols.lookup "tick" = some (.global i)) :
    (createTick U M).2 = none := by
  have hF : M.getFunction "tick" = none := by rw [Module.getFunction, h]
  have hrename : renameTick U M = M := by rw [renameTick, hF]
  rw [createTick_eq, hrename]
  exact M.getOrInsertFunction_of_global tickType h

/-- What `cost2tick` has done when its assertion holds. -/
theorem cost2tick_eq_some {blockCostMap : BlockCostMapType} {M' : Module}
    (h : cost2tick U M blockCostMap = some M') :
    ∃ M₁, Created U M M₁ ∧ M' = M₁.mapBlocks (insertTick M.functions.length blockCostMap) := by
  have hsym : ∀ i, M.symbols.lookup "tick" ≠ some (.global i) := by
    intro i hi
    have hnone := createTick_of_global (U := U) hi
    rw [cost2tick] at h
    split at h
    · rename_i heq
      rw [heq] at hnone
      exact absurd hnone (Option.some_ne_none _)
    · exact absurd h.symm (Option.some_ne_none _)
  obtain ⟨M₁, hM₁⟩ := createTick_created U hsym
  rw [cost2tick, hM₁.eq] at h
  exact ⟨M₁, hM₁, (Option.some.inj h).symm⟩

/-- The assertion of `cost2tick` holds when no variable and no alias has the name `tick`. -/
theorem cost2tick_isSome_iff {blockCostMap : BlockCostMapType} :
    (cost2tick U M blockCostMap).isSome = true ↔ ∀ i, M.symbols.lookup "tick" ≠ some (.global i) := by
  rw [Option.isSome_iff_exists]
  constructor
  · rintro ⟨M', hM'⟩ i hi
    have hglobal := createTick_of_global (U := U) hi
    obtain ⟨M₁, hM₁, -⟩ := cost2tick_eq_some hM'
    rw [hM₁.eq] at hglobal
    exact nomatch hglobal
  · intro hsym
    obtain ⟨M₁, hM₁⟩ := createTick_created U hsym
    exact ⟨_, by rw [cost2tick, hM₁.eq]⟩

/-- The blocks of the result: those of `M`, with the calls inserted. -/
theorem blockAt_cost2tick {blockCostMap : BlockCostMapType} {M' : Module}
    (h : cost2tick U M blockCostMap = some M') (p : BasicBlockPtr) :
    M'.blockAt p = (M.blockAt p).map (insertTick M.functions.length blockCostMap p) := by
  obtain ⟨M₁, hM₁, rfl⟩ := cost2tick_eq_some h
  rw [Module.blockAt_mapBlocks, Module.blockAt_of_append (List.forall_mem_singleton.mpr rfl) hM₁.functions]

/-- A function other than the user's `tick` keeps its name. -/
theorem renameTick_getFunction (hnames : M.symbols.OneName) {name : String} {f : FunctionPtr}
    (hname : name ≠ "tick") (hf : M.getFunction name = some f) :
    (renameTick U M).symbols.lookup name = some (.function f) := by
  rw [Module.getFunction_eq_some] at hf
  unfold renameTick
  split
  · rename_i u hu
    rw [Module.getFunction_eq_some] at hu
    have hfu : M.symbols.lookup name ≠ some (.function u) :=
      fun h => hname (hnames.eq_of_lookup h hu)
    have hkept : (M.symbols.removeValue (.function u)).lookup name = some (.function f) := by
      rw [SymbolTable.lookup_removeValue, if_neg hfu, hf]
    refine (AList.lookup_insert_ne ?_).trans hkept
    rintro rfl
    exact Option.some_ne_none _ (hkept.symm.trans (U.free _ _))
  · exact hf

/-- After `cost2tick` the name `tick` is that of the new function. -/
theorem getFunction_cost2tick_tick {blockCostMap : BlockCostMapType} {M' : Module}
    (h : cost2tick U M blockCostMap = some M') :
    M'.getFunction "tick" = some M.functions.length := by
  obtain ⟨M₁, hM₁, rfl⟩ := cost2tick_eq_some h
  exact hM₁.tick

theorem getFunction_cost2tick {blockCostMap : BlockCostMapType} {M' : Module}
    (hnames : M.symbols.OneName) (h : cost2tick U M blockCostMap = some M') {name : String}
    {f : FunctionPtr} (hname : name ≠ "tick") (hf : M.getFunction name = some f) :
    M'.getFunction name = some f := by
  obtain ⟨M₁, hM₁, rfl⟩ := cost2tick_eq_some h
  have hkept := renameTick_getFunction (U := U) hnames hname hf
  refine M₁.getFunction_eq_some.mpr ?_
  exact hM₁.kept name hname ▸ hkept

/-- **The name of the dummy**: `cost2tick` finds a fresh function of type `void(i32)` to call exactly
when no variable and no alias has the name `tick`. -/
theorem namesTick_iff (U : NameUniquer) (M : Module) (blockCostMap : BlockCostMapType) :
    NamesTick U M blockCostMap ↔ ∀ i, M.symbols.lookup "tick" ≠ some (.global i) := by
  constructor
  · rintro ⟨M₁, tickFunc, hcreate, -⟩ i hi
    have := createTick_of_global (U := U) hi
    rw [hcreate] at this
    exact absurd this (by simp)
  · intro hsym
    obtain ⟨M₁, h⟩ := createTick_created U hsym
    refine ⟨M₁, _, h.eq, rfl, h.functions, h.tick, ?_⟩
    rw [cost2tick, h.eq]

/-! ## A variable named `tick` -/

/-- A choice of names: a name that is taken is made longer than all names of the table. -/
def paddedUniquer : NameUniquer where
  unique t base := if t.lookup base = none then base else
    base ++ String.ofList (List.replicate ((t.keys.map String.length).sum + 1) '0')
  startsWith t base := by
    split_ifs
    · exact List.prefix_rfl
    · rw [String.toList_append]
      exact List.prefix_append _ _
  free t base := by
    by_cases h : t.lookup base = none
    · rw [if_pos h]
      exact h
    · rw [if_neg h, AList.lookup_eq_none]
      intro hmem
      have hle := List.single_le_sum (fun _ _ => Nat.zero_le _) _
        (List.mem_map_of_mem (f := String.length) (AList.mem_keys.mp hmem))
      rw [String.length_append, String.length_ofList, List.length_replicate] at hle
      omega
  of_free t base h := if_pos h

/-- A module whose only global is a variable named `tick`. -/
def variableTick : Module where
  functions := []
  globals := [.variable (.int 32)]
  symbols := (∅ : SymbolTable).insert "tick" (.global 0)

theorem variableTick_not_namesTick : ¬ NamesTick paddedUniquer variableTick ∅ := by
  rintro ⟨M₁, tickFunc, hcreate, -⟩
  have hsym : variableTick.symbols.lookup "tick" = some (.global 0) := AList.lookup_insert _
  have := createTick_of_global (U := paddedUniquer) hsym
  rw [hcreate] at this
  exact absurd this (by simp)

end Gpscat.CoFloCoWrapper
