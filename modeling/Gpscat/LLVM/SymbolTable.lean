import Gpscat.LLVM.IR

/-!
# Names of globals

The operations on the symbol table of a module, as LLVM 8 documents them: functions, variables and
aliases share one name space, a colliding name is made unique, and `getOrInsertFunction` only makes
a function when the name is free.
-/

namespace LLVM

open Cpp

/-- The choice of a name for a global that asks for `base`, which depends on the names taken. A
suffix makes a name unique. -/
structure NameUniquer where
  unique : SymbolTable → String → String
  startsWith : ∀ t base, base.toList <+: (unique t base).toList
  free : ∀ (t : SymbolTable) base, t.lookup (unique t base) = none
  of_free : ∀ (t : SymbolTable) base, t.lookup base = none → unique t base = base

/-- The table without the name of a global. -/
def SymbolTable.removeValue (t : SymbolTable) (g : GlobalRef) : SymbolTable :=
  ⟨t.entries.filter (·.2 ≠ g), t.nodupKeys.sublist List.filter_sublist⟩

/-- No global has two names. -/
def SymbolTable.OneName (t : SymbolTable) : Prop := (t.entries.map Sigma.snd).Nodup

instance (t : SymbolTable) : Decidable t.OneName :=
  inferInstanceAs (Decidable (t.entries.map Sigma.snd).Nodup)

/-- An `llvm::Constant` that is a global or a bitcast of one. -/
inductive Constant where
  | global (g : GlobalRef)
  | bitCast (g : GlobalRef)
  deriving Repr, DecidableEq

/-- `llvm::dyn_cast<llvm::Function>`. -/
def Constant.asFunction : Constant → Option FunctionPtr
  | .global (.function f) => some f
  | _ => none

namespace Module

variable (M : Module)

/-- `getFunction`: null for a name that is free or bound to another kind of global. -/
def getFunction (name : String) : Option FunctionPtr :=
  match M.symbols.lookup name with
  | some (.function f) => some f
  | _ => none

/-- `F->setName(name)`. The old name is free from then on. -/
def setName (U : NameUniquer) (F : FunctionPtr) (name : String) : Module :=
  let symbols := M.symbols.removeValue (.function F)
  { M with symbols := symbols.insert (U.unique symbols name) (.function F) }

/-- Whether a global points to a function of the given type. -/
def HasFunctionType (g : GlobalRef) (type : FunctionType) : Prop :=
  match g with
  | .function f => (M.functions[f]?).map (·.type) = some type
  | .global i => M.globals[i]? = some (.aliasOf (.inr type))

instance (g : GlobalRef) (type : FunctionType) : Decidable (M.HasFunctionType g type) :=
  match g with
  | .function _ | .global _ => inferInstanceAs (Decidable (_ = _))

/-- `getOrInsertFunction`: the global of that name, as a bitcast when its type is another one, or a
new declaration. -/
def getOrInsertFunction (name : String) (type : FunctionType) : Module × Constant :=
  match M.symbols.lookup name with
  | some g => (M, if M.HasFunctionType g type then .global g else .bitCast g)
  | none =>
    let f := M.functions.length
    ({ M with functions := M.functions ++ [{ type := type }], symbols := M.symbols.insert name (.function f) },
      .global (.function f))

end Module

end LLVM
