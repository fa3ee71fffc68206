import Gpscat.Score.SymEngine
import Mathlib.Algebra.Order.Ring.Rat

/-!
# Substitution

What `subs` leaves of the symbols, and two substitutions one after the other.
-/

namespace Gpscat.Score.Basic

open Cpp

variable {Op K : Type}

theorem subs_symbol_of_lookup {m : SubsMap K} {name : Text} {t : K} (h : m.lookup name = some t) :
    (symbol name : Basic Op K).subs m = number t := by
  rw [subs, h]

theorem subs_symbol_of_notMem {m : SubsMap K} {name : Text} (h : name ∉ m) :
    (symbol name : Basic Op K).subs m = symbol name := by
  rw [subs, Finmap.lookup_eq_none.mpr h]

mutual

theorem subs_empty : ∀ e : Basic Op K, e.subs ∅ = e
  | number _ => rfl
  | symbol _ => subs_symbol_of_notMem Finmap.notMem_empty
  | node op args => by rw [subs, subsArgs_empty args]

theorem subsArgs_empty : ∀ args : List (Basic Op K), subsArgs ∅ args = args
  | [] => rfl
  | arg :: args => by rw [subsArgs, subs_empty arg, subsArgs_empty args]

end

mutual

/-- A number for one more symbol can be put in afterwards. -/
theorem subs_insert {m : SubsMap K} {x : Text} (hx : x ∉ m) (t : K) :
    ∀ e : Basic Op K, e.subs (m.insert x t) = (e.subs m).subs (Finmap.singleton x t)
  | number _ => rfl
  | symbol name => by
    by_cases hname : name = x
    · subst hname
      rw [subs_symbol_of_notMem hx, subs_symbol_of_lookup (Finmap.lookup_insert m),
        subs_symbol_of_lookup Finmap.lookup_singleton_eq]
    · have hinsert := Finmap.lookup_insert_of_ne (b := t) m hname
      cases hm : m.lookup name with
      | some q =>
        rw [subs_symbol_of_lookup hm, subs_symbol_of_lookup (hinsert.trans hm), subs]
      | none =>
        have hsingle : name ∉ (Finmap.singleton x t : SubsMap K) := fun h =>
          hname ((Finmap.mem_singleton name x t).mp h)
        rw [subs_symbol_of_notMem (Finmap.lookup_eq_none.mp hm), subs_symbol_of_notMem hsingle,
          subs_symbol_of_notMem (Finmap.lookup_eq_none.mp (hinsert.trans hm))]
  | node op args => by rw [subs, subs, subs, subsArgs_insert hx t args]

theorem subsArgs_insert {m : SubsMap K} {x : Text} (hx : x ∉ m) (t : K) :
    ∀ args : List (Basic Op K),
      subsArgs (m.insert x t) args = subsArgs (Finmap.singleton x t) (subsArgs m args)
  | [] => rfl
  | arg :: args => by
    rw [subsArgs, subsArgs, subsArgs, subs_insert hx t arg, subsArgs_insert hx t args]

end

mutual

/-- The symbols without a number are left. -/
theorem mem_getSymbols_subs (m : SubsMap K) (name : Text) :
    ∀ e : Basic Op K, name ∈ (e.subs m).getSymbols ↔ name ∈ e.getSymbols ∧ name ∉ m
  | number _ => by simp [subs, getSymbols]
  | symbol x => by
    cases hx : m.lookup x with
    | some q =>
      have hmem := Finmap.mem_of_lookup_eq_some hx
      rw [subs_symbol_of_lookup hx, getSymbols, getSymbols, Finset.mem_singleton]
      constructor
      · exact fun h => absurd h (Finset.notMem_empty name)
      · rintro ⟨rfl, hnot⟩
        exact absurd hmem hnot
    | none =>
      have hnot := Finmap.lookup_eq_none.mp hx
      rw [subs_symbol_of_notMem hnot, getSymbols, Finset.mem_singleton]
      constructor
      · rintro rfl
        exact ⟨rfl, hnot⟩
      · exact fun h => h.1
  | node op args => by
    rw [subs, getSymbols, getSymbols]
    exact mem_getSymbolsArgs_subsArgs m name args

theorem mem_getSymbolsArgs_subsArgs (m : SubsMap K) (name : Text) :
    ∀ args : List (Basic Op K),
      name ∈ getSymbolsArgs (subsArgs m args) ↔ name ∈ getSymbolsArgs args ∧ name ∉ m
  | [] => by simp [subsArgs, getSymbolsArgs]
  | arg :: args => by
    rw [subsArgs, getSymbolsArgs, getSymbolsArgs, Finset.mem_union, Finset.mem_union,
      mem_getSymbols_subs m name arg, mem_getSymbolsArgs_subsArgs m name args, or_and_right]

end

section Values

variable [Operation Op K] {m : SubsMap K} {ρ : Text → K}

mutual

/-- What is converted once all symbols have numbers is the value at the point of these numbers. -/
theorem toDouble_subs : ∀ e : Basic Op K, (∀ name ∈ e.getSymbols, m.lookup name = some (ρ name)) →
    (e.subs m).toDouble = e.eval ρ
  | number _, _ => rfl
  | symbol name, h => by
    rw [subs_symbol_of_lookup (h name (Finset.mem_singleton_self name)), toDouble, eval]
  | node op args, h => by
    rw [subs, toDouble, eval, toDoubleArgs_subsArgs args h]

theorem toDoubleArgs_subsArgs : ∀ args : List (Basic Op K),
    (∀ name ∈ getSymbolsArgs args, m.lookup name = some (ρ name)) →
    toDoubleArgs (subsArgs m args) = evalArgs ρ args
  | [], _ => rfl
  | arg :: args, h => by
    have hfirst := toDouble_subs arg fun name hname => h name (Finset.mem_union_left _ hname)
    have hrest := toDoubleArgs_subsArgs args fun name hname => h name (Finset.mem_union_right _ hname)
    rw [subsArgs, toDoubleArgs, evalArgs, hfirst, hrest]

end

end Values

end Gpscat.Score.Basic

namespace Gpscat.Score

/-- The cost function `x*y`. -/
def productCost : Basic Arithmetic ℚ := .node .mul [.symbol "x".toList, .symbol "y".toList]

end Gpscat.Score
