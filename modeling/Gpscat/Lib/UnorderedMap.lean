import Mathlib.Data.List.AList

/-!
# Associative containers

`std::unordered_map` and `std::map` as association lists with distinct keys. The order of the list
is the order of insertion; the C++ standard leaves the iteration order of an unordered map open, so
what is proved about a traversal has to hold for every permutation of the entries.
-/

namespace Cpp

/-- A map from `κ` to `ν` with finitely many entries and one entry a key. -/
abbrev UnorderedMap (κ ν : Type) := AList fun _ : κ => ν

namespace UnorderedMap

variable {κ ν : Type} [DecidableEq κ]

/-- The value under a key, or `d` when `find` returns `end()`. -/
def findD (m : UnorderedMap κ ν) (k : κ) (d : ν) : ν :=
  (m.lookup k).getD d

/-- `f(m[k])`: `operator[]` inserts the value-initialised `d` for an absent key before `f` is
applied in place. -/
def modify (m : UnorderedMap κ ν) (k : κ) (d : ν) (f : ν → ν) : UnorderedMap κ ν :=
  m.insert k (f (m.findD k d))

/-- The entries whose key satisfies `p`. -/
def filterKeys (p : κ → Bool) (m : UnorderedMap κ ν) : UnorderedMap κ ν :=
  ⟨m.entries.filter fun e => p e.1, m.nodupKeys.sublist List.filter_sublist⟩

@[simp] theorem lookup_modify_self (m : UnorderedMap κ ν) (k : κ) (d : ν) (f : ν → ν) :
    (m.modify k d f).lookup k = some (f (m.findD k d)) := by
  simp [modify]

theorem lookup_modify_of_ne (m : UnorderedMap κ ν) {k k' : κ} (h : k' ≠ k) (d : ν) (f : ν → ν) :
    (m.modify k d f).lookup k' = m.lookup k' := by
  simp [modify, AList.lookup_insert_ne h]

theorem findD_modify (m : UnorderedMap κ ν) (k k' : κ) (d : ν) (f : ν → ν) :
    (m.modify k d f).findD k' d = if k' = k then f (m.findD k d) else m.findD k' d := by
  by_cases h : k' = k
  · subst h; simp [findD]
  · simp [findD, lookup_modify_of_ne m h, h]

/-- A map of lists that leaves the empty ones out still yields them by default. -/
theorem findD_of_lookup_eq {α : Type} {m : UnorderedMap κ (List α)} {k : κ} {v : List α}
    (h : m.lookup k = if v = [] then none else some v) : m.findD k [] = v := by
  rw [findD, h]
  split_ifs with hnil
  · rw [hnil, Option.getD_none]
  · rfl

theorem lookup_filterKeys (p : κ → Bool) (m : UnorderedMap κ ν) (k : κ) :
    (m.filterKeys p).lookup k = if p k then m.lookup k else none := by
  change (m.entries.filter fun e => p e.1).dlookup k = if p k then m.entries.dlookup k else none
  generalize m.entries = l
  induction l with
  | nil => rw [List.filter_nil, List.dlookup_nil, ite_self]
  | cons e l ih =>
    obtain ⟨a, b⟩ := e
    by_cases ha : p a = true
    · rw [List.filter_cons_of_pos (p := fun e : (_ : κ) × ν => p e.1) ha]
      by_cases hk : k = a
      · subst hk
        rw [List.dlookup_cons_eq, List.dlookup_cons_eq, if_pos ha]
      · rw [List.dlookup_cons_ne _ _ hk, List.dlookup_cons_ne _ _ hk, ih]
    · rw [List.filter_cons_of_neg (p := fun e : (_ : κ) × ν => p e.1) ha, ih]
      by_cases hk : k = a
      · subst hk
        rw [if_neg ha, if_neg ha]
      · rw [List.dlookup_cons_ne _ _ hk]

end UnorderedMap

end Cpp
