import Gpscat.Lib.CppString
import Mathlib.Data.List.TakeWhile

/-!
# Lemmas about C++ strings
-/

namespace Cpp

/-! ## `find` -/

theorem find_cons_pos {pat s : Text} {c : Char} (h : pat <+: c :: s) :
    find pat (c :: s) = some 0 := by
  rw [find, if_pos (List.isPrefixOf_iff_prefix.mpr h)]

theorem find_cons_neg {pat s : Text} {c : Char} (h : ¬ pat <+: c :: s) :
    find pat (c :: s) = (find pat s).map (· + 1) := by
  rw [find, if_neg fun h' => h (List.isPrefixOf_iff_prefix.mp h')]

theorem find_eq_none_iff {pat s : Text} : find pat s = none ↔ ¬ pat <:+: s := by
  induction s with
  | nil => cases pat <;> simp [find]
  | cons c s ih =>
    rw [List.infix_cons_iff]
    by_cases h : pat <+: c :: s
    · simp [find_cons_pos h, h]
    · rw [find_cons_neg h, Option.map_eq_none_iff, ih]
      simp [h]

/-- The position that `find` returns is the first one. -/
theorem find_eq_some {pat s : Text} {i : Nat} (h : find pat s = some i) :
    pat <+: s.drop i ∧ ∀ k < i, ¬ pat <+: s.drop k := by
  induction s generalizing i with
  | nil =>
    cases pat with
    | nil =>
      obtain rfl : 0 = i := by simpa [find] using h
      exact ⟨by rw [List.drop_nil], fun k hk => absurd hk (Nat.not_lt_zero k)⟩
    | cons c pat => simp [find] at h
  | cons c s ih =>
    by_cases hp : pat <+: c :: s
    · rw [find_cons_pos hp] at h
      obtain rfl := Option.some.inj h
      exact ⟨hp, fun k hk => absurd hk (Nat.not_lt_zero k)⟩
    · rw [find_cons_neg hp] at h
      obtain ⟨j, hj, rfl⟩ := Option.map_eq_some_iff.mp h
      obtain ⟨hat, hfirst⟩ := ih hj
      refine ⟨hat, fun k hk => ?_⟩
      cases k with
      | zero => exact hp
      | succ k => exact hfirst k (by omega)

/-- An occurrence that avoids a character stands on one side of it. -/
theorem infix_append_cons {pat x y : Text} {c : Char} (hc : c ∉ pat)
    (h : pat <:+: x ++ c :: y) : pat <:+: x ∨ pat <:+: y := by
  induction x with
  | nil =>
    rw [List.nil_append, List.infix_cons_iff] at h
    rcases h with hp | hi
    · cases pat with
      | nil => exact .inl List.infix_rfl
      | cons d pat =>
        obtain ⟨rfl, -⟩ := List.cons_prefix_cons.mp hp
        exact absurd List.mem_cons_self hc
    · exact .inr hi
  | cons d x ih =>
    rw [List.cons_append, List.infix_cons_iff] at h
    rcases h with hp | hi
    · left
      refine List.IsPrefix.isInfix ?_
      rw [← List.cons_append] at hp
      rcases List.prefix_or_prefix_of_prefix hp (List.prefix_append (d :: x) (c :: y)) with h' | h'
      · exact h'
      · -- The occurrence would reach `c`.
        obtain ⟨q, rfl⟩ := h'
        cases q with
        | nil => rw [List.append_nil]
        | cons e q =>
          rw [List.prefix_append_right_inj] at hp
          obtain ⟨rfl, -⟩ := List.cons_prefix_cons.mp hp
          exact absurd (List.mem_append_right _ List.mem_cons_self) hc
    · exact (ih hi).imp (fun h' => h'.trans (List.suffix_cons d x).isInfix) id

theorem find_singleton_of_notMem {c : Char} {s : Text} (h : c ∉ s) : find [c] s = none :=
  find_eq_none_iff.mpr fun hi => h (List.singleton_infix_iff c s |>.mp hi)

theorem find_singleton_append {c : Char} {x : Text} (h : c ∉ x) (y : Text) :
    find [c] (x ++ c :: y) = some x.length := by
  induction x with
  | nil => exact find_cons_pos (List.prefix_append [c] y)
  | cons d x ih =>
    have hne : ¬ [c] <+: d :: (x ++ c :: y) := fun hp =>
      h (List.mem_cons.mpr (.inl (List.cons_prefix_cons.mp hp).1))
    rw [List.cons_append, find_cons_neg hne, ih fun hx => h (List.mem_cons_of_mem d hx)]
    rfl

/-! ## `lines` -/

theorem lines_append {x : Text} (h : '\n' ∉ x) (s : Text) :
    lines (x ++ '\n' :: s) = x :: lines s := by
  induction x with
  | nil => rw [List.nil_append, lines, if_pos rfl]
  | cons c x ih =>
    have hc : c ≠ '\n' := fun hc => h (hc ▸ List.mem_cons_self)
    rw [List.cons_append, lines, if_neg hc, ih fun hx => h (List.mem_cons_of_mem c hx)]

theorem lines_of_notMem {x : Text} (hne : x ≠ []) (h : '\n' ∉ x) : lines x = [x] := by
  induction x with
  | nil => exact absurd rfl hne
  | cons c x ih =>
    have hc : c ≠ '\n' := fun hc => h (hc ▸ List.mem_cons_self)
    rw [lines, if_neg hc]
    rcases eq_or_ne x [] with rfl | hx
    · rfl
    · rw [ih hx fun hx => h (List.mem_cons_of_mem c hx)]

theorem unlines_append (ls ls' : List Text) : unlines (ls ++ ls') = unlines ls ++ unlines ls' := by
  induction ls with
  | nil => rfl
  | cons l ls ih => rw [List.cons_append, unlines, unlines, ih, List.append_assoc, List.cons_append]

/-! ## `stoul` -/

theorem toDigits_isDigit {n : Nat} {c : Char} (hc : c ∈ Nat.toDigits 10 n) : c.isDigit = true :=
  Nat.isDigit_of_mem_toDigits (b := 10) (by decide) (by decide) hc

theorem toDigits_injective {n m : Nat} (h : Nat.toDigits 10 n = Nat.toDigits 10 m) : n = m := by
  rw [← Nat.ofDigitChars_ten_toDigits (n := n), h, Nat.ofDigitChars_ten_toDigits]

theorem not_isSpace_of_isDigit {c : Char} (h : c.isDigit = true) : isSpace c = false := by
  simp only [Char.isDigit, Bool.and_eq_true, decide_eq_true_eq] at h
  have hlo : 48 ≤ c.toNat := by simpa using UInt32.le_iff_toNat_le.mp h.1
  have hne : c ≠ ' ' := by rintro rfl; exact absurd hlo (by decide)
  simp only [isSpace, Bool.or_eq_false_iff, beq_eq_false_iff_ne, ne_eq, hne, not_false_eq_true,
    Bool.and_eq_false_iff, decide_eq_false_iff_not, true_and]
  omega

theorem splitSign_of_isDigit {c : Char} (h : c.isDigit = true) (s : Text) :
    splitSign (c :: s) = (false, c :: s) := by
  unfold splitSign
  split
  · rename_i heq
    obtain ⟨rfl, -⟩ := List.cons.inj heq
    exact absurd h (by decide)
  · rename_i heq
    obtain ⟨rfl, -⟩ := List.cons.inj heq
    exact absurd h (by decide)
  · rfl

/-- On a text of digits, `stoul` is the decimal value. -/
theorem stoul_of_digits {s : Text} (hne : s ≠ []) (hdig : ∀ c ∈ s, c.isDigit = true)
    (hlt : Nat.ofDigitChars 10 s 0 < 2 ^ 64) : stoul s = .ok (Nat.ofDigitChars 10 s 0) := by
  obtain ⟨c, t, rfl⟩ := List.exists_cons_of_ne_nil hne
  have hc : c.isDigit = true := hdig c List.mem_cons_self
  have hdrop : (c :: t).dropWhile isSpace = c :: t :=
    List.dropWhile_cons_of_neg (by rw [not_isSpace_of_isDigit hc]; exact Bool.false_ne_true)
  have htake : (c :: t).takeWhile Char.isDigit = c :: t := by
    rw [List.takeWhile_eq_self_iff]; exact hdig
  simp only [stoul, hdrop, splitSign_of_isDigit hc, htake, List.isEmpty_cons]
  rw [if_neg Bool.false_ne_true, if_neg (by omega), if_neg Bool.false_ne_true]

end Cpp
