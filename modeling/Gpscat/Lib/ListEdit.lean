import Mathlib.Data.List.Basic

/-!
# Loops that change the list they walk

An instruction list is walked while instructions are inserted into it or erased from it. Elements
are addressed by their positions, so an insertion moves the positions behind it.
-/

namespace ListEdit

variable {α : Type}

/-! ## Insertion -/

/-- The position of the element at `q` after an insertion at `p`. -/
def shift (p q : Nat) : Nat := if p ≤ q then q + 1 else q

theorem shift_succ (p q : Nat) : shift (p + 1) (q + 1) = shift p q + 1 := by
  unfold shift
  split <;> split <;> omega

theorem le_shift (p q : Nat) : q ≤ shift p q := by
  unfold shift
  split <;> omega

/-- A filter that drops the new element does not see the insertion. -/
theorem filter_insertIdx {p : α → Bool} {x : α} (hx : p x = false) (l : List α) (i : Nat) :
    (l.insertIdx i x).filter p = l.filter p := by
  induction l generalizing i with
  | nil =>
    cases i with
    | zero => rw [List.insertIdx_zero, List.filter_cons_of_neg (by rw [hx]; exact Bool.false_ne_true)]
    | succ i => rw [List.insertIdx_succ_nil]
  | cons a l ih =>
    cases i with
    | zero => rw [List.insertIdx_zero, List.filter_cons_of_neg (by rw [hx]; exact Bool.false_ne_true)]
    | succ i =>
      rw [List.insertIdx_succ_cons, List.filter_cons, List.filter_cons, ih]

/-- What lies behind the element at `q` after an insertion that `p` does not count. -/
theorem countP_drop_insertIdx {p : α → Bool} {x : α} (hx : p x = false) (l : List α) (i q : Nat) :
    ((l.insertIdx i x).drop (shift i q + 1)).countP p = (l.drop (q + 1)).countP p := by
  induction l generalizing i q with
  | nil =>
    cases i with
    | zero => rfl
    | succ i => rw [List.insertIdx_succ_nil, List.drop_nil, List.drop_nil]
  | cons a l ih =>
    cases i with
    | zero => rw [List.insertIdx_zero, shift, if_pos (Nat.zero_le q), List.drop_succ_cons]
    | succ i =>
      cases q with
      | zero =>
        have hzero : shift (i + 1) 0 = 0 := if_neg (by omega)
        rw [hzero, List.insertIdx_succ_cons, List.drop_succ_cons, List.drop_succ_cons,
          List.drop_zero, List.drop_zero, List.countP_eq_length_filter,
          List.countP_eq_length_filter, filter_insertIdx hx]
      | succ q =>
        rw [shift_succ, List.insertIdx_succ_cons, List.drop_succ_cons, List.drop_succ_cons, ih]

theorem countP_drop {p : α → Bool} {l : List α} {q : Nat} {a : α} (ha : l[q]? = some a) :
    (l.drop q).countP p = (l.drop (q + 1)).countP p + if p a then 1 else 0 := by
  obtain ⟨hq, rfl⟩ := List.getElem?_eq_some_iff.mp ha
  rw [List.drop_eq_getElem_cons hq, List.countP_cons]

/-! ## Erasure -/

/-- The loop `for(it = begin; it != end;) { x = *it++; if(p(x)) erase(x); }`: `passed` lies before
the iterator, the other list from it on. -/
def eraseLoop (p : α → Bool) : List α → List α → List α
  | passed, [] => passed
  | passed, x :: rest => if p x then eraseLoop p passed rest else eraseLoop p (passed ++ [x]) rest

/-- The loop keeps the elements that `p` does not ask for, in their order. -/
theorem eraseLoop_eq_filter (p : α → Bool) (passed rest : List α) :
    eraseLoop p passed rest = passed ++ rest.filter (!p ·) := by
  induction rest generalizing passed with
  | nil => rw [eraseLoop, List.filter_nil, List.append_nil]
  | cons x rest ih =>
    by_cases hx : p x = true
    · rw [eraseLoop, if_pos hx, ih, List.filter_cons_of_neg (by simp [hx])]
    · rw [eraseLoop, if_neg hx, ih, List.filter_cons_of_pos (by simpa using hx),
        List.append_assoc, List.singleton_append]

/-! ## Positions after an erasure -/

/-- The position that the element at `q` has once only the elements with `p` are kept. -/
def rank (p : α → Bool) (l : List α) (q : Nat) : Nat := (l.take q).countP p

@[simp] theorem rank_zero (p : α → Bool) (l : List α) : rank p l 0 = 0 := by
  rw [rank, List.take_zero, List.countP_nil]

theorem rank_succ {p : α → Bool} {l : List α} {q : Nat} {a : α} (ha : l[q]? = some a) :
    rank p l (q + 1) = rank p l q + if p a then 1 else 0 := by
  rw [rank, List.take_add_one, ha, Option.toList_some, List.countP_append, List.countP_singleton]
  rfl

theorem rank_of_length_le {p : α → Bool} {l : List α} {q : Nat} (hq : l.length ≤ q) :
    rank p l q = (l.filter p).length := by
  rw [rank, List.take_of_length_le hq, List.countP_eq_length_filter]

/-- An element that is kept is at its new position. -/
theorem getElem?_filter_rank {p : α → Bool} {l : List α} {q : Nat} {a : α} (ha : l[q]? = some a)
    (hp : p a = true) : (l.filter p)[rank p l q]? = some a := by
  obtain ⟨hq, rfl⟩ := List.getElem?_eq_some_iff.mp ha
  have hsplit : l = l.take q ++ l[q] :: l.drop (q + 1) := by
    rw [← List.drop_eq_getElem_cons hq, List.take_append_drop]
  have hfilter : l.filter p = (l.take q).filter p ++ l[q] :: (l.drop (q + 1)).filter p := by
    conv_lhs => rw [hsplit, List.filter_append, List.filter_cons_of_pos hp]
  rw [hfilter, rank, List.countP_eq_length_filter, List.getElem?_append_right (Nat.le_refl _),
    Nat.sub_self]
  rfl

/-- Where an element that is kept has been, and what follows it. -/
theorem exists_of_lt_length_filter {p : α → Bool} {l : List α} {i : Nat}
    (hi : i < (l.filter p).length) :
    ∃ j, ∃ hj : j < l.length, p l[j] = true ∧ (l.filter p)[i] = l[j] ∧
      (l.filter p).drop (i + 1) = (l.drop (j + 1)).filter p := by
  induction l generalizing i with
  | nil => exact absurd hi (Nat.not_lt_zero i)
  | cons a l ih =>
    by_cases ha : p a = true
    · have hcons := List.filter_cons_of_pos (l := l) ha
      simp only [hcons] at hi ⊢
      cases i with
      | zero => exact ⟨0, Nat.succ_pos _, ha, rfl, rfl⟩
      | succ i =>
        obtain ⟨j, hj, hp, hget, hdrop⟩ := ih (Nat.lt_of_succ_lt_succ hi)
        exact ⟨j + 1, Nat.succ_lt_succ hj, hp, hget, hdrop⟩
    · have hcons := List.filter_cons_of_neg (l := l) ha
      simp only [hcons] at hi ⊢
      obtain ⟨j, hj, hp, hget, hdrop⟩ := ih hi
      exact ⟨j + 1, Nat.succ_lt_succ hj, hp, hget, hdrop⟩

end ListEdit
