import Gpscat.CoFloCo.NatRewriting
import Gpscat.Lib.Proofs.BracketsProofs
import Gpscat.Lib.Proofs.CppStringProofs

/-!
# `replaceNatWithMax` on arbitrary text

The two equations `replaceNatWithMax_char` and `replaceNatWithMax_nat` say what the function does
at the first character of a text. With them it computes the relation `Rewritten`, and what is
proved about texts is proved by induction on that relation.
-/

namespace Gpscat.CoFloCoWrapper

open Cpp Brackets

/-! ## Counting parentheses -/

theorem parenthesis_ge (c : Char) : -1 ≤ parenthesis c := by
  unfold parenthesis
  split_ifs <;> omega

theorem parenthesis_eq_neg_one {c : Char} (h : parenthesis c = -1) : c = ')' := by
  unfold parenthesis at h
  split_ifs at h with h₁ h₂
  exact h₂

theorem countParenthesis_eq (n : Int) (c : Char) : countParenthesis n c = n + parenthesis c := by
  unfold countParenthesis parenthesis
  by_cases ho : c = '('
  · subst ho; simp
  · by_cases hc : c = ')'
    · subst hc; simp; omega
    · simp [ho, hc]

theorem closingLoop_cons (n : Int) (pos : Nat) (c : Char) (s : Text) :
    closingLoop n pos (c :: s) =
      if n + parenthesis c = 0 then some pos else closingLoop (n + parenthesis c) (pos + 1) s := by
  rw [← countParenthesis_eq]
  rfl

/-! ## The closing parenthesis -/

/-- The loop passes a word in which the counter stays positive. -/
theorem closingLoop_append {b : Text} (s : Text) {n : Int} (pos : Nat)
    (h : ∀ k, 1 ≤ n + depth parenthesis (b.take k)) :
    closingLoop n pos (b ++ s) = closingLoop (n + depth parenthesis b) (pos + b.length) s := by
  induction b generalizing n pos with
  | nil => simp
  | cons c b ih =>
    have hfirst := h 1
    rw [List.take_succ_cons, List.take_zero, depth_cons, depth_nil] at hfirst
    have hrest : ∀ k, 1 ≤ n + parenthesis c + depth parenthesis (b.take k) := by
      intro k
      have := h (k + 1)
      rw [List.take_succ_cons, depth_cons] at this
      omega
    rw [List.cons_append, closingLoop_cons, if_neg (by omega), ih (pos + 1) hrest, depth_cons,
      List.length_cons, add_assoc, show pos + 1 + b.length = pos + (b.length + 1) by omega]

theorem closingLoop_balanced {b : Text} (hb : Balanced parenthesis b) (t : Text) (pos : Nat) :
    closingLoop 1 pos (b ++ ')' :: t) = some (pos + b.length) := by
  rw [closingLoop_append _ _ fun k => by have := hb.nonneg k; omega, hb.depth_eq, closingLoop_cons,
    if_pos (by decide)]

/-- Where the loop stops, the counter has come down to 0 for the first time. -/
theorem closingLoop_eq_some {s : Text} {n : Int} {pos j : Nat} (hn : 1 ≤ n)
    (h : closingLoop n pos s = some j) :
    ∃ b t, s = b ++ ')' :: t ∧ j = pos + b.length ∧ n + depth parenthesis b = 1 ∧
      ∀ k, 1 ≤ n + depth parenthesis (b.take k) := by
  induction s generalizing n pos with
  | nil => simp [closingLoop] at h
  | cons c s ih =>
    have hc := parenthesis_ge c
    rw [closingLoop_cons] at h
    split_ifs at h with hzero
    · have hclose : c = ')' := parenthesis_eq_neg_one (by omega)
      refine ⟨[], s, by rw [hclose, List.nil_append], ?_, ?_, fun k => ?_⟩
      · simpa using h.symm
      · rw [depth_nil]; omega
      · simpa using hn
    · obtain ⟨b, t, rfl, rfl, hb, hpos⟩ := ih (by omega) h
      refine ⟨c :: b, t, rfl, ?_, ?_, fun k => ?_⟩
      · rw [List.length_cons]; omega
      · rw [depth_cons, ← add_assoc]; exact hb
      · cases k with
        | zero => simpa using hn
        | succ k =>
          rw [List.take_succ_cons, depth_cons, ← add_assoc]
          exact hpos k

theorem closingLoop_shift (s : Text) (n : Int) (pos : Nat) :
    closingLoop n (pos + 1) s = (closingLoop n pos s).map (· + 1) := by
  induction s generalizing n pos with
  | nil => rfl
  | cons c s ih =>
    rw [closingLoop_cons, closingLoop_cons, ih]
    split_ifs <;> rfl

/-- The counter of the loop never falls below 0. -/
theorem counterValues_nonneg {s : Text} {n : Int} (hn : 1 ≤ n) :
    ∀ v ∈ counterValues n s, 0 ≤ v := by
  induction s generalizing n with
  | nil => intro v hv; simp [counterValues] at hv
  | cons c s ih =>
    intro v hv
    have hc := parenthesis_ge c
    have hcount := countParenthesis_eq n c
    simp only [counterValues, List.mem_cons] at hv
    rcases hv with rfl | hv
    · omega
    · split_ifs at hv with hzero
      · simp at hv
      · exact ih (by omega) v hv

/-! ## `findClosingParenthesis` at a `nat(` -/

theorem drop_natOpen_append (p r : Text) : (p ++ natOpen ++ r).drop (p.length + 3) = '(' :: r := by
  rw [List.append_assoc, List.drop_append, List.drop_of_length_le (by omega), List.nil_append,
    Nat.add_sub_cancel_left]
  rfl

theorem findClosingParenthesis_balanced (p : Text) {b : Text} (hb : Balanced parenthesis b)
    (t : Text) :
    findClosingParenthesis (p ++ natOpen ++ (b ++ ')' :: t)) (p.length + 3) =
      some (p.length + 4 + b.length) := by
  rw [findClosingParenthesis, drop_natOpen_append, closingLoop_cons, if_neg (by decide)]
  exact closingLoop_balanced hb t (p.length + 4)

theorem findClosingParenthesis_eq_some {p r : Text} {j : Nat}
    (h : findClosingParenthesis (p ++ natOpen ++ r) (p.length + 3) = some j) :
    ∃ b t, r = b ++ ')' :: t ∧ Balanced parenthesis b ∧ j = p.length + 4 + b.length := by
  rw [findClosingParenthesis, drop_natOpen_append, closingLoop_cons, if_neg (by decide)] at h
  obtain ⟨b, t, rfl, hj, hdepth, hpos⟩ := closingLoop_eq_some (n := 1) le_rfl h
  refine ⟨b, t, rfl, ⟨by omega, fun k => ?_⟩, by omega⟩
  have := hpos k
  omega

/-- The first `nat(` of a text and what surrounds it. -/
theorem split_of_find {s : Text} {pos : Nat} (h : find natOpen s = some pos) :
    ∃ p r, s = p ++ natOpen ++ r ∧ p.length = pos ∧ ∀ k < pos, ¬ NatAt s k := by
  obtain ⟨⟨r, hr⟩, hfirst⟩ := find_eq_some h
  refine ⟨s.take pos, r, ?_, ?_, hfirst⟩
  · rw [List.append_assoc, hr, List.take_append_drop]
  · refine List.length_take_of_le ?_
    by_contra hlt
    rw [List.drop_of_length_le (by omega)] at hr
    simp [natOpen] at hr

theorem natBody_eq (p b t : Text) :
    natBody (p ++ natOpen ++ (b ++ ')' :: t)) p.length (some (p.length + 4 + b.length)) = b := by
  have hlen : (p ++ natOpen).length = p.length + 4 := by rw [List.length_append]; rfl
  rw [natBody, ← hlen, List.drop_left', show (p ++ natOpen).length + b.length - p.length - 4 =
    b.length by omega, List.take_left']
  all_goals rfl

theorem natTail_eq (p b t : Text) :
    natTail (p ++ natOpen ++ (b ++ ')' :: t)) (some (p.length + 4 + b.length)) = t := by
  have hsplit : p ++ natOpen ++ (b ++ ')' :: t) = (p ++ natOpen ++ (b ++ [')'])) ++ t := by simp
  have hlen : (p ++ natOpen ++ (b ++ [')'])).length = p.length + 4 + b.length + 1 := by
    simp only [List.length_append, List.length_cons, List.length_nil]
    change p.length + 4 + (b.length + 1) = _
    omega
  rw [natTail, posAdd, hsplit, ← hlen, List.drop_left']
  rfl

/-! ## The equations of `replaceNatWithMax` -/

theorem replaceNatWithMax_of_find_none {s : Text} (h : find natOpen s = none) :
    replaceNatWithMax s = some s := by
  rw [replaceNatWithMax]
  split
  · rfl
  · rename_i heq
    rw [h] at heq
    exact absurd heq (by simp)

theorem replaceNatWithMax_of_find {s : Text} {pos : Nat} (h : find natOpen s = some pos) :
    replaceNatWithMax s = (findClosingParenthesis s (pos + 3)).bind fun closingPos =>
      (replaceNatWithMax (natBody s pos (some closingPos))).bind fun body =>
        (replaceNatWithMax (natTail s (some closingPos))).map fun tail =>
          s.take pos ++ "max([".toList ++ body ++ ",0])".toList ++ tail := by
  rw [replaceNatWithMax]
  split
  · rename_i heq
    rw [h] at heq
    exact absurd heq (by simp)
  · rename_i pos' heq
    obtain rfl : pos = pos' := Option.some.inj (h.symm.trans heq)
    cases findClosingParenthesis s (pos + 3) with
    | none => rfl
    | some closingPos =>
      simp only [Option.bind_eq_bind, Option.bind_some, Option.map_eq_bind, Function.comp_def]

/-- The function around the first `nat(` of a text. -/
theorem replaceNatWithMax_split {p b t : Text} (hb : Balanced parenthesis b)
    (hp : find natOpen (p ++ natOpen ++ (b ++ ')' :: t)) = some p.length) :
    replaceNatWithMax (p ++ natOpen ++ (b ++ ')' :: t)) =
      (replaceNatWithMax b).bind fun body => (replaceNatWithMax t).map fun tail =>
        p ++ "max([".toList ++ body ++ ",0])".toList ++ tail := by
  rw [replaceNatWithMax_of_find hp, findClosingParenthesis_balanced p hb, Option.bind_some,
    natBody_eq, natTail_eq, List.append_assoc p, List.take_left']
  rfl

@[simp] theorem replaceNatWithMax_nil : replaceNatWithMax [] = some [] :=
  replaceNatWithMax_of_find_none rfl

theorem find_natOpen_append (r : Text) : find natOpen (natOpen ++ r) = some 0 :=
  find_cons_pos (List.prefix_append natOpen r)

theorem replaceNatWithMax_nat {b : Text} (hb : Balanced parenthesis b) (t : Text) :
    replaceNatWithMax (natOpen ++ (b ++ ')' :: t)) =
      (replaceNatWithMax b).bind fun body => (replaceNatWithMax t).map fun tail =>
        "max([".toList ++ (body ++ (",0])".toList ++ tail)) := by
  have := replaceNatWithMax_split (p := []) (t := t) hb (find_natOpen_append _)
  simpa only [List.nil_append, List.append_assoc] using this

theorem replaceNatWithMax_char {c : Char} {s : Text} (hc : ¬ natOpen <+: c :: s) :
    replaceNatWithMax (c :: s) = (replaceNatWithMax s).map (c :: ·) := by
  have hfind := find_cons_neg hc
  cases hs : find natOpen s with
  | none =>
    rw [hs] at hfind
    rw [replaceNatWithMax_of_find_none hfind, replaceNatWithMax_of_find_none hs]
    rfl
  | some pos =>
    rw [hs] at hfind
    rw [replaceNatWithMax_of_find hfind, replaceNatWithMax_of_find hs]
    have hclosing : findClosingParenthesis (c :: s) (pos + 1 + 3) =
        (findClosingParenthesis s (pos + 3)).map (· + 1) := by
      rw [findClosingParenthesis, findClosingParenthesis, ← closingLoop_shift]
      rfl
    rw [hclosing]
    cases findClosingParenthesis s (pos + 3) with
    | none => rfl
    | some j =>
      have hbody : natBody (c :: s) (pos + 1) (some (j + 1)) = natBody s pos (some j) := by
        rw [natBody, natBody, show pos + 1 + 4 = pos + 4 + 1 by omega, List.drop_succ_cons,
          show j + 1 - (pos + 1) - 4 = j - pos - 4 by omega]
      have htail : natTail (c :: s) (some (j + 1)) = natTail s (some j) := rfl
      simp only [Option.map_some, Option.bind_some, hbody, htail]
      cases replaceNatWithMax (natBody s pos (some j)) with
      | none => rfl
      | some body =>
        cases replaceNatWithMax (natTail s (some j)) with
        | none => rfl
        | some tail => rfl

/-! ## The function computes `Rewritten` -/

theorem Rewritten.replaceNatWithMax {s r : Text} (h : Rewritten s r) :
    replaceNatWithMax s = some r := by
  induction h with
  | nil => exact replaceNatWithMax_nil
  | char hc _ ih => rw [replaceNatWithMax_char hc, ih]; rfl
  | nat hb _ _ ihb iht => rw [replaceNatWithMax_nat hb, ihb, iht]; rfl

theorem natAt_zero {s : Text} : NatAt s 0 ↔ natOpen <+: s := by rw [NatAt, List.drop_zero]

theorem natAt_cons_succ {c : Char} {s : Text} {i : Nat} : NatAt (c :: s) (i + 1) ↔ NatAt s i :=
  Iff.rfl

theorem natAt_append_right {x s : Text} {i : Nat} : NatAt (x ++ s) (x.length + i) ↔ NatAt s i := by
  rw [NatAt, NatAt, List.drop_append, List.drop_of_length_le (by omega), List.nil_append,
    Nat.add_sub_cancel_left]

theorem NatAt.lt_length {s : Text} {i : Nat} (h : NatAt s i) : i + 4 ≤ s.length := by
  have := h.length_le
  rw [List.length_drop] at this
  change 4 ≤ s.length - i at this
  omega

/-- An occurrence in front of a character that is not in `nat(` ends before it. -/
theorem natAt_append_cons {x y : Text} {c : Char} {i : Nat} (hc : c ∉ natOpen)
    (hi : i ≤ x.length) (h : NatAt (x ++ c :: y) i) : NatAt x i := by
  rw [NatAt, List.drop_append_of_le_length hi] at h
  rcases List.prefix_or_prefix_of_prefix h (List.prefix_append (x.drop i) (c :: y)) with h' | ⟨q, hq⟩
  · exact h'
  · cases q with
    | nil => rw [List.append_nil] at hq; rw [NatAt, hq]
    | cons d q =>
      rw [← hq, List.prefix_append_right_inj] at h
      obtain ⟨rfl, -⟩ := List.cons_prefix_cons.mp h
      exact absurd (hq ▸ List.mem_append_right _ List.mem_cons_self) hc

theorem close_notMem_natOpen : ')' ∉ natOpen := by decide

/-- Where the occurrences of a text that starts with a matched `nat(` stand. -/
theorem natAt_nat_cases {b t : Text} {i : Nat} (h : NatAt (natOpen ++ (b ++ ')' :: t)) i) :
    i = 0 ∨ (∃ k, i = 4 + k ∧ NatAt b k) ∨ ∃ k, i = 4 + (b.length + (1 + k)) ∧ NatAt t k := by
  rcases Nat.lt_or_ge i 4 with hi | hi
  · -- The letters of `nat(` itself start no occurrence.
    left
    rcases i with _ | _ | _ | _ | i
    · rfl
    · exact absurd (List.cons_prefix_cons.mp h).1 (by decide)
    · exact absurd (List.cons_prefix_cons.mp h).1 (by decide)
    · exact absurd (List.cons_prefix_cons.mp h).1 (by decide)
    · omega
  · obtain ⟨k, rfl⟩ := Nat.exists_eq_add_of_le hi
    have hk : NatAt (b ++ ')' :: t) k := natAt_append_right (x := natOpen).mp h
    rcases Nat.lt_or_ge b.length k with hlt | hle
    · obtain ⟨m, rfl⟩ := Nat.exists_eq_add_of_lt hlt
      refine .inr (.inr ⟨m, by omega, ?_⟩)
      have := natAt_append_right (x := b) (s := ')' :: t) (i := m + 1)
      exact this.mp hk
    · exact .inr (.inl ⟨k, rfl, natAt_append_cons close_notMem_natOpen hle hk⟩)

/-! ## Matched occurrences -/

theorem drop_of_natAt {s : Text} {i : Nat} (h : NatAt s i) :
    s.drop (i + 3) = '(' :: s.drop (i + 4) := by
  obtain ⟨r, hr⟩ := h
  rw [← List.drop_drop, ← List.drop_drop, ← hr]
  rfl

/-- The closing parenthesis of an occurrence, as a decomposition of the text. -/
theorem matching_natAt {s : Text} {i j : Nat} (h : NatAt s i) :
    Matching parenthesis s (i + 3) j ↔
      ∃ b t, s.drop (i + 4) = b ++ ')' :: t ∧ Balanced parenthesis b ∧ j = i + 4 + b.length := by
  rw [matching_iff parenthesis_ge (by decide) (drop_of_natAt h)]
  constructor
  · rintro ⟨b, c, t, hr, hc, hb, hj⟩
    obtain rfl := parenthesis_eq_neg_one hc
    exact ⟨b, t, hr, hb, hj⟩
  · rintro ⟨b, t, hr, hb, hj⟩
    exact ⟨b, ')', t, hr, by decide, hb, hj⟩

theorem matching_nat {b : Text} (hb : Balanced parenthesis b) (t : Text) :
    Matching parenthesis (natOpen ++ (b ++ ')' :: t)) 3 (4 + b.length) :=
  (matching_natAt (i := 0) (natAt_zero.mpr (List.prefix_append _ _))).mpr
    ⟨b, t, rfl, hb, by omega⟩

theorem allNatMatched_append {x s : Text} (h : AllNatMatched (x ++ s)) : AllNatMatched s := by
  intro i hi
  obtain ⟨j, hj⟩ := h (x.length + i) (natAt_append_right.mpr hi)
  have hle : x.length ≤ j := by have := hj.1; omega
  obtain ⟨k, rfl⟩ := Nat.exists_eq_add_of_le hle
  exact ⟨k, matching_append_right.mp hj⟩

/-- The argument of a `nat(` closes the occurrences in it itself. -/
theorem AllNatMatched.body {b t : Text} (hb : Balanced parenthesis b)
    (h : AllNatMatched (b ++ ')' :: t)) : AllNatMatched b := by
  intro i hi
  have hlen := hi.lt_length
  have hat : NatAt (b ++ ')' :: t) i := by
    rw [NatAt, List.drop_append_of_le_length (by omega)]
    exact List.IsPrefix.trans hi (List.prefix_append _ _)
  obtain ⟨j, hj⟩ := h i hat
  refine ⟨j, (matching_append_left ?_).mp hj⟩
  by_contra hge
  -- Otherwise the depth would come back from the `(` to what it was after `b`.
  have hpos := hj.2.2.2 (b.length - 1) (by omega) (by omega)
  rw [show b.length - 1 + 1 - (i + 3) = b.length - (i + 3) by omega,
    List.drop_append_of_le_length (by omega),
    List.take_left' (by rw [List.length_drop])] at hpos
  have hsum := depth_append (w := parenthesis) (b.take (i + 3)) (b.drop (i + 3))
  rw [List.take_append_drop, hb.depth_eq] at hsum
  have := hb.nonneg (i + 3)
  omega

theorem allNatMatched_cons {c : Char} {s : Text} (hc : ¬ natOpen <+: c :: s)
    (h : AllNatMatched s) : AllNatMatched (c :: s) := by
  intro i hi
  cases i with
  | zero => exact absurd (natAt_zero.mp hi) hc
  | succ i =>
    obtain ⟨j, hj⟩ := h i (natAt_cons_succ.mp hi)
    refine ⟨1 + j, ?_⟩
    rw [show i + 1 + 3 = 1 + (i + 3) by omega]
    exact (matching_append_right (l := [c])).mpr hj

theorem allNatMatched_nat {b t : Text} (hb : Balanced parenthesis b) (hmb : AllNatMatched b)
    (hmt : AllNatMatched t) : AllNatMatched (natOpen ++ (b ++ ')' :: t)) := by
  intro i hi
  rcases natAt_nat_cases hi with rfl | ⟨k, rfl, hk⟩ | ⟨k, rfl, hk⟩
  · exact ⟨_, matching_nat hb t⟩
  · obtain ⟨j, hj⟩ := hmb k hk
    refine ⟨4 + j, ?_⟩
    exact (matching_append_right (l := natOpen) (i := k + 3)).mpr
      ((matching_append_left hj.2.1).mpr hj)
  · obtain ⟨j, hj⟩ := hmt k hk
    refine ⟨4 + (b.length + (1 + j)), ?_⟩
    refine (matching_append_right (l := natOpen) (i := b.length + (1 + (k + 3)))).mpr ?_
    refine (matching_append_right (l := b) (i := 1 + (k + 3))).mpr ?_
    exact (matching_append_right (l := [')']) (i := k + 3)).mpr hj

theorem Rewritten.allNatMatched {s r : Text} (h : Rewritten s r) : AllNatMatched s := by
  induction h with
  | nil => exact fun i hi => absurd hi.lt_length (by simp)
  | char hc _ ih => exact allNatMatched_cons hc ih
  | nat hb _ _ ihb iht => exact allNatMatched_nat hb ihb iht

theorem AllNatMatched.rewritten (s : Text) (h : AllNatMatched s) : ∃ r, Rewritten s r := by
  match s with
  | [] => exact ⟨[], .nil⟩
  | c :: s =>
    by_cases hc : natOpen <+: c :: s
    · obtain ⟨j, hj⟩ := h 0 (natAt_zero.mpr hc)
      obtain ⟨b, t, hr, hb, -⟩ := (matching_natAt (natAt_zero.mpr hc)).mp hj
      have heq : c :: s = natOpen ++ (b ++ ')' :: t) := by
        rw [← hr]
        exact (List.prefix_iff_eq_append.mp hc).symm
      have hlen : s.length + 1 = 4 + (b.length + (t.length + 1)) := by
        have := congrArg List.length heq
        rw [List.length_append, List.length_append] at this
        exact this
      have hblen : b.length < s.length + 1 := by omega
      have htlen : t.length < s.length + 1 := by omega
      rw [heq] at h ⊢
      have hrest := allNatMatched_append h
      have htail : AllNatMatched t := allNatMatched_append (x := b ++ [')']) (by simpa using hrest)
      obtain ⟨rb, hrb⟩ := AllNatMatched.rewritten b (hrest.body hb)
      obtain ⟨rt, hrt⟩ := AllNatMatched.rewritten t htail
      exact ⟨_, .nat hb hrb hrt⟩
    · obtain ⟨r, hr⟩ := AllNatMatched.rewritten s (allNatMatched_append (x := [c]) h)
      exact ⟨c :: r, .char hc hr⟩
termination_by s.length

theorem rewritten_of_replaceNatWithMax (s r : Text) (h : replaceNatWithMax s = some r) :
    Rewritten s r := by
  match s with
  | [] =>
    obtain rfl := Option.some.inj (replaceNatWithMax_nil.symm.trans h)
    exact .nil
  | c :: s =>
    by_cases hc : natOpen <+: c :: s
    · obtain ⟨u, hu⟩ := hc
      have hfind := find_natOpen_append u
      have hclosing : ∃ j, findClosingParenthesis (natOpen ++ u) 3 = some j := by
        rw [← hu, replaceNatWithMax_of_find hfind] at h
        obtain ⟨j, hj, -⟩ := Option.bind_eq_some_iff.mp h
        exact ⟨j, hj⟩
      obtain ⟨j, hj⟩ := hclosing
      obtain ⟨b, t, rfl, hb, -⟩ := findClosingParenthesis_eq_some (p := []) hj
      have hlen : 4 + (b.length + (t.length + 1)) = s.length + 1 := by
        have := congrArg List.length hu
        rw [List.length_append, List.length_append] at this
        exact this
      have hblen : b.length < s.length + 1 := by omega
      have htlen : t.length < s.length + 1 := by omega
      rw [← hu, replaceNatWithMax_nat hb] at h
      obtain ⟨rb, hrb, h⟩ := Option.bind_eq_some_iff.mp h
      obtain ⟨rt, hrt, rfl⟩ := Option.map_eq_some_iff.mp h
      rw [← hu]
      exact .nat hb (rewritten_of_replaceNatWithMax b rb hrb) (rewritten_of_replaceNatWithMax t rt hrt)
    · rw [replaceNatWithMax_char hc] at h
      obtain ⟨r', hr', rfl⟩ := Option.map_eq_some_iff.mp h
      exact .char hc (rewritten_of_replaceNatWithMax s r' hr')
termination_by s.length

/-- The function succeeds exactly on the texts whose occurrences all have a closing parenthesis. -/
theorem replaceNatWithMax_isSome_iff {s : Text} :
    (replaceNatWithMax s).isSome ↔ AllNatMatched s := by
  constructor
  · intro h
    obtain ⟨r, hr⟩ := Option.isSome_iff_exists.mp h
    exact (rewritten_of_replaceNatWithMax s r hr).allNatMatched
  · intro h
    obtain ⟨r, hr⟩ := h.rewritten
    rw [hr.replaceNatWithMax]
    rfl

/-! ## The recursion -/

/-- The calls around the first occurrence of a text are on matched texts, and on shorter ones. -/
theorem recursiveCall_matched {s callee : Text} (h : AllNatMatched s)
    (hcall : RecursiveCall s callee) : AllNatMatched callee ∧ callee.length < s.length := by
  have key : ∀ pos, find natOpen s = some pos → ∃ p b t, s = p ++ natOpen ++ (b ++ ')' :: t) ∧
      p.length = pos ∧ Balanced parenthesis b ∧
      findClosingParenthesis s (pos + 3) = some (p.length + 4 + b.length) := by
    intro pos hpos
    obtain ⟨p, r, rfl, rfl, -⟩ := split_of_find hpos
    have hat : NatAt (p ++ natOpen ++ r) p.length := (find_eq_some hpos).1
    obtain ⟨j, hj⟩ := h p.length hat
    obtain ⟨b, t, hr, hb, -⟩ := (matching_natAt hat).mp hj
    have hdrop : (p ++ natOpen ++ r).drop (p.length + 4) = r := by
      rw [show p.length + 4 = (p ++ natOpen).length by rw [List.length_append]; rfl,
        List.drop_left']
      rfl
    obtain rfl := hdrop.symm.trans hr
    exact ⟨p, b, t, rfl, rfl, hb, findClosingParenthesis_balanced p hb t⟩
  have hlen : natOpen.length = 4 := rfl
  cases hcall with
  | body hpos =>
    obtain ⟨p, b, t, rfl, rfl, hb, hclosing⟩ := key _ hpos
    rw [hclosing, natBody_eq]
    refine ⟨(allNatMatched_append h).body hb, ?_⟩
    simp only [List.length_append, List.length_cons, hlen]
    omega
  | tail hpos =>
    obtain ⟨p, b, t, rfl, rfl, hb, hclosing⟩ := key _ hpos
    rw [hclosing, natTail_eq]
    refine ⟨allNatMatched_append (x := p ++ natOpen ++ (b ++ [')'])) (by simpa using h), ?_⟩
    simp only [List.length_append, List.length_cons, hlen]
    omega

theorem AllNatMatched.terminates (s : Text) (h : AllNatMatched s) : Terminates s :=
  Acc.intro s fun callee hcall =>
    have hcallee := recursiveCall_matched h hcall
    AllNatMatched.terminates callee hcallee.1
termination_by s.length
decreasing_by exact (recursiveCall_matched h hcall).2

theorem AllNatMatched.calls {s callee : Text} (h : AllNatMatched s) (hcalls : Calls s callee) :
    AllNatMatched callee := by
  induction hcalls with
  | refl => exact h
  | tail _ hcall ih => exact (recursiveCall_matched ih hcall).1

theorem AllNatMatched.assertionHolds {s : Text} (h : AllNatMatched s) : AssertionHolds s := by
  intro pos hpos hnone
  have hsome := replaceNatWithMax_isSome_iff.mpr h
  rw [replaceNatWithMax_of_find hpos, hnone] at hsome
  exact absurd hsome (by simp)

/-- A text all of whose recursive calls are on matched texts is matched, unless its own assertion
fails. -/
theorem allNatMatched_of_recursiveCalls {s : Text} (hassert : AssertionHolds s)
    (hcalls : ∀ callee, RecursiveCall s callee → AllNatMatched callee) : AllNatMatched s := by
  rw [← replaceNatWithMax_isSome_iff]
  cases hpos : find natOpen s with
  | none => rw [replaceNatWithMax_of_find_none hpos]; rfl
  | some pos =>
    obtain ⟨j, hj⟩ := Option.ne_none_iff_exists'.mp (hassert pos hpos)
    have hbody := hcalls _ (.body hpos)
    have htail := hcalls _ (.tail hpos)
    rw [hj, ← replaceNatWithMax_isSome_iff] at hbody htail
    obtain ⟨rb, hrb⟩ := Option.isSome_iff_exists.mp hbody
    obtain ⟨rt, hrt⟩ := Option.isSome_iff_exists.mp htail
    rw [replaceNatWithMax_of_find hpos, hj, Option.bind_some, hrb, Option.bind_some, hrt]
    rfl

/-- Without assertions the recursion ends exactly on the matched texts: where the closing
parenthesis is missing, `npos + 1` is 0, and the second recursive call is on the whole text. -/
theorem terminates_iff {s : Text} : Terminates s ↔ AllNatMatched s := by
  refine ⟨fun h => ?_, fun h => h.terminates⟩
  induction h with
  | intro s _ ih =>
    by_cases hassert : AssertionHolds s
    · exact allNatMatched_of_recursiveCalls hassert ih
    · rw [AssertionHolds] at hassert
      push Not at hassert
      obtain ⟨pos, hpos, hnone⟩ := hassert
      have hself : natTail s (findClosingParenthesis s (pos + 3)) = s := by rw [hnone]; rfl
      have hcall : RecursiveCall s _ := .tail hpos
      rw [hself] at hcall
      exact ih s hcall

/-! ## The result -/

theorem Rewritten.of_cons {s r : Text} {c : Char} (h : Rewritten s (c :: r)) (hc : c ≠ 'm') :
    ∃ s', s = c :: s' ∧ Rewritten s' r := by
  generalize hr : c :: r = cr at h
  cases h with
  | nil => exact absurd hr (by simp)
  | char _ hs =>
    obtain ⟨rfl, rfl⟩ := List.cons.inj hr
    exact ⟨_, rfl, hs⟩
  | nat _ _ _ => exact absurd (List.cons.inj hr).1 hc

/-- No new occurrence starts a result: its first letters are letters of the text. -/
theorem Rewritten.head_of_head {s r pat : Text} (h : Rewritten s r) (hm : 'm' ∉ pat)
    (hp : pat <+: r) : pat <+: s := by
  induction pat generalizing s r with
  | nil => exact List.nil_prefix
  | cons c pat ih =>
    obtain ⟨t, rfl⟩ := hp
    obtain ⟨s', rfl, hs'⟩ := h.of_cons fun hc => hm (hc ▸ List.mem_cons_self)
    rw [List.cons_prefix_cons]
    exact ⟨rfl, ih hs' (fun hc => hm (List.mem_cons_of_mem c hc)) (List.prefix_append pat t)⟩

theorem Rewritten.no_natOpen {s r : Text} (h : Rewritten s r) : ¬ natOpen <:+: r := by
  induction h with
  | nil => decide
  | char hc hs ih =>
    rw [List.infix_cons_iff]
    rintro (hp | hi)
    · exact hc ((Rewritten.char hc hs).head_of_head (by decide) hp)
    · exact ih hi
  | @nat b t rb rt _ _ _ ihb iht =>
    intro h
    rcases infix_append_cons (x := "max(".toList) (y := rb ++ (",0])".toList ++ rt)) (c := '[')
      (by decide) h with h | h
    · exact absurd h (by decide)
    · rcases infix_append_cons (y := "0])".toList ++ rt) (c := ',') (by decide) h with h | h
      · exact ihb h
      · rcases infix_append_cons (x := "0]".toList) (c := ')') (by decide) h with h | h
        · exact absurd h (by decide)
        · exact iht h

/-! ## The result, position by position -/

theorem flatMap_range_append (x s : Text) (f : Nat → Text) :
    (List.range (x ++ s).length).flatMap f =
      (List.range x.length).flatMap f ++ (List.range s.length).flatMap fun i => f (x.length + i) := by
  rw [List.length_append, List.range_add, List.flatMap_append, List.flatMap_map]

theorem replacement_append_left {b y : Text} {i : Nat} (hi : i < b.length)
    (hat : ∀ k ≤ i, NatAt (b ++ y) k ↔ NatAt b k) :
    replacement (b ++ y) i = replacement b i := by
  have hcovered : (∃ k < 3, k < i ∧ NatAt (b ++ y) (i - k - 1)) ↔
      ∃ k < 3, k < i ∧ NatAt b (i - k - 1) :=
    exists_congr fun k => and_congr_right fun _ => and_congr_right fun _ => hat _ (by omega)
  have hclosing : (∃ k < i, NatAt (b ++ y) k ∧ Matching parenthesis (b ++ y) (k + 3) i) ↔
      ∃ k < i, NatAt b k ∧ Matching parenthesis b (k + 3) i :=
    exists_congr fun k => and_congr_right fun hk =>
      and_congr (hat k hk.le) (matching_append_left hi)
  have htake : ((b ++ y).drop i).take 1 = (b.drop i).take 1 := by
    rw [List.drop_append_of_le_length hi.le, List.take_append_of_le_length]
    rw [List.length_drop]
    omega
  simp only [replacement, hat i le_rfl, hcovered, hclosing, htake]

theorem replacement_append_right {x s : Text} {i : Nat}
    (hend : ∀ k < x.length, NatAt (x ++ s) k → k + 4 ≤ x.length)
    (hclose : ∀ k < x.length, NatAt (x ++ s) k →
      ¬ Matching parenthesis (x ++ s) (k + 3) (x.length + i)) :
    replacement (x ++ s) (x.length + i) = replacement s i := by
  have hat : NatAt (x ++ s) (x.length + i) ↔ NatAt s i := natAt_append_right
  have hcovered : (∃ k < 3, k < x.length + i ∧ NatAt (x ++ s) (x.length + i - k - 1)) ↔
      ∃ k < 3, k < i ∧ NatAt s (i - k - 1) := by
    refine exists_congr fun k => and_congr_right fun hk => ?_
    constructor
    · rintro ⟨hlt, h⟩
      by_cases hki : k < i
      · refine ⟨hki, ?_⟩
        rw [show x.length + i - k - 1 = x.length + (i - k - 1) by omega] at h
        exact natAt_append_right.mp h
      · have := hend _ (by omega) h
        omega
    · rintro ⟨hki, h⟩
      refine ⟨by omega, ?_⟩
      rw [show x.length + i - k - 1 = x.length + (i - k - 1) by omega]
      exact natAt_append_right.mpr h
  have hclosing : (∃ k < x.length + i, NatAt (x ++ s) k ∧
      Matching parenthesis (x ++ s) (k + 3) (x.length + i)) ↔
      ∃ k < i, NatAt s k ∧ Matching parenthesis s (k + 3) i := by
    constructor
    · rintro ⟨k, hk, h, hm⟩
      rcases Nat.lt_or_ge k x.length with hlt | hge
      · exact absurd hm (hclose k hlt h)
      · obtain ⟨m, rfl⟩ := Nat.exists_eq_add_of_le hge
        exact ⟨m, by omega, natAt_append_right.mp h, matching_append_right.mp hm⟩
    · rintro ⟨k, hk, h, hm⟩
      exact ⟨x.length + k, by omega, natAt_append_right.mpr h, matching_append_right.mpr hm⟩
  have hdrop : (x ++ s).drop (x.length + i) = s.drop i := by simp
  simp only [replacement, hat, hcovered, hclosing, hdrop]

theorem replacement_cons_zero {c : Char} {s : Text} (hc : ¬ natOpen <+: c :: s) :
    replacement (c :: s) 0 = [c] := by
  have hat : ¬ NatAt (c :: s) 0 := fun h => hc (natAt_zero.mp h)
  simp [replacement, hat]

theorem replacement_cons_succ {c : Char} {s : Text} (hc : ¬ natOpen <+: c :: s) (i : Nat) :
    replacement (c :: s) (1 + i) = replacement s i := by
  have hnone : ∀ k < [c].length, ¬ NatAt ([c] ++ s) k := by
    intro k hk h
    obtain rfl : k = 0 := by simpa using hk
    exact hc (natAt_zero.mp h)
  exact replacement_append_right (x := [c]) (fun k hk h => absurd h (hnone k hk))
    fun k hk h => absurd h (hnone k hk)

section MatchedOccurrence

variable {b t : Text}

theorem replacement_nat_head :
    (List.range natOpen.length).flatMap (replacement (natOpen ++ (b ++ ')' :: t))) =
      "max([".toList := by
  have hat : NatAt (natOpen ++ (b ++ ')' :: t)) 0 := natAt_zero.mpr (List.prefix_append _ _)
  have hnot : ∀ i, 0 < i → i < 4 → ¬ NatAt (natOpen ++ (b ++ ')' :: t)) i := by
    intro i h0 h4 h
    rcases natAt_nat_cases h with rfl | ⟨k, rfl, -⟩ | ⟨k, rfl, -⟩ <;> omega
  have hcovered : ∀ i, 0 < i → i < 4 → replacement (natOpen ++ (b ++ ')' :: t)) i = [] := by
    intro i h0 h4
    rw [replacement, if_neg (hnot i h0 h4), if_pos]
    refine ⟨i - 1, by omega, by omega, ?_⟩
    rwa [show i - (i - 1) - 1 = 0 by omega]
  have hfirst : replacement (natOpen ++ (b ++ ')' :: t)) 0 = "max([".toList := if_pos hat
  rw [show List.range natOpen.length = [0, 1, 2, 3] from rfl]
  simp only [List.flatMap_cons, List.flatMap_nil, hfirst, hcovered 1 (by omega) (by omega),
    hcovered 2 (by omega) (by omega), hcovered 3 (by omega) (by omega)]
  rfl

theorem replacement_nat_body (hb : Balanced parenthesis b) {i : Nat} (hi : i < b.length) :
    replacement (natOpen ++ (b ++ ')' :: t)) (natOpen.length + i) = replacement b i := by
  have hzero : ∀ k < natOpen.length, NatAt (natOpen ++ (b ++ ')' :: t)) k → k = 0 := by
    intro k hk h
    change k < 4 at hk
    rcases natAt_nat_cases h with rfl | ⟨m, rfl, -⟩ | ⟨m, rfl, -⟩ <;> omega
  rw [replacement_append_right, replacement_append_left hi]
  · intro k hk
    refine ⟨natAt_append_cons close_notMem_natOpen (by omega), fun h => ?_⟩
    have := h.lt_length
    rw [NatAt, List.drop_append_of_le_length (by omega)]
    exact List.IsPrefix.trans h (List.prefix_append _ _)
  · intro k hk h
    rw [hzero k hk h]
    exact le_refl 4
  · intro k hk h hm
    rw [hzero k hk h] at hm
    have := (matching_nat hb t).unique hm
    change 4 + b.length = 4 + i at this
    omega

theorem replacement_nat_close (hb : Balanced parenthesis b) :
    replacement (natOpen ++ (b ++ ')' :: t)) (4 + b.length) = ",0])".toList := by
  have hlt : ∀ i ≤ 4 + b.length, 4 + b.length < i + 4 → ¬ NatAt (natOpen ++ (b ++ ')' :: t)) i := by
    intro i hi hlt h
    rcases natAt_nat_cases h with rfl | ⟨k, rfl, hk⟩ | ⟨k, rfl, -⟩
    · omega
    · have := hk.lt_length; omega
    · omega
  rw [replacement, if_neg (hlt _ le_rfl (by omega)), if_neg, if_pos]
  · exact ⟨0, by omega, natAt_zero.mpr (List.prefix_append _ _), matching_nat hb t⟩
  · rintro ⟨k, hk, hk', h⟩
    exact hlt _ (by omega) (by omega) h

theorem replacement_nat_tail (hb : Balanced parenthesis b) (hmb : AllNatMatched b) (i : Nat) :
    replacement (natOpen ++ (b ++ ')' :: t)) (4 + (b.length + (1 + i))) = replacement t i := by
  have hsplit : natOpen ++ (b ++ ')' :: t) = (natOpen ++ (b ++ [')'])) ++ t := by simp
  have hlen : (natOpen ++ (b ++ [')'])).length = 4 + (b.length + 1) := by
    rw [List.length_append, List.length_append]
    rfl
  rw [hsplit, show 4 + (b.length + (1 + i)) = (natOpen ++ (b ++ [')'])).length + i by
    rw [hlen]; omega]
  refine replacement_append_right (fun k hk h => ?_) fun k hk h hm => ?_
  · rw [← hsplit] at h
    rw [hlen] at hk ⊢
    rcases natAt_nat_cases h with rfl | ⟨m, rfl, hm⟩ | ⟨m, rfl, -⟩
    · omega
    · have := hm.lt_length; omega
    · omega
  · rw [← hsplit] at h hm
    rw [hlen] at hk hm
    rcases natAt_nat_cases h with rfl | ⟨m, rfl, hat⟩ | ⟨m, rfl, -⟩
    · have := (matching_nat hb t).unique hm
      omega
    · -- An occurrence inside the argument is closed there.
      obtain ⟨j, hj⟩ := hmb m hat
      have hj' : Matching parenthesis (natOpen ++ (b ++ ')' :: t)) (4 + (m + 3)) (4 + j) :=
        (matching_append_right (l := natOpen)).mpr ((matching_append_left hj.2.1).mpr hj)
      have := hj'.unique hm
      have := hj.2.1
      omega
    · omega

end MatchedOccurrence

/-- A result is made of the replacements of the characters of the text. -/
theorem Rewritten.eq_flatMap {s r : Text} (h : Rewritten s r) :
    r = (List.range s.length).flatMap (replacement s) := by
  induction h with
  | nil => rfl
  | @char c s r hc hs ih =>
    have hsplit := flatMap_range_append [c] s (replacement (c :: s))
    rw [List.singleton_append] at hsplit
    rw [hsplit, show List.range [c].length = [0] from rfl, List.flatMap_singleton,
      replacement_cons_zero hc, List.singleton_append]
    congr 1
    rw [ih]
    refine List.flatMap_congr fun i _ => ?_
    exact (replacement_cons_succ hc i).symm
  | @nat b t rb rt hb hrb _ ihb iht =>
    rw [flatMap_range_append natOpen, replacement_nat_head, flatMap_range_append b,
      ← List.singleton_append, flatMap_range_append [')']]
    congr 1
    congr 1
    · rw [ihb]
      refine List.flatMap_congr fun i hi => ?_
      exact (replacement_nat_body hb (List.mem_range.mp hi)).symm
    · congr 1
      · rw [show List.range [')'].length = [0] from rfl, List.flatMap_singleton]
        exact (replacement_nat_close hb).symm
      · rw [iht]
        refine List.flatMap_congr fun i _ => ?_
        exact (replacement_nat_tail hb hrb.allNatMatched i).symm

theorem rewritten_self {s : Text} (h : ¬ natOpen <:+: s) : Rewritten s s :=
  rewritten_of_replaceNatWithMax s s (replaceNatWithMax_of_find_none (find_eq_none_iff.mpr h))

/-- **`replaceNatWithMax` on arbitrary text.** The recursion ends and no assertion fails exactly when
every `nat(` has its closing parenthesis; the counter never falls below 0; and a result is the text
with every `nat(` and its closing parenthesis replaced, which leaves no `nat(` to replace. -/
theorem replaceNatWithMax_exact (s : Text) :
    (Terminates s ∧ (∀ callee, Calls s callee → AssertionHolds callee) ↔ AllNatMatched s) ∧
    ((replaceNatWithMax s).isSome ↔ AllNatMatched s) ∧
    (∀ callee pos, Calls s callee → find natOpen callee = some pos →
      ∀ v ∈ counterValues 0 (callee.drop (pos + 3)), 0 ≤ v) ∧
    ∀ r, replaceNatWithMax s = some r →
      r = (List.range s.length).flatMap (replacement s) ∧
      ¬ natOpen <:+: r ∧ replaceNatWithMax r = some r := by
  refine ⟨⟨fun h => terminates_iff.mp h.1, fun h => ⟨h.terminates, ?_⟩⟩,
    replaceNatWithMax_isSome_iff, ?_, ?_⟩
  · exact fun callee hcalls => (h.calls hcalls).assertionHolds
  · intro callee pos _ hpos v hv
    have hat : NatAt callee pos := (find_eq_some hpos).1
    rw [drop_of_natAt hat] at hv
    -- The counter is 1 after the parenthesis of `nat(`.
    rcases List.mem_cons.mp hv with rfl | hv
    · decide
    · exact counterValues_nonneg (n := 1) le_rfl v hv
  · intro r hr
    have h := rewritten_of_replaceNatWithMax s r hr
    exact ⟨h.eq_flatMap, h.no_natOpen,
      (rewritten_self h.no_natOpen).replaceNatWithMax⟩

end Gpscat.CoFloCoWrapper
