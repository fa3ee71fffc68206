import Gpscat.CoFloCo.NatRemoval
import Gpscat.CoFloCo.Proofs.NatRewritingProofs

/-!
# `removeNat` on arbitrary text

`natDeleted` has an equation for each of the two beginnings of a text: a `nat(`, or a character at
which no `nat(` stands. The loop of `removeNat` follows the first of them.
-/

namespace Gpscat.CoFloCoWrapper

open Cpp

/-! ## Deleting letters -/

section LettersDeleted

variable {P Q : Nat → Prop} [DecidablePred P] [DecidablePred Q]

theorem kept_append_right {x s : Text} (hPQ : ∀ k, P (x.length + k) ↔ Q k)
    (hend : ∀ k < x.length, P k → k + 3 ≤ x.length) (i : Nat) :
    kept P (x ++ s) (x.length + i) = kept Q s i := by
  have hcovered : (∃ k < 3, k ≤ x.length + i ∧ P (x.length + i - k)) ↔
      ∃ k < 3, k ≤ i ∧ Q (i - k) := by
    refine exists_congr fun k => and_congr_right fun hk => ?_
    constructor
    · rintro ⟨hle, h⟩
      have hki : k ≤ i := by
        by_contra hlt
        have := hend _ (by omega) h
        omega
      refine ⟨hki, (hPQ _).mp ?_⟩
      rwa [show x.length + (i - k) = x.length + i - k by omega]
    · rintro ⟨hki, h⟩
      refine ⟨by omega, ?_⟩
      rw [show x.length + i - k = x.length + (i - k) by omega]
      exact (hPQ _).mpr h
  have hdrop : (x ++ s).drop (x.length + i) = s.drop i := by simp
  simp only [kept, hcovered, hdrop]

/-- The letters of a text are deleted in each of its parts. -/
theorem lettersDeleted_append {x s : Text} (hPQ : ∀ k, P (x.length + k) ↔ Q k)
    (hend : ∀ k < x.length, P k → k + 3 ≤ x.length) :
    lettersDeleted P (x ++ s) =
      (List.range x.length).flatMap (kept P (x ++ s)) ++ lettersDeleted Q s := by
  rw [lettersDeleted, flatMap_range_append, lettersDeleted]
  congr 1
  exact List.flatMap_congr fun i _ => kept_append_right hPQ hend i

theorem lettersDeleted_cons {c : Char} {s : Text} (hP : ¬ P 0) (hPQ : ∀ k, P (k + 1) ↔ Q k) :
    lettersDeleted P (c :: s) = c :: lettersDeleted Q s := by
  have happend := lettersDeleted_append (P := P) (Q := Q) (x := [c]) (s := s)
    (fun k => by rw [List.length_singleton, Nat.add_comm]; exact hPQ k) ?_
  · have hhead : kept P (c :: s) 0 = [c] := by simp [kept, hP]
    rw [List.singleton_append] at happend
    rw [happend, show List.range [c].length = [0] from rfl, List.flatMap_singleton, hhead,
      List.singleton_append]
  · intro k hk h
    obtain rfl : k = 0 := by simpa using hk
    exact absurd h hP

/-- Three letters in front of a text. -/
theorem lettersDeleted_three {a b c : Char} {s : Text} (hP : P 0) (hnot : ¬ P 1 ∧ ¬ P 2)
    (hPQ : ∀ k, P (3 + k) ↔ Q k) : lettersDeleted P (a :: b :: c :: s) = lettersDeleted Q s := by
  have happend := lettersDeleted_append (P := P) (Q := Q) (x := [a, b, c]) (s := s) hPQ ?_
  · have hgone : ∀ i < 3, kept P ([a, b, c] ++ s) i = [] := by
      intro i hi
      exact if_pos ⟨i, hi, le_rfl, by rwa [Nat.sub_self]⟩
    have hempty : (List.range 3).flatMap (kept P ([a, b, c] ++ s)) = [] :=
      List.flatMap_eq_nil_iff.mpr fun i hi => hgone i (List.mem_range.mp hi)
    exact happend.trans (by rw [show [a, b, c].length = 3 from rfl, hempty, List.nil_append])
  · intro k hk h
    change k < 3 at hk
    rcases k with _ | _ | _ | k
    · exact le_rfl
    · exact absurd h hnot.1
    · exact absurd h hnot.2
    · omega

theorem lettersDeleted_congr {s : Text} (h : ∀ k, P k ↔ Q k) :
    lettersDeleted P s = lettersDeleted Q s := by
  refine List.flatMap_congr fun i _ => ?_
  simp only [kept, h]

end LettersDeleted

/-! ## The equations of `natDeleted` -/

@[simp] theorem natDeleted_nil : natDeleted [] = [] := rfl

theorem natDeleted_char {c : Char} {s : Text} (hc : ¬ natOpen <+: c :: s) :
    natDeleted (c :: s) = c :: natDeleted s :=
  lettersDeleted_cons (fun h => hc (natAt_zero.mp h)) fun _ => natAt_cons_succ

theorem not_natOpen_prefix_cons {c : Char} (hc : c ≠ 'n') (s : Text) : ¬ natOpen <+: c :: s :=
  fun hp => hc (List.cons_prefix_cons.mp hp).1.symm

theorem natDeleted_nat (s : Text) : natDeleted (natOpen ++ s) = '(' :: natDeleted s := by
  have hzero : NatAt (natOpen ++ s) 0 := natAt_zero.mpr (List.prefix_append _ _)
  have hnot : ¬ NatAt (natOpen ++ s) 1 ∧ ¬ NatAt (natOpen ++ s) 2 :=
    ⟨not_natOpen_prefix_cons (by decide) _, not_natOpen_prefix_cons (by decide) _⟩
  have hrest : ∀ k, NatAt (natOpen ++ s) (3 + k) ↔ NatAt ('(' :: s) k := fun k =>
    natAt_append_right (x := "nat".toList)
  rw [← natDeleted_char (not_natOpen_prefix_cons (by decide) s)]
  exact lettersDeleted_three hzero hnot hrest

/-- Induction along a text, a `nat(` or a character at a time. -/
@[elab_as_elim]
theorem natInduction {motive : Text → Prop} (nil : motive [])
    (char : ∀ c s, ¬ natOpen <+: c :: s → motive s → motive (c :: s))
    (nat : ∀ s, motive s → motive (natOpen ++ s)) (s : Text) : motive s := by
  match s with
  | [] => exact nil
  | c :: s =>
    by_cases hc : natOpen <+: c :: s
    · obtain ⟨t, ht⟩ := hc
      have hlen : t.length < s.length + 1 := by
        have := congrArg List.length ht
        rw [List.length_append, List.length_cons] at this
        change 4 + t.length = s.length + 1 at this
        omega
      rw [← ht]
      exact nat t (natInduction nil char nat t)
    · exact char c s hc (natInduction nil char nat s)
termination_by s.length

/-- A part of the text in which no occurrence starts is kept. -/
theorem natDeleted_gap {x s : Text} (h : ∀ k < x.length, ¬ NatAt (x ++ s) k) :
    natDeleted (x ++ s) = x ++ natDeleted s := by
  induction x with
  | nil => rfl
  | cons c x ih =>
    have hc : ¬ natOpen <+: c :: (x ++ s) := fun hp =>
      h 0 (Nat.zero_lt_succ _) (natAt_zero.mpr hp)
    rw [List.cons_append, natDeleted_char hc, ih, List.cons_append]
    intro k hk hat
    exact h (k + 1) (Nat.succ_lt_succ hk) (natAt_cons_succ.mpr hat)

theorem natDeleted_of_find_none {s : Text} (h : find natOpen s = none) : natDeleted s = s := by
  have hgap := natDeleted_gap (x := s) (s := []) fun k _ hat => ?_
  · simpa using hgap
  · rw [List.append_nil] at hat
    exact find_eq_none_iff.mp h (hat.isInfix.trans (List.drop_suffix k s).isInfix)

/-! ## The loop -/

theorem removeNatLoop_of_none {exp : Text} {pos : Nat} (newExp : Text)
    (h : find natOpen (exp.drop pos) = none) (hpos : pos ≤ exp.length) :
    removeNatLoop exp newExp pos pos = .ok (newExp ++ exp.drop pos) := by
  have hfrom : findFrom natOpen exp pos = none := by rw [findFrom, h]; rfl
  rw [removeNatLoop]
  split
  · rename_i heq
    rw [hfrom] at heq
    exact absurd heq (by simp)
  · rw [substr, if_pos hpos]
    rfl

theorem removeNatLoop_of_some {exp : Text} {pos k : Nat} (newExp : Text)
    (h : find natOpen (exp.drop pos) = some k) (hpos : pos ≤ exp.length) :
    removeNatLoop exp newExp pos pos =
      removeNatLoop exp (newExp ++ (exp.drop pos).take k) (pos + k + 3) (pos + k + 3) := by
  have hfrom : findFrom natOpen exp pos = some (pos + k) := by rw [findFrom, h]; rfl
  rw [removeNatLoop]
  split
  · rename_i pos' heq
    obtain rfl : pos + k = pos' := Option.some.inj (hfrom.symm.trans heq)
    rw [substrCount, if_pos hpos, Nat.add_sub_cancel_left]
    rfl
  · rename_i heq
    rw [hfrom] at heq
    exact absurd heq (by simp)

/-- The loop appends the rest of the text without the letters. Both positions stand at the
parenthesis of the occurrence before, and the search finds no occurrence again. -/
theorem removeNatLoop_eq (exp newExp : Text) (pos : Nat) (hpos : pos ≤ exp.length) :
    removeNatLoop exp newExp pos pos = .ok (newExp ++ natDeleted (exp.drop pos)) := by
  cases hfind : find natOpen (exp.drop pos) with
  | none => rw [removeNatLoop_of_none newExp hfind hpos, natDeleted_of_find_none hfind]
  | some k =>
    obtain ⟨p, r, hsplit, rfl, hfirst⟩ := split_of_find hfind
    have hlen : exp.length - pos = p.length + 4 + r.length := by
      have := congrArg List.length hsplit
      rw [List.length_drop, List.length_append, List.length_append] at this
      exact this
    have hrest : exp.drop (pos + p.length + 3) = '(' :: r := by
      rw [show pos + p.length + 3 = pos + (p.length + 3) by omega, ← List.drop_drop, hsplit,
        drop_natOpen_append]
    rw [removeNatLoop_of_some newExp hfind hpos,
      removeNatLoop_eq exp _ (pos + p.length + 3) (by omega), hrest,
      natDeleted_char (not_natOpen_prefix_cons (by decide) r), hsplit]
    have hdeleted : natDeleted (p ++ natOpen ++ r) = p ++ '(' :: natDeleted r := by
      rw [List.append_assoc, natDeleted_gap, natDeleted_nat]
      rw [← List.append_assoc, ← hsplit]
      exact hfirst
    rw [hdeleted, List.append_assoc p, List.take_left', List.append_assoc]
    rfl
termination_by exp.length - pos

theorem removeNat_eq (s : Text) : removeNat s = .ok (natDeleted s) :=
  removeNatLoop_eq s [] 0 (Nat.zero_le _)

end Gpscat.CoFloCoWrapper
