import Gpscat.CoFloCo.Proofs.NatRemovalProofs

/-!
# `removeNat` on its own result

What is removed from `natnat(` leaves a `nat(`. One pass of `removeNat` takes one `nat` from each row
of them in front of a parenthesis.
-/

namespace Gpscat.CoFloCoWrapper

open Cpp

/-! ## The beginning of the result -/

theorem natOpen_prefix_nat {s : Text} : natOpen <+: "nat".toList ++ s ↔ ['('] <+: s :=
  List.prefix_append_right_inj "nat".toList

theorem nats_prefix_nat {k : Nat} {s : Text} :
    nats (k + 1) <+: "nat".toList ++ s ↔ nats k <+: s :=
  List.prefix_append_right_inj "nat".toList

theorem not_nats_prefix_cons {k : Nat} {c : Char} (hc : c ≠ 'n') (s : Text) :
    ¬ nats (k + 1) <+: c :: s :=
  fun h => hc (List.cons_prefix_cons.mp h).1.symm

/-- A character of the result that is no parenthesis is one of the text. -/
theorem cons_prefix_natDeleted {c : Char} (hc : c ≠ '(') {t s : Text} :
    c :: t <+: natDeleted s ↔ ∃ s', s = c :: s' ∧ ¬ natOpen <+: s ∧ t <+: natDeleted s' := by
  induction s using natInduction with
  | nil => simp
  | char d s hd _ =>
    rw [natDeleted_char hd, List.cons_prefix_cons]
    constructor
    · rintro ⟨rfl, ht⟩
      exact ⟨s, rfl, hd, ht⟩
    · rintro ⟨s', heq, -, ht⟩
      obtain ⟨rfl, rfl⟩ := List.cons.inj heq
      exact ⟨rfl, ht⟩
  | nat s _ =>
    rw [natDeleted_nat, List.cons_prefix_cons]
    constructor
    · rintro ⟨h, -⟩
      exact absurd h hc
    · rintro ⟨s', -, hnot, -⟩
      exact absurd (List.prefix_append natOpen s) hnot

/-- The same for a parenthesis, which may also come from a `nat(`. -/
theorem open_prefix_natDeleted {s : Text} :
    ['('] <+: natDeleted s ↔ ['('] <+: s ∨ natOpen <+: s := by
  induction s using natInduction with
  | nil => simp [natOpen]
  | char d s hd _ =>
    rw [natDeleted_char hd]
    simp [hd]
  | nat s _ => simp [natDeleted_nat]

theorem nat_prefix_natDeleted {t s : Text} :
    "nat".toList ++ t <+: natDeleted s ↔
      ∃ s', s = "nat".toList ++ s' ∧ ¬ ['('] <+: s' ∧ t <+: natDeleted s' := by
  constructor
  · intro h
    obtain ⟨s₁, rfl, hnat, h₁⟩ := (cons_prefix_natDeleted (by decide)).mp h
    obtain ⟨s₂, rfl, -, h₂⟩ := (cons_prefix_natDeleted (by decide)).mp h₁
    obtain ⟨s₃, rfl, -, h₃⟩ := (cons_prefix_natDeleted (by decide)).mp h₂
    exact ⟨s₃, rfl, fun hopen => hnat (natOpen_prefix_nat.mpr hopen), h₃⟩
  · rintro ⟨s', rfl, hopen, ht⟩
    refine (cons_prefix_natDeleted (by decide)).mpr
      ⟨_, rfl, fun hnat => hopen (natOpen_prefix_nat.mp hnat), ?_⟩
    refine (cons_prefix_natDeleted (by decide)).mpr
      ⟨_, rfl, not_natOpen_prefix_cons (by decide) _, ?_⟩
    exact (cons_prefix_natDeleted (by decide)).mpr
      ⟨_, rfl, not_natOpen_prefix_cons (by decide) _, ht⟩

/-- A row of `nat` at the beginning of the result has been longer by one. -/
theorem nats_prefix_natDeleted (k : Nat) (s : Text) :
    nats (k + 1) <+: natDeleted s ↔ nats (k + 2) <+: s := by
  rw [nats, nat_prefix_natDeleted]
  induction k generalizing s with
  | zero =>
    constructor
    · rintro ⟨s', rfl, hopen, ht⟩
      exact nats_prefix_nat.mpr ((open_prefix_natDeleted.mp ht).resolve_left hopen)
    · rintro ⟨t, rfl⟩
      refine ⟨natOpen ++ t, rfl, by simp [natOpen], ?_⟩
      exact open_prefix_natDeleted.mpr (.inr (List.prefix_append _ _))
  | succ k ih =>
    constructor
    · rintro ⟨s', rfl, -, ht⟩
      exact nats_prefix_nat.mpr ((ih s').mp (nat_prefix_natDeleted.mp ht))
    · rintro ⟨t, rfl⟩
      have hrest : nats (k + 2) <+: nats (k + 2) ++ t := List.prefix_append _ _
      refine ⟨nats (k + 2) ++ t, rfl, by simp [nats], ?_⟩
      exact nat_prefix_natDeleted.mpr ((ih _).mpr hrest)

/-! ## Anywhere in the result -/

theorem nats_infix_natDeleted (k : Nat) (s : Text) :
    nats (k + 1) <:+: natDeleted s ↔ nats (k + 2) <:+: s := by
  induction s using natInduction with
  | nil => simp [nats]
  | char c s hc ih =>
    have hbegins := nats_prefix_natDeleted k (c :: s)
    rw [natDeleted_char hc] at hbegins ⊢
    rw [List.infix_cons_iff, List.infix_cons_iff, hbegins, ih]
  | nat s ih =>
    have hword : natOpen ++ s = 'n' :: 'a' :: 't' :: '(' :: s := rfl
    have hfirst : ¬ nats (k + 2) <+: 'n' :: 'a' :: 't' :: '(' :: s := fun h =>
      not_nats_prefix_cons (by decide) s (nats_prefix_nat.mp h)
    have hletters : nats (k + 2) <:+: 'n' :: 'a' :: 't' :: '(' :: s ↔ nats (k + 2) <:+: s := by
      rw [List.infix_cons_iff, or_iff_right hfirst, List.infix_cons_iff,
        or_iff_right (not_nats_prefix_cons (by decide) _), List.infix_cons_iff,
        or_iff_right (not_nats_prefix_cons (by decide) _), List.infix_cons_iff,
        or_iff_right (not_nats_prefix_cons (by decide) _)]
    rw [natDeleted_nat, List.infix_cons_iff, or_iff_right (not_nats_prefix_cons (by decide) _), ih,
      hword, hletters]

theorem length_natDeleted_le (s : Text) : (natDeleted s).length ≤ s.length := by
  induction s using natInduction with
  | nil => exact le_rfl
  | char c s hc ih =>
    rw [natDeleted_char hc]
    exact Nat.succ_le_succ ih
  | nat s ih =>
    have hlen : (natOpen ++ s).length = 4 + s.length := List.length_append
    rw [natDeleted_nat, List.length_cons, hlen]
    omega

/-- A text without `nat(` stays as it is, and only such a text. -/
theorem natDeleted_eq_self_iff {s : Text} : natDeleted s = s ↔ ¬ natOpen <:+: s := by
  constructor
  · induction s using natInduction with
    | nil => exact fun _ => by decide
    | char c s hc ih =>
      intro h
      rw [natDeleted_char hc] at h
      rw [List.infix_cons_iff, not_or]
      exact ⟨hc, ih (List.cons.inj h).2⟩
    | nat s _ =>
      intro h
      have hlen := congrArg List.length h
      have hle := length_natDeleted_le s
      rw [natDeleted_nat, List.length_cons, List.length_append] at hlen
      change (natDeleted s).length + 1 = 4 + s.length at hlen
      omega
  · intro h
    exact natDeleted_of_find_none (find_eq_none_iff.mpr h)

/-- **One pass of `removeNat`** takes one `nat` from each row of them in front of a parenthesis. So a
second pass, and `-replace-nat` after `-remove-nat`, find something exactly when the text has a
`natnat(`. -/
theorem removeNat_nats (s : Text) :
    ∃ r, removeNat s = .ok r ∧ (∀ k, nats (k + 1) <:+: r ↔ nats (k + 2) <:+: s) ∧
      (removeNat r = .ok r ↔ ¬ nats 2 <:+: s) ∧ (replaceNatWithMax r = some r ↔ ¬ nats 2 <:+: s) := by
  have hagain : natOpen <:+: natDeleted s ↔ nats 2 <:+: s := nats_infix_natDeleted 0 s
  refine ⟨natDeleted s, removeNat_eq s, fun k => nats_infix_natDeleted k s, ?_, ?_⟩
  · rw [removeNat_eq, Except.ok.injEq, natDeleted_eq_self_iff, hagain]
  · rw [← hagain]
    constructor
    · intro h
      exact (rewritten_of_replaceNatWithMax _ _ h).no_natOpen
    · exact fun h => (rewritten_self h).replaceNatWithMax

end Gpscat.CoFloCoWrapper
