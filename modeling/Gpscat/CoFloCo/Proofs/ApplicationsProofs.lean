import Gpscat.CoFloCo.Applications
import Gpscat.CoFloCo.Proofs.BoundRemovalProofs
import Mathlib.Algebra.Order.BigOperators.Group.List
import Mathlib.Algebra.Order.Group.Nat

/-!
# Which applications are rewritten

Both functions rewrite wherever `nat(` stands, which is where an application starts whose name ends
in `nat`. They are exact on the texts in which `nat` is the only such name.
-/

namespace Gpscat.CoFloCoWrapper

open Cpp Gpscat.Bound Brackets

/-! ## Words -/

@[simp] theorem behindWord_zero (s : Text) : behindWord s 0 = false := rfl

theorem behindWord_append {x s : Text} {i : Nat} (h : s.take i ≠ []) :
    behindWord (x ++ s) (x.length + i) = behindWord s i := by
  rw [behindWord, behindWord, List.take_length_add_append, List.getLast?_append_of_ne_nil _ h]

theorem behindWord_append_zero {x s : Text} :
    behindWord (x ++ s) x.length = x.getLast?.any isWordChar := by
  rw [behindWord, List.take_left']
  rfl

/-! ## Where `nat(` stands -/

theorem natOpen_append (t : Text) : natOpen ++ t = 'n' :: 'a' :: 't' :: '(' :: t := rfl

theorem AppliesAt.natAt {s : Text} {i : Nat} (h : AppliesAt s natName i) : NatAt s i := h.1

theorem AppliesAt.lt_length {s name : Text} {i : Nat} (h : AppliesAt s name i) :
    i + name.length < s.length := by
  have := h.1.length_le
  rw [List.length_append, List.length_singleton, List.length_drop] at this
  omega

/-- A word in front of a parenthesis is the end of the name of an application. -/
theorem exists_appliesAt {s w : Text} {i : Nat} (hne : w ≠ []) (hw : w.all isWordChar = true)
    (h : w ++ ['('] <+: s.drop i) :
    ∃ name k, AppliesAt s name k ∧ w <:+ name ∧ k + name.length = i + w.length := by
  induction i generalizing w with
  | zero => exact ⟨w, 0, ⟨h, hne, hw, behindWord_zero s⟩, List.suffix_refl w, rfl⟩
  | succ i ih =>
    by_cases hb : behindWord s (i + 1) = true
    · -- The word goes on to the left.
      have hi : i < s.length := by
        by_contra hge
        rw [List.drop_of_length_le (by omega)] at h
        exact absurd (List.prefix_nil.mp h) (by simp)
      have hlast : (s.take (i + 1)).getLast? = some s[i] := by
        rw [List.take_succ_eq_append_getElem hi, List.getLast?_append]
        rfl
      rw [behindWord, hlast, Option.any_some] at hb
      obtain ⟨name, k, happ, hsuffix, hlen⟩ := ih (w := s[i] :: w) (by simp)
        (by rw [List.all_cons, hb, hw]; rfl) (by
          rw [List.drop_eq_getElem_cons hi, List.cons_append, List.cons_prefix_cons]
          exact ⟨rfl, h⟩)
      refine ⟨name, k, happ, (List.suffix_cons _ w).trans hsuffix, ?_⟩
      rw [hlen, List.length_cons]
      omega
    · rw [Bool.not_eq_true] at hb
      exact ⟨w, i + 1, ⟨h, hne, hw, hb⟩, List.suffix_refl w, rfl⟩

/-- `nat(` stands at the end of the names that end in `nat`. -/
theorem natAt_iff {s : Text} {i : Nat} :
    NatAt s i ↔ ∃ name k, AppliesAt s name k ∧ natName <:+ name ∧ k + name.length = i + 3 := by
  constructor
  · exact fun h => exists_appliesAt (w := natName) (by decide) (by decide) h
  · rintro ⟨name, k, h, ⟨x, rfl⟩, hlen⟩
    rw [List.length_append] at hlen
    change k + (x.length + 3) = i + 3 at hlen
    obtain rfl : i = k + x.length := by omega
    obtain ⟨t, ht⟩ := h.1
    refine ⟨t, ?_⟩
    rw [← List.drop_drop, ← ht]
    simp [natOpen, natName]

theorem OnlyNatEndsInNat.appliesAt_iff {s : Text} (h : OnlyNatEndsInNat s) {i : Nat} :
    AppliesAt s natName i ↔ NatAt s i := by
  refine ⟨AppliesAt.natAt, fun hat => ?_⟩
  obtain ⟨name, k, happ, hsuffix, hlen⟩ := natAt_iff.mp hat
  obtain rfl := h name k happ hsuffix
  obtain rfl : k = i := by
    change k + 3 = i + 3 at hlen
    omega
  exact happ

/-- Another name that ends in `nat` gives a `nat(` that is no application of `nat`. -/
theorem exists_natAt_of_not_onlyNatEndsInNat {s : Text} (h : ¬ OnlyNatEndsInNat s) :
    ∃ i, NatAt s i ∧ ¬ AppliesAt s natName i := by
  rw [OnlyNatEndsInNat] at h
  push Not at h
  obtain ⟨name, k, happ, ⟨x, rfl⟩, hne⟩ := h
  refine ⟨k + x.length, natAt_iff.mpr ⟨_, k, happ, ⟨x, rfl⟩, ?_⟩, fun hnat => ?_⟩
  · rw [List.length_append, add_assoc]
    rfl
  · -- The letter in front of this `nat` belongs to the name.
    obtain ⟨t, ht⟩ := happ.1
    have hk : k ≤ s.length := by have := happ.lt_length; omega
    have hs : s = (s.take k ++ x) ++ (natName ++ ['('] ++ t) := by
      rw [List.append_assoc, ← List.append_assoc x, ← List.append_assoc x, ht,
        List.take_append_drop]
    have hx : x ≠ [] := by
      rintro rfl
      exact hne rfl
    have hlen : (s.take k ++ x).length = k + x.length := by
      rw [List.length_append, List.length_take_of_le hk]
    have hbehind : behindWord s (k + x.length) = true := by
      rw [hs, ← hlen, behindWord_append_zero, List.getLast?_append_of_ne_nil _ hx,
        List.getLast?_eq_some_getLast hx, Option.any_some]
      exact List.all_eq_true.mp happ.2.2.1 _ (List.mem_append_left _ (List.getLast_mem hx))
    exact absurd (hbehind.symm.trans hnat.2.2.2) (by decide)

/-- Occurrences do not overlap. -/
theorem NatAt.not_add {s : Text} {i k : Nat} (h : NatAt s i) (h0 : 0 < k) (h4 : k < 4) :
    ¬ NatAt s (i + k) := by
  obtain ⟨t, ht⟩ := h
  intro hk
  rw [NatAt, ← List.drop_drop, ← ht] at hk
  rcases k with _ | _ | _ | _ | k
  · omega
  · exact absurd (List.cons_prefix_cons.mp hk).1 (by decide)
  · exact absurd (List.cons_prefix_cons.mp hk).1 (by decide)
  · exact absurd (List.cons_prefix_cons.mp hk).1 (by decide)
  · omega

theorem NatAt.eq_of_near {s : Text} {i j : Nat} (hi : NatAt s i) (hj : NatAt s j)
    (hij : i < j + 4) (hji : j < i + 4) : i = j := by
  rcases Nat.lt_trichotomy i j with hlt | heq | hlt
  · obtain ⟨k, rfl⟩ := Nat.exists_eq_add_of_lt hlt
    exact absurd hj (hi.not_add (k := k + 1) (by omega) (by omega))
  · exact heq
  · obtain ⟨k, rfl⟩ := Nat.exists_eq_add_of_lt hlt
    exact absurd hi (hj.not_add (k := k + 1) (by omega) (by omega))

theorem AppliesAt.of_append {x s name : Text} {i : Nat}
    (h : AppliesAt (x ++ s) name (x.length + i)) : AppliesAt s name i := by
  have hdrop : (x ++ s).drop (x.length + i) = s.drop i := by simp
  refine ⟨hdrop ▸ h.1, h.2.1, h.2.2.1, ?_⟩
  by_cases hnil : s.take i = []
  · rw [behindWord, hnil]
    rfl
  · rw [← behindWord_append (x := x) hnil]
    exact h.2.2.2

theorem not_appliesAt_of_no_natOpen {r : Text} (h : ¬ natOpen <:+: r) (i : Nat) :
    ¬ AppliesAt r natName i := fun happ =>
  h (happ.natAt.isInfix.trans (List.drop_suffix i r).isInfix)

/-! ## `removeNat` -/

theorem natDeleted_eq_cons {s r : Text} {c : Char} (hc : c ≠ '(') (h : natDeleted s = c :: r) :
    ∃ s', s = c :: s' ∧ natDeleted s' = r := by
  induction s using natInduction with
  | nil => exact absurd h (by simp)
  | char d s hd _ =>
    rw [natDeleted_char hd] at h
    obtain ⟨rfl, rfl⟩ := List.cons.inj h
    exact ⟨s, rfl, rfl⟩
  | nat s _ =>
    rw [natDeleted_nat] at h
    exact absurd (List.cons.inj h).1.symm hc

theorem natDeleted_eq_open {s r : Text} (h : natDeleted s = '(' :: r) :
    (∃ s', s = '(' :: s') ∨ natOpen <+: s := by
  induction s using natInduction with
  | nil => exact absurd h (by simp)
  | char d s hd _ =>
    rw [natDeleted_char hd] at h
    obtain ⟨rfl, -⟩ := List.cons.inj h
    exact .inl ⟨s, rfl⟩
  | nat s _ => exact .inr (List.prefix_append natOpen s)

/-- The deletion makes no `nat(` when every `nat` is a whole identifier: the letters in front of a
deleted `nat` would belong to its name. -/
theorem no_natOpen_natDeleted {s : Text} (h : ∀ i, NatAt s i → AppliesAt s natName i) :
    ¬ natOpen <:+: natDeleted s := by
  induction s using natInduction with
  | nil => decide
  | char c s hc ih =>
    have hs : ∀ i, NatAt s i → AppliesAt s natName i := by
      intro i hi
      refine AppliesAt.of_append (x := [c]) ?_
      rw [List.length_singleton, Nat.add_comm]
      exact h (i + 1) (natAt_cons_succ.mpr hi)
    rw [natDeleted_char hc, List.infix_cons_iff]
    rintro (⟨t, ht⟩ | hi)
    · rw [natOpen_append] at ht
      obtain ⟨rfl, hrest⟩ := List.cons.inj ht
      obtain ⟨s₁, rfl, h₁⟩ := natDeleted_eq_cons (by decide) hrest.symm
      obtain ⟨s₂, rfl, h₂⟩ := natDeleted_eq_cons (by decide) h₁
      rcases natDeleted_eq_open h₂ with ⟨s₃, rfl⟩ | hnat
      · exact hc (List.prefix_append natOpen s₃)
      · have hbehind : behindWord ('n' :: 'a' :: 't' :: s₂) 3 = isWordChar 't' := rfl
        exact absurd (hbehind.symm.trans (h 3 hnat).2.2.2) (by decide)
    · exact ih hs hi
  | nat s ih =>
    have hs : ∀ i, NatAt s i → AppliesAt s natName i := fun i hi =>
      (h (natOpen.length + i) (natAt_append_right.mpr hi)).of_append
    rw [natDeleted_nat, List.infix_cons_iff]
    rintro (hp | hi)
    · exact absurd (List.cons_prefix_cons.mp hp).1 (by decide)
    · exact ih hs hi

/-- More positions, less text. -/
theorem lettersDeleted_length_lt {P Q : Nat → Prop} [DecidablePred P] [DecidablePred Q] {s : Text}
    (hPQ : ∀ k, P k → Q k) {i : Nat} (hi : i < s.length) (hQ : Q i)
    (hP : ∀ k < 3, k ≤ i → ¬ P (i - k)) :
    (lettersDeleted Q s).length < (lettersDeleted P s).length := by
  rw [lettersDeleted, lettersDeleted, List.length_flatMap, List.length_flatMap]
  refine List.sum_lt_sum _ _ (fun j _ => ?_) ⟨i, List.mem_range.mpr hi, ?_⟩
  · by_cases hj : ∃ k < 3, k ≤ j ∧ P (j - k)
    · obtain ⟨k, hk, hkj, hat⟩ := hj
      rw [kept, if_pos ⟨k, hk, hkj, hPQ _ hat⟩]
      exact Nat.zero_le _
    · rw [kept, kept, if_neg hj]
      split_ifs
      · exact Nat.zero_le _
      · exact le_rfl
  · rw [kept, kept, if_pos ⟨0, by omega, Nat.zero_le i, hQ⟩, if_neg]
    · rw [List.length_take, List.length_drop]
      exact lt_min Nat.one_pos (Nat.sub_pos_of_lt hi)
    · rintro ⟨k, hk, hki, hat⟩
      exact hP k hk hki hat

theorem removesOnlyNat_iff (s : Text) : RemovesOnlyNat s ↔ OnlyNatEndsInNat s := by
  constructor
  · intro h
    by_contra hcond
    obtain ⟨i, hat, hnot⟩ := exists_natAt_of_not_onlyNatEndsInNat hcond
    have hlen := hat.lt_length
    have heq := Except.ok.inj ((removeNat_eq s).symm.trans h.removed)
    have hlt := lettersDeleted_length_lt (P := AppliesAt s natName) (Q := NatAt s) (s := s) (i := i)
      (fun _ => AppliesAt.natAt) (by omega) hat fun k hk hki happ => ?_
    · exact absurd (congrArg List.length heq) hlt.ne
    · obtain rfl : k = 0 := by
        have := happ.natAt.eq_of_near hat (by omega) (by omega)
        omega
      exact hnot happ
  · intro hcond
    refine ⟨?_, fun r hr => ?_⟩
    · rw [removeNat_eq, natDeleted]
      exact congrArg Except.ok (lettersDeleted_congr fun _ => hcond.appliesAt_iff.symm)
    · obtain rfl := Except.ok.inj ((removeNat_eq s).symm.trans hr)
      exact not_appliesAt_of_no_natOpen
        (no_natOpen_natDeleted fun _ hat => hcond.appliesAt_iff.mpr hat)

/-! ## `replaceNatWithMax` -/

theorem ApplicationsClosed.allNatMatched {s : Text} (h : ApplicationsClosed s) :
    AllNatMatched s := by
  intro i hi
  obtain ⟨name, k, happ, -, hlen⟩ := natAt_iff.mp hi
  obtain ⟨j, hj⟩ := h name k happ
  exact ⟨j, hlen ▸ hj⟩

theorem replacementAt_congr {P Q : Nat → Prop} [DecidablePred P] [DecidablePred Q]
    (h : ∀ k, P k ↔ Q k) (s : Text) : replacementAt P s = replacementAt Q s := by
  funext i
  simp only [replacementAt, h]

theorem replacement_eq (s : Text) : replacement s = replacementAt (NatAt s) s := rfl

theorem drop_of_matching_natAt {s : Text} {k j : Nat} (hk : NatAt s k)
    (h : Matching parenthesis s (k + 3) j) : ∃ t, s.drop j = ')' :: t := by
  obtain ⟨b, t, hdrop, -, rfl⟩ := (matching_natAt hk).mp h
  refine ⟨t, ?_⟩
  rw [← List.drop_drop, hdrop, List.drop_left']
  rfl

section OtherName

variable {P : Nat → Prop} [DecidablePred P] {x t : Text}

/-- A `nat(` at a position that is not in `P` is left as it is. -/
theorem replacementAt_other (hP : ∀ k, P k → NatAt (x ++ (natOpen ++ t)) k) (hnot : ¬ P x.length)
    {m : Nat} (hm : m < 4) :
    replacementAt P (x ++ (natOpen ++ t)) (x.length + m) = ((natOpen ++ t).drop m).take 1 := by
  have hat : NatAt (x ++ (natOpen ++ t)) x.length := by
    rw [NatAt, List.drop_left']
    · exact List.prefix_append natOpen t
    · rfl
  have hfar : ∀ k, P k → k < x.length + 4 → ¬ x.length < k + 4 := by
    intro k hk hlt hge
    obtain rfl := (hP k hk).eq_of_near hat hlt hge
    exact hnot hk
  have hdrop : (x ++ (natOpen ++ t)).drop (x.length + m) = (natOpen ++ t).drop m := by simp
  rw [replacementAt, if_neg, if_neg, if_neg, hdrop]
  · rintro ⟨k, -, hk, hmatch⟩
    obtain ⟨u, hu⟩ := drop_of_matching_natAt (hP k hk) hmatch
    rw [hdrop, List.drop_append_of_le_length hm.le] at hu
    have hmem : ')' ∈ natOpen.drop m := by
      rcases hcases : natOpen.drop m with _ | ⟨d, ds⟩
      · exact absurd (List.drop_eq_nil_iff.mp hcases) (not_le.mpr hm)
      · rw [hcases, List.cons_append] at hu
        rw [(List.cons.inj hu).1]
        exact List.mem_cons_self
    exact close_notMem_natOpen (List.mem_of_mem_drop hmem)
  · rintro ⟨k, hk, hlt, hPk⟩
    exact hfar _ hPk (by omega) (by omega)
  · exact fun hPm => hfar _ hPm (by omega) (by omega)

theorem natOpen_infix_replacementAt (hP : ∀ k, P k → NatAt (x ++ (natOpen ++ t)) k)
    (hnot : ¬ P x.length) :
    natOpen <:+: (List.range (x ++ (natOpen ++ t)).length).flatMap
      (replacementAt P (x ++ (natOpen ++ t))) := by
  have hfour : (List.range natOpen.length).flatMap
      (fun m => replacementAt P (x ++ (natOpen ++ t)) (x.length + m)) = natOpen := by
    rw [show List.range natOpen.length = [0, 1, 2, 3] from rfl]
    simp only [List.flatMap_cons, List.flatMap_nil]
    rw [replacementAt_other hP hnot (by omega), replacementAt_other hP hnot (by omega),
      replacementAt_other hP hnot (by omega), replacementAt_other hP hnot (by omega)]
    rfl
  rw [flatMap_range_append, flatMap_range_append, hfour]
  exact ⟨_, _, List.append_assoc _ _ _⟩

end OtherName

theorem replacesOnlyNat_iff {s : Text} (hs : ApplicationsClosed s) :
    ReplacesOnlyNat s ↔ OnlyNatEndsInNat s := by
  constructor
  · intro h
    by_contra hcond
    obtain ⟨i, ⟨t, ht⟩, hnot⟩ := exists_natAt_of_not_onlyNatEndsInNat hcond
    have hi : i ≤ s.length := by
      by_contra hlt
      rw [List.drop_of_length_le (by omega)] at ht
      exact absurd (List.append_eq_nil_iff.mp ht).1 (by decide)
    have hsplit : s = s.take i ++ (natOpen ++ t) := by rw [ht, List.take_append_drop]
    have hlen : (s.take i).length = i := List.length_take_of_le hi
    have hleft := natOpen_infix_replacementAt (P := AppliesAt s natName) (x := s.take i) (t := t)
      (fun k hk => hsplit ▸ hk.natAt) (by rwa [hlen])
    rw [← hsplit] at hleft
    exact (rewritten_of_replaceNatWithMax s _ h.replaced).no_natOpen hleft
  · intro hcond
    obtain ⟨r, hr⟩ := hs.allNatMatched.rewritten
    refine ⟨?_, fun r' hr' => ?_⟩
    · rw [hr.replaceNatWithMax, hr.eq_flatMap, replacement_eq,
        replacementAt_congr fun _ => hcond.appliesAt_iff]
    · exact not_appliesAt_of_no_natOpen (rewritten_of_replaceNatWithMax s r' hr').no_natOpen

/-! ## Both functions -/

theorem applicationsClosed_of_balanced {s : Text} (h : Balanced parenthesis s) :
    ApplicationsClosed s := by
  intro name i happ
  obtain ⟨t, ht⟩ := happ.1
  have hdrop : s.drop (i + name.length) = '(' :: t := by
    rw [← List.drop_drop, ← ht, List.append_assoc, List.drop_left']
    · rfl
    · rfl
  exact h.exists_matching parenthesis_ge (by decide) hdrop

/-- **Which applications are rewritten**: each of the two functions rewrites the applications of
`nat` and no other, and makes no new one, exactly when no other name of an application ends in
`nat`. -/
theorem rewritesOnlyNat_iff (s : Text) (hs : ApplicationsClosed s) :
    (RemovesOnlyNat s ↔ OnlyNatEndsInNat s) ∧ (ReplacesOnlyNat s ↔ OnlyNatEndsInNat s) :=
  ⟨removesOnlyNat_iff s, replacesOnlyNat_iff hs⟩

theorem applicationsClosed_cnat : ApplicationsClosed "cnat(x)".toList :=
  applicationsClosed_of_balanced
    (balanced_word (x := "cnat".toList) rfl (balanced_parens (balanced_word (x := "x".toList) rfl
      balanced_nil)))

theorem rewritesOnlyNat_cnat :
    (RemovesOnlyNat "cnat(x)".toList ↔ OnlyNatEndsInNat "cnat(x)".toList) ∧
    (ReplacesOnlyNat "cnat(x)".toList ↔ OnlyNatEndsInNat "cnat(x)".toList) :=
  rewritesOnlyNat_iff "cnat(x)".toList applicationsClosed_cnat

/-- An application of `cnat` is renamed, and one of `natnat` becomes one of `nat`. -/
theorem cnat_rewritten :
    (ApplicationsClosed "cnat(x)".toList ∧ AppliesAt "cnat(x)".toList "cnat".toList 0 ∧
      removeNat "cnat(x)".toList = .ok "c(x)".toList ∧ ¬ RemovesOnlyNat "cnat(x)".toList ∧
      replaceNatWithMax "cnat(x)".toList = some "cmax([x,0])".toList ∧
      ¬ ReplacesOnlyNat "cnat(x)".toList) ∧
    AppliesAt "natnat(x)".toList "natnat".toList 0 ∧
      removeNat "natnat(x)".toList = .ok "nat(x)".toList ∧ AppliesAt "nat(x)".toList natName 0 := by
  have hname : AppliesAt "cnat(x)".toList "cnat".toList 0 := ⟨⟨"x)".toList, rfl⟩, by decide, rfl, rfl⟩
  have hcond : ¬ OnlyNatEndsInNat "cnat(x)".toList := fun h =>
    absurd (h _ 0 hname ⟨"c".toList, rfl⟩) (by decide)
  have hreplaced : Rewritten "cnat(x)".toList "cmax([x,0])".toList :=
    .char (by decide) (.nat (b := "x".toList) (balanced_word (x := "x".toList) rfl balanced_nil)
      (rewritten_self (by decide)) .nil)
  refine ⟨⟨applicationsClosed_cnat, hname, removeNat_eq _, ?_, hreplaced.replaceNatWithMax, ?_⟩,
    ⟨⟨"x)".toList, rfl⟩, by decide, rfl, rfl⟩, removeNat_eq _,
    ⟨⟨"x)".toList, rfl⟩, by decide, rfl, rfl⟩⟩
  · exact fun h => hcond ((removesOnlyNat_iff _).mp h)
  · exact fun h => hcond ((replacesOnlyNat_iff applicationsClosed_cnat).mp h)

end Gpscat.CoFloCoWrapper
