import Gpscat.CoFloCo.Proofs.BoundParserProofs
import Gpscat.CoFloCo.Proofs.NatRewritingProofs

/-!
# `replaceNatWithMax` on cost bounds

On the text of an expression, the rewriting of the text is the translation of the expression: no
`nat(` arises or disappears where the texts of the parts meet, because a character that is not in
`nat(` stands there, or a parenthesis that no identifier precedes.
-/

namespace Gpscat.Bound

open Cpp CoFloCoWrapper Brackets

/-! ## Seams -/

/-- A character that does not begin `nat(` stays in front of what is rewritten. -/
theorem rewritten_cons {c : Char} (hc : c ≠ 'n') {s r : Text} (h : Rewritten s r) :
    Rewritten (c :: s) (c :: r) :=
  .char (fun hp => hc (List.cons_prefix_cons.mp hp).1.symm) h

/-- No `nat(` crosses a character that is not in it, so what stands before and behind it is rewritten
separately. -/
theorem rewritten_append_cons {x rx y ry : Text} {c : Char} (hc : c ∉ natOpen)
    (hx : Rewritten x rx) (hy : Rewritten y ry) : Rewritten (x ++ c :: y) (rx ++ c :: ry) := by
  induction hx with
  | nil =>
    refine rewritten_cons ?_ hy
    rintro rfl
    exact hc (by decide)
  | @char d s r hd _ ih =>
    refine .char (fun hp => hd ?_) ih
    exact natAt_zero.mp (natAt_append_cons hc (Nat.zero_le _) (natAt_zero.mpr hp))
  | @nat b t rb rt hb hrb _ _ iht =>
    have := Rewritten.nat hb hrb iht
    simpa only [List.append_assoc, List.cons_append] using this

/-- The rewriting neither makes nor takes away a minus sign at the beginning. -/
theorem rewritten_head {s r : Text} (h : Rewritten s r) :
    s.head? = some '-' ↔ r.head? = some '-' := by
  cases h with
  | nil => exact Iff.rfl
  | char _ _ => exact Iff.rfl
  | nat _ _ _ =>
    exact iff_of_false (fun h => absurd (Option.some.inj h) (by decide))
      fun h => absurd (Option.some.inj h) (by decide)

/-- So the blank in front of a minus sign is put before and after the rewriting alike. -/
theorem rewritten_spaced {s r : Text} (h : Rewritten s r) : Rewritten (spaced s) (spaced r) := by
  by_cases hs : s.head? = some '-'
  · rw [spaced, spaced, if_pos hs, if_pos ((rewritten_head h).mp hs)]
    exact rewritten_cons (by decide) h
  · rw [spaced, spaced, if_neg hs, if_neg fun hr => hs ((rewritten_head h).mpr hr)]
    exact h

/-! ## The texts of expressions -/

theorem parenthesis_eq_zero {c : Char} (h : c ≠ '(' ∧ c ≠ ')') : parenthesis c = 0 := by
  rw [parenthesis, if_neg h.1, if_neg h.2]

theorem isWordChar_ne {c : Char} (h : isWordChar c = true) : c ≠ '(' ∧ c ≠ ')' := by
  constructor <;> (rintro rfl; exact absurd h (by decide))

theorem Ident.isWordChar (x : Ident) {c : Char} (hc : c ∈ x.name) :
    Bound.isWordChar c = true :=
  List.all_eq_true.mp x.isWord c hc

theorem BinOp.char_ne (op : BinOp) :
    op.char ∉ natOpen ∧ op.char ≠ '(' ∧ op.char ≠ ')' := by cases op <;> decide

theorem balanced_cons {c : Char} (h : c ≠ '(' ∧ c ≠ ')') {s : Text}
    (hs : Balanced parenthesis s) : Balanced parenthesis (c :: s) :=
  Balanced.append (balanced_of_forall fun d hd => by
    rw [List.mem_singleton.mp hd]; exact parenthesis_eq_zero h) hs

theorem balanced_word {x s : Text} (hx : x.all isWordChar = true)
    (hs : Balanced parenthesis s) : Balanced parenthesis (x ++ s) := by
  refine Balanced.append (balanced_of_forall fun c hc => ?_) hs
  exact parenthesis_eq_zero (isWordChar_ne (List.all_eq_true.mp hx c hc))

theorem balanced_spaced {s : Text} (hs : Balanced parenthesis s) :
    Balanced parenthesis (spaced s) := by
  unfold spaced
  split_ifs
  · exact balanced_cons (by decide) hs
  · exact hs

theorem balanced_parens {s : Text} (hs : Balanced parenthesis s) :
    Balanced parenthesis ('(' :: (s ++ [')'])) :=
  hs.wrap (by decide) (by decide)

theorem balanced_list {s : Text} (hs : Balanced parenthesis s) :
    Balanced parenthesis ('(' :: '[' :: (s ++ [']', ')'])) := by
  have := balanced_parens (balanced_cons (c := '[') (by decide)
    (hs.append (balanced_cons (c := ']') (by decide) balanced_nil)))
  simpa using this

/-- The text of an integer or an identifier is made of letters, digits and minus signs. -/
theorem mem_text_int {n : ℤ} {c : Char} (h : c ∈ (Exp.int n).text) : c ≠ '(' ∧ c ≠ ')' := by
  rw [Exp.text] at h
  split_ifs at h
  · rcases List.mem_cons.mp h with rfl | h
    · decide
    · exact isWordChar_ne (isWordChar_of_isDigit (toDigits_isDigit h))
  · exact isWordChar_ne (isWordChar_of_isDigit (toDigits_isDigit h))

/-- Without parentheses there is nothing to rewrite. -/
theorem rewritten_of_forall {s : Text} (h : ∀ c ∈ s, c ≠ '(' ∧ c ≠ ')') : Rewritten s s :=
  rewritten_self fun hi => (h '(' (hi.subset (by decide))).1 rfl

mutual

/-- The parentheses in a text match, so the argument of a `nat(` ends where the text of the operand
does. -/
theorem Exp.balanced_text : ∀ e : Exp, Balanced parenthesis e.text
  | .int n => balanced_of_forall fun _ hc => parenthesis_eq_zero (mem_text_int hc)
  | .ident x => balanced_of_forall fun c hc => parenthesis_eq_zero (isWordChar_ne (x.isWordChar hc))
  | .neg e => by
    rw [Exp.text]
    exact balanced_cons (by decide) (balanced_spaced (Exp.balanced_text e))
  | .bin op a b => by
    rw [Exp.text]
    exact (Exp.balanced_text a).append
      (balanced_cons op.char_ne.2 (balanced_spaced (Exp.balanced_text b)))
  | .paren e => by
    rw [Exp.text]
    exact balanced_parens (Exp.balanced_text e)
  | .natOf e => by
    rw [Exp.text]
    exact balanced_word (x := "nat".toList) (by decide) (balanced_parens (Exp.balanced_text e))
  | .maxOf es => by
    rw [Exp.text]
    exact balanced_word (x := "max".toList) (by decide) (balanced_list (Args.balanced_text es))
  | .minOf es => by
    rw [Exp.text]
    exact balanced_word (x := "min".toList) (by decide) (balanced_list (Args.balanced_text es))

theorem Args.balanced_text : ∀ es : Args, Balanced parenthesis es.text
  | .one e => by
    rw [Args.text]
    exact Exp.balanced_text e
  | .cons e es => by
    rw [Args.text]
    exact (Exp.balanced_text e).append (balanced_cons (by decide) (Args.balanced_text es))

end

/-- An argument list: the word in front of it and the brackets stay. -/
theorem rewritten_list {x s r : Text} (hx : Rewritten x x) (h : Rewritten s r) :
    Rewritten (x ++ '[' :: (s ++ "])".toList)) (x ++ '[' :: (r ++ "])".toList)) :=
  rewritten_append_cons (by decide) hx
    (rewritten_append_cons (by decide) h (rewritten_cons (by decide) .nil))

mutual

/-- On the text of an expression, the rewriting is the translation. -/
theorem Exp.rewritten_text : ∀ e : Exp, Rewritten e.text e.natToMax.text
  | .int n => rewritten_of_forall fun _ hc => mem_text_int hc
  | .ident x => rewritten_of_forall fun c hc => isWordChar_ne (x.isWordChar hc)
  | .neg e => by
    rw [Exp.natToMax, Exp.text, Exp.text]
    exact rewritten_cons (by decide) (rewritten_spaced (Exp.rewritten_text e))
  | .bin op a b => by
    rw [Exp.natToMax, Exp.text, Exp.text]
    exact rewritten_append_cons op.char_ne.1 (Exp.rewritten_text a)
      (rewritten_spaced (Exp.rewritten_text b))
  | .paren e => by
    rw [Exp.natToMax, Exp.text, Exp.text]
    exact rewritten_cons (by decide)
      (rewritten_append_cons (by decide) (Exp.rewritten_text e) .nil)
  | .natOf e => by
    have hnat := Rewritten.nat (Exp.balanced_text e) (Exp.rewritten_text e) .nil
    have htext : (Exp.natOf e).natToMax.text =
        "max([".toList ++ (e.natToMax.text ++ (",0])".toList ++ [])) := by
      rw [Exp.natToMax, Exp.text, Args.text, Args.text, List.append_assoc]
      rfl
    rw [htext, Exp.text]
    exact hnat
  | .maxOf es => by
    rw [Exp.natToMax, Exp.text, Exp.text]
    exact rewritten_list (rewritten_self (s := "max(".toList) (by decide))
      (Args.rewritten_text es)
  | .minOf es => by
    rw [Exp.natToMax, Exp.text, Exp.text]
    exact rewritten_list (rewritten_self (s := "min(".toList) (by decide))
      (Args.rewritten_text es)

theorem Args.rewritten_text : ∀ es : Args, Rewritten es.text es.natToMax.text
  | .one e => by
    rw [Args.natToMax, Args.text, Args.text]
    exact Exp.rewritten_text e
  | .cons e es => by
    rw [Args.natToMax, Args.text, Args.text]
    exact rewritten_append_cons (by decide) (Exp.rewritten_text e) (Args.rewritten_text es)

end

/-! ## Replacing `nat` -/

section MapNat

variable {f : Exp → Exp}

theorem Exp.mapNat_level (hf : ∀ e, (f e).level = 0) (e : Exp) :
    (e.mapNat f).level = e.level := by
  cases e with
  | natOf e => rw [Exp.mapNat, hf]; rfl
  | _ => rfl

theorem Exp.mapNat_isNumeral (hf : ∀ e, (f e).isNumeral = false) (e : Exp) :
    (e.mapNat f).isNumeral = e.isNumeral := by
  cases e with
  | natOf e => rw [Exp.mapNat, hf]; rfl
  | _ => rfl

/-- What stands for a `nat(x)` is put in parentheses where the `nat(x)` is. -/
theorem Exp.mapNat_operand (hf : ∀ e, (f e).level = 0) (e : Exp) (n : Nat) :
    (e.operand n).mapNat f = (e.mapNat f).operand n := by
  unfold Exp.operand
  rw [e.mapNat_level hf]
  split_ifs
  · rfl
  · rw [Exp.mapNat]

/-- What may stand for a `nat(x)`: it needs parentheses where a `nat(x)` does, which is nowhere. -/
structure LaidOut (f : Exp → Exp) : Prop where
  level : ∀ e, (f e).level = 0
  isNumeral : ∀ e, (f e).isNumeral = false
  layout : ∀ e, (f e).layout = f e.layout

mutual

/-- Putting parentheses and replacing `nat` commute. -/
theorem Exp.layout_mapNat (hf : LaidOut f) : ∀ e : Exp, (e.mapNat f).layout = e.layout.mapNat f
  | .int _ => rfl
  | .ident _ => rfl
  | .neg e => by
    rw [Exp.mapNat, Exp.layout, Exp.layout, Exp.layout_mapNat hf e,
      Exp.mapNat_isNumeral hf.isNumeral, Exp.mapNat, ← Exp.mapNat_operand hf.level]
    split_ifs
    · rw [Exp.mapNat]
    · rfl
  | .bin op a b => by
    rw [Exp.mapNat, Exp.layout, Exp.layout, Exp.mapNat, Exp.layout_mapNat hf a,
      Exp.layout_mapNat hf b, Exp.mapNat_operand hf.level, Exp.mapNat_operand hf.level]
  | .paren e => by rw [Exp.mapNat, Exp.layout, Exp.layout, Exp.mapNat, Exp.layout_mapNat hf e]
  | .natOf e => by rw [Exp.mapNat, hf.layout, Exp.layout, Exp.mapNat, Exp.layout_mapNat hf e]
  | .maxOf es => by rw [Exp.mapNat, Exp.layout, Exp.layout, Exp.mapNat, Args.layout_mapNat hf es]
  | .minOf es => by rw [Exp.mapNat, Exp.layout, Exp.layout, Exp.mapNat, Args.layout_mapNat hf es]

theorem Args.layout_mapNat (hf : LaidOut f) :
    ∀ es : Args, (es.mapNat f).layout = es.layout.mapNat f
  | .one e => by rw [Args.mapNat, Args.layout, Args.layout, Args.mapNat, Exp.layout_mapNat hf e]
  | .cons e es => by
    rw [Args.mapNat, Args.layout, Args.layout, Args.mapNat, Exp.layout_mapNat hf e,
      Args.layout_mapNat hf es]

end

mutual

/-- Where `f` stands for `nat` on the arguments that occur, the value stays. -/
theorem Exp.eval_mapNat {v : Ident → ℤ} : ∀ e : Exp,
    (∀ x ∈ e.natArgs, ∀ x', x'.eval v = x.eval v → (f x').eval v = (Exp.natOf x).eval v) →
    (e.mapNat f).eval v = e.eval v
  | .int _, _ => rfl
  | .ident _, _ => rfl
  | .neg e, h => by
    rw [Exp.natArgs] at h
    rw [Exp.mapNat, Exp.eval, Exp.eval, Exp.eval_mapNat e h]
  | .bin op a b, h => by
    rw [Exp.natArgs] at h
    rw [Exp.mapNat, Exp.eval, Exp.eval,
      Exp.eval_mapNat a fun x hx => h x (List.mem_append_left _ hx),
      Exp.eval_mapNat b fun x hx => h x (List.mem_append_right _ hx)]
  | .paren e, h => by
    rw [Exp.natArgs] at h
    rw [Exp.mapNat, Exp.eval, Exp.eval, Exp.eval_mapNat e h]
  | .natOf e, h => by
    rw [Exp.natArgs] at h
    rw [Exp.mapNat]
    refine h e List.mem_cons_self _ ?_
    exact Exp.eval_mapNat e fun x hx => h x (List.mem_cons_of_mem e hx)
  | .maxOf es, h => by
    rw [Exp.natArgs] at h
    rw [Exp.mapNat, Exp.eval, Exp.eval, Args.eval_mapNat _ es h]
  | .minOf es, h => by
    rw [Exp.natArgs] at h
    rw [Exp.mapNat, Exp.eval, Exp.eval, Args.eval_mapNat _ es h]

theorem Args.eval_mapNat (g : ℚ → ℚ → ℚ) {v : Ident → ℤ} : ∀ es : Args,
    (∀ x ∈ es.natArgs, ∀ x', x'.eval v = x.eval v → (f x').eval v = (Exp.natOf x).eval v) →
    (es.mapNat f).eval g v = es.eval g v
  | .one e, h => by
    rw [Args.natArgs] at h
    rw [Args.mapNat, Args.eval, Args.eval, Exp.eval_mapNat e h]
  | .cons e es, h => by
    rw [Args.natArgs] at h
    rw [Args.mapNat, Args.eval, Args.eval,
      Exp.eval_mapNat e fun x hx => h x (List.mem_append_left _ hx),
      Args.eval_mapNat g es fun x hx => h x (List.mem_append_right _ hx)]

end

mutual

/-- What stands for a `nat(x)` brings back no `nat` that `x` has not. -/
theorem Exp.natFree_mapNat (hf : ∀ e, e.NatFree → (f e).NatFree) : ∀ e : Exp, (e.mapNat f).NatFree
  | .int _ => by rw [Exp.mapNat, Exp.NatFree]; trivial
  | .ident _ => by rw [Exp.mapNat, Exp.NatFree]; trivial
  | .neg e => by rw [Exp.mapNat, Exp.NatFree]; exact Exp.natFree_mapNat hf e
  | .bin op a b => by
    rw [Exp.mapNat, Exp.NatFree]
    exact ⟨Exp.natFree_mapNat hf a, Exp.natFree_mapNat hf b⟩
  | .paren e => by rw [Exp.mapNat, Exp.NatFree]; exact Exp.natFree_mapNat hf e
  | .natOf e => by rw [Exp.mapNat]; exact hf _ (Exp.natFree_mapNat hf e)
  | .maxOf es => by rw [Exp.mapNat, Exp.NatFree]; exact Args.natFree_mapNat hf es
  | .minOf es => by rw [Exp.mapNat, Exp.NatFree]; exact Args.natFree_mapNat hf es

theorem Args.natFree_mapNat (hf : ∀ e, e.NatFree → (f e).NatFree) :
    ∀ es : Args, (es.mapNat f).NatFree
  | .one e => by rw [Args.mapNat, Args.NatFree]; exact Exp.natFree_mapNat hf e
  | .cons e es => by
    rw [Args.mapNat, Args.NatFree]
    exact ⟨Exp.natFree_mapNat hf e, Args.natFree_mapNat hf es⟩

end

mutual

theorem Exp.mapNat_of_natFree : ∀ e : Exp, e.NatFree → e.mapNat f = e
  | .int _, _ => rfl
  | .ident _, _ => rfl
  | .neg e, h => by
    rw [Exp.NatFree] at h
    rw [Exp.mapNat, Exp.mapNat_of_natFree e h]
  | .bin op a b, h => by
    rw [Exp.NatFree] at h
    rw [Exp.mapNat, Exp.mapNat_of_natFree a h.1, Exp.mapNat_of_natFree b h.2]
  | .paren e, h => by
    rw [Exp.NatFree] at h
    rw [Exp.mapNat, Exp.mapNat_of_natFree e h]
  | .natOf e, h => by
    rw [Exp.NatFree] at h
    exact h.elim
  | .maxOf es, h => by
    rw [Exp.NatFree] at h
    rw [Exp.mapNat, Args.mapNat_of_natFree es h]
  | .minOf es, h => by
    rw [Exp.NatFree] at h
    rw [Exp.mapNat, Args.mapNat_of_natFree es h]

theorem Args.mapNat_of_natFree : ∀ es : Args, es.NatFree → es.mapNat f = es
  | .one e, h => by
    rw [Args.NatFree] at h
    rw [Args.mapNat, Exp.mapNat_of_natFree e h]
  | .cons e es, h => by
    rw [Args.NatFree] at h
    rw [Args.mapNat, Exp.mapNat_of_natFree e h.1, Args.mapNat_of_natFree es h.2]

end

end MapNat

/-! ## Layout and value -/

theorem Exp.operand_level (e : Exp) (n : Nat) : (e.operand n).level ≤ n := by
  unfold Exp.operand
  split_ifs with h
  · exact h
  · exact Nat.zero_le n

theorem Exp.operand_wellLaid {e : Exp} (h : e.WellLaid) (n : Nat) : (e.operand n).WellLaid := by
  unfold Exp.operand
  split_ifs
  · exact h
  · rw [Exp.WellLaid]; exact h

theorem Exp.operand_isNumeral {e : Exp} (h : e.isNumeral = false) (n : Nat) :
    (e.operand n).isNumeral = false := by
  unfold Exp.operand
  split_ifs
  · exact h
  · rfl

mutual

/-- Printing puts enough parentheses. -/
theorem Exp.layout_wellLaid : ∀ e : Exp, e.layout.WellLaid
  | .int _ => by rw [Exp.layout, Exp.WellLaid]; trivial
  | .ident _ => by rw [Exp.layout, Exp.WellLaid]; trivial
  | .neg e => by
    have he := Exp.layout_wellLaid e
    rw [Exp.layout, Exp.WellLaid]
    split_ifs with hnum
    · exact ⟨by rw [Exp.WellLaid]; exact he, Nat.zero_le 1, rfl⟩
    · rw [Bool.not_eq_true] at hnum
      exact ⟨Exp.operand_wellLaid he 1, Exp.operand_level _ 1, Exp.operand_isNumeral hnum 1⟩
  | .bin op a b => by
    rw [Exp.layout, Exp.WellLaid]
    exact ⟨Exp.operand_wellLaid (Exp.layout_wellLaid a) _,
      Exp.operand_wellLaid (Exp.layout_wellLaid b) _, Exp.operand_level _ _,
      Exp.operand_level _ _⟩
  | .paren e => by rw [Exp.layout, Exp.WellLaid]; exact Exp.layout_wellLaid e
  | .natOf e => by rw [Exp.layout, Exp.WellLaid]; exact Exp.layout_wellLaid e
  | .maxOf es => by rw [Exp.layout, Exp.WellLaid]; exact Args.layout_wellLaid es
  | .minOf es => by rw [Exp.layout, Exp.WellLaid]; exact Args.layout_wellLaid es

theorem Args.layout_wellLaid : ∀ es : Args, es.layout.WellLaid
  | .one e => by rw [Args.layout, Args.WellLaid]; exact Exp.layout_wellLaid e
  | .cons e es => by
    rw [Args.layout, Args.WellLaid]
    exact ⟨Exp.layout_wellLaid e, Args.layout_wellLaid es⟩

end

/-- What is printed is read back, with the parentheses that printing added. -/
theorem parse_print (e : Exp) : parse e.print = some e.layout := parse_text e.layout_wellLaid

theorem Exp.eval_operand (v : Ident → ℤ) (e : Exp) (n : Nat) :
    (e.operand n).eval v = e.eval v := by
  unfold Exp.operand
  split_ifs
  · rfl
  · rw [Exp.eval]

mutual

/-- Parentheses do not change a value. -/
theorem Exp.eval_layout (v : Ident → ℤ) : ∀ e : Exp, e.layout.eval v = e.eval v
  | .int _ => rfl
  | .ident _ => rfl
  | .neg e => by
    rw [Exp.layout, Exp.eval, Exp.eval, ← Exp.eval_layout v e]
    split_ifs
    · rw [Exp.eval]
    · rw [Exp.eval_operand]
  | .bin op a b => by
    rw [Exp.layout, Exp.eval, Exp.eval, Exp.eval_operand, Exp.eval_operand, Exp.eval_layout v a,
      Exp.eval_layout v b]
  | .paren e => by rw [Exp.layout, Exp.eval, Exp.eval, Exp.eval_layout v e]
  | .natOf e => by rw [Exp.layout, Exp.eval, Exp.eval, Exp.eval_layout v e]
  | .maxOf es => by rw [Exp.layout, Exp.eval, Exp.eval, Args.eval_layout _ v es]
  | .minOf es => by rw [Exp.layout, Exp.eval, Exp.eval, Args.eval_layout _ v es]

theorem Args.eval_layout (f : ℚ → ℚ → ℚ) (v : Ident → ℤ) :
    ∀ es : Args, es.layout.eval f v = es.eval f v
  | .one e => by rw [Args.layout, Args.eval, Args.eval, Exp.eval_layout v e]
  | .cons e es => by
    rw [Args.layout, Args.eval, Args.eval, Exp.eval_layout v e, Args.eval_layout f v es]

end

/-! ## `max([x,0])` for `nat(x)` -/

mutual

/-- The translation replaces `nat` by the larger of its argument and 0. -/
theorem Exp.natToMax_eq : ∀ e : Exp, e.natToMax = e.mapNat fun x => .maxOf (.cons x (.one (.int 0)))
  | .int _ => rfl
  | .ident _ => rfl
  | .neg e => by rw [Exp.natToMax, Exp.mapNat, Exp.natToMax_eq e]
  | .bin op a b => by rw [Exp.natToMax, Exp.mapNat, Exp.natToMax_eq a, Exp.natToMax_eq b]
  | .paren e => by rw [Exp.natToMax, Exp.mapNat, Exp.natToMax_eq e]
  | .natOf e => by rw [Exp.natToMax, Exp.mapNat, Exp.natToMax_eq e]
  | .maxOf es => by rw [Exp.natToMax, Exp.mapNat, Args.natToMax_eq es]
  | .minOf es => by rw [Exp.natToMax, Exp.mapNat, Args.natToMax_eq es]

theorem Args.natToMax_eq :
    ∀ es : Args, es.natToMax = es.mapNat fun x => .maxOf (.cons x (.one (.int 0)))
  | .one e => by rw [Args.natToMax, Args.mapNat, Exp.natToMax_eq e]
  | .cons e es => by rw [Args.natToMax, Args.mapNat, Exp.natToMax_eq e, Args.natToMax_eq es]

end

theorem Exp.layout_natToMax (e : Exp) : e.natToMax.layout = e.layout.natToMax := by
  rw [e.natToMax_eq, e.layout.natToMax_eq]
  refine Exp.layout_mapNat ⟨fun _ => rfl, fun _ => rfl, fun x => ?_⟩ e
  rw [Exp.layout, Args.layout, Args.layout, Exp.layout]

/-- Which is what `nat` means. -/
theorem Exp.eval_natToMax (v : Ident → ℤ) (e : Exp) : e.natToMax.eval v = e.eval v := by
  rw [e.natToMax_eq]
  refine Exp.eval_mapNat e fun x _ x' hx => ?_
  simp only [Exp.eval, Args.eval, hx]
  cases x.eval v <;> simp [Option.map₂]

theorem Exp.natFree_natToMax (e : Exp) : e.natToMax.NatFree := by
  rw [e.natToMax_eq]
  refine Exp.natFree_mapNat (fun x hx => ?_) e
  rw [Exp.NatFree, Args.NatFree, Args.NatFree, Exp.NatFree]
  exact ⟨hx, trivial⟩

theorem Exp.natToMax_of_natFree {e : Exp} (h : e.NatFree) : e.natToMax = e := by
  rw [e.natToMax_eq]
  exact Exp.mapNat_of_natFree e h

/-- On printed bounds, the rewriting of the text is the translation of the expression. -/
theorem replaceNatWithMax_natToMax (e : Exp) :
    replaceNatWithMax e.print = some e.natToMax.print := by
  rw [Exp.print, Exp.print, e.layout_natToMax]
  exact e.layout.rewritten_text.replaceNatWithMax

/-- **`replaceNatWithMax` preserves cost bounds**: the rewriting of the text of a bound is the text
of its translation, which is read back as an expression without `nat` that has the value of the
bound under every valuation. -/
theorem replaceNatWithMax_print (e : Exp) :
    replaceNatWithMax e.print = some e.natToMax.print ∧
    ∃ e', parse e.natToMax.print = some e' ∧ e'.NatFree ∧ ∀ v, e'.eval v = e.eval v := by
  refine ⟨replaceNatWithMax_natToMax e, e.natToMax.layout, parse_print e.natToMax, ?_, fun v => ?_⟩
  · rw [e.layout_natToMax]
    exact e.layout.natFree_natToMax
  · rw [Exp.eval_layout, Exp.eval_natToMax]

end Gpscat.Bound
