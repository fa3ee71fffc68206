import Gpscat.CoFloCo.Proofs.BoundLanguageProofs
import Gpscat.CoFloCo.Proofs.NatRemovalProofs

/-!
# `removeNat` on cost bounds

On the text of an expression, the deletion of letters is the replacement of `nat(x)` by `(x)`. The
value stays where no argument of a `nat` is negative.
-/

namespace Gpscat.Bound

open Cpp CoFloCoWrapper

/-! ## Seams -/

theorem natDeleted_cons {c : Char} (hc : c ≠ 'n') (s : Text) :
    natDeleted (c :: s) = c :: natDeleted s :=
  natDeleted_char (not_natOpen_prefix_cons hc s)

theorem natDeleted_append_cons {c : Char} (hc : c ∉ natOpen) (x y : Text) :
    natDeleted (x ++ c :: y) = natDeleted x ++ c :: natDeleted y := by
  induction x using natInduction with
  | nil =>
    refine natDeleted_cons ?_ y
    rintro rfl
    exact hc (by decide)
  | char d s hd ih =>
    have hd' : ¬ natOpen <+: d :: (s ++ c :: y) := fun hp => hd
      (natAt_zero.mp (natAt_append_cons (x := d :: s) hc (Nat.zero_le _) (natAt_zero.mpr hp)))
    rw [List.cons_append, natDeleted_char hd', ih, natDeleted_char hd, List.cons_append]
  | nat s ih => rw [List.append_assoc, natDeleted_nat, ih, natDeleted_nat, List.cons_append]

theorem natDeleted_head (s : Text) : (natDeleted s).head? = some '-' ↔ s.head? = some '-' := by
  induction s using natInduction with
  | nil => exact Iff.rfl
  | char c s hc _ => rw [natDeleted_char hc]; rfl
  | nat s _ =>
    rw [natDeleted_nat]
    exact iff_of_false (fun h => absurd (Option.some.inj h) (by decide))
      fun h => absurd (Option.some.inj h) (by decide)

theorem natDeleted_spaced (s : Text) : natDeleted (spaced s) = spaced (natDeleted s) := by
  by_cases hs : s.head? = some '-'
  · rw [spaced, spaced, if_pos hs, if_pos ((natDeleted_head s).mpr hs)]
    exact natDeleted_cons (by decide) s
  · rw [spaced, spaced, if_neg hs, if_neg fun h => hs ((natDeleted_head s).mp h)]

theorem natDeleted_of_forall {s : Text} (h : ∀ c ∈ s, c ≠ '(' ∧ c ≠ ')') : natDeleted s = s :=
  natDeleted_of_find_none (find_eq_none_iff.mpr fun hi => (h '(' (hi.subset (by decide))).1 rfl)

theorem natDeleted_list {x : Text} (hx : natDeleted x = x) (s : Text) :
    natDeleted (x ++ '[' :: (s ++ "])".toList)) = x ++ '[' :: (natDeleted s ++ "])".toList) := by
  have hclose : natDeleted "])".toList = "])".toList := rfl
  rw [natDeleted_append_cons (by decide), hx]
  change x ++ '[' :: natDeleted (s ++ ']' :: [')']) = _
  rw [natDeleted_append_cons (by decide)]
  rfl

/-! ## The texts of expressions -/

mutual

theorem Exp.natDeleted_text : ∀ e : Exp, natDeleted e.text = e.natToParen.text
  | .int n => natDeleted_of_forall fun _ hc => mem_text_int hc
  | .ident x => natDeleted_of_forall fun c hc => isWordChar_ne (x.isWordChar hc)
  | .neg e => by
    rw [Exp.natToParen, Exp.mapNat, Exp.text, Exp.text, natDeleted_cons (by decide),
      natDeleted_spaced, Exp.natDeleted_text e]
    rfl
  | .bin op a b => by
    rw [Exp.natToParen, Exp.mapNat, Exp.text, Exp.text, natDeleted_append_cons op.char_ne.1,
      natDeleted_spaced, Exp.natDeleted_text a, Exp.natDeleted_text b]
    rfl
  | .paren e => by
    rw [Exp.natToParen, Exp.mapNat, Exp.text, Exp.text, natDeleted_cons (by decide),
      natDeleted_append_cons (by decide), Exp.natDeleted_text e]
    rfl
  | .natOf e => by
    rw [Exp.natToParen, Exp.mapNat, Exp.text, Exp.text]
    change natDeleted (natOpen ++ _) = _
    rw [natDeleted_nat, natDeleted_append_cons (by decide), Exp.natDeleted_text e]
    rfl
  | .maxOf es => by
    rw [Exp.natToParen, Exp.mapNat, Exp.text, Exp.text]
    change natDeleted ("max(".toList ++ '[' :: (es.text ++ "])".toList)) = _
    rw [natDeleted_list rfl, Args.natDeleted_text es]
    rfl
  | .minOf es => by
    rw [Exp.natToParen, Exp.mapNat, Exp.text, Exp.text]
    change natDeleted ("min(".toList ++ '[' :: (es.text ++ "])".toList)) = _
    rw [natDeleted_list rfl, Args.natDeleted_text es]
    rfl

theorem Args.natDeleted_text : ∀ es : Args, natDeleted es.text = (es.mapNat .paren).text
  | .one e => by
    rw [Args.mapNat, Args.text, Args.text, Exp.natDeleted_text e]
    rfl
  | .cons e es => by
    rw [Args.mapNat, Args.text, Args.text, natDeleted_append_cons (by decide),
      Exp.natDeleted_text e, Args.natDeleted_text es]
    rfl

end

/-! ## `(x)` for `nat(x)` -/

theorem Exp.layout_natToParen (e : Exp) : e.natToParen.layout = e.layout.natToParen :=
  Exp.layout_mapNat ⟨fun _ => rfl, fun _ => rfl, fun x => by rw [Exp.layout]⟩ e

theorem Exp.natFree_natToParen (e : Exp) : e.natToParen.NatFree :=
  Exp.natFree_mapNat (fun x hx => by rw [Exp.NatFree]; exact hx) e

theorem Exp.eval_natToParen {v : Ident → ℤ} {e : Exp} (h : e.NatsNonneg v) :
    e.natToParen.eval v = e.eval v := by
  refine Exp.eval_mapNat e fun x hx x' hx' => ?_
  rw [Exp.eval, Exp.eval, hx']
  cases hq : x.eval v with
  | none => rfl
  | some q =>
    rw [Option.map_some, max_eq_left (h x hx q hq)]

theorem Exp.no_natOpen_of_natFree {e : Exp} (h : e.NatFree) : ¬ natOpen <:+: e.text := by
  have hrewritten := e.rewritten_text
  rw [Exp.natToMax_of_natFree h] at hrewritten
  exact hrewritten.no_natOpen

theorem removeNat_print (e : Exp) : removeNat e.print = .ok e.natToParen.print := by
  rw [removeNat_eq, Exp.print, e.layout.natDeleted_text, Exp.print, e.layout_natToParen]

/-- **`removeNat` is exact on text and sound on cost bounds.** It deletes the letters of each `nat(`
and nothing else. On the text of a bound it leaves no `nat(` for `replaceNatWithMax`, and what it
returns is read back with the value of the bound, which is also the value after
`replaceNatWithMax`, under every valuation for which no argument of a `nat` is negative. -/
theorem removeNat_exact :
    (∀ s : Text, removeNat s = .ok (natDeleted s)) ∧
    ∀ e : Exp, ∃ removed replaced e₁ e₂,
      removeNat e.print = .ok removed ∧ replaceNatWithMax e.print = some replaced ∧
      ¬ natOpen <:+: removed ∧ replaceNatWithMax removed = some removed ∧
      parse removed = some e₁ ∧ parse replaced = some e₂ ∧
      ∀ v, e.NatsNonneg v → e₁.eval v = e.eval v ∧ e₁.eval v = e₂.eval v := by
  refine ⟨removeNat_eq, fun e => ?_⟩
  have hnone : ¬ natOpen <:+: e.natToParen.print := by
    rw [Exp.print, e.layout_natToParen]
    exact Exp.no_natOpen_of_natFree e.layout.natFree_natToParen
  refine ⟨e.natToParen.print, e.natToMax.print, e.natToParen.layout, e.natToMax.layout,
    removeNat_print e, replaceNatWithMax_natToMax e, hnone,
    (rewritten_self hnone).replaceNatWithMax, parse_print e.natToParen, parse_print e.natToMax,
    fun v hv => ?_⟩
  have hparen : e.natToParen.layout.eval v = e.eval v := by
    rw [Exp.eval_layout, Exp.eval_natToParen hv]
  have hmax : e.natToMax.layout.eval v = e.eval v := by
    rw [Exp.eval_layout, Exp.eval_natToMax]
  exact ⟨hparen, hparen.trans hmax.symm⟩

end Gpscat.Bound
