import Gpscat.Lib.BoxMean
import Gpscat.Score.Integration
import Gpscat.Score.Proofs.IntegrandProofs
import Gpscat.Score.Proofs.PairingProofs

/-!
# When the score is the mean

With exact quadrature, the integrals give the product of all widths times the mean. The division
leaves out the widths that are 0, so the score is the mean unless there is such a width: then it is 0.
-/

namespace Gpscat.Score

open Cpp BoxMean MeasureTheory

/-! ## Expressions -/

namespace Expression

theorem eval_subs {K : Type} [CommSemiring K] (ρ : Text → K) (x : Text) (t : K)
    (e : Expression K) : (e.subs x t).eval ρ = e.eval (Function.update ρ x t) := by
  induction e with
  | num q => rfl
  | symbol name =>
    rw [subs]
    by_cases hx : name = x
    · rw [if_pos hx, hx]
      exact (Function.update_self x t ρ).symm
    · rw [if_neg hx]
      exact (Function.update_of_ne hx t ρ).symm
  | add a b iha ihb => rw [subs, eval, iha, ihb, eval]
  | mul a b iha ihb => rw [subs, eval, iha, ihb, eval]
  | pow a n iha => rw [subs, eval, iha, eval]

theorem getSymbols_subs {K : Type} [CommSemiring K] (x : Text) (t : K) (e : Expression K) :
    (e.subs x t).getSymbols = e.getSymbols.erase x := by
  induction e with
  | num q => rfl
  | symbol name =>
    rw [subs]
    by_cases hx : name = x
    · rw [if_pos hx, hx]
      exact (Finset.erase_singleton x).symm
    · rw [if_neg hx, getSymbols, Finset.erase_eq_of_notMem]
      rw [Finset.mem_singleton]
      exact Ne.symm hx
  | add a b iha ihb => rw [subs, getSymbols, iha, ihb, getSymbols, Finset.erase_union_distrib]
  | mul a b iha ihb => rw [subs, getSymbols, iha, ihb, getSymbols, Finset.erase_union_distrib]
  | pow a n iha => rw [subs, getSymbols, iha, getSymbols]

/-- An expression without symbols can be converted. -/
theorem toDouble_eq {K : Type} [CommSemiring K] {e : Expression K} (h : e.getSymbols = ∅)
    (ρ : Text → K) : e.toDouble = some (e.eval ρ) := by
  induction e with
  | num q => rfl
  | symbol name => exact absurd h (Finset.singleton_ne_empty name)
  | add a b iha ihb =>
    obtain ⟨ha, hb⟩ := Finset.union_eq_empty.mp h
    rw [toDouble, iha ha, ihb hb]
    rfl
  | mul a b iha ihb =>
    obtain ⟨ha, hb⟩ := Finset.union_eq_empty.mp h
    rw [toDouble, iha ha, ihb hb]
    rfl
  | pow a n iha =>
    rw [toDouble, iha h]
    rfl

/-- The polynomial that an expression denotes. -/
noncomputable def toMvPolynomial : Expression ℝ → MvPolynomial Text ℝ
  | num q => MvPolynomial.C q
  | symbol name => MvPolynomial.X name
  | add a b => toMvPolynomial a + toMvPolynomial b
  | mul a b => toMvPolynomial a * toMvPolynomial b
  | pow a n => toMvPolynomial a ^ n

theorem eval_toMvPolynomial (ρ : Text → ℝ) (e : Expression ℝ) :
    MvPolynomial.eval ρ e.toMvPolynomial = e.eval ρ := by
  induction e with
  | num q => exact MvPolynomial.eval_C q
  | symbol name => exact MvPolynomial.eval_X name
  | add a b iha ihb => rw [toMvPolynomial, map_add, iha, ihb, eval]
  | mul a b iha ihb => rw [toMvPolynomial, map_mul, iha, ihb, eval]
  | pow a n iha => rw [toMvPolynomial, map_pow, iha, eval]

theorem vars_toMvPolynomial (e : Expression ℝ) : e.toMvPolynomial.vars ⊆ e.getSymbols := by
  induction e with
  | num q =>
    rw [toMvPolynomial, MvPolynomial.vars_C]
    exact Finset.empty_subset _
  | symbol name => rw [toMvPolynomial, MvPolynomial.vars_X, getSymbols]
  | add a b iha ihb =>
    exact (MvPolynomial.vars_add_subset _ _).trans (Finset.union_subset_union iha ihb)
  | mul a b iha ihb =>
    exact (MvPolynomial.vars_mul _ _).trans (Finset.union_subset_union iha ihb)
  | pow a n iha => exact (MvPolynomial.vars_pow _ _).trans iha

end Expression

/-! ## The integrals -/

/-- The quadrature is exact for polynomials. -/
def ExactOnPolynomials (integrate : Quadrature ℝ) : Prop :=
  ∀ (P : Polynomial ℝ) (f : ℝ → Option ℝ) (lo hi : ℝ), (∀ t, f t = some (P.eval t)) →
    integrate f lo hi = some (∫ t in lo..hi, P.eval t)

/-- Substituting for another variable commutes with the integrals. -/
theorem eval_integrateAll_subs (lo hi : Text → ℝ) {vs : List Text} {x : Text} (hx : x ∉ vs)
    (e : Expression ℝ) (ρ : Text → ℝ) (t : ℝ) :
    MvPolynomial.eval ρ (integrateAll lo hi vs (e.subs x t).toMvPolynomial) =
      MvPolynomial.eval (Function.update ρ x t) (integrateAll lo hi vs e.toMvPolynomial) := by
  induction vs generalizing ρ with
  | nil =>
    change MvPolynomial.eval ρ (e.subs x t).toMvPolynomial =
      MvPolynomial.eval (Function.update ρ x t) e.toMvPolynomial
    rw [Expression.eval_toMvPolynomial, Expression.eval_toMvPolynomial, Expression.eval_subs]
  | cons v vs ih =>
    rw [List.mem_cons, not_or] at hx
    change MvPolynomial.eval ρ (integrateOut v (lo v) (hi v) (integrateAll lo hi vs _)) =
      MvPolynomial.eval _ (integrateOut v (lo v) (hi v) (integrateAll lo hi vs _))
    rw [← integral_eval_update, ← integral_eval_update]
    simp only [ih hx.2, Function.update_comm (Ne.symm hx.1)]

/-- One integration of a polynomial that is the value of the integrand. -/
theorem integrate_polynomial {integrate : Quadrature ℝ} (hexact : ExactOnPolynomials integrate)
    {f : ℝ → Option ℝ} {q : MvPolynomial Text ℝ} {x : Text} {ρ : Text → ℝ}
    (hf : ∀ t, f t = some (MvPolynomial.eval (Function.update ρ x t) q)) (lo hi : ℝ) :
    integrate f lo hi = some (MvPolynomial.eval ρ (integrateOut x lo hi q)) := by
  obtain ⟨P, hP⟩ := exists_polynomial q ρ x
  have hfP : ∀ t, f t = some (P.eval t) := fun t => by rw [hf, hP]
  rw [hexact P f lo hi hfP, ← integral_eval_update]
  simp only [hP]

/-- One level of `GaussKronrodIntegration`, with a polynomial `q` that is the value of what is
integrated. -/
theorem GaussKronrodIntegration_integrateOut {integrate : Quadrature ℝ}
    (hexact : ExactOnPolynomials integrate) {lo hi : Text → ℝ} {func : Expression ℝ}
    {params : List Text} {i : Nat} (hlt : i < params.length) {q : MvPolynomial Text ℝ}
    {ρ : Text → ℝ}
    (hlast : i + 1 = params.length → ∀ t, (func.subs params[i] t).toDouble =
      some (MvPolynomial.eval (Function.update ρ params[i] t) q))
    (hmore : i + 1 ≠ params.length → ∀ t, GaussKronrodIntegration integrate
      (func.subs params[i] t) params (params.map fun x => (lo x, hi x)) (i + 1) =
        some (MvPolynomial.eval (Function.update ρ params[i] t) q)) :
    GaussKronrodIntegration integrate func params (params.map fun x => (lo x, hi x)) i =
      some (MvPolynomial.eval ρ (integrateOut params[i] (lo params[i]) (hi params[i]) q)) := by
  have hx : params[i]? = some params[i] := List.getElem?_eq_getElem hlt
  have hb : (params.map fun x => (lo x, hi x))[i]? = some (lo params[i], hi params[i]) := by
    rw [List.getElem?_map, hx, Option.map_some]
  rw [GaussKronrodIntegration_step integrate func hx hb]
  refine integrate_polynomial hexact (fun t => ?_) _ _
  split_ifs with h
  · exact hlast h t
  · exact hmore h t

/-- `GaussKronrodIntegration` integrates over the parameters from the index on, by induction on their
number. -/
theorem GaussKronrodIntegration_eq {integrate : Quadrature ℝ}
    (hexact : ExactOnPolynomials integrate) (lo hi : Text → ℝ) {params : List Text}
    (hnd : params.Nodup) (ρ : Text → ℝ) (n : Nat) (func : Expression ℝ) (i : Nat)
    (hlen : params.length = i + (n + 1)) (hfunc : func.getSymbols ⊆ (params.drop i).toFinset) :
    GaussKronrodIntegration integrate func params (params.map fun x => (lo x, hi x)) i =
      some (MvPolynomial.eval ρ (integrateAll lo hi (params.drop i) func.toMvPolynomial)) := by
  induction n generalizing func i ρ with
  | zero =>
    have hlt : i < params.length := by omega
    have hdrop : params.drop i = [params[i]] := by
      rw [List.drop_eq_getElem_cons hlt, List.drop_eq_nil_of_le (by omega)]
    rw [hdrop]
    refine GaussKronrodIntegration_integrateOut hexact hlt (fun _ t => ?_) fun h => absurd hlen.symm h
    -- The last substitution leaves no symbol.
    have hnone : (func.subs params[i] t).getSymbols = ∅ := by
      rw [Expression.getSymbols_subs, Finset.erase_eq_empty_iff]
      rw [hdrop, List.toFinset_cons, List.toFinset_nil, insert_empty_eq,
        Finset.subset_singleton_iff] at hfunc
      exact hfunc
    rw [Expression.toDouble_eq hnone ρ, Expression.eval_subs, ← Expression.eval_toMvPolynomial]
    rfl
  | succ n ih =>
    have hlt : i < params.length := by omega
    have hdrop : params.drop i = params[i] :: params.drop (i + 1) := List.drop_eq_getElem_cons hlt
    have hnotMem : params[i] ∉ params.drop (i + 1) := by
      have hnd' := hnd.sublist (List.drop_sublist i params)
      rw [hdrop] at hnd'
      exact (List.nodup_cons.mp hnd').1
    rw [hdrop]
    refine GaussKronrodIntegration_integrateOut hexact hlt (fun h => absurd h (by omega)) fun _ t => ?_
    have hsymbols : (func.subs params[i] t).getSymbols ⊆ (params.drop (i + 1)).toFinset := by
      intro name hname
      rw [Expression.getSymbols_subs, Finset.mem_erase] at hname
      have hmem := hfunc hname.2
      rw [hdrop, List.toFinset_cons, Finset.mem_insert] at hmem
      exact hmem.resolve_left hname.1
    rw [ih ρ (func.subs params[i] t) (i + 1) (by omega) hsymbols,
      eval_integrateAll_subs lo hi hnotMem]
    rfl

/-! ## The box of the bounds -/

/-- The box that the bounds span. -/
def boundsBox (bounds : BoundsMap)
    (ordered : ∀ name b, bounds.lookup name = some b → b.1 ≤ b.2) : Box Text where
  vars := bounds.keys
  lo := fun name => ((boundsOf bounds name).1 : ℝ)
  hi := fun name => ((boundsOf bounds name).2 : ℝ)
  le := fun _ hname => Int.cast_le.mpr (ordered _ _ (lookup_of_mem_keys hname))

/-- `v` is the mean of the function over the box, and so between its least and its greatest value. -/
structure IsMean (func : Expression ℝ) (B : Box Text) (v : ℝ) : Prop where
  mean : v = B.mean fun ρ => func.eval ρ
  lower : ∀ m, (∀ ρ, B.Mem ρ → m ≤ func.eval ρ) → m ≤ v
  upper : ∀ m, (∀ ρ, B.Mem ρ → func.eval ρ ≤ m) → v ≤ m

theorem isMean_iff {func : Expression ℝ} {B : Box Text} (hvars : B.vars = func.getSymbols) {v : ℝ} :
    IsMean func B v ↔ v = B.mean fun ρ => func.eval ρ := by
  have hp : func.toMvPolynomial.vars ⊆ B.vars := by
    rw [hvars]
    exact func.vars_toMvPolynomial
  constructor
  · exact IsMean.mean
  · rintro rfl
    simp only [← Expression.eval_toMvPolynomial]
    refine ⟨?_, fun m hm => ?_, fun m hm => ?_⟩
    · simp only [← Expression.eval_toMvPolynomial]
    · refine B.le_mean hp fun ρ hρ => ?_
      rw [Expression.eval_toMvPolynomial]
      exact hm ρ hρ
    · refine B.mean_le hp fun ρ hρ => ?_
      rw [Expression.eval_toMvPolynomial]
      exact hm ρ hρ

/-! ## The division -/

/-- What the loop divides by for one variable. -/
def divisor (b : Int × Int) : ℝ := if width b = 0 then 1 else (width b : ℝ)

theorem divideByWidths_eq (bs : List (Int × Int)) (x : ℝ) :
    divideByWidths bs x = x / (bs.map divisor).prod := by
  induction bs generalizing x with
  | nil => rw [divideByWidths, List.map_nil, List.prod_nil, div_one]
  | cons b bs ih =>
    rw [divideByWidths, ih, List.map_cons, List.prod_cons, divisor]
    split
    · rw [one_mul]
    · rw [div_div]

/-- No overflow for a width that fits. -/
theorem width_eq {b : Int × Int} (horder : b.1 ≤ b.2) (hfit : b.2 - b.1 ≤ intMax) :
    width b = b.2 - b.1 := by
  unfold width
  unfold intMax at hfit
  rw [Int.bmod_eq_of_le]
  · omega
  · omega

/-! ## Accepted bounds -/

theorem accepted_foldl_addEntry {func : Expression ℝ} {es : List Entry}
    (hcard : (es.foldl (addEntry func.getSymbols) ∅).keys.card = func.getSymbols.card) :
    Accepted func (es.foldl (addEntry func.getSymbols) ∅) where
  keys := card_keys_stored_iff.mp hcard
  ordered := by
    intro name b hb
    obtain ⟨-, e, he, -, rfl⟩ := lookup_stored_iff.mp hb
    exact he.ordered

/-- Bounds from a file that `main` does not reject. -/
theorem accepted_fileBounds {func : Expression ℝ} {text : Text} {lower upper : Int}
    (hcard : (fileBounds func.getSymbols text lower upper).keys.card = func.getSymbols.card) :
    Accepted func (fileBounds func.getSymbols text lower upper) := by
  rw [fileBounds_eq] at hcard ⊢
  exact accepted_foldl_addEntry hcard

/-- Bounds from standard input that `main` does not reject. -/
theorem accepted_stdinBounds {func : Expression ℝ} {text : Text} {lower upper : Int}
    (hcard : (stdinBounds func.getSymbols text lower upper).keys.card = func.getSymbols.card) :
    Accepted func (stdinBounds func.getSymbols text lower upper) := by
  rw [stdinBounds_eq] at hcard ⊢
  exact accepted_foldl_addEntry hcard

/-! ## The score -/

section Score

variable {integrate : Quadrature ℝ} {func : Expression ℝ} {bounds : BoundsMap}

/-- The Gauss-Kronrod path is taken. -/
def TakesGaussKronrod (numericalIntegrationAlgo : String) (func : Expression ℝ) : Prop :=
  numericalIntegrationAlgo = "gauss_kronrod" ∨
    numericalIntegrationAlgo = "auto" ∧ func.getSymbols.card ≤ 4

/-- Integrating over all sides gives the product of all widths times the mean. -/
theorem eval_integrateAll_boundsBox (h : Accepted func bounds) :
    MvPolynomial.eval 0 (integrateAll (boundsBox bounds h.ordered).lo
        (boundsBox bounds h.ordered).hi (func.getSymbols.sort (· ≤ ·)) func.toMvPolynomial) =
      (boundsBox bounds h.ordered).volume *
        (boundsBox bounds h.ordered).mean fun ρ => func.eval ρ := by
  have hvs : (func.getSymbols.sort (· ≤ ·)).toFinset = (boundsBox bounds h.ordered).vars := by
    rw [Finset.sort_toFinset, ← h.keys]
    rfl
  have hp : func.toMvPolynomial.vars ⊆ (boundsBox bounds h.ordered).vars := by
    change _ ⊆ bounds.keys
    rw [h.keys]
    exact func.vars_toMvPolynomial
  rw [(boundsBox bounds h.ordered).eval_integrateAll (Finset.sort_nodup _ _) hvs hp 0]
  simp only [Expression.eval_toMvPolynomial]

theorem GaussKronrodIntegration_boundsBox (hexact : ExactOnPolynomials integrate)
    (h : Accepted func bounds) (hpos : func.getSymbols.card ≠ 0) :
    GaussKronrodIntegration integrate func (func.getSymbols.sort (· ≤ ·))
        ((mapBounds bounds).map fun b => ((b.1 : ℝ), (b.2 : ℝ))) 0 =
      some ((boundsBox bounds h.ordered).volume *
        (boundsBox bounds h.ordered).mean fun ρ => func.eval ρ) := by
  have hbounds : (mapBounds bounds).map (fun b => ((b.1 : ℝ), (b.2 : ℝ))) =
      (func.getSymbols.sort (· ≤ ·)).map fun name =>
        ((boundsBox bounds h.ordered).lo name, (boundsBox bounds h.ordered).hi name) := by
    rw [mapBounds_eq, h.keys, List.map_map]
    rfl
  obtain ⟨n, hn⟩ := Nat.exists_eq_succ_of_ne_zero hpos
  have hlen : (func.getSymbols.sort (· ≤ ·)).length = 0 + (n + 1) := by
    rw [Finset.length_sort, hn, Nat.zero_add]
  rw [hbounds, GaussKronrodIntegration_eq hexact (boundsBox bounds h.ordered).lo
    (boundsBox bounds h.ordered).hi (Finset.sort_nodup _ _) 0 n func 0 hlen
    (by rw [List.drop_zero, Finset.sort_toFinset]), List.drop_zero, eval_integrateAll_boundsBox h]

/-- The integral is the product of all widths times the mean. -/
theorem numericallyIntegrate_eq (hexact : ExactOnPolynomials integrate)
    (monteCarlo : MonteCarlo ℝ) {algo : String} (halgo : TakesGaussKronrod algo func)
    (h : Accepted func bounds) :
    numericallyIntegrate integrate monteCarlo algo func (func.getSymbols.sort (· ≤ ·)) bounds =
      some (.value ((boundsBox bounds h.ordered).volume *
        (boundsBox bounds h.ordered).mean fun ρ => func.eval ρ)) := by
  have hlen : (func.getSymbols.sort (· ≤ ·)).length = func.getSymbols.card := Finset.length_sort _
  by_cases hcard : func.getSymbols.card = 0
  · have hempty : func.getSymbols = ∅ := Finset.card_eq_zero.mp hcard
    rw [numericallyIntegrate_constant (hlen.trans hcard), Expression.symbolic_toDouble,
      Expression.toDouble_eq hempty 0, ← eval_integrateAll_boundsBox h, hempty, Finset.sort_empty,
      ← Expression.eval_toMvPolynomial]
    rfl
  · rw [numericallyIntegrate_gaussKronrod (hlen ▸ hcard) (hlen ▸ halgo),
      GaussKronrodIntegration_boundsBox hexact h hcard]
    rfl

/-- The printed value: the integral, divided by the widths other than 0. -/
theorem score_eq (hexact : ExactOnPolynomials integrate) (monteCarlo : MonteCarlo ℝ)
    {algo : String} (halgo : TakesGaussKronrod algo func) (h : Accepted func bounds) :
    score integrate monteCarlo algo func bounds =
      some (.printed (.value ((boundsBox bounds h.ordered).volume *
        ((boundsBox bounds h.ordered).mean fun ρ => func.eval ρ) /
          ∏ name ∈ bounds.keys, divisor (boundsOf bounds name)))) := by
  have hprod : ((mapBounds bounds).map divisor).prod =
      ∏ name ∈ bounds.keys, divisor (boundsOf bounds name) := by
    rw [mapBounds_eq, List.map_map, ← List.prod_toFinset _ (Finset.sort_nodup _ _),
      Finset.sort_toFinset]
    rfl
  unfold score
  dsimp only
  rw [Expression.symbolic_getSymbols, if_neg (not_not_intro (by rw [h.keys])),
    numericallyIntegrate_eq hexact monteCarlo halgo h,
    Option.map_some, Result.divide, divideByWidths_eq, hprod]

/-- With proper sides only, the division undoes the widths. -/
theorem prod_divisor_eq_volume (h : Accepted func bounds)
    (hfit : ∀ name b, bounds.lookup name = some b → b.2 - b.1 ≤ intMax)
    (hproper : ∀ name b, bounds.lookup name = some b → b.1 < b.2) :
    ∏ name ∈ bounds.keys, divisor (boundsOf bounds name) = (boundsBox bounds h.ordered).volume ∧
      (boundsBox bounds h.ordered).volume ≠ 0 := by
  constructor
  · refine Finset.prod_congr rfl fun name hname => ?_
    have hb := lookup_of_mem_keys hname
    have hlt := hproper _ _ hb
    have hwidth := width_eq hlt.le (hfit _ _ hb)
    rw [divisor, if_neg (by rw [hwidth]; omega), hwidth, Int.cast_sub]
    rfl
  · refine Finset.prod_ne_zero_iff.mpr fun name hname => ?_
    have hlt := hproper _ _ (lookup_of_mem_keys hname)
    exact sub_ne_zero.mpr (Int.cast_lt.mpr hlt).ne'

/-- One side of length 0 makes the integral 0. -/
theorem volume_eq_zero (h : Accepted func bounds)
    (hproper : ¬ ∀ name b, bounds.lookup name = some b → b.1 < b.2) :
    (boundsBox bounds h.ordered).volume = 0 := by
  simp only [not_forall, not_lt] at hproper
  obtain ⟨name, b, hb, hle⟩ := hproper
  have heq : b.1 = b.2 := le_antisymm (h.ordered name b hb) hle
  have hkey : name ∈ bounds.keys := Finmap.mem_keys.mpr (Finmap.mem_of_lookup_eq_some hb)
  refine Finset.prod_eq_zero hkey ?_
  have hof : boundsOf bounds name = b := by
    rw [boundsOf, hb]
    rfl
  change ((boundsOf bounds name).2 : ℝ) - ((boundsOf bounds name).1 : ℝ) = 0
  rw [hof, heq, sub_self]

/-- The score for accepted bounds, and when it is the mean. -/
theorem score_accepted (hexact : ExactOnPolynomials integrate) (monteCarlo : MonteCarlo ℝ)
    {algo : String} (halgo : TakesGaussKronrod algo func) (h : Accepted func bounds)
    (hfit : ∀ name b, bounds.lookup name = some b → b.2 - b.1 ≤ intMax) :
    ∃ v, score integrate monteCarlo algo func bounds = some (.printed (.value v)) ∧
      (IsMean func (boundsBox bounds h.ordered) v ↔
        (∀ name b, bounds.lookup name = some b → b.1 < b.2) ∨
          (boundsBox bounds h.ordered).mean (fun ρ => func.eval ρ) = 0) := by
  refine ⟨_, score_eq hexact monteCarlo halgo h, ?_⟩
  rw [isMean_iff h.keys]
  by_cases hproper : ∀ name b, bounds.lookup name = some b → b.1 < b.2
  · obtain ⟨hdivisor, hvolume⟩ := prod_divisor_eq_volume h hfit hproper
    rw [hdivisor, mul_div_cancel_left₀ _ hvolume]
    exact ⟨fun _ => Or.inl hproper, fun _ => rfl⟩
  · rw [volume_eq_zero h hproper, zero_mul, zero_div]
    constructor
    · exact fun hmean => Or.inr hmean.symm
    · exact fun hmean => (hmean.resolve_left hproper).symm

/-- Bounds that are read from a text and not rejected are accepted ones, so whatever the text is, the
score is the mean over their box under the same condition. -/
theorem score_text (hexact : ExactOnPolynomials integrate) (monteCarlo : MonteCarlo ℝ)
    {algo : String} (halgo : TakesGaussKronrod algo func) {text : Text} {lower upper : Int}
    (hread : bounds = fileBounds func.getSymbols text lower upper ∨
      bounds = stdinBounds func.getSymbols text lower upper)
    (hreach : score integrate monteCarlo algo func bounds ≠ some .unbounded)
    (hfit : ∀ name b, bounds.lookup name = some b → b.2 - b.1 ≤ intMax) :
    ∃ (h : Accepted func bounds) (v : ℝ),
      score integrate monteCarlo algo func bounds = some (.printed (.value v)) ∧
      (IsMean func (boundsBox bounds h.ordered) v ↔
        (∀ name b, bounds.lookup name = some b → b.1 < b.2) ∨
          (boundsBox bounds h.ordered).mean (fun ρ => func.eval ρ) = 0) := by
  have hcard : bounds.keys.card = func.getSymbols.card := by
    by_contra hcard
    exact hreach (if_pos hcard)
  have h : Accepted func bounds := by
    rcases hread with rfl | rfl
    · exact accepted_fileBounds hcard
    · exact accepted_stdinBounds hcard
  exact ⟨h, score_accepted hexact monteCarlo halgo h hfit⟩

end Score

/-- With exact quadrature and widths that fit `int`, the score on the Gauss-Kronrod path is the mean
over the box of the bounds if and only if no two bounds are equal or the mean is 0. -/
theorem score_isMean_iff (integrate : Quadrature ℝ) (monteCarlo : MonteCarlo ℝ) (algo : String)
    (func : Expression ℝ) (bounds : BoundsMap) (hexact : ExactOnPolynomials integrate)
    (halgo : TakesGaussKronrod algo func) (h : Accepted func bounds)
    (hfit : ∀ name b, bounds.lookup name = some b → b.2 - b.1 ≤ intMax) :
    ∃ v, score integrate monteCarlo algo func bounds = some (.printed (.value v)) ∧
      (IsMean func (boundsBox bounds h.ordered) v ↔
        (∀ name b, bounds.lookup name = some b → b.1 < b.2) ∨
          (boundsBox bounds h.ordered).mean (fun ρ => func.eval ρ) = 0) :=
  score_accepted hexact monteCarlo halgo h hfit

/-- The quadrature that integrates. -/
noncomputable def exactIntegrate : Quadrature ℝ := fun f lo hi =>
  some (∫ t in lo..hi, (f t).getD 0)

theorem exactIntegrate_exact : ExactOnPolynomials exactIntegrate := by
  intro P f lo hi hf
  unfold exactIntegrate
  simp only [hf, Option.getD_some]

/-- The cost function `x`. -/
def identityCost : Expression ℝ := .symbol "x".toList

/-- The bounds of `x`. -/
def singleBounds (lower upper : Int) : BoundsMap := Finmap.singleton "x".toList (lower, upper)

theorem lookup_singleBounds {lower upper : Int} {name : Text} {b : Int × Int}
    (h : (singleBounds lower upper).lookup name = some b) : b = (lower, upper) := by
  have hname : name = "x".toList :=
    (Finmap.mem_singleton (β := fun _ => Int × Int) name _ _).mp (Finmap.mem_of_lookup_eq_some h)
  subst hname
  rw [singleBounds, Finmap.lookup_singleton_eq] at h
  exact (Option.some.inj h).symm

theorem accepted_singleBounds {lower upper : Int} (h : lower ≤ upper) :
    Accepted identityCost (singleBounds lower upper) where
  keys := Finmap.keys_singleton _ _
  ordered := by
    intro name b hb
    rw [lookup_singleBounds hb]
    exact h

theorem score_isMean_iff_identityCost :
    ∃ v, score exactIntegrate (fun _ _ _ => none) "gauss_kronrod" identityCost (singleBounds 0 2) =
        some (.printed (.value v)) ∧
      (IsMean identityCost
          (boundsBox (singleBounds 0 2) (accepted_singleBounds (by omega)).ordered) v ↔
        (∀ name b, (singleBounds 0 2).lookup name = some b → b.1 < b.2) ∨
          (boundsBox (singleBounds 0 2) (accepted_singleBounds (by omega)).ordered).mean
            (fun ρ => identityCost.eval ρ) = 0) :=
  score_isMean_iff exactIntegrate (fun _ _ _ => none) "gauss_kronrod" identityCost
    (singleBounds 0 2) exactIntegrate_exact (Or.inl rfl) (accepted_singleBounds (by omega))
    fun name b hb => by
      rw [lookup_singleBounds hb]
      decide

/-- With the bounds 1 and 1 of `x`, the score of the cost function `x` is 0, which is not the mean
1. -/
theorem score_identityCost_not_mean :
    ∃ v, score exactIntegrate (fun _ _ _ => none) "gauss_kronrod" identityCost (singleBounds 1 1) =
        some (.printed (.value v)) ∧
      ¬ IsMean identityCost
        (boundsBox (singleBounds 1 1) (accepted_singleBounds le_rfl).ordered) v := by
  have hacc := accepted_singleBounds (le_refl (1 : Int))
  refine ⟨_, score_eq exactIntegrate_exact _ (Or.inl rfl) hacc, fun hmean => ?_⟩
  have hnot : ¬ ∀ name b, (singleBounds 1 1).lookup name = some b → b.1 < b.2 := by
    intro hall
    exact lt_irrefl (1 : Int) (hall "x".toList (1, 1) Finmap.lookup_singleton_eq)
  have hone := hmean.lower 1 fun ρ hρ => by
    have hx : "x".toList ∈ (boundsBox (singleBounds 1 1) hacc.ordered).vars := by
      change "x".toList ∈ (singleBounds 1 1).keys
      rw [hacc.keys]
      exact Finset.mem_singleton_self _
    have hlo := (hρ _ hx).1
    have hof : boundsOf (singleBounds 1 1) "x".toList = (1, 1) := by
      rw [boundsOf, singleBounds, Finmap.lookup_singleton_eq]
      rfl
    change ((boundsOf (singleBounds 1 1) "x".toList).1 : ℝ) ≤ ρ "x".toList at hlo
    rw [hof, Int.cast_one] at hlo
    exact hlo
  rw [volume_eq_zero hacc hnot, zero_mul, zero_div] at hone
  exact absurd hone (not_le.mpr one_pos)

end Gpscat.Score
