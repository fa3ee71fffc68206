import Gpscat.Score.Proofs.IntegrandProofs
import Gpscat.Score.Proofs.IntegrationProofs
import Gpscat.Score.Widths

/-!
# When the divisors of the mean match

A width that fits `int` is the length of its side, and a longer one is not. With exact integration,
the score is the integral of the cost function over the sides, divided by the widths.
-/

namespace Gpscat.Score

open Cpp IteratedIntegral

/-! ## Widths -/

theorem width_eq_iff {b : Int × Int} (horder : b.1 < b.2) :
    (width b : ℝ) = (b.2 : ℝ) - (b.1 : ℝ) ↔ b.2 - b.1 ≤ intMax := by
  rw [← Int.cast_sub, Int.cast_inj]
  constructor
  · intro h
    have hlt : width b < 2 ^ 31 := Int.bmod_lt (by decide)
    unfold intMax
    omega
  · exact width_eq horder.le

theorem mem_mapBounds {bounds : BoundsMap} {b : Int × Int} :
    b ∈ mapBounds bounds ↔ ∃ name, bounds.lookup name = some b := by
  rw [mapBounds, List.mem_filterMap]
  constructor
  · rintro ⟨name, -, hb⟩
    exact ⟨name, hb⟩
  · rintro ⟨name, hb⟩
    refine ⟨name, (Finset.mem_sort _).mpr ?_, hb⟩
    exact Finmap.mem_keys.mpr (Finmap.mem_of_lookup_eq_some hb)

section Bounds

variable {bounds : BoundsMap}

theorem integrationBox_lt (hlt : ∀ name b, bounds.lookup name = some b → b.1 < b.2) :
    ∀ side ∈ integrationBox bounds, side.1 < side.2 := by
  intro side hside
  obtain ⟨b, hb, rfl⟩ := List.mem_map.mp hside
  obtain ⟨name, hname⟩ := mem_mapBounds.mp hb
  exact Int.cast_lt.mpr (hlt name b hname)

/-- Where all widths fit, the divisions are one division by the volume. -/
theorem divideByWidths_eq_volume (hlt : ∀ name b, bounds.lookup name = some b → b.1 < b.2)
    (hfit : ∀ name b, bounds.lookup name = some b → b.2 - b.1 ≤ intMax) (x : ℝ) :
    divideByWidths (mapBounds bounds) x = x / volume (integrationBox bounds) := by
  rw [divideByWidths_eq, volume, integrationBox, List.map_map]
  congr 2
  refine List.map_congr_left fun b hb => ?_
  obtain ⟨name, hname⟩ := mem_mapBounds.mp hb
  have horder := hlt name b hname
  have hwidth := width_eq horder.le (hfit name b hname)
  rw [divisor, if_neg (by omega), hwidth, Int.cast_sub]
  rfl

end Bounds

/-! ## The integral -/

theorem iterate_exact {integrate : Quadrature ℝ} (hexact : ExactQuadrature integrate)
    {sides : List (ℝ × ℝ)} (hsides : ∀ side ∈ sides, side.1 ≤ side.2) {f : List ℝ → Option ℝ}
    {g : List ℝ → ℝ} (hf : ∀ x, InBox sides x → f x = some (g x)) :
    iterate integrate sides f = some (iteratedIntegral sides g) := by
  induction sides generalizing f g with
  | nil => exact hf [] .nil
  | cons side sides ih =>
    refine hexact _ _ _ _ (hsides side List.mem_cons_self) fun t ht => ?_
    exact ih (fun s hs => hsides s (List.mem_cons_of_mem side hs)) fun x hx => hf _ (.cons ht hx)

section Score

variable {Op : Type} [Operation Op ℝ] {integrate : Quadrature ℝ}
  {naiveMonteCarlo : NaiveMonteCarlo ℝ} {func : Basic Op ℝ} {bounds : BoundsMap}

/-- Whichever integrator is used, the result is the integral of the cost function. -/
theorem numericallyIntegrate_exact (hexact : ExactQuadrature integrate)
    (hmonteCarlo : ExactMonteCarlo naiveMonteCarlo) {algo : String} (halgo : Supported algo)
    (hbounds : ProperBounds func.getSymbols bounds) {g : List ℝ → ℝ}
    (hg : ∀ x, InBox (integrationBox bounds) x →
      integrand func (func.getSymbols.sort (· ≤ ·)) x = some (g x)) :
    numericallyIntegrate integrate (MonteCarloIntegration naiveMonteCarlo) algo func
        (func.getSymbols.sort (· ≤ ·)) bounds =
      some (.value (iteratedIntegral (integrationBox bounds) g)) := by
  have hsides : ∀ side ∈ integrationBox bounds, side.1 ≤ side.2 := fun side hside =>
    (integrationBox_lt hbounds.lt side hside).le
  have hcard : (integrationBox bounds).length = func.getSymbols.card := by
    rw [integrationBox, List.length_map, mapBounds_eq, List.length_map, Finset.length_sort,
      hbounds.keys]
  have hmc : MonteCarloIntegration naiveMonteCarlo func (func.getSymbols.sort (· ≤ ·))
      (integrationBox bounds) = some (iteratedIntegral (integrationBox bounds) g) :=
    hmonteCarlo _ _ _ hsides hg
  have hlen : (func.getSymbols.sort (· ≤ ·)).length = func.getSymbols.card := Finset.length_sort _
  by_cases hzero : func.getSymbols.card = 0
  · -- Without parameters the only point has no coordinate.
    have hnil : integrationBox bounds = [] := List.length_eq_zero_iff.mp (hcard.trans hzero)
    rw [hnil] at hg ⊢
    have hvalue := hg [] .nil
    rw [integrand, subsMap, List.zip_nil_right, List.foldl_nil, Basic.subs_empty] at hvalue
    rw [numericallyIntegrate_constant (hlen.trans hzero)]
    exact congrArg (Option.map Result.value) hvalue
  · have hpos : (func.getSymbols.sort (· ≤ ·)).length ≠ 0 := hlen ▸ hzero
    have hgk : GaussKronrodIntegration integrate func (func.getSymbols.sort (· ≤ ·))
        (integrationBox bounds) 0 = some (iteratedIntegral (integrationBox bounds) g) := by
      rw [GaussKronrodIntegration_eq_integrand integrate hzero hcard, iterate_exact hexact hsides hg]
    -- Either integrator is called with the integration box.
    have hgkValue := congrArg (Option.map Result.value) hgk
    have hmcValue := congrArg (Option.map Result.value) hmc
    rcases halgo with rfl | rfl | rfl
    · by_cases hle : (func.getSymbols.sort (· ≤ ·)).length ≤ 4
      · exact (numericallyIntegrate_gaussKronrod hpos (Or.inr ⟨rfl, hle⟩)).trans hgkValue
      · exact (numericallyIntegrate_monteCarlo hpos (Or.inr ⟨rfl, hle⟩)).trans hmcValue
    · exact (numericallyIntegrate_monteCarlo hpos (Or.inl rfl)).trans hmcValue
    · exact (numericallyIntegrate_gaussKronrod hpos (Or.inl rfl)).trans hgkValue

theorem score_exact (hexact : ExactQuadrature integrate)
    (hmonteCarlo : ExactMonteCarlo naiveMonteCarlo) {algo : String} (halgo : Supported algo)
    (hbounds : ProperBounds func.getSymbols bounds) {g : List ℝ → ℝ}
    (hg : ∀ x, InBox (integrationBox bounds) x →
      integrand func (func.getSymbols.sort (· ≤ ·)) x = some (g x)) :
    score integrate (MonteCarloIntegration naiveMonteCarlo) algo func bounds =
      some (.printed (.value
        (divideByWidths (mapBounds bounds) (iteratedIntegral (integrationBox bounds) g)))) := by
  have hkeys : bounds.keys.card = (Symbolic.getSymbols func).card := congrArg _ hbounds.keys
  unfold score
  dsimp only
  rw [if_neg (not_not_intro hkeys)]
  exact congrArg _ (numericallyIntegrate_exact hexact hmonteCarlo halgo hbounds hg)

/-- **The divisors of the mean** are the lengths of the sides that are integrated over, so that the
score of a cost function without negative values is not negative, if and only if every length fits
`int`. -/
theorem divisorsMatch_iff (integrate : Quadrature ℝ) (naiveMonteCarlo : NaiveMonteCarlo ℝ)
    (algo : String) (func : Basic Op ℝ) (bounds : BoundsMap) (hexact : ExactQuadrature integrate)
    (hmonteCarlo : ExactMonteCarlo naiveMonteCarlo) (halgo : Supported algo)
    (hbounds : ProperBounds func.getSymbols bounds) :
    DivisorsMatch integrate naiveMonteCarlo algo func bounds ↔
      ∀ name b, bounds.lookup name = some b → b.2 - b.1 ≤ intMax := by
  constructor
  · intro h name b hb
    exact (width_eq_iff (hbounds.lt name b hb)).mp (h.width name b hb)
  · intro hfit
    have hpos := volume_pos (integrationBox_lt hbounds.lt)
    have hdivide := divideByWidths_eq_volume hbounds.lt hfit
    refine ⟨fun name b hb => ?_, ⟨hpos, hdivide⟩, fun hnonneg => ?_⟩
    · exact (width_eq_iff (hbounds.lt name b hb)).mpr (hfit name b hb)
    · choose! cost hcost hcost_nonneg using hnonneg.value
      refine ⟨_, score_exact hexact hmonteCarlo halgo hbounds hcost, ?_⟩
      rw [hdivide]
      have hsides : ∀ side ∈ integrationBox bounds, side.1 ≤ side.2 := fun side hside =>
        (integrationBox_lt hbounds.lt side hside).le
      exact div_nonneg (iteratedIntegral_nonneg hsides hcost_nonneg) hpos.le

end Score

/-! ## Bounds near both limits -/

theorem exactIntegrate_exactQuadrature : ExactQuadrature exactIntegrate := by
  intro f g lo hi horder hf
  refine congrArg some (intervalIntegral.integral_congr fun t ht => ?_)
  rw [Set.uIcc_of_le horder] at ht
  exact congrArg (Option.getD · 0) (hf t ht)

/-- Monte-Carlo integration that integrates. -/
noncomputable def exactMonteCarlo : NaiveMonteCarlo ℝ := fun f sides =>
  some (iteratedIntegral sides fun x => (f x).getD 0)

theorem exactMonteCarlo_exact : ExactMonteCarlo exactMonteCarlo := by
  intro f g sides hsides hf
  refine congrArg some (iteratedIntegral_congr hsides fun x hx => ?_)
  rw [hf x hx]
  rfl

/-- The cost function `x*x`. -/
noncomputable def squareCost : Basic Arithmetic ℝ :=
  .node .mul [.symbol "x".toList, .symbol "x".toList]

theorem getSymbols_squareCost : squareCost.getSymbols = {"x".toList} := by
  simp [squareCost, Basic.getSymbols, Basic.getSymbolsArgs]

theorem properBounds_singleBounds {lower upper : Int} (h : lower < upper) :
    ProperBounds squareCost.getSymbols (singleBounds lower upper) where
  keys := by
    rw [getSymbols_squareCost]
    exact Finmap.keys_singleton _ _
  lt := by
    intro name b hb
    rw [lookup_singleBounds hb]
    exact h

theorem divisorsMatch_iff_squareCost :
    DivisorsMatch exactIntegrate exactMonteCarlo "auto" squareCost (singleBounds 0 2) ↔
      ∀ name b, (singleBounds 0 2).lookup name = some b → b.2 - b.1 ≤ intMax :=
  divisorsMatch_iff exactIntegrate exactMonteCarlo "auto" squareCost (singleBounds 0 2)
    exactIntegrate_exactQuadrature exactMonteCarlo_exact (Or.inl rfl)
    (properBounds_singleBounds (by omega))

theorem mapBounds_singleBounds (lower upper : Int) :
    mapBounds (singleBounds lower upper) = [(lower, upper)] := by
  rw [mapBounds_eq, singleBounds, Finmap.keys_singleton, Finset.sort_singleton, List.map_singleton,
    boundsOf, Finmap.lookup_singleton_eq]
  rfl

theorem integrand_squareCost (t : ℝ) : integrand squareCost ["x".toList] [t] = some (t * t) := by
  simp [integrand, subsMap, squareCost, Basic.subs, Basic.subsArgs, Basic.toDouble,
    Basic.toDoubleArgs, Operation.apply]

theorem integrand_squareCost_of_inBox {lower upper : Int} {x : List ℝ}
    (hx : InBox (integrationBox (singleBounds lower upper)) x) :
    integrand squareCost (squareCost.getSymbols.sort (· ≤ ·)) x =
      some (x.headD 0 * x.headD 0) := by
  rw [integrationBox, mapBounds_singleBounds] at hx
  cases hx with
  | cons _ hnil =>
    cases hnil
    rw [getSymbols_squareCost, Finset.sort_singleton]
    exact integrand_squareCost _

/-- With the least and the greatest `int` as bounds, the width is -1 and the score of the cost
function `x*x` is negative. -/
theorem squareCost_not_divisorsMatch :
    ProperBounds squareCost.getSymbols (singleBounds intMin intMax) ∧
    NonnegOn squareCost (integrationBox (singleBounds intMin intMax)) ∧
    width (intMin, intMax) = -1 ∧
    (∃ v, score exactIntegrate (MonteCarloIntegration exactMonteCarlo) "auto" squareCost
      (singleBounds intMin intMax) = some (.printed (.value v)) ∧ v < 0) ∧
    ¬ DivisorsMatch exactIntegrate exactMonteCarlo "auto" squareCost
      (singleBounds intMin intMax) := by
  have hproper : ProperBounds squareCost.getSymbols (singleBounds intMin intMax) :=
    properBounds_singleBounds (by decide)
  have hnonneg : NonnegOn squareCost (integrationBox (singleBounds intMin intMax)) :=
    ⟨fun x hx => ⟨_, integrand_squareCost_of_inBox hx, mul_self_nonneg _⟩⟩
  have hauto : Supported "auto" := Or.inl rfl
  have hscore := score_exact exactIntegrate_exactQuadrature exactMonteCarlo_exact hauto hproper
    fun x hx => integrand_squareCost_of_inBox hx
  have hwidth : width (intMin, intMax) = -1 := by decide
  have hneg : divideByWidths (mapBounds (singleBounds intMin intMax))
      (iteratedIntegral (integrationBox (singleBounds intMin intMax))
        fun x => x.headD 0 * x.headD 0) < 0 := by
    have hintegral : ∫ t in (intMin : ℝ)..(intMax : ℝ), t * t =
        ((intMax : ℝ) ^ 3 - (intMin : ℝ) ^ 3) / 3 := by
      simp only [← pow_two, integral_pow]
      norm_num
    rw [integrationBox, mapBounds_singleBounds]
    change divideByWidths [(intMin, intMax)] (∫ t in (intMin : ℝ)..(intMax : ℝ), t * t) < 0
    rw [hintegral, divideByWidths, divideByWidths, hwidth, if_neg (by decide)]
    norm_num [intMin, intMax]
  refine ⟨hproper, hnonneg, hwidth, ⟨_, hscore, hneg⟩, fun hmatch => ?_⟩
  obtain ⟨v, hv, hv_nonneg⟩ := hmatch.nonneg hnonneg
  rw [hscore] at hv
  injection hv with hv
  injection hv with hv
  injection hv with hv
  exact absurd (hv ▸ hv_nonneg) (not_le.mpr hneg)

end Gpscat.Score
