import Mathlib

/-!
# Means over boxes

The mean of a function of finitely many real variables over a box of which some sides may have length
0: the variables of proper sides are uniformly distributed, the others are fixed. For polynomials, the
integrals taken one variable after the other give the product of the lengths of the sides times the
mean.
-/

namespace BoxMean

open MeasureTheory ProbabilityTheory

variable {σ : Type}

/-! ## Sides -/

/-- The distribution of the variable of a side: uniform, or one point when the side is one. -/
noncomputable def sideMeasure (lo hi : ℝ) : Measure ℝ :=
  if lo = hi then Measure.dirac lo else volume[|Set.Icc lo hi]

instance (lo hi : ℝ) : IsFiniteMeasure (sideMeasure lo hi) := by
  unfold sideMeasure
  split <;> infer_instance

theorem isProbabilityMeasure_sideMeasure {lo hi : ℝ} (h : lo ≤ hi) :
    IsProbabilityMeasure (sideMeasure lo hi) := by
  unfold sideMeasure
  split
  · infer_instance
  · rename_i hne
    have hlt : lo < hi := lt_of_le_of_ne h hne
    refine cond_isProbabilityMeasure_of_finite ?_ ?_
    · rw [Real.volume_Icc, ne_eq, ENNReal.ofReal_eq_zero, not_le]
      exact sub_pos.mpr hlt
    · rw [Real.volume_Icc]
      exact ENNReal.ofReal_ne_top

/-- A side holds its distribution. -/
theorem ae_mem_side {lo hi : ℝ} (h : lo ≤ hi) :
    ∀ᵐ t ∂sideMeasure lo hi, lo ≤ t ∧ t ≤ hi := by
  unfold sideMeasure
  split
  · rw [ae_dirac_iff (measurableSet_Icc (a := lo) (b := hi))]
    exact ⟨le_rfl, h⟩
  · exact ae_cond_mem measurableSet_Icc

/-- The integral over a side is its length times the mean. -/
theorem integral_side {lo hi : ℝ} (h : lo ≤ hi) (f : ℝ → ℝ) :
    ∫ t in lo..hi, f t = (hi - lo) * ∫ t, f t ∂sideMeasure lo hi := by
  unfold sideMeasure
  split
  · rename_i heq
    rw [heq, intervalIntegral.integral_same, sub_self, zero_mul]
  · rename_i hne
    have hpos : 0 < hi - lo := sub_pos.mpr (lt_of_le_of_ne h hne)
    rw [ProbabilityTheory.cond, integral_smul_measure, Real.volume_Icc, ENNReal.toReal_inv,
      ENNReal.toReal_ofReal hpos.le, smul_eq_mul, ← mul_assoc, mul_inv_cancel₀ hpos.ne', one_mul,
      intervalIntegral.integral_of_le h, integral_Icc_eq_integral_Ioc]

theorem integrable_pow_side {lo hi : ℝ} (h : lo ≤ hi) (k : ℕ) :
    Integrable (fun t => t ^ k) (sideMeasure lo hi) := by
  refine Integrable.of_bound (by fun_prop) ((max |lo| |hi|) ^ k) ?_
  filter_upwards [ae_mem_side h] with t ht
  rw [norm_pow, Real.norm_eq_abs]
  exact pow_le_pow_left₀ (abs_nonneg t) (abs_le_max_abs_abs ht.1 ht.2) k

/-! ## Boxes -/

/-- A box for some variables. -/
structure Box (σ : Type) where
  vars : Finset σ
  lo : σ → ℝ
  hi : σ → ℝ
  le : ∀ i ∈ vars, lo i ≤ hi i

namespace Box

variable (B : Box σ)

/-- The points of a box; the other variables are 0. -/
noncomputable def extend (x : B.vars → ℝ) : σ → ℝ :=
  Function.extend (↑) x 0

/-- The variables are distributed independently of each other. -/
noncomputable def measure : Measure (B.vars → ℝ) :=
  Measure.pi fun i => sideMeasure (B.lo i) (B.hi i)

/-- The mean of a function over the box. -/
noncomputable def mean (f : (σ → ℝ) → ℝ) : ℝ := ∫ x, f (B.extend x) ∂B.measure

/-- A point of the box. -/
def Mem (x : σ → ℝ) : Prop := ∀ i ∈ B.vars, B.lo i ≤ x i ∧ x i ≤ B.hi i

/-- The product of the lengths of all sides. -/
noncomputable def volume : ℝ := ∏ i ∈ B.vars, (B.hi i - B.lo i)

@[simp] theorem extend_apply (x : B.vars → ℝ) (i : B.vars) : B.extend x i = x i :=
  Subtype.val_injective.extend_apply x 0 i

instance (i : B.vars) : IsProbabilityMeasure (sideMeasure (B.lo i) (B.hi i)) :=
  isProbabilityMeasure_sideMeasure (B.le i i.2)

instance : IsProbabilityMeasure B.measure :=
  inferInstanceAs (IsProbabilityMeasure (Measure.pi fun i : B.vars =>
    sideMeasure (B.lo i) (B.hi i)))

theorem ae_mem : ∀ᵐ x ∂B.measure, B.Mem (B.extend x) := by
  have hside : ∀ i : B.vars, ∀ᵐ x ∂B.measure, B.lo i ≤ x i ∧ x i ≤ B.hi i := by
    intro i
    have htendsto : Filter.Tendsto (Function.eval i) (ae B.measure)
      (ae (sideMeasure (B.lo i) (B.hi i))) := Measure.tendsto_eval_ae_ae
    exact htendsto.eventually (ae_mem_side (B.le i i.2))
  filter_upwards [Filter.eventually_all.mpr hside] with x hx i hi
  rw [B.extend_apply x ⟨i, hi⟩]
  exact hx ⟨i, hi⟩

end Box

/-! ## Means of polynomials -/

section Polynomials

open MvPolynomial

/-- A monomial as a product over variables that include its own. -/
theorem eval_monomial_of_subset {vars : Finset σ} {s : σ →₀ ℕ} (hs : s.support ⊆ vars) (a : ℝ)
    (ρ : σ → ℝ) : eval ρ (monomial s a) = a * ∏ i ∈ vars, ρ i ^ s i := by
  rw [eval_monomial, Finsupp.prod_of_support_subset s hs _ fun i _ => pow_zero _]

theorem support_subset_of_vars {vars : Finset σ} {p : MvPolynomial σ ℝ} (hp : p.vars ⊆ vars)
    {s : σ →₀ ℕ} (hs : s ∈ p.support) : s.support ⊆ vars := by
  intro i hi
  exact hp ((mem_vars_iff_mem_support i).mpr ⟨s, hs, hi⟩)

/-- A polynomial as a sum over its monomials. -/
theorem eval_eq_sum_monomials (p : MvPolynomial σ ℝ) (ρ : σ → ℝ) :
    eval ρ p = ∑ s ∈ p.support, eval ρ (monomial s (p.coeff s)) := by
  conv_lhs => rw [← support_sum_monomial_coeff p]
  rw [map_sum]

namespace Box

variable (B : Box σ)

theorem eval_extend_monomial {s : σ →₀ ℕ} (hs : s.support ⊆ B.vars) (a : ℝ) (x : B.vars → ℝ) :
    eval (B.extend x) (monomial s a) = a * ∏ i : B.vars, x i ^ s i := by
  rw [eval_monomial_of_subset hs, ← Finset.prod_coe_sort]
  congr 1
  refine Finset.prod_congr rfl fun i _ => ?_
  rw [B.extend_apply]

theorem integrable_monomial {s : σ →₀ ℕ} (hs : s.support ⊆ B.vars) (a : ℝ) :
    Integrable (fun x => eval (B.extend x) (monomial s a)) B.measure := by
  simp only [B.eval_extend_monomial hs]
  refine Integrable.const_mul ?_ a
  exact Integrable.fintype_prod_dep (f := fun (i : B.vars) t => t ^ s i)
    fun i => integrable_pow_side (B.le i i.2) _

theorem mean_monomial {s : σ →₀ ℕ} (hs : s.support ⊆ B.vars) (a : ℝ) :
    B.mean (fun ρ => eval ρ (monomial s a)) =
      a * ∏ i ∈ B.vars, ∫ t, t ^ s i ∂sideMeasure (B.lo i) (B.hi i) := by
  unfold mean
  simp only [B.eval_extend_monomial hs]
  rw [integral_const_mul, measure,
    integral_fintype_prod_eq_prod (fun (i : B.vars) (t : ℝ) => t ^ s i),
    Finset.prod_coe_sort B.vars fun i => ∫ t, t ^ s i ∂sideMeasure (B.lo i) (B.hi i)]

theorem integrable_eval {p : MvPolynomial σ ℝ} (hp : p.vars ⊆ B.vars) :
    Integrable (fun x => eval (B.extend x) p) B.measure := by
  simp only [fun x => eval_eq_sum_monomials p (B.extend x)]
  exact integrable_finsetSum _ fun s hs => B.integrable_monomial (support_subset_of_vars hp hs) _

theorem mean_eval {p : MvPolynomial σ ℝ} (hp : p.vars ⊆ B.vars) :
    B.mean (fun ρ => eval ρ p) = ∑ s ∈ p.support,
      p.coeff s * ∏ i ∈ B.vars, ∫ t, t ^ s i ∂sideMeasure (B.lo i) (B.hi i) := by
  have hsum : B.mean (fun ρ => eval ρ p) =
      ∑ s ∈ p.support, B.mean fun ρ => eval ρ (monomial s (p.coeff s)) := by
    unfold mean
    simp only [fun x => eval_eq_sum_monomials p (B.extend x)]
    exact integral_finsetSum _ fun s hs => B.integrable_monomial (support_subset_of_vars hp hs) _
  rw [hsum]
  exact Finset.sum_congr rfl fun s hs => B.mean_monomial (support_subset_of_vars hp hs) _

/-- The mean is not below a lower bound of the polynomial on the box. -/
theorem le_mean {p : MvPolynomial σ ℝ} (hp : p.vars ⊆ B.vars) {m : ℝ}
    (h : ∀ ρ, B.Mem ρ → m ≤ eval ρ p) : m ≤ B.mean fun ρ => eval ρ p := by
  have hconst : ∫ _, m ∂B.measure = m := by
    rw [integral_const, probReal_univ, one_smul]
  rw [← hconst]
  refine integral_mono_ae (integrable_const m) (B.integrable_eval hp) ?_
  filter_upwards [B.ae_mem] with x hx
  exact h _ hx

/-- The mean is not above an upper bound of the polynomial on the box. -/
theorem mean_le {p : MvPolynomial σ ℝ} (hp : p.vars ⊆ B.vars) {m : ℝ}
    (h : ∀ ρ, B.Mem ρ → eval ρ p ≤ m) : (B.mean fun ρ => eval ρ p) ≤ m := by
  have hconst : ∫ _, m ∂B.measure = m := by
    rw [integral_const, probReal_univ, one_smul]
  rw [← hconst]
  refine integral_mono_ae (B.integrable_eval hp) (integrable_const m) ?_
  filter_upwards [B.ae_mem] with x hx
  exact h _ hx

end Box

/-! ## One variable after the other -/

/-- The integral over one variable, as a polynomial in the others. -/
noncomputable def integrateOut (i : σ) (lo hi : ℝ) : MvPolynomial σ ℝ →ₗ[ℝ] MvPolynomial σ ℝ :=
  (basisMonomials σ ℝ).constr ℝ fun s => monomial (s.erase i) (∫ t in lo..hi, t ^ s i)

theorem integrateOut_monomial (i : σ) (lo hi : ℝ) (s : σ →₀ ℕ) (a : ℝ) :
    integrateOut i lo hi (monomial s a) =
      monomial (s.erase i) (a * ∫ t in lo..hi, t ^ s i) := by
  have hbasis : monomial s a = a • basisMonomials σ ℝ s := by
    rw [coe_basisMonomials, smul_monomial, smul_eq_mul, mul_one]
  rw [hbasis, map_smul, integrateOut, Module.Basis.constr_basis, smul_monomial, smul_eq_mul]

/-- The integrals over some variables, the last one innermost. -/
noncomputable def integrateAll (lo hi : σ → ℝ) (vs : List σ) (p : MvPolynomial σ ℝ) :
    MvPolynomial σ ℝ :=
  vs.foldr (fun i q => integrateOut i (lo i) (hi i) q) p

theorem integrateAll_sum (lo hi : σ → ℝ) (vs : List σ) {ι : Type} (S : Finset ι)
    (f : ι → MvPolynomial σ ℝ) :
    integrateAll lo hi vs (∑ k ∈ S, f k) = ∑ k ∈ S, integrateAll lo hi vs (f k) := by
  induction vs with
  | nil => rfl
  | cons i vs ih =>
    change integrateOut i (lo i) (hi i) (integrateAll lo hi vs _) = _
    rw [ih, map_sum]
    rfl

variable [DecidableEq σ]

theorem eval_update_monomial (i : σ) (ρ : σ → ℝ) (s : σ →₀ ℕ) (a t : ℝ) :
    eval (Function.update ρ i t) (monomial s a) =
      (s.erase i).prod (fun j k => ρ j ^ k) * a * t ^ s i := by
  have hsplit := Finsupp.mul_prod_erase' s i (fun j k => Function.update ρ i t j ^ k)
    fun j => pow_zero _
  have hrest : (s.erase i).prod (fun j k => Function.update ρ i t j ^ k) =
      (s.erase i).prod fun j k => ρ j ^ k := by
    refine Finsupp.prod_congr fun j hj => ?_
    have hne : j ≠ i := by
      rw [Finsupp.support_erase, Finset.mem_erase] at hj
      exact hj.1
    rw [Function.update_of_ne hne]
  rw [eval_monomial, ← hsplit, hrest, Function.update_self]
  ring

theorem continuous_eval_update (p : MvPolynomial σ ℝ) (ρ : σ → ℝ) (i : σ) :
    Continuous fun t => eval (Function.update ρ i t) p :=
  (continuous_eval p).comp (continuous_const.update i continuous_id)

/-- `integrateOut` integrates. -/
theorem integral_eval_update (p : MvPolynomial σ ℝ) (ρ : σ → ℝ) (i : σ) (lo hi : ℝ) :
    ∫ t in lo..hi, eval (Function.update ρ i t) p = eval ρ (integrateOut i lo hi p) := by
  induction p using MvPolynomial.induction_on' with
  | monomial s a =>
    simp only [eval_update_monomial]
    rw [intervalIntegral.integral_const_mul, integrateOut_monomial, eval_monomial]
    ring
  | add p q hp hq =>
    have hadd := intervalIntegral.integral_add (μ := MeasureTheory.volume)
      ((continuous_eval_update p ρ i).intervalIntegrable lo hi)
      ((continuous_eval_update q ρ i).intervalIntegrable lo hi)
    simp only [map_add]
    rw [hadd, hp, hq]

/-- Polynomial in one variable. -/
theorem exists_polynomial (p : MvPolynomial σ ℝ) (ρ : σ → ℝ) (i : σ) :
    ∃ P : Polynomial ℝ, ∀ t, P.eval t = eval (Function.update ρ i t) p := by
  induction p using MvPolynomial.induction_on' with
  | monomial s a =>
    refine ⟨Polynomial.C ((s.erase i).prod (fun j k => ρ j ^ k) * a) * Polynomial.X ^ s i,
      fun t => ?_⟩
    rw [eval_update_monomial, Polynomial.eval_C_mul, Polynomial.eval_pow, Polynomial.eval_X]
  | add p q hp hq =>
    obtain ⟨P, hP⟩ := hp
    obtain ⟨Q, hQ⟩ := hq
    exact ⟨P + Q, fun t => by rw [Polynomial.eval_add, hP, hQ, map_add]⟩

/-- A monomial, integrated over all its variables. -/
theorem integrateAll_monomial (lo hi : σ → ℝ) {vs : List σ} (hnd : vs.Nodup) (s : σ →₀ ℕ) (a : ℝ) :
    ∃ s' : σ →₀ ℕ, (∀ i, s' i = if i ∈ vs then 0 else s i) ∧
      integrateAll lo hi vs (monomial s a) =
        monomial s' (a * (vs.map fun i => ∫ t in lo i..hi i, t ^ s i).prod) := by
  induction vs with
  | nil => exact ⟨s, fun i => rfl, by rw [List.map_nil, List.prod_nil, mul_one]; rfl⟩
  | cons i vs ih =>
    obtain ⟨hi', hnd⟩ := List.nodup_cons.mp hnd
    obtain ⟨s', hs', hall⟩ := ih hnd
    refine ⟨s'.erase i, fun j => ?_, ?_⟩
    · by_cases hj : j = i
      · rw [hj, Finsupp.erase_same, if_pos List.mem_cons_self]
      · rw [Finsupp.erase_ne hj, hs']
        simp only [List.mem_cons, hj, false_or]
    · change integrateOut i (lo i) (hi i) (integrateAll lo hi vs _) = _
      rw [hall, integrateOut_monomial, hs', if_neg hi', List.map_cons, List.prod_cons]
      congr 1
      ring

/-- Integrated over all variables of a box, a polynomial gives the product of the lengths of the sides
times its mean. -/
theorem Box.eval_integrateAll (B : Box σ) {vs : List σ} (hnd : vs.Nodup)
    (hvs : vs.toFinset = B.vars) {p : MvPolynomial σ ℝ} (hp : p.vars ⊆ B.vars) (ρ : σ → ℝ) :
    eval ρ (integrateAll B.lo B.hi vs p) = B.volume * B.mean fun ρ => eval ρ p := by
  conv_lhs => rw [← support_sum_monomial_coeff p]
  rw [integrateAll_sum, map_sum, B.mean_eval hp, Finset.mul_sum]
  refine Finset.sum_congr rfl fun s hs => ?_
  obtain ⟨s', hs', hall⟩ := integrateAll_monomial B.lo B.hi hnd s (p.coeff s)
  have hzero : s' = 0 := by
    ext i
    rw [hs', Finsupp.coe_zero, Pi.zero_apply]
    split
    · rfl
    · rename_i hi
      by_contra hne
      have hmem := support_subset_of_vars hp hs (Finsupp.mem_support_iff.mpr hne)
      rw [← hvs, List.mem_toFinset] at hmem
      exact hi hmem
  have hprod : (vs.map fun i => ∫ t in B.lo i..B.hi i, t ^ s i).prod =
      B.volume * ∏ i ∈ B.vars, ∫ t, t ^ s i ∂sideMeasure (B.lo i) (B.hi i) := by
    rw [← List.prod_toFinset _ hnd, hvs, volume, ← Finset.prod_mul_distrib]
    exact Finset.prod_congr rfl fun i hi => integral_side (B.le i hi) _
  rw [hall, hzero, hprod, eval_monomial, Finsupp.prod_zero_index]
  ring

end Polynomials

end BoxMean
