import Gpscat.Score.Integrand
import Gpscat.Score.Proofs.SymEngineProofs

/-!
# Both integrators evaluate one integrand

The nested calls put numbers for the parameters one after the other. That leaves the expression that
the substitution for all of them at once leaves, so `GaussKronrodIntegration` is the iterated
quadrature of the integrand of `MonteCarloIntegration`.
-/

namespace Gpscat.Score

open Cpp

/-! ## The nested calls -/

section Nested

variable {E K : Type} [Symbolic E K] {params : List Text}

theorem substituted_nil (func : E) (params : List Text) :
    substituted func params ([] : List K) = func := by
  rw [substituted, List.zip_nil_right]
  rfl

theorem substituted_cons (func : E) (x : Text) (params : List Text) (t : K) (ts : List K) :
    substituted func (x :: params) (t :: ts) = substituted (Symbolic.subs x t func) params ts := rfl

/-- One parameter more, put in last. -/
theorem substituted_concat (func : E) {ts : List K} {x : Text} (hx : params[ts.length]? = some x)
    (t : K) :
    substituted func params (ts ++ [t]) = Symbolic.subs x t (substituted func params ts) := by
  induction ts generalizing func params with
  | nil =>
    cases params with
    | nil => exact absurd hx (by simp)
    | cons y params =>
      obtain rfl : y = x := Option.some.inj hx
      rw [List.nil_append, substituted_cons, substituted_nil, substituted_nil]
  | cons s ts ih =>
    cases params with
    | nil => exact absurd hx (by simp)
    | cons y params => exact ih (Symbolic.subs y s func) hx

/-- The calls that are made, by the numbers put in so far: the index counts them, and it stays below
the number of parameters. -/
theorem calls_iff {func g : E} {i : Nat} (hpos : params.length ≠ 0) :
    Calls params (func, 0) (g, i) ↔
      ∃ ts : List K, ts.length = i ∧ i < params.length ∧ g = substituted func params ts := by
  constructor
  · intro h
    generalize hcall : (g, i) = call at h
    induction h generalizing g i with
    | refl =>
      obtain ⟨rfl, rfl⟩ := Prod.mk.inj hcall
      exact ⟨[], rfl, Nat.pos_of_ne_zero hpos, (substituted_nil _ _).symm⟩
    | tail _ hstep ih =>
      cases hstep with
      | @integrand g' k x hx hmore t =>
        obtain ⟨rfl, rfl⟩ := Prod.mk.inj hcall
        obtain ⟨ts, rfl, hlt, rfl⟩ := ih rfl
        refine ⟨ts ++ [t], by simp, by omega, (substituted_concat func hx t).symm⟩
  · rintro ⟨ts, rfl, hlt, rfl⟩
    induction ts using List.reverseRecOn with
    | nil =>
      rw [substituted_nil]
      exact .refl
    | append_singleton ts t ih =>
      rw [List.length_append, List.length_singleton] at hlt ⊢
      have hx : params[ts.length]? = some params[ts.length] := List.getElem?_eq_getElem (by omega)
      rw [substituted_concat func hx]
      exact (ih (by omega)).tail (.integrand hx (by omega) t)

/-- Equal functions at the points of the right dimension have equal iterated quadratures. -/
theorem iterate_congr (integrate : Quadrature K) {bounds : List (K × K)} {f g : List K → Option K}
    (h : ∀ ts, ts.length = bounds.length → f ts = g ts) :
    iterate integrate bounds f = iterate integrate bounds g := by
  induction bounds generalizing f g with
  | nil => exact h [] rfl
  | cons b bounds ih =>
    rw [iterate, iterate]
    congr 1
    funext t
    exact ih fun ts hts => h (t :: ts) (congrArg Nat.succ hts)

theorem GaussKronrodIntegration_step (integrate : Quadrature K) (func : E)
    {bounds : List (K × K)} {i : Nat} {x : Text} {b : K × K} (hx : params[i]? = some x)
    (hb : bounds[i]? = some b) :
    GaussKronrodIntegration integrate func params bounds i =
      integrate (fun t =>
        if i + 1 = params.length then Symbolic.toDouble (Symbolic.subs x t func)
        else GaussKronrodIntegration integrate (Symbolic.subs x t func) params bounds (i + 1))
        b.1 b.2 := by
  rw [GaussKronrodIntegration]
  split
  · rename_i param bound hparam hbound
    obtain rfl : x = param := Option.some.inj (hx.symm.trans hparam)
    obtain rfl : b = bound := Option.some.inj (hb.symm.trans hbound)
    split_ifs <;> rfl
  · rename_i hnone
    exact absurd hb (hnone _ _ hx)

/-- From any level on, `GaussKronrodIntegration` is the iterated quadrature of the function that
converts what is left. The induction is on the number of levels that follow. -/
theorem GaussKronrodIntegration_eq_iterate (integrate : Quadrature K) {bounds : List (K × K)}
    (hlen : bounds.length = params.length) (n : Nat) (func : E) (i : Nat)
    (hn : params.length = i + (n + 1)) :
    GaussKronrodIntegration integrate func params bounds i =
      iterate integrate (bounds.drop i) fun ts =>
        Symbolic.toDouble (substituted func (params.drop i) ts) := by
  induction n generalizing func i with
  | zero =>
    have hi : i < params.length := by omega
    have hi' : i < bounds.length := by omega
    have hdrop : bounds.drop (i + 1) = [] := List.drop_eq_nil_of_le (by omega)
    rw [GaussKronrodIntegration_step integrate func (List.getElem?_eq_getElem hi)
      (List.getElem?_eq_getElem hi'), List.drop_eq_getElem_cons hi, List.drop_eq_getElem_cons hi',
      hdrop, iterate]
    congr 1
    funext t
    rw [if_pos hn.symm, iterate, substituted_cons, substituted_nil]
  | succ n ih =>
    have hi : i < params.length := by omega
    have hi' : i < bounds.length := by omega
    rw [GaussKronrodIntegration_step integrate func (List.getElem?_eq_getElem hi)
      (List.getElem?_eq_getElem hi'), List.drop_eq_getElem_cons hi, List.drop_eq_getElem_cons hi',
      iterate]
    congr 1
    funext t
    rw [if_neg (by omega), ih _ (i + 1) (by omega)]
    rfl

end Nested

/-! ## The choice of the integrator -/

section Choice

variable {E K : Type} [Field K] [Symbolic E K] {integrate : Quadrature K}
  {monteCarlo : MonteCarlo K E} {algo : String} {func : E} {params : List Text} {bounds : BoundsMap}

/-- A constant is only converted. -/
theorem numericallyIntegrate_constant (hlen : params.length = 0) :
    numericallyIntegrate integrate monteCarlo algo func params bounds =
      (Symbolic.toDouble func).map .value := by
  unfold numericallyIntegrate
  exact if_pos hlen

theorem numericallyIntegrate_gaussKronrod (hlen : params.length ≠ 0)
    (halgo : algo = "gauss_kronrod" ∨ algo = "auto" ∧ params.length ≤ 4) :
    numericallyIntegrate integrate monteCarlo algo func params bounds =
      (GaussKronrodIntegration integrate func params
        ((mapBounds bounds).map fun b => ((b.1 : K), (b.2 : K))) 0).map .value := by
  unfold numericallyIntegrate
  dsimp only
  rw [if_neg hlen]
  rcases halgo with rfl | ⟨rfl, hle⟩
  · rw [if_neg (by decide), if_neg (by decide), if_pos rfl]
  · rw [if_pos rfl, if_pos hle]

theorem numericallyIntegrate_monteCarlo (hlen : params.length ≠ 0)
    (halgo : algo = "monte_carlo" ∨ algo = "auto" ∧ ¬ params.length ≤ 4) :
    numericallyIntegrate integrate monteCarlo algo func params bounds =
      (monteCarlo func params ((mapBounds bounds).map fun b => ((b.1 : K), (b.2 : K)))).map
        .value := by
  unfold numericallyIntegrate
  dsimp only
  rw [if_neg hlen]
  rcases halgo with rfl | ⟨rfl, hgt⟩
  · rw [if_neg (by decide), if_pos rfl]
  · rw [if_pos rfl, if_neg hgt]

theorem numericallyIntegrate_unsupported (hlen : params.length ≠ 0) (hauto : algo ≠ "auto")
    (hmonteCarlo : algo ≠ "monte_carlo") (hgaussKronrod : algo ≠ "gauss_kronrod") :
    numericallyIntegrate integrate monteCarlo algo func params bounds = some .unsupported := by
  unfold numericallyIntegrate
  dsimp only
  rw [if_neg hlen, if_neg hauto, if_neg hmonteCarlo, if_neg hgaussKronrod]

end Choice

/-! ## One integrand -/

section Integrand

variable {Op K : Type} [Operation Op K]

theorem symbolic_subs (func : Basic Op K) (x : Text) (t : K) :
    Symbolic.subs x t func = func.subs (Finmap.singleton x t) := rfl

/-- Numbers for distinct parameters, one after the other, behind numbers for others. -/
theorem foldl_subs (func : Basic Op K) (ps : List (Text × K)) {m : SubsMap K}
    (hnd : (ps.map Prod.fst).Nodup) (hm : ∀ p ∈ ps, p.1 ∉ m) :
    ps.foldl (fun func p => Symbolic.subs p.1 p.2 func) (func.subs m) =
      func.subs (ps.foldl (fun m p => m.insert p.1 p.2) m) := by
  induction ps generalizing m with
  | nil => rfl
  | cons p ps ih =>
    rw [List.map_cons, List.nodup_cons] at hnd
    rw [List.foldl_cons, List.foldl_cons, symbolic_subs,
      ← Basic.subs_insert (hm p List.mem_cons_self) p.2 func]
    refine ih hnd.2 fun q hq hmem => ?_
    rcases Finmap.mem_insert.mp hmem with heq | hmem
    · exact hnd.1 (heq ▸ List.mem_map_of_mem hq)
    · exact hm q (List.mem_cons_of_mem p hq) hmem

theorem map_fst_zip (params : List Text) (ts : List K) :
    (params.zip ts).map Prod.fst = params.take ts.length := by
  induction params generalizing ts with
  | nil => simp
  | cons x params ih =>
    cases ts with
    | nil => rfl
    | cons t ts => rw [List.zip_cons_cons, List.map_cons, ih, List.length_cons, List.take_succ_cons]

/-- The substitution for one parameter after the other is the one for all of them. -/
theorem substituted_eq_subs (func : Basic Op K) {params : List Text} (hnd : params.Nodup)
    (ts : List K) : substituted func params ts = func.subs (subsMap params ts) := by
  have hzip : ((params.zip ts).map Prod.fst).Nodup := by
    rw [map_fst_zip]
    exact hnd.sublist (List.take_sublist _ _)
  have := foldl_subs func (params.zip ts) (m := ∅) hzip fun _ _ => Finmap.notMem_empty
  rwa [Basic.subs_empty] at this

theorem mem_foldl_insert {ps : List (Text × K)} {m : SubsMap K} {name : Text} :
    name ∈ ps.foldl (fun m p => m.insert p.1 p.2) m ↔ name ∈ ps.map Prod.fst ∨ name ∈ m := by
  induction ps generalizing m with
  | nil => simp
  | cons p ps ih =>
    rw [List.foldl_cons, ih, Finmap.mem_insert, List.map_cons, List.mem_cons, or_left_comm, or_assoc]

theorem mem_subsMap {params : List Text} {ts : List K} {name : Text} :
    name ∈ subsMap params ts ↔ name ∈ params.take ts.length := by
  rw [subsMap, mem_foldl_insert, map_fst_zip]
  exact or_iff_left Finmap.notMem_empty

/-- The symbols that are left at a level are among the parameters from it on. -/
theorem getSymbols_substituted {func : Basic Op K} {params : List Text} (hnd : params.Nodup)
    (hsymbols : func.getSymbols ⊆ params.toFinset) (ts : List K) :
    (substituted func params ts).getSymbols ⊆ (params.drop ts.length).toFinset := by
  intro name hname
  rw [substituted_eq_subs func hnd, Basic.mem_getSymbols_subs, mem_subsMap] at hname
  have hmem := List.mem_toFinset.mp (hsymbols hname.1)
  rw [← List.take_append_drop ts.length params, List.mem_append] at hmem
  exact List.mem_toFinset.mpr (hmem.resolve_left hname.2)

/-- `GaussKronrodIntegration` is the iterated quadrature of the integrand of
`MonteCarloIntegration`. -/
theorem GaussKronrodIntegration_eq_integrand (integrate : Quadrature K) {func : Basic Op K}
    {bounds : List (K × K)} (hpos : func.getSymbols.card ≠ 0)
    (hlen : bounds.length = func.getSymbols.card) :
    GaussKronrodIntegration integrate func (func.getSymbols.sort (· ≤ ·)) bounds 0 =
      iterate integrate bounds (integrand func (func.getSymbols.sort (· ≤ ·))) := by
  have hparams : (func.getSymbols.sort (· ≤ ·)).length = func.getSymbols.card :=
    Finset.length_sort _
  obtain ⟨n, hn⟩ := Nat.exists_eq_succ_of_ne_zero hpos
  rw [GaussKronrodIntegration_eq_iterate integrate (by rw [hlen, hparams]) n func 0
    (by rw [hparams, hn, Nat.zero_add]), List.drop_zero, List.drop_zero]
  refine iterate_congr integrate fun ts _ => ?_
  rw [substituted_eq_subs func (Finset.sort_nodup _ _), integrand]
  rfl

theorem lookup_foldl_insert (ps : List Text) (ρ : Text → K) (m : SubsMap K) (name : Text) :
    ((ps.zip (ps.map ρ)).foldl (fun m p => m.insert p.1 p.2) m).lookup name =
      if name ∈ ps then some (ρ name) else m.lookup name := by
  induction ps generalizing m with
  | nil => rfl
  | cons x ps ih =>
    rw [List.map_cons, List.zip_cons_cons, List.foldl_cons, ih]
    by_cases hx : name = x
    · subst hx
      rw [Finmap.lookup_insert, if_pos List.mem_cons_self, ite_self]
    · rw [Finmap.lookup_insert_of_ne m hx]
      simp only [List.mem_cons, hx, false_or]

/-- The integrand is the function that the expression denotes. -/
theorem integrand_eq_eval {func : Basic Op K} {params : List Text}
    (hsymbols : func.getSymbols ⊆ params.toFinset) (ρ : Text → K) :
    integrand func params (params.map ρ) = func.eval ρ := by
  refine Basic.toDouble_subs func fun name hname => ?_
  rw [subsMap, lookup_foldl_insert, if_pos (List.mem_toFinset.mp (hsymbols hname))]

/-- **Both integrators evaluate the same closed integrand.** For an expression with parameters and as
many bounds, the calls of `GaussKronrodIntegration` are those with numbers for the first parameters:
every index is in range, and for all numbers the last level is reached. What is left at a level has
only the symbols of the parameters from it on, so what is converted has none, and it is the integrand
that `MonteCarloIntegration` hands on, at the point of the numbers: the value of the expression there. -/
theorem integrators_agree (integrate : Quadrature K) (func : Basic Op K) (bounds : List (K × K))
    (hpos : func.getSymbols.card ≠ 0) (hlen : bounds.length = func.getSymbols.card) :
    let params := func.getSymbols.sort (· ≤ ·)
    (∀ g i, Calls params (func, 0) (g, i) ↔
      ∃ ts : List K, ts.length = i ∧ i < params.length ∧ g = substituted func params ts) ∧
    (∀ g i, Calls params (func, 0) (g, i) → i < params.length ∧ i < bounds.length ∧
      g.getSymbols ⊆ (params.drop i).toFinset ∧
      (i + 1 = params.length → ∀ x (t : K), params[i]? = some x →
        (g.subs (Finmap.singleton x t)).getSymbols = ∅)) ∧
    (∀ ts : List K, ts.length = params.length →
      (substituted func params ts).getSymbols = ∅ ∧
      (func.subs (subsMap params ts)).getSymbols = ∅ ∧
      (substituted func params ts).toDouble = integrand func params ts) ∧
    (∀ ρ : Text → K, integrand func params (params.map ρ) = func.eval ρ) ∧
    GaussKronrodIntegration integrate func params bounds 0 =
      iterate integrate bounds (integrand func params) ∧
    ∀ naiveMonteCarlo : NaiveMonteCarlo K,
      MonteCarloIntegration naiveMonteCarlo func params bounds =
        naiveMonteCarlo (integrand func params) bounds := by
  intro params
  have hnd : params.Nodup := Finset.sort_nodup _ _
  have hparams : params.length = func.getSymbols.card := Finset.length_sort _
  have hsymbols : func.getSymbols ⊆ params.toFinset := by rw [Finset.sort_toFinset]
  have hcalls : ∀ g i, Calls params (func, 0) (g, i) ↔
      ∃ ts : List K, ts.length = i ∧ i < params.length ∧ g = substituted func params ts :=
    fun _ _ => calls_iff (by rwa [hparams])
  have hclosed : ∀ ts : List K, ts.length = params.length →
      (substituted func params ts).getSymbols = ∅ := by
    intro ts hts
    have := getSymbols_substituted hnd hsymbols ts
    rwa [hts, List.drop_length, List.toFinset_nil, Finset.subset_empty] at this
  refine ⟨hcalls, fun g i hcall => ?_, fun ts hts => ?_, integrand_eq_eval hsymbols,
    GaussKronrodIntegration_eq_integrand integrate hpos hlen, fun _ => rfl⟩
  · obtain ⟨ts, rfl, hlt, rfl⟩ := (hcalls g i).mp hcall
    refine ⟨hlt, by omega, getSymbols_substituted hnd hsymbols ts, fun hlast x t hx => ?_⟩
    rw [← symbolic_subs, ← substituted_concat func hx]
    exact hclosed (ts ++ [t]) (by rw [List.length_append, List.length_singleton, hlast])
  · refine ⟨hclosed ts hts, by rw [← substituted_eq_subs func hnd, hclosed ts hts], ?_⟩
    rw [substituted_eq_subs func hnd, integrand]

theorem integrators_agree_productCost :
    let params := productCost.getSymbols.sort (· ≤ ·)
    (∀ g i, Calls params (productCost, 0) (g, i) ↔
      ∃ ts : List ℚ, ts.length = i ∧ i < params.length ∧ g = substituted productCost params ts) ∧
    (∀ g i, Calls params (productCost, 0) (g, i) → i < params.length ∧ i < [(0, 1), (2, 3)].length ∧
      g.getSymbols ⊆ (params.drop i).toFinset ∧
      (i + 1 = params.length → ∀ x (t : ℚ), params[i]? = some x →
        (g.subs (Finmap.singleton x t)).getSymbols = ∅)) ∧
    (∀ ts : List ℚ, ts.length = params.length →
      (substituted productCost params ts).getSymbols = ∅ ∧
      (productCost.subs (subsMap params ts)).getSymbols = ∅ ∧
      (substituted productCost params ts).toDouble = integrand productCost params ts) ∧
    (∀ ρ : Text → ℚ, integrand productCost params (params.map ρ) = productCost.eval ρ) ∧
    GaussKronrodIntegration (fun f lo _ => f lo) productCost params [(0, 1), (2, 3)] 0 =
      iterate (fun f lo _ => f lo) [(0, 1), (2, 3)] (integrand productCost params) ∧
    ∀ naiveMonteCarlo : NaiveMonteCarlo ℚ,
      MonteCarloIntegration naiveMonteCarlo productCost params [(0, 1), (2, 3)] =
        naiveMonteCarlo (integrand productCost params) [(0, 1), (2, 3)] :=
  integrators_agree (fun f lo _ => f lo) productCost [(0, 1), (2, 3)] (by decide) (by decide)

end Integrand

end Gpscat.Score
