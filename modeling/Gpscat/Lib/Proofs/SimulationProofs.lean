import Gpscat.Lib.Simulation

/-!
# Simulation of whole runs

The step conditions lifted to runs, and a rule for what a run accumulates.
-/

namespace Simulation

variable {σ τ ℓ κ : Type*} {stepA : σ → ℓ → σ → Prop} {stepB : τ → κ → τ → Prop} {abs : τ → σ}
  {hide : κ → Option ℓ} {Inv : τ → Prop}

theorem Run.append {s t u : σ} {r₁ r₂ : List (ℓ × σ)} (h₁ : Run stepA s r₁ t)
    (h₂ : Run stepA t r₂ u) : Run stepA s (r₁ ++ r₂) u := by
  induction h₁ with
  | nil _ => exact h₂
  | cons h _ ih => exact .cons h (ih h₂)

@[simp] theorem seen_append (r₁ r₂ : List (κ × τ)) :
    seen abs hide (r₁ ++ r₂) = seen abs hide r₁ ++ seen abs hide r₂ :=
  List.filterMap_append

theorem seen_cons_some {l : κ} {l' : ℓ} (h : hide l = some l') (t : τ) (r : List (κ × τ)) :
    seen abs hide ((l, t) :: r) = (l', abs t) :: seen abs hide r := by
  simp [seen, h]

theorem seen_cons_none {l : κ} (h : hide l = none) (t : τ) (r : List (κ × τ)) :
    seen abs hide ((l, t) :: r) = seen abs hide r := by
  simp [seen, h]

/-- What is seen of a run is a run. -/
theorem Forward.run (hsim : Forward stepA stepB abs hide Inv) {s t : τ} {r : List (κ × τ)}
    (hs : Inv s) (hr : Run stepB s r t) :
    Run stepA (abs s) (seen abs hide r) (abs t) ∧ Inv t := by
  induction hr with
  | nil s => exact ⟨.nil _, hs⟩
  | @cons s s₁ t l r h _ ih =>
    obtain ⟨hs₁, hstep⟩ := hsim s l s₁ hs h
    obtain ⟨hrun, ht⟩ := ih hs₁
    cases hl : hide l with
    | some l' =>
      rw [hl] at hstep
      rw [seen_cons_some hl]
      exact ⟨.cons hstep hrun, ht⟩
    | none =>
      rw [hl] at hstep
      rw [seen_cons_none hl]
      exact ⟨hstep ▸ hrun, ht⟩

/-- Every run is what is seen of some run. -/
theorem Backward.run (hsim : Backward stepA stepB abs hide Inv) {s : τ} {t : σ}
    {r : List (ℓ × σ)} (hs : Inv s) (hr : Run stepA (abs s) r t) :
    ∃ r' t', Run stepB s r' t' ∧ seen abs hide r' = r ∧ abs t' = t ∧ Inv t' := by
  generalize ha : abs s = a at hr
  induction hr generalizing s with
  | nil a => exact ⟨[], s, .nil s, rfl, ha, hs⟩
  | @cons a a₁ t l r h _ ih =>
    subst ha
    obtain ⟨k, s₁, r₁, s₂, hstep, hk, hhidden, hseen, habs, habs', hs₂⟩ := hsim s l a₁ hs h
    obtain ⟨r₂, t', hrun, hr₂, ht', hinv⟩ := ih hs₂ habs'
    refine ⟨(k, s₁) :: (r₁ ++ r₂), t', .cons hstep (hhidden.append hrun), ?_, ht', hinv⟩
    rw [seen_cons_some hk, seen_append, hseen, hr₂, habs, List.nil_append]

/-- Two ways of adding up along a run: when at every step they differ by the change of what is
pending, the totals differ by what is pending at the two ends. -/
theorem Run.sum_eq (f g : ℓ × σ → ℤ) (pending : σ → ℤ) (Inv : σ → Prop)
    (hstep : ∀ s l t, Inv s → stepA s l t → Inv t ∧ g (l, t) + pending s = f (l, t) + pending t)
    {s t : σ} {r : List (ℓ × σ)} (hs : Inv s) (hr : Run stepA s r t) :
    (r.map g).sum + pending s = (r.map f).sum + pending t := by
  induction hr with
  | nil s => simp
  | @cons s s₁ t l r h _ ih =>
    obtain ⟨hs₁, hsum⟩ := hstep s l s₁ hs h
    have := ih hs₁
    simp only [List.map_cons, List.sum_cons]
    omega

/-- What every step keeps holds at the end of a run. -/
theorem Run.invariant {Inv : σ → Prop} (hstep : ∀ s l t, Inv s → stepA s l t → Inv t) {s t : σ}
    {r : List (ℓ × σ)} (hs : Inv s) (hr : Run stepA s r t) : Inv t := by
  induction hr with
  | nil _ => exact hs
  | cons h _ ih => exact ih (hstep _ _ _ hs h)

/-- A run is no longer than a measure that every step lowers, up to what a step may add to it. -/
theorem Run.length_add_le {Inv : σ → Prop} (measure : σ → ℕ) (cost : ℓ → ℕ)
    (hstep : ∀ s l t, Inv s → stepA s l t → Inv t ∧ measure t + 1 ≤ measure s + cost l) {s t : σ}
    {r : List (ℓ × σ)} (hs : Inv s) (hr : Run stepA s r t) :
    r.length + measure t ≤ measure s + (r.map fun x => cost x.1).sum := by
  induction hr with
  | nil s => simp
  | @cons s s₁ t l r h _ ih =>
    obtain ⟨hs₁, hle⟩ := hstep s l s₁ hs h
    have := ih hs₁
    simp only [List.length_cons, List.map_cons, List.sum_cons]
    omega

end Simulation
