import Gpscat.Lib.Brackets
import Mathlib.Data.Nat.Find

/-!
# Balanced words and matching brackets

`matching_iff` turns positions into a decomposition of the word: a bracket opened at `i` is closed
at `j` exactly when a balanced word stands between them. All later arguments are about such
decompositions.
-/

namespace Brackets

variable {α : Type*} {w : α → ℤ}

/-! ## `depth` -/

@[simp] theorem depth_nil : depth w [] = 0 := rfl

@[simp] theorem depth_cons (a : α) (l : List α) : depth w (a :: l) = w a + depth w l := by
  simp [depth]

@[simp] theorem depth_append (l₁ l₂ : List α) :
    depth w (l₁ ++ l₂) = depth w l₁ + depth w l₂ := by
  simp [depth]

/-! ## Balanced words -/

theorem balanced_nil : Balanced w [] where
  depth_eq := rfl
  nonneg n := by rw [List.take_nil]; exact le_refl 0

theorem Balanced.append {l₁ l₂ : List α} (h₁ : Balanced w l₁) (h₂ : Balanced w l₂) :
    Balanced w (l₁ ++ l₂) where
  depth_eq := by rw [depth_append, h₁.depth_eq, h₂.depth_eq, add_zero]
  nonneg n := by
    rw [List.take_append, depth_append]
    exact add_nonneg (h₁.nonneg n) (h₂.nonneg _)

theorem balanced_of_forall {l : List α} (h : ∀ a ∈ l, w a = 0) : Balanced w l := by
  have hzero : ∀ l' : List α, l' ⊆ l → depth w l' = 0 := by
    intro l' hl'
    refine List.sum_eq_zero fun x hx => ?_
    obtain ⟨a, ha, rfl⟩ := List.mem_map.mp hx
    exact h a (hl' ha)
  exact ⟨hzero l (List.Subset.refl l), fun n => (hzero _ (List.take_subset n l)).ge⟩

theorem Balanced.wrap {b : List α} (h : Balanced w b) {o c : α} (ho : w o = 1) (hc : w c = -1) :
    Balanced w (o :: (b ++ [c])) where
  depth_eq := by simp [ho, hc, h.depth_eq]
  nonneg n := by
    cases n with
    | zero => exact le_refl 0
    | succ n =>
      have hb := h.nonneg n
      rw [List.take_succ_cons, List.take_append, depth_cons, depth_append, ho]
      -- The closing bracket costs at most the 1 of the opening one.
      have hlast : -1 ≤ depth w ([c].take (n - b.length)) := by
        cases n - b.length with
        | zero => simp
        | succ m => simp [hc]
      omega

/-! ## Matching brackets -/

theorem matching_of_balanced {l b t : List α} {i : ℕ} {o c : α} (ho : w o = 1) (hc : w c = -1)
    (hb : Balanced w b) (hl : l.drop i = o :: (b ++ c :: t)) :
    Matching w l i (i + 1 + b.length) := by
  have hlen : l.length = i + (b.length + t.length + 2) := by
    have := congrArg List.length hl
    simp only [List.length_drop, List.length_cons, List.length_append] at this
    omega
  refine ⟨by omega, by omega, ?_, fun k hk hik => ?_⟩
  · rw [hl, show i + 1 + b.length + 1 - i = (b.length + 1) + 1 by omega, List.take_succ_cons,
      List.take_append, List.take_of_length_le (by omega),
      show b.length + 1 - b.length = 0 + 1 by omega, List.take_succ_cons]
    simp [ho, hc, hb.depth_eq]
  · rw [hl, show k + 1 - i = (k - i) + 1 by omega, List.take_succ_cons,
      List.take_append_of_le_length (by omega), depth_cons, ho]
    have := hb.nonneg (k - i)
    omega

/-- A word whose depth stays positive up to a bracket that takes it to 0. -/
theorem balanced_of_take {l : List α} {n : ℕ} (hw : ∀ a, -1 ≤ w a) {o : α} (ho : w o = 1)
    (hn : n < l.length) (hzero : depth w ((o :: l).take (n + 2)) = 0)
    (hpos : ∀ k ≤ n, 0 < depth w ((o :: l).take (k + 1))) :
    ∃ b c t, l = b ++ c :: t ∧ b.length = n ∧ w c = -1 ∧ Balanced w b := by
  have hsplit : l = l.take n ++ l[n] :: l.drop (n + 1) := by
    rw [List.getElem_cons_drop, List.take_append_drop]
  have hbefore : ∀ k ≤ n, 0 ≤ depth w (l.take k) := by
    intro k hk
    have := hpos k hk
    rw [List.take_succ_cons, depth_cons, ho] at this
    omega
  rw [List.take_succ_cons, depth_cons, ho, List.take_succ_eq_append_getElem hn, depth_append,
    depth_cons, depth_nil] at hzero
  have hlast := hw l[n]
  have hnonneg := hbefore n le_rfl
  refine ⟨l.take n, l[n], l.drop (n + 1), hsplit, ?_, ?_, ?_, fun m => ?_⟩
  · exact List.length_take_of_le hn.le
  · omega
  · omega
  · rw [List.take_take]
    exact hbefore _ (min_le_right m n)

theorem matching_iff (hw : ∀ a, -1 ≤ w a) {l r : List α} {i j : ℕ} {o : α} (ho : w o = 1)
    (hl : l.drop i = o :: r) :
    Matching w l i j ↔
      ∃ b c t, r = b ++ c :: t ∧ w c = -1 ∧ Balanced w b ∧ j = i + 1 + b.length := by
  constructor
  · rintro ⟨hij, hjl, hzero, hpos⟩
    have hlen := congrArg List.length hl
    simp only [List.length_drop, List.length_cons] at hlen
    rw [hl, show j + 1 - i = (j - i - 1) + 2 by omega] at hzero
    obtain ⟨b, c, t, rfl, hbn, hc, hb⟩ := balanced_of_take (n := j - i - 1) hw ho (by omega) hzero
      (fun k hk => by
        have := hpos (i + k) (by omega) (by omega)
        rwa [hl, show i + k + 1 - i = k + 1 by omega] at this)
    exact ⟨b, c, t, rfl, hc, hb, by omega⟩
  · rintro ⟨b, c, t, rfl, hc, hb, rfl⟩
    exact matching_of_balanced ho hc hb hl

/-- In a balanced word, every opening bracket has its closing one. -/
theorem Balanced.exists_matching (hw : ∀ a, -1 ≤ w a) {l r : List α} {i : ℕ} {o : α}
    (h : Balanced w l) (ho : w o = 1) (hl : l.drop i = o :: r) : ∃ j, Matching w l i j := by
  have hrest : depth w (l.drop i) ≤ 0 := by
    have hsum := depth_append (w := w) (l.take i) (l.drop i)
    rw [List.take_append_drop, h.depth_eq] at hsum
    have := h.nonneg i
    omega
  have hex : ∃ n, depth w ((l.drop i).take (n + 1)) ≤ 0 :=
    ⟨(l.drop i).length, by rw [List.take_of_length_le (Nat.le_succ _)]; exact hrest⟩
  -- The depth first comes down to 0 at the closing bracket.
  let n := Nat.find hex
  have hfirst : ∀ k < n, 0 < depth w ((l.drop i).take (k + 1)) := fun k hk =>
    not_le.mp (Nat.find_min hex hk)
  have hpos : n ≠ 0 := by
    intro hn
    have hle : depth w ((l.drop i).take (n + 1)) ≤ 0 := Nat.find_spec hex
    rw [hn, hl, List.take_succ_cons, List.take_zero, depth_cons, depth_nil, ho] at hle
    exact absurd hle (by decide)
  have hbefore : 0 < depth w ((l.drop i).take n) := by
    have := hfirst (n - 1) (by omega)
    rwa [Nat.sub_add_cancel (by omega)] at this
  have hle : depth w ((l.drop i).take (n + 1)) ≤ 0 := Nat.find_spec hex
  have hlt : n < (l.drop i).length := by
    by_contra hge
    rw [List.take_of_length_le (by omega)] at hle hbefore
    omega
  have hzero : depth w ((l.drop i).take (n + 1)) = 0 := by
    rw [List.take_succ_eq_append_getElem hlt, depth_append, depth_cons, depth_nil] at hle ⊢
    have := hw (l.drop i)[n]
    omega
  rw [List.length_drop] at hlt
  refine ⟨i + n, by omega, by omega, ?_, fun k hk hik => ?_⟩
  · rwa [show i + n + 1 - i = n + 1 by omega]
  · have := hfirst (k - i) (by omega)
    rwa [show k - i + 1 = k + 1 - i by omega] at this

/-! ## Matching brackets in parts of a word -/

theorem Matching.unique {l : List α} {i j j' : ℕ} (h : Matching w l i j) (h' : Matching w l i j') :
    j = j' := by
  obtain ⟨hij, -, hzero, hpos⟩ := h
  obtain ⟨hij', -, hzero', hpos'⟩ := h'
  rcases Nat.lt_trichotomy j j' with hlt | heq | hlt
  · exact absurd hzero (hpos' j hlt hij.le).ne'
  · exact heq
  · exact absurd hzero' (hpos j' hlt hij'.le).ne'

theorem matching_append_left {l l' : List α} {i j : ℕ} (hj : j < l.length) :
    Matching w (l ++ l') i j ↔ Matching w l i j := by
  have htake : ∀ k ≤ j, ((l ++ l').drop i).take (k + 1 - i) = (l.drop i).take (k + 1 - i) := by
    intro k hk
    rw [List.drop_append, List.take_append_of_le_length]
    rw [List.length_drop]
    omega
  unfold Matching
  rw [htake j le_rfl]
  constructor
  · rintro ⟨hij, -, hzero, hpos⟩
    exact ⟨hij, hj, hzero, fun k hk hik => by rw [← htake k hk.le]; exact hpos k hk hik⟩
  · rintro ⟨hij, -, hzero, hpos⟩
    refine ⟨hij, ?_, hzero, fun k hk hik => by rw [htake k hk.le]; exact hpos k hk hik⟩
    rw [List.length_append]
    omega

theorem matching_append_right {l l' : List α} {i j : ℕ} :
    Matching w (l ++ l') (l.length + i) (l.length + j) ↔ Matching w l' i j := by
  have hdrop : (l ++ l').drop (l.length + i) = l'.drop i := by simp
  unfold Matching
  rw [hdrop, List.length_append, show l.length + j + 1 - (l.length + i) = j + 1 - i by omega]
  constructor
  · rintro ⟨hij, hjl, hzero, hpos⟩
    refine ⟨by omega, by omega, hzero, fun k hk hik => ?_⟩
    have := hpos (l.length + k) (by omega) (by omega)
    rwa [show l.length + k + 1 - (l.length + i) = k + 1 - i by omega] at this
  · rintro ⟨hij, hjl, hzero, hpos⟩
    refine ⟨by omega, by omega, hzero, fun k hk hik => ?_⟩
    have := hpos (k - l.length) (by omega) (by omega)
    rwa [show k - l.length + 1 - i = k + 1 - (l.length + i) by omega] at this

end Brackets
