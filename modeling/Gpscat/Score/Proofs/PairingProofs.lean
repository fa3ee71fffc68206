import Gpscat.Score.Pairing
import Gpscat.Lib.Proofs.IStreamProofs
import Gpscat.Score.Proofs.BoundsProofs
import Gpscat.Score.Proofs.IntegrandProofs
import Mathlib.Algebra.Field.Rat
import Mathlib.Data.List.TakeWhile

/-!
# The parameters get their own bounds

The names in the map are parameters, so a map of the size of the set has all of them. The set and the
map are then traversed in the same order.
-/

namespace Gpscat.Score

open Cpp

/-! ## The map in order -/

/-- The bounds of a name. -/
def boundsOf (bounds : BoundsMap) (name : Text) : Int × Int := (bounds.lookup name).getD (0, 0)

theorem lookup_of_mem_keys {bounds : BoundsMap} {name : Text} (h : name ∈ bounds.keys) :
    bounds.lookup name = some (boundsOf bounds name) := by
  obtain ⟨b, hb⟩ := Finmap.mem_iff.mp (Finmap.mem_keys.mp h)
  rw [boundsOf, hb]
  rfl

/-- The map is traversed in the order of the names. -/
theorem mapBounds_eq (bounds : BoundsMap) :
    mapBounds bounds = (bounds.keys.sort (· ≤ ·)).map (boundsOf bounds) := by
  rw [mapBounds, ← List.filterMap_eq_map]
  refine List.filterMap_congr fun name hname => ?_
  rw [Function.comp_apply]
  exact lookup_of_mem_keys ((Finset.mem_sort _).mp hname)

/-! ## What is stored -/

variable {paramsSet : Finset Text} {es : List Entry}

theorem lastOrdered_concat {e e' : Entry} :
    LastOrdered (es ++ [e']) e ↔ e = e' ∧ e'.lower ≤ e'.upper ∨
      LastOrdered es e ∧ (e'.name = e.name → ¬ e'.lower ≤ e'.upper) := by
  constructor
  · rintro ⟨hle, before, after, hsplit, hafter⟩
    rcases List.eq_nil_or_concat after with rfl | ⟨after, e'', rfl⟩
    · obtain ⟨-, heq⟩ := List.append_inj' hsplit rfl
      obtain rfl := (List.cons.inj heq).1
      exact .inl ⟨rfl, hle⟩
    · rw [List.concat_eq_append] at hsplit hafter
      rw [← List.cons_append, ← List.append_assoc] at hsplit
      obtain ⟨rfl, heq⟩ := List.append_inj' hsplit rfl
      obtain rfl := (List.cons.inj heq).1
      refine .inr ⟨⟨hle, before, after, rfl, fun x hx => ?_⟩, ?_⟩
      · exact hafter x (List.mem_append_left _ hx)
      · exact hafter e' (List.mem_append_right _ List.mem_cons_self)
  · rintro (⟨rfl, hle⟩ | ⟨⟨hle, before, after, rfl, hafter⟩, hlast⟩)
    · exact ⟨hle, es, [], rfl, fun _ hx => absurd hx List.not_mem_nil⟩
    · refine ⟨hle, before, after ++ [e'], by simp, fun x hx => ?_⟩
      rcases List.mem_append.mp hx with hx | hx
      · exact hafter x hx
      · rw [List.mem_singleton.mp hx]
        exact hlast

theorem accepted_iff {e : Entry} :
    e.accepted paramsSet = true ↔ e.lower ≤ e.upper ∧ e.name ∈ paramsSet := by
  rw [Entry.accepted, Bool.and_eq_true, decide_eq_true_eq, decide_eq_true_eq]

theorem lastAccepted_eq_some_iff {name : Text} {b : Int × Int} :
    lastAccepted paramsSet es name = some b ↔
      name ∈ paramsSet ∧ ∃ e, LastOrdered es e ∧ e.name = name ∧ b = (e.lower, e.upper) := by
  induction es using List.reverseRecOn with
  | nil =>
    constructor
    · exact fun h => absurd h (by simp [lastAccepted])
    · rintro ⟨-, e, ⟨-, before, after, hsplit, -⟩, -⟩
      exact absurd hsplit (by simp)
  | append_singleton es e' ih =>
    rw [lastAccepted_snoc]
    by_cases haccepted : (e'.accepted paramsSet && e'.name == name) = true
    · rw [if_pos haccepted]
      rw [Bool.and_eq_true, accepted_iff, beq_iff_eq] at haccepted
      obtain ⟨⟨hle, hparam⟩, rfl⟩ := haccepted
      constructor
      · intro h
        exact ⟨hparam, e', lastOrdered_concat.mpr (.inl ⟨rfl, hle⟩), rfl, (Option.some.inj h).symm⟩
      · rintro ⟨-, e, he, hname, rfl⟩
        rcases lastOrdered_concat.mp he with ⟨rfl, -⟩ | ⟨-, hlast⟩
        · rfl
        · exact absurd hle (hlast hname.symm)
    · rw [if_neg haccepted, ih]
      rw [Bool.and_eq_true, accepted_iff, beq_iff_eq] at haccepted
      refine and_congr_right fun hparam => exists_congr fun e => ?_
      constructor
      · rintro ⟨he, rfl, hb⟩
        refine ⟨lastOrdered_concat.mpr (.inr ⟨he, fun hname hle => ?_⟩), rfl, hb⟩
        exact haccepted ⟨⟨hle, hname ▸ hparam⟩, hname⟩
      · rintro ⟨he, rfl, hb⟩
        rcases lastOrdered_concat.mp he with ⟨rfl, hle⟩ | ⟨he, -⟩
        · exact absurd ⟨⟨hle, hparam⟩, rfl⟩ haccepted
        · exact ⟨he, rfl, hb⟩

/-- A stored bound is that of the last entry in order, and its name is a parameter. -/
theorem lookup_stored_iff {name : Text} {b : Int × Int} :
    (es.foldl (addEntry paramsSet) ∅).lookup name = some b ↔
      name ∈ paramsSet ∧ ∃ e, LastOrdered es e ∧ e.name = name ∧ b = (e.lower, e.upper) := by
  rw [lookup_foldl_addEntry, Finmap.lookup_empty, Option.or_none, lastAccepted_eq_some_iff]

/-- A name has bounds when an entry with bounds in order states them. -/
theorem exists_lastOrdered_iff {name : Text} :
    (∃ e, LastOrdered es e ∧ e.name = name) ↔ ∃ e ∈ es, e.name = name ∧ e.lower ≤ e.upper := by
  constructor
  · rintro ⟨e, ⟨hle, before, after, rfl, -⟩, hname⟩
    exact ⟨e, List.mem_append_right _ List.mem_cons_self, hname, hle⟩
  · rintro ⟨e, he, hname, hle⟩
    induction es using List.reverseRecOn with
    | nil => exact absurd he List.not_mem_nil
    | append_singleton es e' ih =>
      by_cases hlast : e'.name = name ∧ e'.lower ≤ e'.upper
      · exact ⟨e', lastOrdered_concat.mpr (.inl ⟨rfl, hlast.2⟩), hlast.1⟩
      · rcases List.mem_append.mp he with he | he
        · obtain ⟨e₀, h₀, hname₀⟩ := ih he
          refine ⟨e₀, lastOrdered_concat.mpr (.inr ⟨h₀, fun hsame hle' => ?_⟩), hname₀⟩
          exact hlast ⟨hsame.trans hname₀, hle'⟩
        · obtain rfl := List.mem_singleton.mp he
          exact absurd ⟨hname, hle⟩ hlast

/-! ## The size of the map -/

theorem keys_stored_subset : (es.foldl (addEntry paramsSet) ∅).keys ⊆ paramsSet := by
  intro name hname
  obtain ⟨b, hb⟩ := Finmap.mem_iff.mp (Finmap.mem_keys.mp hname)
  exact (lookup_stored_iff.mp hb).1

/-- Equal sizes force equal names. -/
theorem card_keys_stored_iff :
    (es.foldl (addEntry paramsSet) ∅).keys.card = paramsSet.card ↔
      (es.foldl (addEntry paramsSet) ∅).keys = paramsSet := by
  constructor
  · exact fun hcard => Finset.eq_of_subset_of_card_le keys_stored_subset hcard.ge
  · exact fun heq => by rw [heq]

theorem keys_stored_iff :
    (es.foldl (addEntry paramsSet) ∅).keys = paramsSet ↔
      ∀ name ∈ paramsSet, ∃ e ∈ es, e.name = name ∧ e.lower ≤ e.upper := by
  constructor
  · intro heq name hname
    obtain ⟨b, hb⟩ := Finmap.mem_iff.mp (Finmap.mem_keys.mp (heq ▸ hname))
    obtain ⟨-, e, he, hename, -⟩ := lookup_stored_iff.mp hb
    exact exists_lastOrdered_iff.mp ⟨e, he, hename⟩
  · intro hall
    refine Finset.Subset.antisymm keys_stored_subset fun name hname => ?_
    obtain ⟨e, he, hename⟩ := exists_lastOrdered_iff.mpr (hall name hname)
    exact Finmap.mem_keys.mpr (Finmap.mem_of_lookup_eq_some
      (lookup_stored_iff.mpr ⟨hname, e, he, hename, rfl⟩))

/-- Both containers are traversed in the order of the names. -/
theorem paired_stored (hkeys : (es.foldl (addEntry paramsSet) ∅).keys = paramsSet) :
    Paired paramsSet es (paramsSet.sort (· ≤ ·)) (mapBounds (es.foldl (addEntry paramsSet) ∅)) where
  nodup := Finset.sort_nodup _ _
  mem _ := Finset.mem_sort _
  length := by rw [mapBounds_eq, hkeys, List.length_map]
  same := by
    intro i param b hparam hb
    rw [mapBounds_eq, hkeys, List.getElem?_map, hparam, Option.map_some] at hb
    have hmem : param ∈ (es.foldl (addEntry paramsSet) ∅).keys := by
      rw [hkeys]
      exact (Finset.mem_sort _).mp (List.mem_of_getElem? hparam)
    have hlookup := lookup_of_mem_keys hmem
    rw [Option.some.inj hb] at hlookup
    exact (lookup_stored_iff.mp hlookup).2

/-! ## The division -/

/-- The divisions, one after the other, are one division by the product of the widths that are not
0. -/
theorem divideByWidths_eq_div {K : Type} [Field K] (bs : List (Int × Int)) (x : K) :
    divideByWidths bs x = x / (((bs.map width).filter (· ≠ 0)).map Int.cast).prod := by
  induction bs generalizing x with
  | nil => rw [divideByWidths, List.map_nil, List.filter_nil, List.map_nil, List.prod_nil, div_one]
  | cons b bs ih =>
    rw [divideByWidths, ih, List.map_cons]
    by_cases hzero : width b = 0
    · rw [if_pos hzero, List.filter_cons_of_neg (by simpa using hzero)]
    · rw [if_neg hzero, List.filter_cons_of_pos (by simpa using hzero), List.map_cons,
        List.prod_cons, div_div]

theorem printed_divide {K : Type} [Field K] (bs : List (Int × Int)) (x : K) :
    Output.printed ((Result.value x).divide bs) = meanOver bs x := by
  rw [Result.divide, divideByWidths_eq_div]
  rfl

/-- What is printed when the integral is that of `r`. -/
theorem map_printed_divide {K : Type} [Field K] (bs : List (Int × Int)) (r : Option K) :
    ((r.map Result.value).map fun result => Output.printed (result.divide bs)) =
      r.map (meanOver bs) := by
  rw [Option.map_map]
  congr 1
  funext x
  exact printed_divide bs x

/-! ## Reading entries -/

/-- What is read from a line, behind white space. -/
theorem textEntries_line {e : Entry} (he : e.WellFormed) {spaces : Text}
    (hspaces : ∀ c ∈ spaces, isSpace c = true) (s : Text) (lower upper : Int) :
    textEntries { rest := spaces ++ (e.text ++ s) } lower upper =
      let r := textEntries { rest := '\n' :: s } e.lower e.upper
      (e :: r.1, r.2) := by
  have hspace : ∀ c ∈ [' '], isSpace c = true := List.forall_mem_singleton.mpr rfl
  have htext : e.text ++ s = e.name ++ ' ' :: (IStream.intText e.lower ++ ' ' ::
      (IStream.intText e.upper ++ '\n' :: s)) := by
    simp [Entry.text]
  have hname := IStream.extractString_word hspaces he.name_ne_nil he.name_word (c := ' ') rfl
    (IStream.intText e.lower ++ ' ' :: (IStream.intText e.upper ++ '\n' :: s)) []
  have hlower := IStream.extractInt_intText hspace he.lower_int.1 he.lower_int.2 (c := ' ') rfl
    (IStream.intText e.upper ++ '\n' :: s) lower
  have hupper := IStream.extractInt_intText hspace he.upper_int.1 he.upper_int.2 (c := '\n') rfl
    s upper
  rw [List.singleton_append] at hlower hupper
  rw [htext, textEntries_of_complete (by rw [hname]) (by rw [hname, hlower, hupper]), hname, hlower]
  dsimp only
  rw [hupper]

/-- A text with an entry in each line states these entries. -/
theorem textEntries_entriesText {es : List Entry} (hes : ∀ e ∈ es, e.WellFormed) (lower upper : Int) :
    textEntries { rest := entriesText es } lower upper = (es, none) := by
  have hspaced : ∀ spaces : Text, (∀ c ∈ spaces, isSpace c = true) → ∀ lower upper,
      textEntries { rest := spaces ++ entriesText es } lower upper = (es, none) := by
    induction es with
    | nil =>
      intro spaces hspaces lower upper
      rw [entriesText, List.flatMap_nil, List.append_nil]
      exact textEntries_of_name_fail (IStream.extractString_spaces hspaces []) lower upper
    | cons e es ih =>
      intro spaces hspaces lower upper
      have hrest := ih (fun e' he' => hes e' (List.mem_cons_of_mem e he')) ['\n']
        (List.forall_mem_singleton.mpr rfl) e.lower e.upper
      rw [entriesText, List.flatMap_cons, textEntries_line (hes e List.mem_cons_self) hspaces]
      rw [List.singleton_append, entriesText] at hrest
      rw [hrest]
  exact hspaced [] (fun c hc => absurd hc List.not_mem_nil) lower upper

theorem BoundsRead.eq {bounds : BoundsMap} (h : BoundsRead paramsSet es bounds) :
    bounds = es.foldl (addEntry paramsSet) ∅ := by
  cases h with
  | file h => rw [fileBounds_eq, h]
  | stdin h hend =>
    have hall : es.takeWhile Entry.notEnd = es :=
      List.takeWhile_eq_self_iff.mpr fun e he => bne_iff_ne.mpr (hend e he)
    rw [stdinBounds_eq, allEntries, h, Option.toList_none, List.append_nil, hall]

/-- What `main` does once every parameter has bounds. -/
theorem score_of_keys {E K : Type} [Symbolic E K] [Field K] (integrate : Quadrature K)
    (monteCarlo : MonteCarlo K E) (algo : String) {func : E} {bounds : BoundsMap}
    (hkeys : bounds.keys = Symbolic.getSymbols func) :
    score integrate monteCarlo algo func bounds =
      (numericallyIntegrate integrate monteCarlo algo func
        ((Symbolic.getSymbols func).sort (· ≤ ·)) bounds).map fun result =>
          .printed (result.divide (mapBounds bounds)) := by
  unfold score
  dsimp only
  rw [hkeys, if_neg (not_not_intro rfl)]

/-- `main` gives up when not every parameter has bounds, and only then. -/
theorem score_ne_unbounded_iff {E K : Type} [Symbolic E K] [Field K] (integrate : Quadrature K)
    (monteCarlo : MonteCarlo K E) (algo : String) (func : E) (es : List Entry) :
    score integrate monteCarlo algo func (es.foldl (addEntry (Symbolic.getSymbols func)) ∅) ≠
        some .unbounded ↔
      (es.foldl (addEntry (Symbolic.getSymbols func)) ∅).keys = Symbolic.getSymbols func := by
  rw [← card_keys_stored_iff]
  unfold score
  dsimp only
  split
  · rename_i hcard
    exact iff_of_false (not_not_intro rfl) hcard
  · rename_i hcard
    refine iff_of_true (fun h => ?_) (not_not.mp hcard)
    obtain ⟨_, -, h⟩ := Option.map_eq_some_iff.mp h
    exact absurd h (by simp)

/-- **Bounds and parameters stay paired**: `main` reaches the integration exactly when each parameter
has an entry with bounds in order. Then whichever integrator is used gets the parameters and, at their
indices, the bounds that the entries state for them, so that the quadratures put their numbers, one
inside the other, for the parameters of their bounds. The result is divided by the widths of these
bounds. -/
theorem score_paired {E K : Type} [Symbolic E K] [Field K] (integrate : Quadrature K)
    (monteCarlo : MonteCarlo K E) (algo : String) (func : E) (es : List Entry) (bounds : BoundsMap)
    (hread : BoundsRead (Symbolic.getSymbols func) es bounds) :
    (score integrate monteCarlo algo func bounds ≠ some .unbounded ↔
      ∀ name ∈ Symbolic.getSymbols func, ∃ e ∈ es, e.name = name ∧ e.lower ≤ e.upper) ∧
    (score integrate monteCarlo algo func bounds ≠ some .unbounded →
      ∃ params bs, Paired (Symbolic.getSymbols func) es params bs ∧
        (params = [] →
          score integrate monteCarlo algo func bounds = (Symbolic.toDouble func).map (meanOver bs)) ∧
        (params ≠ [] → algo = "gauss_kronrod" ∨ algo = "auto" ∧ params.length ≤ 4 →
          score integrate monteCarlo algo func bounds =
              (GaussKronrodIntegration integrate func params (sides bs) 0).map (meanOver bs) ∧
            GaussKronrodIntegration integrate func params (sides bs) 0 =
              iterate integrate (sides bs) fun ts => Symbolic.toDouble (substituted func params ts)) ∧
        (params ≠ [] → algo = "monte_carlo" ∨ algo = "auto" ∧ ¬ params.length ≤ 4 →
          score integrate monteCarlo algo func bounds =
            (monteCarlo func params (sides bs)).map (meanOver bs)) ∧
        (params ≠ [] → algo ≠ "auto" → algo ≠ "monte_carlo" → algo ≠ "gauss_kronrod" →
          score integrate monteCarlo algo func bounds = some (.printed .unsupported))) := by
  obtain rfl := hread.eq
  have hreach := score_ne_unbounded_iff integrate monteCarlo algo func es
  refine ⟨hreach.trans keys_stored_iff, fun h => ?_⟩
  have hkeys := hreach.mp h
  have hpaired := paired_stored hkeys
  refine ⟨_, _, hpaired, ?_⟩
  rw [score_of_keys integrate monteCarlo algo hkeys]
  refine ⟨fun hnil => ?_, fun hne halgo => ⟨?_, ?_⟩, fun hne halgo => ?_,
    fun hne hauto hmonteCarlo hgaussKronrod => ?_⟩
  · rw [numericallyIntegrate_constant (List.length_eq_zero_iff.mpr hnil), map_printed_divide]
  · rw [numericallyIntegrate_gaussKronrod (mt List.length_eq_zero_iff.mp hne) halgo,
      map_printed_divide]
    rfl
  · obtain ⟨n, hn⟩ := Nat.exists_eq_succ_of_ne_zero (mt List.length_eq_zero_iff.mp hne)
    have hlen := hpaired.length
    rw [GaussKronrodIntegration_eq_iterate integrate (by rw [sides, List.length_map, hlen]) n func 0
      (by rw [hn, Nat.zero_add])]
    rfl
  · rw [numericallyIntegrate_monteCarlo (mt List.length_eq_zero_iff.mp hne) halgo,
      map_printed_divide]
    rfl
  · rw [numericallyIntegrate_unsupported (mt List.length_eq_zero_iff.mp hne) hauto hmonteCarlo
      hgaussKronrod]
    rfl

/-- Bounds of `x` and `y`, one of them twice and one of them first in the wrong order, and of a name
that is no parameter. -/
def sampleEntries : List Entry :=
  [⟨"y".toList, 3, 1⟩, ⟨"x".toList, 0, 2⟩, ⟨"z".toList, 5, 5⟩, ⟨"y".toList, 1, 4⟩, ⟨"x".toList, -1, 2⟩]

theorem sampleEntries_wellFormed : ∀ e ∈ sampleEntries, e.WellFormed := by
  intro e he
  simp only [sampleEntries, List.mem_cons, List.not_mem_nil, or_false] at he
  rcases he with rfl | rfl | rfl | rfl | rfl <;>
    exact ⟨by decide, List.forall_mem_singleton.mpr rfl, by decide, by decide⟩

def sampleBounds : BoundsMap := fileBounds productCost.getSymbols (entriesText sampleEntries) 0 0

theorem boundsRead_sampleBounds :
    BoundsRead productCost.getSymbols sampleEntries sampleBounds :=
  .file (textEntries_entriesText sampleEntries_wellFormed 0 0)

theorem score_paired_productCost :
    (score (fun f lo _ => f lo) (fun _ _ _ => none) "auto" productCost sampleBounds ≠
        some .unbounded ↔
      ∀ name ∈ productCost.getSymbols, ∃ e ∈ sampleEntries, e.name = name ∧ e.lower ≤ e.upper) ∧
    (score (fun f lo _ => f lo) (fun _ _ _ => none) "auto" productCost sampleBounds ≠
        some .unbounded →
      ∃ params bs, Paired productCost.getSymbols sampleEntries params bs ∧
        (params = [] → score (fun f lo _ => f lo) (fun _ _ _ => none) "auto" productCost
          sampleBounds = productCost.toDouble.map (meanOver bs)) ∧
        (params ≠ [] → "auto" = "gauss_kronrod" ∨ "auto" = "auto" ∧ params.length ≤ 4 →
          score (fun f lo _ => f lo) (fun _ _ _ => none) "auto" productCost sampleBounds =
              (GaussKronrodIntegration (fun f lo _ => f lo) productCost params (sides bs) 0).map
                (meanOver bs) ∧
            GaussKronrodIntegration (fun f lo _ => f lo) productCost params (sides bs) 0 =
              iterate (fun f lo _ => f lo) (sides bs) fun ts =>
                (substituted productCost params ts).toDouble) ∧
        (params ≠ [] → "auto" = "monte_carlo" ∨ "auto" = "auto" ∧ ¬ params.length ≤ 4 →
          score (fun f lo _ => f lo) (fun _ _ _ => none) "auto" productCost sampleBounds =
            none) ∧
        (params ≠ [] → "auto" ≠ "auto" → "auto" ≠ "monte_carlo" → "auto" ≠ "gauss_kronrod" →
          score (fun f lo _ => f lo) (fun _ _ _ => none) "auto" productCost sampleBounds =
            some (.printed .unsupported))) :=
  score_paired (fun f lo _ => f lo) (fun _ _ _ => none) "auto" productCost sampleEntries
    sampleBounds boundsRead_sampleBounds

end Gpscat.Score
