import Gpscat.Score.Bounds

/-!
# When the two ways of giving bounds agree

Each loop stores a list of entries, one after the other. The file loop stores the complete entries of
the text; the loop over standard input stops at the name `end`, but also stores the entry at whose
numbers the reading breaks off.
-/

namespace Gpscat.Score

open Cpp

variable {paramsSet : Finset Text}

/-! ## Storing entries -/

/-- Storing one entry. -/
def addEntry (paramsSet : Finset Text) (bounds : BoundsMap) (e : Entry) : BoundsMap :=
  if e.accepted paramsSet then bounds.insert e.name (e.lower, e.upper) else bounds

theorem storeBounds_bounds (st : BoundsState) :
    (storeBounds paramsSet st).bounds =
      addEntry paramsSet st.bounds ⟨st.variableName, st.lowerBound, st.upperBound⟩ := by
  unfold storeBounds addEntry Entry.accepted
  by_cases horder : st.lowerBound > st.upperBound
  · have hle : ¬ st.lowerBound ≤ st.upperBound := not_le.mpr horder
    rw [if_pos horder, decide_eq_false hle]
    rfl
  · have hle : st.lowerBound ≤ st.upperBound := not_lt.mp horder
    rw [if_neg horder, decide_eq_true hle, Bool.true_and]
    by_cases hname : st.variableName ∈ paramsSet
    · rw [if_pos hname, if_pos (decide_eq_true hname)]
    · rw [if_neg hname, if_neg (by rw [decide_eq_true_eq]; exact hname)]

theorem storeBounds_variables (st : BoundsState) :
    (storeBounds paramsSet st).lowerBound = st.lowerBound ∧
      (storeBounds paramsSet st).upperBound = st.upperBound := by
  unfold storeBounds
  split
  · exact ⟨rfl, rfl⟩
  · split <;> exact ⟨rfl, rfl⟩

theorem lastAccepted_snoc (es : List Entry) (e : Entry) (name : Text) :
    lastAccepted paramsSet (es ++ [e]) name =
      if e.accepted paramsSet && e.name == name then some (e.lower, e.upper)
      else lastAccepted paramsSet es name := by
  unfold lastAccepted
  rw [List.filter_append, List.filter_singleton]
  by_cases h : (e.accepted paramsSet && e.name == name) = true
  · rw [if_pos h, h, cond_true, List.getLast?_concat, Option.map_some]
  · rw [if_neg h, Bool.eq_false_iff.mpr h, cond_false, List.append_nil]

/-- After some entries have been stored, a variable has the bounds of its last accepted one. -/
theorem lookup_foldl_addEntry (bounds : BoundsMap) (es : List Entry) (name : Text) :
    (es.foldl (addEntry paramsSet) bounds).lookup name =
      (lastAccepted paramsSet es name).or (bounds.lookup name) := by
  induction es using List.reverseRecOn with
  | nil => rfl
  | append_singleton es e ih =>
    rw [List.foldl_append, List.foldl_cons, List.foldl_nil, lastAccepted_snoc, addEntry]
    by_cases hacc : e.accepted paramsSet = true
    · rw [if_pos hacc, hacc, Bool.true_and]
      by_cases hname : e.name = name
      · subst hname
        rw [Finmap.lookup_insert, if_pos (beq_self_eq_true _), Option.some_or]
      · rw [Finmap.lookup_insert_of_ne _ (Ne.symm hname), if_neg (by simpa using hname), ih]
    · rw [if_neg hacc, if_neg (by simp [hacc]), ih]

/-- Entries with nothing new in them can be left out. -/
theorem foldl_addEntry_append_eq (shared unshared : List Entry) :
    (shared ++ unshared).foldl (addEntry paramsSet) ∅ = shared.foldl (addEntry paramsSet) ∅ ↔
      ∀ name b, lastAccepted paramsSet unshared name = some b →
        lastAccepted paramsSet shared name = some b := by
  constructor
  · intro heq name b hb
    have hlookup := congrArg (Finmap.lookup name) heq
    rw [List.foldl_append, lookup_foldl_addEntry, hb, Option.some_or, lookup_foldl_addEntry,
      Finmap.lookup_empty, Option.or_none] at hlookup
    exact hlookup.symm
  · intro hsame
    refine Finmap.ext_lookup fun name => ?_
    rw [List.foldl_append, lookup_foldl_addEntry]
    cases hb : lastAccepted paramsSet unshared name with
    | none => rw [Option.none_or]
    | some b =>
      rw [Option.some_or, lookup_foldl_addEntry, hsame name b hb, Option.some_or]

/-! ## What the loops store -/

theorem readName_eq {s : IStream} (st : BoundsState) (h : (s.extractString []).1.fail = false) :
    readName s st = ((s.extractString []).1, { st with variableName := (s.extractString []).2 }) := by
  obtain ⟨hstream, hname⟩ := s.extractString_old [] st.variableName
  rw [readName, ← hstream, ← hname h]

theorem readName_fail (s : IStream) (st : BoundsState) :
    (readName s st).1.fail = (s.extractString []).1.fail :=
  congrArg IStream.fail (s.extractString_old st.variableName []).1

/-- The variables after the three extractions, the first of which did not fail. -/
theorem readBounds_readName {s : IStream} (st : BoundsState)
    (h : (s.extractString []).1.fail = false) :
    readBounds (readName s st).1 (readName s st).2 =
      let n := s.extractString []
      let l := n.1.extractInt st.lowerBound
      let u := l.1.extractInt st.upperBound
      (u.1, { st with variableName := n.2, lowerBound := l.2, upperBound := u.2 }) := by
  rw [readName_eq st h]
  rfl

theorem textEntries_of_name_fail {s : IStream} (h : (s.extractString []).1.fail = true)
    (lower upper : Int) : textEntries s lower upper = ([], none) := by
  rw [textEntries]
  exact if_pos h

theorem textEntries_of_broken {s : IStream} {lower upper : Int}
    (h : (s.extractString []).1.fail = false)
    (hu : (((s.extractString []).1.extractInt lower).1.extractInt upper).1.fail = true) :
    textEntries s lower upper = ([], some ⟨(s.extractString []).2,
      ((s.extractString []).1.extractInt lower).2,
      (((s.extractString []).1.extractInt lower).1.extractInt upper).2⟩) := by
  rw [textEntries]
  exact (if_neg (Bool.eq_false_iff.mp h)).trans (if_pos hu)

theorem textEntries_of_complete {s : IStream} {lower upper : Int}
    (h : (s.extractString []).1.fail = false)
    (hu : (((s.extractString []).1.extractInt lower).1.extractInt upper).1.fail = false) :
    textEntries s lower upper =
      let l := (s.extractString []).1.extractInt lower
      let u := l.1.extractInt upper
      let r := textEntries u.1 l.2 u.2
      (⟨(s.extractString []).2, l.2, u.2⟩ :: r.1, r.2) := by
  rw [textEntries]
  exact (if_neg (Bool.eq_false_iff.mp h)).trans (if_neg (Bool.eq_false_iff.mp hu))

/-- The file loop stores the complete entries. -/
theorem boundsFileLoop_bounds (s : IStream) (st : BoundsState) :
    (boundsFileLoop paramsSet s st).bounds =
      (textEntries s st.lowerBound st.upperBound).1.foldl (addEntry paramsSet) st.bounds := by
  fun_induction boundsFileLoop paramsSet s st with
  | case1 s st r r' hfail =>
    cases hname : (s.extractString []).1.fail with
    | true =>
      rw [textEntries_of_name_fail hname]
      rfl
    | false =>
      have hr' := readBounds_readName st hname
      have hu : (readBounds (readName s st).1 (readName s st).2).1.fail = true := hfail
      rw [hr'] at hu
      rw [textEntries_of_broken hname hu]
      rfl
  | case2 s st r r' hfail ih =>
    have hname : (s.extractString []).1.fail = false := by
      rw [← readName_fail s st]
      exact fail_of_readBounds hfail
    have hr' := readBounds_readName st hname
    have hu : (readBounds (readName s st).1 (readName s st).2).1.fail = false :=
      Bool.eq_false_iff.mpr hfail
    rw [hr'] at hu
    obtain ⟨hlower, hupper⟩ := @storeBounds_variables paramsSet r'.2
    rw [ih, hlower, hupper, storeBounds_bounds, textEntries_of_complete hname hu, List.foldl_cons]
    have hr : r' = readBounds (readName s st).1 (readName s st).2 := rfl
    rw [hr, hr']

/-- All entries of a text, the one that breaks off included. -/
def allEntries (s : IStream) (lower upper : Int) : List Entry :=
  (textEntries s lower upper).1 ++ (textEntries s lower upper).2.toList

theorem allEntries_of_name_fail {s : IStream} (h : (s.extractString []).1.fail = true)
    (lower upper : Int) : allEntries s lower upper = [] := by
  rw [allEntries, textEntries_of_name_fail h]
  rfl

/-- Whether or not the entry breaks off, the rest of the entries are those of the stream behind
it. -/
theorem allEntries_of_name {s : IStream} (h : (s.extractString []).1.fail = false)
    (lower upper : Int) :
    allEntries s lower upper =
      let l := (s.extractString []).1.extractInt lower
      let u := l.1.extractInt upper
      ⟨(s.extractString []).2, l.2, u.2⟩ :: allEntries u.1 l.2 u.2 := by
  cases hu : (((s.extractString []).1.extractInt lower).1.extractInt upper).1.fail with
  | true =>
    have hrest := IStream.extractString_of_fail hu []
    rw [allEntries, textEntries_of_broken h hu]
    dsimp only
    rw [allEntries_of_name_fail (by rw [hrest]; exact hu)]
    rfl
  | false =>
    rw [allEntries, textEntries_of_complete h hu]
    rfl

/-- The loop over standard input stores all entries before the name `end`. -/
theorem stdinLoop_bounds (s : IStream) (st : BoundsState) :
    (stdinLoop paramsSet s st).bounds =
      ((allEntries s st.lowerBound st.upperBound).takeWhile Entry.notEnd).foldl
        (addEntry paramsSet) st.bounds := by
  fun_induction stdinLoop paramsSet s st with
  | case1 s st r hstop =>
    cases hname : (s.extractString []).1.fail with
    | true =>
      rw [allEntries_of_name_fail hname]
      rfl
    | false =>
      have hr : r = readName s st := rfl
      rw [hr, readName_eq st hname, Bool.or_eq_true] at hstop
      have hend := hstop.resolve_left (Bool.eq_false_iff.mp hname)
      rw [allEntries_of_name hname, List.takeWhile_cons_of_neg]
      · rfl
      · rw [Entry.notEnd, bne, hend]
        exact Bool.false_ne_true
  | case2 s st r hstop r' ih =>
    rw [Bool.or_eq_true, not_or] at hstop
    have hname : (s.extractString []).1.fail = false := by
      rw [← readName_fail s st]
      exact Bool.eq_false_iff.mpr hstop.1
    have hr' : r' = _ := readBounds_readName st hname
    have hne : ((s.extractString []).2 != "end".toList) = true := by
      have hr : r = readName s st := rfl
      rw [bne, Bool.not_eq_true', ← Bool.not_eq_true]
      rw [hr, readName_eq st hname] at hstop
      exact hstop.2
    have htake : ∀ l u es, List.takeWhile Entry.notEnd (⟨(s.extractString []).2, l, u⟩ :: es) =
        ⟨(s.extractString []).2, l, u⟩ :: es.takeWhile Entry.notEnd := fun _ _ _ =>
      List.takeWhile_cons_of_pos hne
    obtain ⟨hlower, hupper⟩ := @storeBounds_variables paramsSet r'.2
    rw [ih, hlower, hupper, storeBounds_bounds, allEntries_of_name hname,
      htake, List.foldl_cons, hr']

/-! ## Agreement -/

variable (paramsSet) (text : Text) (lower upper : Int)

theorem fileBounds_eq : fileBounds paramsSet text lower upper =
    (textEntries { rest := text } lower upper).1.foldl (addEntry paramsSet) ∅ :=
  boundsFileLoop_bounds _ _

theorem stdinBounds_eq : stdinBounds paramsSet text lower upper =
    ((allEntries { rest := text } lower upper).takeWhile Entry.notEnd).foldl
      (addEntry paramsSet) ∅ :=
  stdinLoop_bounds _ _

/-- One of the two maps is made of the shared entries, the other of all. -/
theorem bounds_shared :
    (fileBounds paramsSet text lower upper =
        (sharedEntries text lower upper).foldl (addEntry paramsSet) ∅ ∧
      stdinBounds paramsSet text lower upper =
        (sharedEntries text lower upper ++ unsharedEntries text lower upper).foldl
          (addEntry paramsSet) ∅) ∨
    (stdinBounds paramsSet text lower upper =
        (sharedEntries text lower upper).foldl (addEntry paramsSet) ∅ ∧
      fileBounds paramsSet text lower upper =
        (sharedEntries text lower upper ++ unsharedEntries text lower upper).foldl
          (addEntry paramsSet) ∅) := by
  rw [fileBounds_eq, stdinBounds_eq, allEntries, sharedEntries, unsharedEntries]
  generalize textEntries { rest := text } lower upper = r
  obtain ⟨complete, broken⟩ := r
  dsimp only
  have hsplit := List.takeWhile_append_dropWhile (p := Entry.notEnd) (l := complete)
  cases hdrop : complete.dropWhile Entry.notEnd with
  | nil =>
    left
    rw [hdrop, List.append_nil] at hsplit
    have hbroken : broken.toList.takeWhile Entry.notEnd = broken.toList.filter Entry.notEnd := by
      cases broken with
      | none => rfl
      | some e =>
        rw [Option.toList_some, List.filter_singleton, List.takeWhile_cons, List.takeWhile_nil]
        cases e.notEnd <;> rfl
    rw [List.takeWhile_append, if_pos (by rw [hsplit]), hsplit, hbroken]
    exact ⟨rfl, rfl⟩
  | cons e es =>
    right
    rw [hdrop] at hsplit
    have hlen : (complete.takeWhile Entry.notEnd).length ≠ complete.length := by
      intro heq
      have hsum := congrArg List.length hsplit
      rw [List.length_append, List.length_cons] at hsum
      omega
    rw [List.takeWhile_append, if_neg hlen, hsplit]
    exact ⟨rfl, rfl⟩

/-- The bounds of the file map are those of complete entries. -/
theorem stated_of_fileBounds {name : Text} {b : Int × Int}
    (h : (fileBounds paramsSet text lower upper).lookup name = some b) :
    ∃ e ∈ (textEntries { rest := text } lower upper).1, e.name = name ∧ (e.lower, e.upper) = b := by
  rw [fileBounds_eq, lookup_foldl_addEntry, Finmap.lookup_empty, Option.or_none, lastAccepted,
    Option.map_eq_some_iff] at h
  obtain ⟨e, he, hb⟩ := h
  obtain ⟨hmem, hacc⟩ := List.mem_filter.mp (List.mem_of_getLast? he)
  rw [Bool.and_eq_true, beq_iff_eq] at hacc
  exact ⟨e, hmem, hacc.2, hb⟩

/-- The two ways of giving bounds agree on a text if and only if each variable that an unshared entry
gives accepted bounds has the same ones by the shared entries. -/
theorem boundsAgree_iff (paramsSet : Finset Text) (text : Text) (lower upper : Int) :
    BoundsAgree paramsSet text lower upper ↔
      ∀ name b, lastAccepted paramsSet (unsharedEntries text lower upper) name = some b →
        lastAccepted paramsSet (sharedEntries text lower upper) name = some b := by
  rw [← foldl_addEntry_append_eq]
  constructor
  · rintro ⟨hmaps, -⟩
    rcases bounds_shared paramsSet text lower upper with ⟨hfile, hstdin⟩ | ⟨hstdin, hfile⟩
    · rw [← hfile, ← hstdin, hmaps]
    · rw [← hfile, ← hstdin, hmaps]
  · intro hsame
    have hmaps : fileBounds paramsSet text lower upper = stdinBounds paramsSet text lower upper := by
      rcases bounds_shared paramsSet text lower upper with ⟨hfile, hstdin⟩ | ⟨hstdin, hfile⟩
      · rw [hfile, hstdin, hsame]
      · rw [hfile, hstdin, hsame]
    refine ⟨hmaps, fun name b hb => ?_⟩
    rw [← hmaps] at hb
    exact stated_of_fileBounds paramsSet text lower upper hb

/-- The text `x 1 5 y`. -/
def cutBounds : Text := "x 1 5 y".toList

theorem textEntries_cutBounds (lower upper : Int) :
    textEntries { rest := cutBounds } lower upper =
      ([⟨"x".toList, 1, 5⟩], some ⟨"y".toList, 1, 5⟩) := by
  have hbroken : textEntries { rest := " y".toList } 1 5 = ([], some ⟨"y".toList, 1, 5⟩) :=
    textEntries_of_broken rfl rfl
  have hcomplete : textEntries { rest := cutBounds } lower upper =
      (⟨"x".toList, 1, 5⟩ :: (textEntries { rest := " y".toList } 1 5).1,
        (textEntries { rest := " y".toList } 1 5).2) :=
    textEntries_of_complete rfl rfl
  rw [hcomplete, hbroken]

/-- On standard input `y` gets the bounds of `x`, which the text does not state for it. -/
theorem cutBounds_not_agree : ¬ BoundsAgree {"x".toList, "y".toList} cutBounds 0 0 := by
  rintro ⟨-, hstated⟩
  have hy : (stdinBounds {"x".toList, "y".toList} cutBounds 0 0).lookup "y".toList =
      some (1, 5) := by
    rw [stdinBounds_eq, allEntries, textEntries_cutBounds]
    rfl
  obtain ⟨e, he, hname, -⟩ := hstated _ _ hy
  rw [textEntries_cutBounds] at he
  obtain rfl := List.mem_singleton.mp he
  exact absurd hname (by decide)

end Gpscat.Score
