import Gpscat.Lib.IStream
import Mathlib.Data.Finmap

/-!
# The bounds of the variables

`gpscat-score` reads a lower and an upper bound for each parameter of the cost function, from the
file given with `-bounds-file` or from standard input. The two loops share the variables
`lowerBound` and `upperBound`, which start without a value.
-/

namespace Gpscat.Score

open Cpp

/-- `std::map<std::string, std::pair<int, int>>`. -/
abbrev BoundsMap := Finmap fun _ : Text => Int × Int

/-- The variables of the loops, and the messages on `std::cerr`. -/
structure BoundsState where
  variableName : Text := []
  lowerBound : Int
  upperBound : Int
  bounds : BoundsMap := ∅
  cerr : List String := []

/-- `in >> variableName`. -/
def readName (s : IStream) (st : BoundsState) : IStream × BoundsState :=
  let r := s.extractString st.variableName
  (r.1, { st with variableName := r.2 })

/-- `in >> lowerBound >> upperBound`. -/
def readBounds (s : IStream) (st : BoundsState) : IStream × BoundsState :=
  let l := s.extractInt st.lowerBound
  let u := l.1.extractInt st.upperBound
  (u.1, { st with lowerBound := l.2, upperBound := u.2 })

/-- The body of both loops after the extractions. -/
def storeBounds (paramsSet : Finset Text) (st : BoundsState) : BoundsState :=
  if st.lowerBound > st.upperBound then
    { st with cerr := st.cerr ++ ["Lowerbound is greater than upperbound!"] }
  else if st.variableName ∈ paramsSet then
    { st with bounds := st.bounds.insert st.variableName (st.lowerBound, st.upperBound) }
  else st

theorem fail_of_readBounds {s : IStream} {st : BoundsState}
    (h : ¬ (readBounds s st).1.fail = true) : s.fail = false := by
  by_contra hfail
  have hs : s.fail = true := Bool.eq_true_of_not_eq_false hfail
  apply h
  change ((s.extractInt st.lowerBound).1.extractInt st.upperBound).1.fail = true
  rw [IStream.extractInt_of_fail hs, IStream.extractInt_of_fail hs]
  exact hs

theorem readBounds_length (s : IStream) (st : BoundsState) :
    (readBounds s st).1.rest.length ≤ s.rest.length :=
  (IStream.extractInt_length _ _).trans (IStream.extractInt_length _ _)

/-- `while(boundsFile >> variableName >> lowerBound >> upperBound) { .. }`. -/
def boundsFileLoop (paramsSet : Finset Text) (boundsFile : IStream) (st : BoundsState) :
    BoundsState :=
  let r := readName boundsFile st
  let r' := readBounds r.1 r.2
  if r'.1.fail then r'.2 else boundsFileLoop paramsSet r'.1 (storeBounds paramsSet r'.2)
termination_by boundsFile.rest.length
decreasing_by
  rename_i h
  exact (readBounds_length _ _).trans_lt (IStream.extractString_length (fail_of_readBounds h))

/-- `while(std::cin >> variableName && variableName != "end") { .. }`. -/
def stdinLoop (paramsSet : Finset Text) (cin : IStream) (st : BoundsState) : BoundsState :=
  let r := readName cin st
  if r.1.fail || r.2.variableName == "end".toList then r.2
  else
    let r' := readBounds r.1 r.2
    stdinLoop paramsSet r'.1 (storeBounds paramsSet r'.2)
termination_by cin.rest.length
decreasing_by
  rename_i h
  rw [Bool.or_eq_true, not_or, Bool.not_eq_true] at h
  exact (readBounds_length _ _).trans_lt (IStream.extractString_length h.1)

/-- The bounds map when `text` is the bounds file. The two numbers are what the variables hold
before anything is stored in them. -/
def fileBounds (paramsSet : Finset Text) (text : Text) (lower upper : Int) : BoundsMap :=
  (boundsFileLoop paramsSet { rest := text }
    { lowerBound := lower, upperBound := upper }).bounds

/-- The bounds map when `text` is the rest of standard input. -/
def stdinBounds (paramsSet : Finset Text) (text : Text) (lower upper : Int) : BoundsMap :=
  (stdinLoop paramsSet { rest := text } { lowerBound := lower, upperBound := upper }).bounds

/-! ## What a text states -/

/-- A name with two numbers. -/
structure Entry where
  name : Text
  lower : Int
  upper : Int
  deriving Repr, DecidableEq

/-- The entries of a text: the complete ones, and the one at whose numbers the reading breaks off,
with what the two variables then hold. `lower` and `upper` are what they hold before. -/
def textEntries (s : IStream) (lower upper : Int) : List Entry × Option Entry :=
  let n := s.extractString []
  if n.1.fail then ([], none)
  else
    let l := n.1.extractInt lower
    let u := l.1.extractInt upper
    if u.1.fail then ([], some ⟨n.2, l.2, u.2⟩)
    else
      let r := textEntries u.1 l.2 u.2
      (⟨n.2, l.2, u.2⟩ :: r.1, r.2)
termination_by s.rest.length
decreasing_by
  rename_i hname _
  exact ((IStream.extractInt_length _ _).trans (IStream.extractInt_length _ _)).trans_lt
    (IStream.extractString_length (Bool.eq_false_iff.mpr hname))

/-- The bounds of an entry are accepted: they are in order and belong to a parameter. -/
def Entry.accepted (paramsSet : Finset Text) (e : Entry) : Bool :=
  decide (e.lower ≤ e.upper) && decide (e.name ∈ paramsSet)

/-- The name is not the one that ends standard input. -/
def Entry.notEnd (e : Entry) : Bool := e.name != "end".toList

/-- The bounds of the last accepted entry for a name. -/
def lastAccepted (paramsSet : Finset Text) (es : List Entry) (name : Text) : Option (Int × Int) :=
  ((es.filter fun e => e.accepted paramsSet && e.name == name).getLast?).map fun e =>
    (e.lower, e.upper)

/-- The complete entries before the name `end`. Both loops read these. -/
def sharedEntries (text : Text) (lower upper : Int) : List Entry :=
  (textEntries { rest := text } lower upper).1.takeWhile Entry.notEnd

/-- The entries that only one loop uses: all from the name `end` on, which standard input does not
read, or else the entry that breaks off, which the file loop drops. -/
def unsharedEntries (text : Text) (lower upper : Int) : List Entry :=
  let r := textEntries { rest := text } lower upper
  match r.1.dropWhile Entry.notEnd with
  | [] => r.2.toList.filter Entry.notEnd
  | e :: es => e :: es

/-- Both ways of giving a text as bounds give the same map, in which every bound is stated by a
complete entry of the text. -/
def BoundsAgree (paramsSet : Finset Text) (text : Text) (lower upper : Int) : Prop :=
  fileBounds paramsSet text lower upper = stdinBounds paramsSet text lower upper ∧
    ∀ name b, (stdinBounds paramsSet text lower upper).lookup name = some b →
      ∃ e ∈ (textEntries { rest := text } lower upper).1, e.name = name ∧ (e.lower, e.upper) = b

end Gpscat.Score
