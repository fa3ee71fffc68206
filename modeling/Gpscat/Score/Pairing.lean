import Gpscat.Score.Integration

/-!
# Bounds and parameters

What it means that the vectors `params` and `bounds` of `numericallyIntegrate` belong together, what is
printed for an integral over such bounds, and the texts that state the entries of a list.
-/

namespace Gpscat.Score

open Cpp

/-- A line with a name and its two bounds. -/
def Entry.text (e : Entry) : Text :=
  e.name ++ ' ' :: (IStream.intText e.lower ++ ' ' :: (IStream.intText e.upper ++ ['\n']))

/-- A text with an entry in each line. -/
def entriesText (es : List Entry) : Text := es.flatMap Entry.text

/-- A name is a word, and the bounds are of type `int`. -/
structure Entry.WellFormed (e : Entry) : Prop where
  name_ne_nil : e.name ≠ []
  name_word : ∀ c ∈ e.name, isSpace c = false
  lower_int : intMin ≤ e.lower ∧ e.lower ≤ intMax
  upper_int : intMin ≤ e.upper ∧ e.upper ≤ intMax

/-- The entry is the last one for its name with bounds in order. -/
structure LastOrdered (es : List Entry) (e : Entry) : Prop where
  ordered : e.lower ≤ e.upper
  last : ∃ before after, es = before ++ e :: after ∧
    ∀ e' ∈ after, e'.name = e.name → ¬ e'.lower ≤ e'.upper

/-- Each parameter stands once in `params`, and at its index in `bounds` are its bounds: those of its
last entry with bounds in order. -/
structure Paired (paramsSet : Finset Text) (es : List Entry) (params : List Text)
    (bounds : List (Int × Int)) : Prop where
  nodup : params.Nodup
  mem : ∀ name, name ∈ params ↔ name ∈ paramsSet
  length : bounds.length = params.length
  same : ∀ (i : Nat) param b, params[i]? = some param → bounds[i]? = some b →
    ∃ e, LastOrdered es e ∧ e.name = param ∧ b = (e.lower, e.upper)

/-- The bounds as the integrators get them. -/
def sides {K : Type} [IntCast K] (bounds : List (Int × Int)) : List (K × K) :=
  bounds.map fun b => ((b.1 : K), (b.2 : K))

/-- What is printed for the integral `x`: it is divided by the widths of the bounds, in 32 bits, that are
not 0. -/
def meanOver {K : Type} [Field K] (bounds : List (Int × Int)) (x : K) : Output K :=
  .printed (.value (x /
    (((bounds.map fun b => (b.2 - b.1).bmod (2 ^ 32)).filter (· ≠ 0)).map Int.cast).prod))

/-- The bounds that `main` reads from a text that states the entries `es`, from the file or, where no
name is `end`, from standard input. -/
inductive BoundsRead (paramsSet : Finset Text) (es : List Entry) : BoundsMap → Prop where
  | file {text : Text} {lower upper : Int}
    (h : textEntries { rest := text } lower upper = (es, none)) :
    BoundsRead paramsSet es (fileBounds paramsSet text lower upper)
  | stdin {text : Text} {lower upper : Int}
    (h : textEntries { rest := text } lower upper = (es, none))
    (hend : ∀ e ∈ es, e.name ≠ "end".toList) :
    BoundsRead paramsSet es (stdinBounds paramsSet text lower upper)

end Gpscat.Score
