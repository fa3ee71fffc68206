import Gpscat.CoFloCo.BoundLanguage
import Gpscat.CoFloCo.NatRemoval

/-!
# Applications

The applications of functions in the text of an expression with arbitrary function names, and what
it means that only those of `nat` are rewritten.
-/

namespace Gpscat.CoFloCoWrapper

open Cpp Gpscat.Bound

def natName : Text := "nat".toList

/-- Position `i` is inside a word or at its end. -/
def behindWord (s : Text) (i : Nat) : Bool := (s.take i).getLast?.any isWordChar

/-- The whole identifier at position `i` is `name`, directly followed by a parenthesis. -/
def AppliesAt (s name : Text) (i : Nat) : Prop :=
  name ++ ['('] <+: s.drop i ∧ name ≠ [] ∧ name.all isWordChar = true ∧ behindWord s i = false

instance (s name : Text) (i : Nat) : Decidable (AppliesAt s name i) :=
  inferInstanceAs (Decidable (_ ∧ _ ∧ _ ∧ _))

/-- Every application has an argument list in parentheses. -/
def ApplicationsClosed (s : Text) : Prop :=
  ∀ name i, AppliesAt s name i → ∃ j, Brackets.Matching parenthesis s (i + name.length) j

/-- What stands for the character at position `i` when the applications of three letters that start
at the positions of `P` become applications of `max`. -/
def replacementAt (P : Nat → Prop) [DecidablePred P] (s : Text) (i : Nat) : Text :=
  if P i then "max([".toList
  else if ∃ k < 3, k < i ∧ P (i - k - 1) then []
  else if ∃ k < i, P k ∧ Brackets.Matching parenthesis s (k + 3) i then ",0])".toList
  else (s.drop i).take 1

/-- `removeNat` deletes the letters of the applications of `nat` and nothing else, and leaves no
application of `nat`. -/
structure RemovesOnlyNat (s : Text) : Prop where
  removed : removeNat s = .ok (lettersDeleted (AppliesAt s natName) s)
  none_left : ∀ r, removeNat s = .ok r → ∀ i, ¬ AppliesAt r natName i

/-- `replaceNatWithMax` rewrites the applications of `nat` and nothing else, and leaves no
application of `nat`. -/
structure ReplacesOnlyNat (s : Text) : Prop where
  replaced : replaceNatWithMax s =
    some ((List.range s.length).flatMap (replacementAt (AppliesAt s natName) s))
  none_left : ∀ r, replaceNatWithMax s = some r → ∀ i, ¬ AppliesAt r natName i

/-- No function but `nat` itself has a name that ends in `nat`. -/
def OnlyNatEndsInNat (s : Text) : Prop :=
  ∀ name i, AppliesAt s name i → natName <:+ name → name = natName

end Gpscat.CoFloCoWrapper
