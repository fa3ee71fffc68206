import Gpscat.Lib.Brackets
import Gpscat.Lib.CppString
import Mathlib.Logic.Relation

/-!
# Rewriting of `nat`

`CoFloCoWrapper::replaceNatWithMax` rewrites `nat(x)` to `max([x,0])` on the text of a cost bound.

The counter of `findClosingParenthesis` is an integer here. In the source it is a `std::size_t`,
which agrees with the integer as long as the counter never falls below 0.
-/

namespace Gpscat.CoFloCoWrapper

open Cpp

/-- The text both functions look for. -/
def natOpen : Text := "nat(".toList

/-! ## `findClosingParenthesis` -/

/-- The counter after one character. -/
def countParenthesis (numLeftParenthesis : Int) (c : Char) : Int :=
  numLeftParenthesis + (if c = '(' then 1 else 0) - (if c = ')' then 1 else 0)

/-- The loop, over the characters of `exp` from `pos` on. -/
def closingLoop (numLeftParenthesis : Int) (pos : Nat) : Text → Option Nat
  | [] => none
  | c :: s =>
    let numLeftParenthesis := countParenthesis numLeftParenthesis c
    if numLeftParenthesis = 0 then some pos else closingLoop numLeftParenthesis (pos + 1) s

def findClosingParenthesis (exp : Text) (beginPos : Nat) : Option Nat :=
  closingLoop 0 beginPos (exp.drop beginPos)

/-- The values the counter takes in the loop. -/
def counterValues (numLeftParenthesis : Int) : Text → List Int
  | [] => []
  | c :: s =>
    let numLeftParenthesis := countParenthesis numLeftParenthesis c
    numLeftParenthesis ::
      if numLeftParenthesis = 0 then [] else counterValues numLeftParenthesis s

/-! ## `replaceNatWithMax` -/

/-- `exp.substr(pos + 4, closingPos - pos - 4)`. For `npos` the difference exceeds the length. -/
def natBody (exp : Text) (pos : Nat) (closingPos : Option Nat) : Text :=
  match closingPos with
  | some closingPos => (exp.drop (pos + 4)).take (closingPos - pos - 4)
  | none => exp.drop (pos + 4)

/-- `exp.substr(closingPos + 1)`. For `npos` this is all of `exp`. -/
def natTail (exp : Text) (closingPos : Option Nat) : Text :=
  exp.drop (posAdd closingPos 1)

theorem ne_nil_of_find {exp : Text} {pos : Nat} (h : find natOpen exp = some pos) : exp ≠ [] := by
  rintro rfl
  simp [find, natOpen] at h

/-- `replaceNatWithMax`, compiled with assertions: `none` when one fails. -/
def replaceNatWithMax (exp : Text) : Option Text :=
  match hpos : find natOpen exp with
  | none => some exp
  | some pos =>
    match findClosingParenthesis exp (pos + 3) with
    | none => none
    | some closingPos => do
      let body ← replaceNatWithMax (natBody exp pos (some closingPos))
      let tail ← replaceNatWithMax (natTail exp (some closingPos))
      some (exp.take pos ++ "max([".toList ++ body ++ ",0])".toList ++ tail)
termination_by exp.length
decreasing_by
  all_goals
    have := List.length_pos_iff.mpr (ne_nil_of_find hpos)
    simp only [natBody, natTail, posAdd, List.length_take, List.length_drop]
    omega

/-! ## Compiled without assertions -/

/-- The recursive calls of a call when `assert` is compiled out. -/
inductive RecursiveCall (exp : Text) : Text → Prop where
  | body {pos : Nat} (h : find natOpen exp = some pos) :
    RecursiveCall exp (natBody exp pos (findClosingParenthesis exp (pos + 3)))
  | tail {pos : Nat} (h : find natOpen exp = some pos) :
    RecursiveCall exp (natTail exp (findClosingParenthesis exp (pos + 3)))

/-- The call makes no infinite descent into recursive calls. -/
def Terminates (exp : Text) : Prop := Acc (fun callee caller => RecursiveCall caller callee) exp

/-- The calls that a call makes in the end, itself included. -/
def Calls : Text → Text → Prop := Relation.ReflTransGen RecursiveCall

/-- `assert(closingPos != std::string::npos)` in one call. -/
def AssertionHolds (exp : Text) : Prop :=
  ∀ pos, find natOpen exp = some pos → findClosingParenthesis exp (pos + 3) ≠ none

/-! ## What it is for -/

/-- `nat(` stands at position `i`. -/
def NatAt (s : Text) (i : Nat) : Prop := natOpen <+: s.drop i

instance (s : Text) (i : Nat) : Decidable (NatAt s i) :=
  inferInstanceAs (Decidable (natOpen <+: s.drop i))

/-- The counting of parentheses. -/
def parenthesis (c : Char) : Int := if c = '(' then 1 else if c = ')' then -1 else 0

/-- Every `nat(` has a closing parenthesis, the parentheses being counted from its own one. -/
def AllNatMatched (s : Text) : Prop :=
  ∀ i, NatAt s i → ∃ j, Brackets.Matching parenthesis s (i + 3) j

/-- What stands in the result for the character at position `i`. -/
def replacement (s : Text) (i : Nat) : Text :=
  if NatAt s i then "max([".toList
  else if ∃ k < 3, k < i ∧ NatAt s (i - k - 1) then []
  else if ∃ k < i, NatAt s k ∧ Brackets.Matching parenthesis s (k + 3) i then ",0])".toList
  else (s.drop i).take 1

/-- The rewriting along the structure of a text: a `nat(` together with its balanced argument and
its closing parenthesis, or a character at which no `nat(` stands, and then the rest. -/
inductive Rewritten : Text → Text → Prop where
  | nil : Rewritten [] []
  | char {c : Char} {s r : Text} (hc : ¬ natOpen <+: c :: s) (hs : Rewritten s r) :
    Rewritten (c :: s) (c :: r)
  | nat {b t rb rt : Text} (hb : Brackets.Balanced parenthesis b) (hrb : Rewritten b rb)
      (hrt : Rewritten t rt) :
    Rewritten (natOpen ++ (b ++ ')' :: t)) ("max([".toList ++ (rb ++ (",0])".toList ++ rt)))

end Gpscat.CoFloCoWrapper
