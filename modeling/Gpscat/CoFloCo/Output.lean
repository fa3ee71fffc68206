import Gpscat.Lib.CppString

/-!
# The output of CoFloCo

`CoFloCoWrapper::parseCoFloCoOutput` looks for the line of the maximum cost in the output of the
solver, and returns what stands after the colon. The output is given by the contents of the file.
-/

namespace Gpscat.CoFloCoWrapper

open Cpp

/-- The start of the line that is looked for, 16 characters. -/
def maximumCost : Text := "### Maximum cost".toList

/-- The loop over the lines of the file, and the empty string when no line is found. -/
def parseLines : List Text → Except Exception Text
  | [] => .ok []
  | line :: ls =>
    if compareHead line 16 maximumCost then substr line (posAdd (find [':'] line) 2)
    else parseLines ls

def parseCoFloCoOutput (contents : Text) : Except Exception Text := parseLines (lines contents)

/-- A complete output of the solver: some lines, the line of the maximum cost, and more text. -/
structure Report where
  leads : List Text
  head : Text
  bound : Text
  trail : Text
  leads_lines : ∀ line ∈ leads, '\n' ∉ line
  leads_other : ∀ line ∈ leads, ¬ maximumCost <+: line
  head_colon : ':' ∉ head
  head_line : '\n' ∉ head
  bound_line : '\n' ∉ bound

namespace Report

variable (r : Report)

/-- The line of the maximum cost up to the colon. -/
def header : Text := maximumCost ++ " of ".toList ++ r.head

def costLine : Text := r.header ++ ": ".toList ++ r.bound

def text : Text := unlines r.leads ++ (r.costLine ++ '\n' :: r.trail)

end Report

/-- The result is the bound, or the empty string that reports failure. -/
def NeverPartial (r : Report) (result : Except Exception Text) : Prop :=
  result = .ok r.bound ∨ result = .ok []

/-- Where a cut does no harm, counted in the line of the maximum cost: before its start is
complete, directly after the space that follows the colon, from the end of the bound on, or in the
header at a place where what `npos + 2` makes of the line happens to be the bound. -/
def HarmlessCut (r : Report) (i : Nat) : Prop :=
  i < 16 ∨ i = r.header.length + 2 ∨ r.costLine.length ≤ i ∨
    i ≤ r.header.length ∧ (r.header.take i).tail = r.bound

end Gpscat.CoFloCoWrapper
