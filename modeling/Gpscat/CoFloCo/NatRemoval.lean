import Gpscat.CoFloCo.NatRewriting

/-!
# Removal of `nat`

`CoFloCoWrapper::removeNat` rewrites `nat(x)` to `(x)` on the text of a cost bound.
-/

namespace Gpscat.CoFloCoWrapper

open Cpp

theorem findFrom_lt {exp : Text} {pos pos' : Nat} (h : findFrom natOpen exp pos = some pos') :
    exp.length - (pos' + 3) < exp.length - pos := by
  obtain ⟨k, hk, rfl⟩ := Option.map_eq_some_iff.mp h
  have hne := ne_nil_of_find hk
  have hlt : pos < exp.length := by
    by_contra hge
    exact hne (List.drop_of_length_le (not_lt.mp hge))
  omega

/-- The loop of `removeNat`, and what is added after it. -/
def removeNatLoop (exp newExp : Text) (pos lastPos : Nat) : Except Exception Text :=
  match h : findFrom natOpen exp pos with
  | some pos' => do
    let part ← substrCount exp lastPos (pos' - lastPos)
    -- Skip "nat".
    removeNatLoop exp (newExp ++ part) (pos' + 3) (pos' + 3)
  | none => do
    let part ← substr exp lastPos
    .ok (newExp ++ part)
termination_by exp.length - pos
decreasing_by exact findFrom_lt h

/-- `removeNat`. -/
def removeNat (exp : Text) : Except Exception Text := removeNatLoop exp [] 0 0

/-! ## What it is for -/

/-- What stays of the character at position `i` when, at each position of `P`, three letters are
deleted. -/
def kept (P : Nat → Prop) [DecidablePred P] (s : Text) (i : Nat) : Text :=
  if ∃ k < 3, k ≤ i ∧ P (i - k) then [] else (s.drop i).take 1

/-- The text without the three letters at each position of `P`. -/
def lettersDeleted (P : Nat → Prop) [DecidablePred P] (s : Text) : Text :=
  (List.range s.length).flatMap (kept P s)

/-- The text without the letters of `nat` in each `nat(`. -/
def natDeleted (s : Text) : Text := lettersDeleted (NatAt s) s

/-- The word `nat` a number of times, and an opening parenthesis. -/
def nats : Nat → Text
  | 0 => ['(']
  | k + 1 => "nat".toList ++ nats k

end Gpscat.CoFloCoWrapper
