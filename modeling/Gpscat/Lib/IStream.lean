import Gpscat.Lib.CppString

/-!
# Formatted input

The extraction operators of `std::istream` for strings and for `int`. An extraction first skips white
space; when the stream has failed before, or nothing else is left, it fails and the target keeps its
value. `eofbit` is not modelled: it is only set when nothing is left, and then the next extraction
fails anyway.
-/

namespace Cpp

/-- A `std::istream`: what has not been extracted, and whether `failbit` is set. -/
structure IStream where
  rest : Text
  fail : Bool := false
  deriving Repr, DecidableEq

def intMax : Int := 2 ^ 31 - 1

def intMin : Int := -2 ^ 31

namespace IStream

/-- The sentry: what is left after white space has been skipped, if the extraction can start. -/
def sentry (s : IStream) : Option Text :=
  if s.fail then none
  else match s.rest.dropWhile isSpace with
    | [] => none
    | c :: cs => some (c :: cs)

/-- `s >> str`, for a `str` that holds `old`. -/
def extractString (s : IStream) (old : Text) : IStream × Text :=
  match s.sentry with
  | none => ({ s with fail := true }, old)
  | some text => ({ rest := text.dropWhile (!isSpace ·) }, text.takeWhile (!isSpace ·))

/-- What is stored for a number in front of `rest`: out of range, the limit that it exceeds, and
`failbit` is set. -/
def storeInt (rest : Text) (v : Int) : IStream × Int :=
  if intMax < v then ({ rest := rest, fail := true }, intMax)
  else if v < intMin then ({ rest := rest, fail := true }, intMin)
  else ({ rest := rest }, v)

/-- `s >> n`, for an `int` that holds `old`. Text that starts no number stores 0 and sets
`failbit`. -/
def extractInt (s : IStream) (old : Int) : IStream × Int :=
  match s.sentry with
  | none => ({ s with fail := true }, old)
  | some text =>
    let signed := splitSign text
    let digits := signed.2.takeWhile Char.isDigit
    let rest := signed.2.dropWhile Char.isDigit
    let v : Int := Nat.ofDigitChars 10 digits 0
    if digits.isEmpty then ({ rest := rest, fail := true }, 0)
    else storeInt rest (if signed.1 then -v else v)

/-- The decimal text of an `int`. -/
def intText (n : Int) : Text :=
  if n < 0 then '-' :: Nat.toDigits 10 n.natAbs else Nat.toDigits 10 n.natAbs

theorem sentry_of_fail {s : IStream} (h : s.fail = true) : s.sentry = none := if_pos h

theorem sentry_length {s : IStream} {text : Text} (h : s.sentry = some text) :
    0 < text.length ∧ text.length ≤ s.rest.length := by
  unfold sentry at h
  split at h
  · exact absurd h.symm (Option.some_ne_none _)
  · cases hdrop : s.rest.dropWhile isSpace with
    | nil =>
      rw [hdrop] at h
      exact absurd h.symm (Option.some_ne_none _)
    | cons c cs =>
      rw [hdrop] at h
      obtain rfl := Option.some.inj h
      rw [← hdrop]
      refine ⟨?_, (List.dropWhile_sublist _).length_le⟩
      rw [hdrop]
      exact Nat.succ_pos _

/-- White space has been skipped. -/
theorem sentry_head {s : IStream} {text : Text} (h : s.sentry = some text) :
    ∃ c cs, text = c :: cs ∧ isSpace c = false := by
  unfold sentry at h
  split at h
  · exact absurd h.symm (Option.some_ne_none _)
  · cases hdrop : s.rest.dropWhile isSpace with
    | nil =>
      rw [hdrop] at h
      exact absurd h.symm (Option.some_ne_none _)
    | cons c cs =>
      rw [hdrop] at h
      obtain rfl := Option.some.inj h
      refine ⟨c, cs, rfl, ?_⟩
      have hhead := List.head?_dropWhile_not isSpace s.rest
      rw [hdrop, List.head?_cons] at hhead
      exact hhead

/-! ## Failure stays -/

theorem extractString_of_fail {s : IStream} (h : s.fail = true) (old : Text) :
    s.extractString old = (s, old) := by
  rw [extractString, sentry_of_fail h, ← h]

theorem extractInt_of_fail {s : IStream} (h : s.fail = true) (old : Int) :
    s.extractInt old = (s, old) := by
  rw [extractInt, sentry_of_fail h, ← h]

/-! ## Progress -/

/-- A string that could be read does not depend on what the target held. -/
theorem extractString_old (s : IStream) (old old' : Text) :
    (s.extractString old).1 = (s.extractString old').1 ∧
      ((s.extractString old).1.fail = false →
        (s.extractString old).2 = (s.extractString old').2) := by
  unfold extractString
  cases s.sentry with
  | none => exact ⟨rfl, fun h => absurd h.symm Bool.false_ne_true⟩
  | some text => exact ⟨rfl, fun _ => rfl⟩

theorem extractString_length {s : IStream} {old : Text}
    (h : (s.extractString old).1.fail = false) :
    (s.extractString old).1.rest.length < s.rest.length := by
  unfold extractString at h ⊢
  cases hs : s.sentry with
  | none =>
    rw [hs] at h
    exact absurd h.symm Bool.false_ne_true
  | some text =>
    obtain ⟨c, cs, rfl, hc⟩ := sentry_head hs
    have hlen := (sentry_length hs).2
    have hdrop := (List.dropWhile_sublist (l := cs) (!isSpace ·)).length_le
    rw [List.length_cons] at hlen
    change ((c :: cs).dropWhile (!isSpace ·)).length < _
    rw [List.dropWhile_cons_of_pos (by rw [hc]; rfl)]
    omega

theorem splitSign_length (text : Text) : (splitSign text).2.length ≤ text.length := by
  unfold splitSign
  split
  · exact Nat.le_succ _
  · exact Nat.le_succ _
  · exact le_rfl

theorem storeInt_rest (rest : Text) (v : Int) : (storeInt rest v).1.rest = rest := by
  unfold storeInt
  split
  · rfl
  · split <;> rfl

theorem extractInt_length (s : IStream) (old : Int) :
    (s.extractInt old).1.rest.length ≤ s.rest.length := by
  unfold extractInt
  cases hs : s.sentry with
  | none => exact le_rfl
  | some text =>
    have hlen := (sentry_length hs).2
    have hsign := splitSign_length text
    have hdrop := (List.dropWhile_sublist (l := (splitSign text).2) Char.isDigit).length_le
    dsimp only
    split
    · exact hdrop.trans (hsign.trans hlen)
    · rw [storeInt_rest]
      exact hdrop.trans (hsign.trans hlen)

end IStream

end Cpp
