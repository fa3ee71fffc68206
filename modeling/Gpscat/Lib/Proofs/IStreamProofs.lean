import Gpscat.Lib.IStream
import Gpscat.Lib.Proofs.CppStringProofs

/-!
# Reading what was written

A word and the decimal text of an `int` are extracted as they are, with white space in front and
something behind that ends them.
-/

namespace Cpp.IStream

variable {spaces : Text}

/-- The white space in front of a text is skipped. -/
theorem sentry_eq {c : Char} {s : Text} (hspaces : ∀ c ∈ spaces, isSpace c = true)
    (hc : isSpace c = false) :
    ({ rest := spaces ++ c :: s } : IStream).sentry = some (c :: s) := by
  have hdrop : (spaces ++ c :: s).dropWhile isSpace = c :: s := by
    rw [List.dropWhile_append_of_pos hspaces, List.dropWhile_cons_of_neg (by simp [hc])]
  rw [sentry, if_neg Bool.false_ne_true]
  simp only [hdrop]

/-- White space alone is skipped up to the end, which fails. -/
theorem sentry_eq_none (hspaces : ∀ c ∈ spaces, isSpace c = true) :
    ({ rest := spaces } : IStream).sentry = none := by
  have hdrop : spaces.dropWhile isSpace = [] := List.dropWhile_eq_nil_iff.mpr hspaces
  rw [sentry, if_neg Bool.false_ne_true]
  simp only [hdrop]

theorem takeWhile_append_of_stop {p : Char → Bool} {w : Text} (hw : ∀ c ∈ w, p c = true)
    {c : Char} (hc : p c = false) (s : Text) :
    (w ++ c :: s).takeWhile p = w ∧ (w ++ c :: s).dropWhile p = c :: s := by
  constructor
  · rw [List.takeWhile_append_of_pos hw, List.takeWhile_cons_of_neg (by simp [hc]),
      List.append_nil]
  · rw [List.dropWhile_append_of_pos hw, List.dropWhile_cons_of_neg (by simp [hc])]

/-- A word is extracted up to the white space behind it. -/
theorem extractString_word {w : Text} {c : Char} (hspaces : ∀ c ∈ spaces, isSpace c = true)
    (hne : w ≠ []) (hw : ∀ c ∈ w, isSpace c = false) (hc : isSpace c = true) (s old : Text) :
    ({ rest := spaces ++ (w ++ c :: s) } : IStream).extractString old =
      ({ rest := c :: s }, w) := by
  obtain ⟨d, w, rfl⟩ := List.exists_cons_of_ne_nil hne
  obtain ⟨htake, hdrop⟩ := takeWhile_append_of_stop (p := (!isSpace ·)) (w := d :: w) (c := c)
    (fun e he => by simp [hw e he]) (by simp [hc]) s
  rw [extractString, List.cons_append, sentry_eq hspaces (hw d List.mem_cons_self)]
  simp only [← List.cons_append, htake, hdrop]

theorem extractString_spaces (hspaces : ∀ c ∈ spaces, isSpace c = true) (old : Text) :
    (({ rest := spaces } : IStream).extractString old).1.fail = true := by
  rw [extractString, sentry_eq_none hspaces]

/-- The sign and the digits of the text of an `int`. -/
theorem splitSign_intText (n : Int) (s : Text) :
    splitSign (intText n ++ s) = (decide (n < 0), Nat.toDigits 10 n.natAbs ++ s) := by
  unfold intText
  split_ifs with hn
  · rw [decide_eq_true hn]
    rfl
  · rw [decide_eq_false hn]
    cases hdigits : Nat.toDigits 10 n.natAbs with
    | nil => exact absurd hdigits Nat.toDigits_ne_nil
    | cons d ds =>
      exact splitSign_of_isDigit (toDigits_isDigit (hdigits ▸ List.mem_cons_self)) (ds ++ s)

theorem intText_eq_cons (n : Int) : ∃ d ds, intText n = d :: ds ∧ isSpace d = false := by
  unfold intText
  split_ifs
  · exact ⟨'-', _, rfl, rfl⟩
  · cases hdigits : Nat.toDigits 10 n.natAbs with
    | nil => exact absurd hdigits Nat.toDigits_ne_nil
    | cons d ds =>
      exact ⟨d, ds, rfl, not_isSpace_of_isDigit (toDigits_isDigit (hdigits ▸ List.mem_cons_self))⟩

/-- A number that fits is extracted up to the first character that is not a digit. -/
theorem extractInt_intText {n : Int} {c : Char} (hspaces : ∀ c ∈ spaces, isSpace c = true)
    (hmin : intMin ≤ n) (hmax : n ≤ intMax) (hc : c.isDigit = false) (s : Text) (old : Int) :
    ({ rest := spaces ++ (intText n ++ c :: s) } : IStream).extractInt old =
      ({ rest := c :: s }, n) := by
  obtain ⟨d, ds, hcons, hd⟩ := intText_eq_cons n
  have hsentry : ({ rest := spaces ++ (intText n ++ c :: s) } : IStream).sentry =
      some (intText n ++ c :: s) := by
    rw [hcons, List.cons_append]
    exact sentry_eq hspaces hd
  obtain ⟨htake, hdrop⟩ := takeWhile_append_of_stop (p := Char.isDigit)
    (w := Nat.toDigits 10 n.natAbs) (fun _ => toDigits_isDigit) hc s
  have hne : (Nat.toDigits 10 n.natAbs).isEmpty = false :=
    List.isEmpty_eq_false_iff.mpr Nat.toDigits_ne_nil
  have hvalue : (if decide (n < 0) = true then -(n.natAbs : Int) else (n.natAbs : Int)) = n := by
    simp only [decide_eq_true_eq]
    split_ifs <;> omega
  rw [extractInt, hsentry]
  simp only [splitSign_intText, htake, hdrop, hne, Bool.false_eq_true, if_false,
    Nat.ofDigitChars_ten_toDigits, hvalue]
  rw [storeInt, if_neg (not_lt.mpr hmax), if_neg (not_lt.mpr hmin)]

end Cpp.IStream
