import Gpscat.Csv.Field
import Gpscat.Lib.Proofs.IStreamProofs

/-!
# Integers in fields

An integer in decimal is recognised with blanks around it. Its type is chosen by its absolute value,
which has to be less than the largest value of the type, so the largest `int` and the two smallest
ones are not read.
-/

namespace Csv

open Cpp

variable {st : NumberState} {prev : Option Char}

theorem dataTypeFrom_blanks (hws : st.wsAllowed = true) (n : Nat) (rest : Text) :
    ∃ prev', dataTypeFrom st prev (List.replicate n ' ' ++ rest) = dataTypeFrom st prev' rest := by
  induction n generalizing prev with
  | zero => exact ⟨prev, rfl⟩
  | succ n ih =>
    obtain ⟨prev', hrest⟩ := @ih (some ' ')
    refine ⟨prev', ?_⟩
    rw [List.replicate_succ, List.cons_append, ← hrest, dataTypeFrom.eq_def]
    simp [hws]

theorem dataTypeFrom_minus (hneg : st.negAllowed = true) (rest : Text) :
    dataTypeFrom st prev ('-' :: rest) =
      dataTypeFrom { st with negAllowed := false } (some '-') rest := by
  rw [dataTypeFrom.eq_def]
  simp [hneg]

theorem dataTypeFrom_digit (hallowed : st.digitAllowed = true) (hint : st.probFloat = false) {c : Char}
    (hc : c.isDigit = true) (rest : Text) :
    dataTypeFrom st prev (c :: rest) =
      dataTypeFrom
        { st with
          hasDigit := true
          wsAllowed := false
          integralPart := 10 * st.integralPart + (c.toNat - '0'.toNat) } (some c) rest := by
  have hne : c ≠ ' ' ∧ c ≠ '-' ∧ c ≠ '.' ∧ ¬ (c = 'e' ∨ c = 'E') := by
    refine ⟨?_, ?_, ?_, ?_⟩
    · rintro rfl
      exact absurd hc (by decide)
    · rintro rfl
      exact absurd hc (by decide)
    · rintro rfl
      exact absurd hc (by decide)
    · rintro (rfl | rfl) <;> exact absurd hc (by decide)
  rw [dataTypeFrom.eq_def]
  simp only [hne.1, hne.2.1, hne.2.2.1, hne.2.2.2, hc, hallowed, hint, if_true, if_false,
    Bool.false_eq_true, Nat.mul_comm]

/-- A number of at least one digit. -/
theorem dataTypeFrom_digits (hallowed : st.digitAllowed = true) (hint : st.probFloat = false)
    {d : Char} {digits : Text} (hdigits : ∀ c ∈ d :: digits, c.isDigit = true) (rest : Text) :
    ∃ last : Char, last.isDigit = true ∧ dataTypeFrom st prev (d :: digits ++ rest) =
      dataTypeFrom
        { st with
          hasDigit := true
          wsAllowed := false
          integralPart := Nat.ofDigitChars 10 (d :: digits) st.integralPart } (some last) rest := by
  induction digits generalizing st prev d with
  | nil =>
    have hd := hdigits d List.mem_cons_self
    refine ⟨d, hd, ?_⟩
    rw [List.singleton_append, dataTypeFrom_digit hallowed hint hd, Nat.ofDigitChars_cons,
      Nat.ofDigitChars_nil]
  | cons e digits ih =>
    have hd := hdigits d List.mem_cons_self
    obtain ⟨last, hlast, hrest⟩ := @ih
      { st with
        hasDigit := true
        wsAllowed := false
        integralPart := 10 * st.integralPart + (d.toNat - '0'.toNat) } (some d) hallowed hint e
      fun c hc => hdigits c (List.mem_cons_of_mem _ hc)
    refine ⟨last, hlast, ?_⟩
    rw [List.cons_append, dataTypeFrom_digit hallowed hint hd, hrest, Nat.ofDigitChars_cons (c := d)]

/-- Blanks behind a number. -/
theorem dataTypeFrom_trailing (hws : st.wsAllowed = false) {last : Char}
    (hlast : last.isDigit = true) (n : Nat) :
    dataTypeFrom st (some last) (List.replicate n ' ') = st.finish := by
  cases n with
  | zero => rfl
  | succ n =>
    have hfirst : dataTypeFrom st (some last) (List.replicate (n + 1) ' ') =
        dataTypeFrom { st with digitAllowed := false, wsAllowed := true } (some ' ')
          (List.replicate n ' ') := by
      rw [List.replicate_succ, dataTypeFrom.eq_def]
      simp [hws, hlast]
    obtain ⟨prev', hrest⟩ := @dataTypeFrom_blanks
      { st with digitAllowed := false, wsAllowed := true } (some ' ') rfl n []
    rw [List.append_nil] at hrest
    rw [hfirst, hrest]
    rfl

/-- The digits of a number and the blanks behind them. -/
theorem dataTypeFrom_nat (hallowed : st.digitAllowed = true) (hint : st.probFloat = false)
    (hzero : st.integralPart = 0) (n trailing : Nat) :
    dataTypeFrom st prev (Nat.toDigits 10 n ++ List.replicate trailing ' ') =
      (determineIntegralType n, if st.negAllowed then (n : Int) else -n) := by
  have hdigits : ∀ c ∈ Nat.toDigits 10 n, c.isDigit = true := fun c hc => toDigits_isDigit hc
  have hvalue : Nat.ofDigitChars 10 (Nat.toDigits 10 n) 0 = n := Nat.ofDigitChars_ten_toDigits
  obtain ⟨d, digits, hcons⟩ := List.exists_cons_of_ne_nil (Nat.toDigits_ne_nil (n := n) (b := 10))
  rw [hcons] at hdigits hvalue
  obtain ⟨last, hlast, hnumber⟩ := @dataTypeFrom_digits st prev hallowed hint d digits hdigits
    (List.replicate trailing ' ')
  rw [hcons, hnumber, dataTypeFrom_trailing rfl hlast, NumberState.finish, hzero, hvalue, hint]
  rfl

theorem dataType_padded (leading trailing : Nat) (n : Int) :
    dataType (padded leading trailing n) = (determineIntegralType n.natAbs, n) := by
  obtain ⟨d, ds, hcons, -⟩ := IStream.intText_eq_cons n
  have hne : (padded leading trailing n).isEmpty = false := by
    rw [List.isEmpty_eq_false_iff, padded, hcons]
    simp
  rw [dataType, hne, if_neg Bool.false_ne_true, padded, List.append_assoc]
  obtain ⟨prev', hblanks⟩ := @dataTypeFrom_blanks {} none rfl leading
    (IStream.intText n ++ List.replicate trailing ' ')
  rw [hblanks, IStream.intText]
  by_cases hneg : n < 0
  · have habs : -(n.natAbs : Int) = n := by omega
    rw [if_pos hneg, List.cons_append, dataTypeFrom_minus rfl, dataTypeFrom_nat rfl rfl rfl]
    exact congrArg (Prod.mk _) habs
  · have habs : (n.natAbs : Int) = n := by omega
    rw [if_neg hneg, dataTypeFrom_nat rfl rfl rfl]
    exact congrArg (Prod.mk _) habs

theorem determineIntegralType_int32 {n : Nat} (h : n < 2 ^ 31 - 1) :
    DataType.int8.toNat ≤ (determineIntegralType n).toNat ∧
      (determineIntegralType n).toNat ≤ DataType.int32.toNat := by
  unfold determineIntegralType
  split_ifs <;> decide

theorem determineIntegralType_int64 {n : Nat} (h : ¬ n < 2 ^ 31 - 1) (h' : n < 2 ^ 63 - 1) :
    determineIntegralType n = .int64 := by
  unfold determineIntegralType
  rw [if_neg (by omega), if_neg (by omega), if_neg h, if_pos h']

theorem determineIntegralType_double {n : Nat} (h : ¬ n < 2 ^ 63 - 1) :
    determineIntegralType n = .double := by
  unfold determineIntegralType
  rw [if_neg (by omega), if_neg (by omega), if_neg (by omega), if_neg h]

theorem getInt32_of_lt (leading trailing : Nat) {n : Int} (hn : n.natAbs < 2 ^ 31 - 1) :
    getInt32 (padded leading trailing n) = .ok (BitVec.ofInt 32 n) := by
  obtain ⟨hnumber, hfits⟩ := determineIntegralType_int32 hn
  have hstring : ¬ (determineIntegralType n.natAbs).toNat ≤ DataType.string.toNat := by
    have hlt : DataType.string.toNat < DataType.int8.toNat := by decide
    omega
  have hdouble : determineIntegralType n.natAbs ≠ .double := by
    intro h
    rw [h] at hfits
    exact absurd hfits (by decide)
  rw [getInt32, dataType_padded]
  dsimp only
  rw [if_neg hstring, if_neg hdouble, if_neg (Nat.not_lt.mpr hfits)]

theorem getInt32_of_not_lt (leading trailing : Nat) {n : Int} (hn : ¬ n.natAbs < 2 ^ 31 - 1) :
    getInt32 (padded leading trailing n) = .error (.runtimeError
      (if n.natAbs < 2 ^ 63 - 1 then "Overflow error.".toList
      else "Attempted to convert a floating point value to an integral type.".toList)) := by
  rw [getInt32, dataType_padded]
  dsimp only
  by_cases h64 : n.natAbs < 2 ^ 63 - 1
  · rw [determineIntegralType_int64 hn h64, if_pos h64]
    rfl
  · rw [determineIntegralType_double h64, if_neg h64]
    rfl

/-- **The integers that are read.** The largest `int`, the smallest one and the next one are too large
for the parser, and from `2 ^ 63 - 1` on it takes an integer for a floating point number. -/
theorem getInt32_padded (leading trailing : Nat) (n : Int) :
    getInt32 (padded leading trailing n) =
      if n.natAbs < 2 ^ 31 - 1 then .ok (BitVec.ofInt 32 n)
      else if n.natAbs < 2 ^ 63 - 1 then .error (.runtimeError "Overflow error.".toList)
      else .error (.runtimeError
        "Attempted to convert a floating point value to an integral type.".toList) := by
  by_cases h32 : n.natAbs < 2 ^ 31 - 1
  · rw [if_pos h32, getInt32_of_lt leading trailing h32]
  · rw [if_neg h32, getInt32_of_not_lt leading trailing h32]
    split_ifs <;> rfl

end Csv
