import Gpscat.Csv.Views
import Mathlib.Data.List.Basic

/-!
# When the rows keep their text

The loop of `feed` appends at most one character for each one that it reads. So only text that is left
in the buffer from the call before can make the buffer move.
-/

namespace Csv.CSVReader

open Cpp

variable {flags : Char → ParseFlags} {delim : Char}

/-- The loop of `feed` is its events. -/
theorem feedFrom_eq_foldl (r : CSVReader) (quoteEscape : Bool) (prev : Option Char) (text : Text) :
    feedFrom flags r quoteEscape prev text =
      (feedEvents flags quoteEscape prev text).foldl apply r := by
  fun_induction feedFrom flags r quoteEscape prev text with
  | case1 => rfl
  | case2 r q prev c text hc ih =>
    rw [feedEvents.eq_def, ih]
    simp only [hc, List.foldl_cons, apply]
  | case3 r prev c text hc ih =>
    rw [feedEvents.eq_def, ih]
    simp only [hc, if_true, List.foldl_cons, apply]
  | case4 r q prev c text hc hq ih =>
    rw [feedEvents.eq_def, ih]
    simp only [hc, if_neg hq, List.foldl_cons, apply]
  | case5 r prev c text hc ih =>
    rw [feedEvents.eq_def, ih]
    simp only [hc, if_true, List.foldl_cons, apply]
  | case6 r q prev c hc hq =>
    rw [feedEvents.eq_def]
    simp only [hc, if_neg hq, List.foldl_cons, List.foldl_nil, apply]
  | case7 r q prev c hc hq text ih =>
    rw [feedEvents.eq_def, ih]
    simp only [hc, if_neg hq, if_true, List.foldl_cons, apply]
  | case8 r q prev c hc hq next text hne ih =>
    rw [feedEvents.eq_def, ih]
    simp only [hc, if_neg hq, if_neg hne, List.foldl_cons, apply]
  | case9 r prev c hc =>
    rw [feedEvents.eq_def]
    simp only [hc, if_true, List.foldl_cons, List.foldl_nil, apply]
  | case10 r prev c hc next text hends ih =>
    rw [feedEvents.eq_def, ih]
    simp only [hc, if_true, if_pos hends]
  | case11 r prev c hc next text hends hnext ih =>
    rw [feedEvents.eq_def, ih]
    simp only [hc, if_true, if_neg hends, if_pos hnext, List.foldl_cons, apply]
  | case12 r prev c hc next text hends hnext ih =>
    rw [feedEvents.eq_def, ih]
    simp only [hc, if_true, if_neg hends, if_neg hnext, List.foldl_cons, apply]
  | case13 r q prev c text hc hq ih =>
    rw [feedEvents.eq_def, ih]
    simp only [hc, if_neg hq]

/-! ## The appended text -/

def Event.isAppend : Event → Bool
  | .append _ => true
  | .split | .record => false

/-- How many characters are appended. -/
def appended (es : List Event) : Nat := es.countP Event.isAppend

theorem appended_append (c : Char) (es : List Event) :
    appended (.append c :: es) = appended es + 1 := List.countP_cons_of_pos rfl

theorem appended_split (es : List Event) : appended (.split :: es) = appended es :=
  List.countP_cons_of_neg (by decide)

theorem appended_record (es : List Event) : appended (.record :: es) = appended es :=
  List.countP_cons_of_neg (by decide)

/-- Every character that is appended has been read. -/
theorem appended_feedEvents_le (quoteEscape : Bool) (prev : Option Char) (text : Text) :
    appended (feedEvents flags quoteEscape prev text) ≤ text.length := by
  fun_induction feedEvents flags quoteEscape prev text with
  | case1 => exact Nat.zero_le _
  | case2 q prev c text hc ih =>
    rw [appended_append]
    exact Nat.succ_le_succ ih
  | case3 prev c text hc ih =>
    rw [appended_append]
    exact Nat.succ_le_succ ih
  | case4 q prev c text hc hq ih =>
    rw [appended_split]
    exact Nat.le_succ_of_le ih
  | case5 prev c text hc ih =>
    rw [appended_append]
    exact Nat.succ_le_succ ih
  | case6 => exact Nat.zero_le _
  | case7 q prev c hc hq text ih =>
    rw [appended_record]
    exact Nat.le_succ_of_le (Nat.le_succ_of_le ih)
  | case8 q prev c hc hq next text hne ih =>
    rw [appended_record]
    exact Nat.le_succ_of_le ih
  | case9 => exact le_rfl
  | case10 prev c hc next text hends ih => exact Nat.le_succ_of_le ih
  | case11 prev c hc next text hends hnext ih =>
    rw [appended_append]
    exact Nat.succ_le_succ (Nat.le_succ_of_le ih)
  | case12 prev c hc next text hends hnext ih =>
    rw [appended_append]
    exact Nat.succ_le_succ ih
  | case13 q prev c text hc hq ih => exact Nat.le_succ_of_le ih

/-! ## The buffer -/

/-- A buffer that has room for everything stays. -/
theorem staysFrom_of_fits {capacity size : Nat} {es : List Event}
    (hfits : size + appended es ≤ capacity) (viewed : Bool) (r : CSVReader) :
    staysFrom capacity size viewed r es = true := by
  induction es generalizing size viewed r with
  | nil => rfl
  | cons e es ih =>
    cases e with
    | append c =>
      rw [appended_append] at hfits
      have hroom : size + 1 ≤ capacity := by omega
      rw [staysFrom, ih (by omega), Bool.and_true, decide_eq_true hroom, Bool.or_true]
    | split =>
      rw [appended_split] at hfits
      exact ih hfits viewed _
    | record =>
      rw [appended_record] at hfits
      exact ih hfits _ _

/-- Without text left from the call before, every row keeps its text. -/
theorem rowsStay_of_empty {r : CSVReader} (hempty : r.recordBuffer.buffer = []) (input : Text) :
    RowsStay delim r input := by
  have hread := @appended_feedEvents_le (parseFlags delim) false none input
  refine staysFrom_of_fits ?_ false r
  rw [hempty, List.length_nil, Nat.zero_add]
  exact hread.trans (le_max_right _ _)

theorem queuesRow_iff {r : CSVReader} : r.queuesRow = true ↔
    r.headerWasParsed = true ∧ r.recordBuffer.splitBuffer.length + 1 = r.nCols := by
  rw [queuesRow, Bool.and_eq_true, beq_iff_eq]

/-- A record becomes a row of the queue exactly when `queuesRow` says so. -/
theorem records_writeRecord (r : CSVReader) :
    r.writeRecord.records =
      if r.queuesRow then r.records ++ [CSVRow.ofBuffer r.recordBuffer] else r.records := by
  by_cases hqueues : r.headerWasParsed = true ∧ r.recordBuffer.splitBuffer.length + 1 = r.nCols
  · rw [if_pos (queuesRow_iff.mpr hqueues), writeRecord]
    simp only [if_pos hqueues.1, if_pos hqueues.2]
  · rw [if_neg fun h => hqueues (queuesRow_iff.mp h)]
    unfold writeRecord
    dsimp only
    split_ifs with hparsed hcols
    · exact absurd ⟨hparsed, hcols⟩ hqueues
    · rfl
    · rfl
    · rfl
    · rfl

theorem length_records_apply (r : CSVReader) (e : Event) :
    (r.apply e).records.length =
      r.records.length + if e = .record ∧ r.queuesRow = true then 1 else 0 := by
  cases e with
  | append c => rfl
  | split => rfl
  | record =>
    rw [apply, records_writeRecord]
    by_cases hqueues : r.queuesRow = true
    · rw [if_pos hqueues, if_pos ⟨rfl, hqueues⟩, List.length_append, List.length_singleton]
    · rw [if_neg hqueues, if_neg (not_and_of_not_right _ hqueues), Nat.add_zero]

theorem length_records_foldl (r : CSVReader) (es : List Event) :
    r.records.length ≤ (es.foldl apply r).records.length := by
  induction es generalizing r with
  | nil => exact le_rfl
  | cons e es ih =>
    have hstep := length_records_apply r e
    have hrest := ih (r.apply e)
    rw [List.foldl_cons]
    omega

theorem staysFrom_of_records {capacity size : Nat} {es : List Event} {r : CSVReader}
    (hsame : (es.foldl apply r).records.length = r.records.length) :
    staysFrom capacity size false r es = true := by
  induction es generalizing size r with
  | nil => rfl
  | cons e es ih =>
    rw [List.foldl_cons] at hsame
    have hstep := length_records_apply r e
    have hrest := length_records_foldl (r.apply e) es
    have hkept : (es.foldl apply (r.apply e)).records.length = (r.apply e).records.length := by omega
    cases e with
    | append c => exact ih hkept
    | split => exact ih hkept
    | record =>
      have hnone : r.queuesRow = false := by
        rw [← Bool.not_eq_true]
        intro hqueues
        rw [if_pos ⟨rfl, hqueues⟩] at hstep
        omega
      rw [staysFrom, hnone]
      exact ih hkept

/-- A call that puts no row into the queue has none to move the buffer under. -/
theorem rowsStay_of_records {r : CSVReader} {input : Text}
    (hsame : (feed delim r input).records = r.records) : RowsStay delim r input := by
  rw [feed, feedFrom_eq_foldl] at hsame
  exact staysFrom_of_records (congrArg List.length hsame)

/-- Where every call keeps its rows, they are those of the calls without regard to the buffer. -/
theorem foldlM_feedStaying {parts : List Text} {r result : CSVReader}
    (hstay : parts.foldlM (feedStaying delim) r = some result) :
    result = parts.foldl (feed delim) r := by
  induction parts generalizing r with
  | nil => exact (Option.some.inj hstay).symm
  | cons part parts ih =>
    rw [List.foldlM_cons] at hstay
    obtain ⟨r', hpart, hparts⟩ := Option.bind_eq_some_iff.mp hstay
    rw [feedStaying, Option.ite_none_right_eq_some] at hpart
    obtain rfl := Option.some.inj hpart.2
    exact ih hparts

/-- A reader with the columns `a` and `b`, and the beginning of a long row. -/
def leftReader : CSVReader where
  recordBuffer := { buffer := "opcode".toList }
  colNames := ["a".toList, "b".toList]
  headerWasParsed := true
  nCols := 2
  rowNum := 1

/-- The row is written with its text at the capacity, and the row behind it moves the buffer. -/
example : ¬ RowsStay ',' leftReader ",1\nx,2".toList := by decide

end Csv.CSVReader
