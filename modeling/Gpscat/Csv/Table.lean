import Gpscat.Csv.Reader

/-!
# Tables as text

csv-parser also has a writer. A table is written row by row; here every row may have line ends of its
own, as files that were not written by it have, and the last one may have none.
-/

namespace Csv

open Cpp

variable (delim : Char)

/-- Whether `csv_escape` has to quote a field. -/
def needsQuotes (field : Text) : Bool := field.any fun c => c = '"' || c = delim

/-- The characters of a field between its quotes. -/
def escaped (field : Text) : Text :=
  field.flatMap fun c => if c = '"' then ['"', '"'] else [c]

/-- `csv_escape`, which only quotes fields if necessary. -/
def csvEscape (field : Text) : Text :=
  if needsQuotes delim field then '"' :: escaped field ++ ['"'] else field

/-- `write_row` up to the line end. -/
def writeFields : List Text → Text
  | [] => []
  | [field] => csvEscape delim field
  | field :: fields => csvEscape delim field ++ delim :: writeFields fields

/-- A row of a table and the line ends behind it. -/
structure Line where
  fields : List Text
  ends : Text := ['\n']

def Line.text (l : Line) : Text := writeFields delim l.fields ++ l.ends

def fileText (lines : List Line) : Text := lines.flatMap (Line.text delim)

/-- A field that the parser gets whole. A line end has to be quoted, which `csv_escape` only does
because of another character. -/
def Readable (field : Text) : Prop :=
  needsQuotes delim field = false → '\r' ∉ field ∧ '\n' ∉ field

instance (field : Text) : Decidable (Readable delim field) :=
  inferInstanceAs (Decidable (_ → _))

/-- Lines of `k` fields, and lines of a single one, such as comments. A blank line counts as a line
end of the line before it. -/
structure WellFormed (k : Nat) (l : Line) : Prop where
  length : l.fields.length = k ∨ l.fields.length = 1 ∧ l.fields ≠ [[]]
  readable : ∀ field ∈ l.fields, Readable delim field
  ends : ∀ c ∈ l.ends, c = '\r' ∨ c = '\n'

/-- Every line but the last one has a line end. At the end of the file, a quote does not close a
field. -/
def Terminated : List Line → Prop
  | [] => True
  | [l] => l.ends = [] → ∀ field ∈ l.fields.getLast?, needsQuotes delim field = false
  | l :: ls => l.ends ≠ [] ∧ Terminated ls

instance (k : Nat) (l : Line) : Decidable (WellFormed delim k l) :=
  decidable_of_iff
    ((l.fields.length = k ∨ l.fields.length = 1 ∧ l.fields ≠ [[]]) ∧
      (∀ field ∈ l.fields, Readable delim field) ∧ l.ends.all (fun c => c = '\r' || c = '\n'))
    ⟨fun h => ⟨h.1, h.2.1, fun c hc => by simpa using List.all_eq_true.mp h.2.2 c hc⟩,
      fun h => ⟨h.length, h.readable, List.all_eq_true.mpr fun c hc => by simpa using h.ends c hc⟩⟩

instance decidableTerminated : ∀ lines, Decidable (Terminated delim lines)
  | [] => isTrue trivial
  | [_] => inferInstanceAs (Decidable (_ → _))
  | _ :: l :: ls =>
    have := decidableTerminated (l :: ls)
    inferInstanceAs (Decidable (_ ∧ _))

/-- What the parser takes for the rows when there are lines of a single field: it keeps the text of such
a line, which then stands before the first field of the next row. -/
def joined : (pending : Text) → List (List Text) → List (List Text) × Text
  | pending, [] => ([], pending)
  | pending, [] :: rows => joined pending rows
  | pending, [comment] :: rows => joined (pending ++ comment) rows
  | pending, (field :: next :: fields) :: rows =>
    let rest := joined [] rows
    (((pending ++ field) :: next :: fields) :: rest.1, rest.2)

/-- The splits of a row of the given fields that begins at `pos`. -/
def splitsFrom : (pos : Nat) → List Text → List (BitVec 16)
  | _, [] => []
  | _, [_] => []
  | pos, field :: fields =>
    BitVec.ofNat 16 (pos + field.length) :: splitsFrom (pos + field.length) fields

/-- The row that the parser makes of some fields. -/
def rowOf (fields : List Text) : CSVRow := CSVRow.ofBuffer ⟨fields.flatten, splitsFrom 0 fields⟩

/-- A row with a first field, or without any text. -/
def Leads (fields : List Text) : Prop := fields.head? ≠ some [] ∨ fields.flatten = []

instance (fields : List Text) : Decidable (Leads fields) :=
  inferInstanceAs (Decidable (_ ∨ _))

/-- The parser behind a table. -/
def tableReader (header : List Text) (rows : List (List Text)) : CSVReader where
  colNames := (rowOf header).toVector
  headerWasParsed := true
  nCols := header.length
  rowNum := rows.length + 1
  correctRows := rows.length
  records := rows.map rowOf

/-- The parser yields the names of the columns and the fields of all rows. -/
structure ReadsBack (header : Line) (lines : List Line) (rows : List (List Text)) : Prop where
  colNames : (CSVReader.parse delim 0 (fileText delim (header :: lines))).colNames = header.fields
  records : (CSVReader.parse delim 0 (fileText delim (header :: lines))).records.map CSVRow.toVector =
    rows

end Csv
