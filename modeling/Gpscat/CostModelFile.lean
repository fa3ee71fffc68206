import Gpscat.AssemblyCostModel
import Gpscat.Csv.Field
import Gpscat.Csv.File
import Gpscat.Csv.Table

/-!
# Cost model files

A cost model is a CSV file with the columns `Opcode` and `Cost`.
-/

namespace Gpscat.AssemblyCostModel

open Cpp Csv

/-- `costModel[row["Opcode"].get<>()] = row["Cost"].get<CostTy>()`. The right side comes first. -/
def readRow (colNames : List Text) (m : AssemblyCostModel) (row : CSVRow) :
    Except Error AssemblyCostModel := do
  let cost ← row.field colNames "Cost".toList
  let cost ← getInt32 cost
  let opcode ← row.field colNames "Opcode".toList
  .ok (m.set opcode cost)

/-- `AssemblyCostModel(filename)`, for the text of the file, or none when it cannot be opened. -/
def ofFile (pageSize : Nat) (filename : Text) (file : Option Text) :
    Except Error AssemblyCostModel := do
  let reader ← FileReader.create pageSize filename file
  reader.forRows readRow (FileReader.rounds (file.getD [])) ⟨∅⟩

/-! ## Tables of costs -/

/-- The text of the other columns matters to nothing. -/
def column (names row : List Text) (name : Text) : Text := row.getD (names.idxOf name) []

/-- A cost model as a table: comma-separated, with columns for the opcodes and the costs among others.
The rows are those that lines of a single field have been joined to. -/
structure CostTable (header : Line) (lines : List Line) : Prop where
  columns : 2 ≤ header.fields.length ∧ header.fields.length < 2 ^ 16
  wellFormed : ∀ l ∈ header :: lines, WellFormed ',' header.fields.length l
  terminated : Terminated ',' (header :: lines)
  firstName : ∀ field ∈ header.fields.head?, needsQuotes ',' field = false
  names : header.fields.Nodup
  opcode : "Opcode".toList ∈ header.fields
  cost : "Cost".toList ∈ header.fields
  leads : ∀ row ∈ header.fields :: (joined [] (lines.map Line.fields)).1, Leads row
  short : ∀ row ∈ header.fields :: (joined [] (lines.map Line.fields)).1,
    row.flatten.length < 2 ^ 16
  /-- The file is parsed at once. -/
  small : (fileText ',' (header :: lines)).length < 450000
  /-- None of the other delimiters that are tried occurs. -/
  plain : ∀ c ∈ '\x00' :: '|' :: '\t' :: ';' :: ['^'], c ∉ fileText ',' (header :: lines)

/-- A row with an opcode and its cost. -/
def Entry (names row : List Text) (e : Text × Int) : Prop :=
  column names row "Opcode".toList = e.1 ∧
    ∃ leading trailing, column names row "Cost".toList = padded leading trailing e.2

end Gpscat.AssemblyCostModel
