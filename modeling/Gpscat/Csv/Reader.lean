import Gpscat.Lib.UnorderedMap
import Gpscat.Lib.CppString
import Mathlib.Data.BitVec

/-!
# The CSV parser

csv-parser, which reads the cost model, goes through the text character by character. It keeps the
text of a row without the delimiters, and the positions at which the fields behind the first one
begin, as numbers of 16 bits.

The two formats that are used trim nothing and are not strict. Characters are signed, so none is
`0xEF`, and `handle_unicode_bom` never finds a byte order mark.
-/

namespace Csv

open Cpp

/-- What stops the parser or the code that asks it for fields. -/
inductive Error where
  /-- `std::runtime_error`, with its message. -/
  | runtimeError (what : Text)
  /-- `front()` of an empty queue of rows, which C++ leaves undefined. -/
  | noRow
  deriving Repr, DecidableEq

/-! ## Rows -/

/-- A `RawRowBuffer` behind `current_end` and `current_split_idx`: the row in progress. What is
before them belongs to rows that are complete, and view it. -/
structure RawRowBuffer where
  buffer : Text := []
  splitBuffer : List (BitVec 16) := []
  deriving Repr, DecidableEq

structure CSVRow where
  /-- The text that `row_str` views when the row is written. C++ leaves it undefined once the buffer
  moves, which a later part of the same input can make it do. -/
  rowStr : Text
  splits : List (BitVec 16)
  nCols : BitVec 16
  deriving Repr, DecidableEq

namespace CSVRow

/-- The constructor, with `get_row` and `get_splits`. -/
def ofBuffer (buf : RawRowBuffer) : CSVRow where
  rowStr := buf.buffer
  splits := buf.splitBuffer
  nCols := BitVec.ofNat 16 (buf.splitBuffer.length + 1)

variable (row : CSVRow)

def size : Nat := row.nCols.toNat

def splitAt (n : Nat) : Nat := (row.splits.getD n 0).toNat

/-- Where `get_string_view(n)` begins and ends, with `0` for an end that is not known. -/
def bounds (n : Nat) : Nat × Nat :=
  if row.size > 1 then
    if n = 0 then (0, row.splitAt 0)
    else if row.size = 2 then (row.splitAt 0, 0)
    else (row.splitAt (n - 1), if n ≠ row.size - 1 then row.splitAt n else 0)
  else (0, 0)

/-- The `n`-th field, for `n < size`. The splits are positions in the row, so `substr` does not
throw. -/
def stringView (n : Nat) : Text :=
  let (beg, last) := row.bounds n
  -- An end at 0 is taken for one that is not known.
  let last := if last = 0 then row.rowStr.length else last
  (row.rowStr.drop beg).take ((last + 2 ^ 64 - beg) % 2 ^ 64)

/-- `get_string_view`. -/
def getStringView (n : Nat) : Except Error Text :=
  if n ≥ row.size then .error (.runtimeError "Index out of bounds.".toList)
  else .ok (row.stringView n)

/-- `operator std::vector<std::string>`. -/
def toVector : List Text := (List.range row.size).map row.stringView

/-- `ColNames::col_pos`: of two columns with one name, the later one is found. -/
def colPos (colNames : List Text) : UnorderedMap Text Nat :=
  colNames.zipIdx.foldl (fun m name => m.insert name.1 name.2) ∅

/-- `row[col_name]`. -/
def field (colNames : List Text) (colName : Text) : Except Error Text :=
  match (colPos colNames).lookup colName with
  | some n => row.getStringView n
  | none => .error (.runtimeError ("Can't find a column named ".toList ++ colName))

end CSVRow

/-! ## The reader -/

inductive ParseFlags where
  | notSpecial
  | quote
  | delimiter
  | newline
  deriving Repr, DecidableEq

/-- `flag >= DELIMITER`. -/
def ParseFlags.endsField : ParseFlags → Bool
  | .delimiter | .newline => true
  | .notSpecial | .quote => false

/-- `make_parse_flags`, for the quote character that all formats have. -/
def parseFlags (delimiter : Char) (ch : Char) : ParseFlags :=
  if ch = delimiter then .delimiter
  else if ch = '"' then .quote
  else if ch = '\r' ∨ ch = '\n' then .newline
  else .notSpecial

/-- The variables of a `CSVReader` that `feed` changes. -/
structure CSVReader where
  /-- The number of the row with the column names. -/
  headerRow : Nat := 0
  recordBuffer : RawRowBuffer := {}
  colNames : List Text := []
  headerWasParsed : Bool := false
  nCols : Nat := 0
  rowNum : Int := 0
  correctRows : Nat := 0
  /-- The queue of rows. -/
  records : List CSVRow := []
  /-- The calls of `bad_row_handler`: `row_num` at the call, and the record. -/
  badRows : List (Int × List Text) := []
  deriving Repr, DecidableEq

namespace CSVReader

/-- `text_buffer += c`. -/
def append (r : CSVReader) (s : Text) : CSVReader :=
  { r with recordBuffer.buffer := r.recordBuffer.buffer ++ s }

/-- `split_buffer.push_back((unsigned short)row_buffer.size())`. -/
def pushSplit (r : CSVReader) : CSVReader :=
  { r with
    recordBuffer.splitBuffer :=
      r.recordBuffer.splitBuffer ++ [BitVec.ofNat 16 r.recordBuffer.buffer.length] }

def setColNames (r : CSVReader) (names : List Text) : CSVReader :=
  { r with colNames := names, headerWasParsed := true, nCols := names.length }

/-- `write_record`. Only a row that is constructed takes its text out of the buffer: the text of a
record without a delimiter, and of a row before the header, stays. -/
def writeRecord (r : CSVReader) : CSVReader :=
  let row := CSVRow.ofBuffer r.recordBuffer
  let rowSize := r.recordBuffer.splitBuffer.length
  if r.headerWasParsed then
    if rowSize + 1 = r.nCols then
      { r with
        correctRows := r.correctRows + 1
        records := r.records ++ [row]
        recordBuffer := {}
        rowNum := r.rowNum + 1 }
    else if rowSize > 0 then
      { r with badRows := r.badRows ++ [(r.rowNum - 1, row.toVector)], recordBuffer := {} }
    else r
  else if r.rowNum = r.headerRow then
    { r.setColNames row.toVector with recordBuffer := {}, rowNum := r.rowNum + 1 }
  else { r with rowNum := r.rowNum + 1 }

/-- The loop of `feed`, with the character before the current one. Characters that are not special
are appended one by one. -/
def feedFrom (flags : Char → ParseFlags) :
    CSVReader → (quoteEscape : Bool) → Option Char → Text → CSVReader
  | r, _, _, [] => r
  | r, quoteEscape, prev, c :: rest =>
    match flags c with
    | .notSpecial => feedFrom flags (r.append [c]) quoteEscape (some c) rest
    | .delimiter =>
      if quoteEscape then feedFrom flags (r.append [c]) true (some c) rest
      else feedFrom flags r.pushSplit false (some c) rest
    | .newline =>
      if quoteEscape then feedFrom flags (r.append [c]) true (some c) rest
      else
        match rest with
        | [] => r.writeRecord
        | next :: rest =>
          -- Catches CRLF (or LFLF)
          if next = '\n' then feedFrom flags r.writeRecord false (some next) rest
          else feedFrom flags r.writeRecord false (some c) (next :: rest)
    | .quote =>
      if quoteEscape then
        match rest with
        -- Behind the text stands a `'\0'`.
        | [] => r.append [c]
        | next :: rest =>
          if (flags next).endsField then feedFrom flags r false (some c) (next :: rest)
          else if flags next = .quote then
            feedFrom flags (r.append [c]) true (some next) rest
          else feedFrom flags (r.append [c]) true (some c) (next :: rest)
      else
        feedFrom flags r (prev.any fun p => (flags p).endsField) (some c) rest

/-- `feed`. -/
def feed (delimiter : Char) (r : CSVReader) (input : Text) : CSVReader :=
  feedFrom (parseFlags delimiter) r false none input

/-- `end_feed`. -/
def endFeed (r : CSVReader) : CSVReader := r.writeRecord

/-- A reader that has been fed with the whole text. -/
def parse (delimiter : Char) (headerRow : Nat) (input : Text) : CSVReader :=
  (feed delimiter { headerRow := headerRow } input).endFeed

end CSVReader

end Csv
