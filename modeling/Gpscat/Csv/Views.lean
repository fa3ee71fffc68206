import Gpscat.Csv.Reader

/-!
# Rows that view the buffer

A row of the queue has no text of its own: `row_str` views the buffer of the call of `feed` that has
written the row. The text behind the row gets into the same buffer. `reserve` makes sure of the size
of the input, but not of the text that `reset` has left in the buffer. Where the text outgrows the
capacity, the buffer moves, and the rows so far view memory that has been freed.

`CSVRow.ofBuffer` takes the text that the row views when it is written. It is the text of the row as
long as the buffer stays.
-/

namespace Csv.CSVReader

open Cpp

/-- What the loop of `feed` does to the reader. -/
inductive Event where
  | append (c : Char)
  | split
  | record
  deriving Repr, DecidableEq

def apply (r : CSVReader) : Event → CSVReader
  | .append c => r.append [c]
  | .split => r.pushSplit
  | .record => r.writeRecord

/-- The events of the loop of `feed`, which depend on the text only. -/
def feedEvents (flags : Char → ParseFlags) :
    (quoteEscape : Bool) → Option Char → Text → List Event
  | _, _, [] => []
  | quoteEscape, prev, c :: rest =>
    match flags c with
    | .notSpecial => .append c :: feedEvents flags quoteEscape (some c) rest
    | .delimiter =>
      if quoteEscape then .append c :: feedEvents flags true (some c) rest
      else .split :: feedEvents flags false (some c) rest
    | .newline =>
      if quoteEscape then .append c :: feedEvents flags true (some c) rest
      else
        match rest with
        | [] => [.record]
        | next :: rest =>
          if next = '\n' then .record :: feedEvents flags false (some next) rest
          else .record :: feedEvents flags false (some c) (next :: rest)
    | .quote =>
      if quoteEscape then
        match rest with
        | [] => [.append c]
        | next :: rest =>
          if (flags next).endsField then feedEvents flags false (some c) (next :: rest)
          else if flags next = .quote then .append c :: feedEvents flags true (some next) rest
          else .append c :: feedEvents flags true (some c) (next :: rest)
      else feedEvents flags (prev.any fun p => (flags p).endsField) (some c) rest

/-- `write_record` puts the row in progress into the queue. The column names and the rows that are
handed to `bad_row_handler` are copied. -/
def queuesRow (r : CSVReader) : Bool :=
  r.headerWasParsed && r.recordBuffer.splitBuffer.length + 1 == r.nCols

/-- No text outgrows the capacity behind a row of the queue. `size` is that of all the text in the
buffer, and `viewed` says that there is such a row. -/
def staysFrom (capacity : Nat) : (size : Nat) → (viewed : Bool) → CSVReader → List Event → Bool
  | _, _, _, [] => true
  | size, viewed, r, e :: es =>
    match e with
    | .append _ =>
      (!viewed || decide (size + 1 ≤ capacity)) && staysFrom capacity (size + 1) viewed (r.apply e) es
    | .split => staysFrom capacity size viewed (r.apply e) es
    | .record => staysFrom capacity size (viewed || r.queuesRow) (r.apply e) es

/-- A call of `feed` keeps the text of the rows that it puts into the queue. The capacity is the one
that `reserve` guarantees; the buffer may have more. -/
def RowsStay (delimiter : Char) (r : CSVReader) (input : Text) : Prop :=
  let size := r.recordBuffer.buffer.length
  staysFrom (max size input.length) size false r
    (feedEvents (parseFlags delimiter) false none input) = true

instance (delimiter : Char) (r : CSVReader) (input : Text) :
    Decidable (RowsStay delimiter r input) :=
  inferInstanceAs (Decidable (_ = true))

/-- `feed`, or none where rows lose their text, which C++ leaves undefined. -/
def feedStaying (delimiter : Char) (r : CSVReader) (input : Text) : Option CSVReader :=
  if RowsStay delimiter r input then some (feed delimiter r input) else none

end Csv.CSVReader
