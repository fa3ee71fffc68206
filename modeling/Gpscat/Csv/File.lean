import Gpscat.Csv.Reader

/-!
# CSV files

The constructor of `CSVReader` guesses the format from the first 500 KB of the file, and reads about
as much of it. The loop over the rows reads the rest, in larger parts. The thread that parses takes
the parts in order and is waited for, so it is a call.
-/

namespace Csv

open Cpp

/-! ## Guessing the format -/

/-- `GUESS_CSV.possible_delimiters`. -/
def possibleDelimiters : List Char := [',', '|', '\t', ';', '^']

/-- The variables of `first_guess`. -/
structure FirstGuess where
  currentDelim : Char := ','
  maxRows : Int := 0
  maxCols : Nat := 0

/-- One iteration of the loop of `first_guess`. -/
def FirstGuess.step (head : Text) (st : FirstGuess) (candDelim : Char) : FirstGuess :=
  let guesser := CSVReader.parse candDelim 0 head
  if guesser.rowNum ≥ st.maxRows ∧ guesser.colNames.length > st.maxCols then
    { currentDelim := candDelim
      maxRows := min guesser.correctRows 100
      maxCols := guesser.colNames.length }
  else st

/-- `first_guess`: the delimiter, and whether it is a good guess. -/
def firstGuess (head : Text) (delims : List Char) : Char × Bool :=
  let st := delims.foldl (FirstGuess.step head) {}
  (st.currentDelim, decide (st.maxRows > 10 ∧ st.maxCols > 2))

/-- `row_tally` and `row_when` once `bad_row_handler` has been called for the given rows. -/
def tally (badRows : List (Int × List Text)) : UnorderedMap Nat Nat × UnorderedMap Nat Int :=
  badRows.foldl (fun m bad =>
    let size := bad.2.length
    if (m.1.lookup size).isSome then (m.1.modify size 0 (· + 1), m.2)
    else (m.1.insert size 1, m.2.insert size (bad.1 + 1)))
    ((∅ : UnorderedMap Nat Nat).insert 0 0, (∅ : UnorderedMap Nat Int).insert 0 0)

/-- `std::max_element` by the second component: the first one of the largest. -/
def maxElement : List ((_ : Nat) × Nat) → (_ : Nat) × Nat
  | [] => ⟨0, 0⟩
  | e :: es =>
    es.foldl (fun best e => if best.2 < e.2 then e else best) e

/-- One iteration of the loop of `second_guess`, on `max_rlen` and `header`. Where several lengths
are equally frequent, the order of an unordered map decides; here it is that of the list. -/
def secondGuessStep (head : Text) (st : Nat × Int) (candDelim : Char) : Nat × Int :=
  let guess := CSVReader.parse candDelim 0 head
  let (rowTally, rowWhen) := tally guess.badRows
  let max := maxElement rowTally.entries
  if max.2 > guess.records.length ∧ max.1 > st.1 then (max.1, rowWhen.findD max.1 0) else st

/-- `second_guess`: the number of the header row. -/
def secondGuess (head : Text) (delims : List Char) : Int :=
  (delims.foldl (secondGuessStep head) (0, 0)).2

/-- `guess_delim`: the delimiter and the number of the header row. -/
def guessDelim (head : Text) (delims : List Char) : Char × Int :=
  let guess := firstGuess head delims
  (guess.1, if guess.2 then 0 else secondGuess head delims)

/-- `get_csv_head`: the first 500 KB, up to a `'\0'`. -/
def getCsvHead (file : Text) : Text := (file.take 500000).takeWhile (· ≠ '\x00')

/-! ## Reading -/

/-- What the calls `fgets(_, PAGE_SIZE, _)` read from a file, and whether they meet its end; `line`
is what the current call has read. `PAGE_SIZE` is `getpagesize()`. -/
def fgetsFrom (pageSize : Nat) : (line : Text) → Text → List (Text × Bool)
  | line, [] => if line.isEmpty then [] else [(line, true)]
  | line, c :: file =>
    if c = '\n' ∨ line.length + 1 = pageSize - 1 then
      (line ++ [c], false) :: fgetsFrom pageSize [] file
    else fgetsFrom pageSize (line ++ [c]) file

/-- The loop of `read_csv`: the parts for the parser, what is left in the file, and `feof`. `fgets`
writes over what a line holds behind a `'\0'`. -/
def readParts (bytes limit : Nat) :
    (buffer : Text) → (processed : Nat) → (feof : Bool) → List (Text × Bool) →
      List Text × List (Text × Bool) × Bool
  | buffer, processed, feof, [] => ([buffer], [], feof || decide (processed < bytes))
  | buffer, processed, feof, line :: lines =>
    if processed < bytes then
      let buffer := buffer ++ line.1.takeWhile (· ≠ '\x00')
      -- `0.9 * BUFFER_UPPER_LIMIT`
      if 9 * limit ≤ 10 * buffer.length then
        let parts := readParts bytes limit [] (processed + buffer.length) line.2 lines
        (buffer :: parts.1, parts.2)
      else readParts bytes limit buffer processed line.2 lines
    else ([buffer], line :: lines, feof)

/-- A reader with a file: what is left of it, until it is closed. -/
structure FileReader where
  delimiter : Char
  reader : CSVReader
  infile : Option (List (Text × Bool))

namespace FileReader

/-- `read_csv`, on an open file. The rows are taken to keep the text that they view. -/
def readCsv (r : FileReader) (bytes : Nat) : FileReader :=
  match r.infile with
  | none => r
  | some lines =>
    let (parts, rest, feof) := readParts bytes (min bytes 1000000) [] 0 false lines
    let reader := parts.foldl (CSVReader.feed r.delimiter) r.reader
    if feof then { r with reader := reader.endFeed, infile := none }
    else { r with reader := reader, infile := some rest }

/-- `CSVReader(filename)`, for the text of the file, or none when it cannot be opened. -/
def create (pageSize : Nat) (filename : Text) (file : Option Text) : Except Error FileReader :=
  match file with
  | none => .error (.runtimeError ("Cannot open file ".toList ++ filename))
  | some file =>
    let format := guessDelim (getCsvHead file) possibleDelimiters
    .ok (readCsv
      { delimiter := format.1
        reader := { headerRow := format.2.toNat }
        infile := some (fgetsFrom pageSize [] file) } 500000)

/-- `for(csv::CSVRow& row : reader)`, with the names of the columns for the body `f`. Each round is
one call of `read_csv`; `begin` and `read_row` take the first of the rows that it has left. -/
def forRows {σ : Type} (f : List Text → σ → CSVRow → Except Error σ) :
    (rounds : Nat) → FileReader → σ → Except Error σ
  | 0, _, _ => .error .noRow
  | rounds + 1, r, s =>
    if r.reader.records = [] then .error .noRow
    else do
      let s ← r.reader.records.foldlM (f r.reader.colNames) s
      match r.infile with
      | none => .ok s
      | some _ => forRows f rounds ({ r with reader.records := [] }.readCsv 50000000) s

/-- There are no more rounds than lines in the file, and one for its end. -/
def rounds (file : Text) : Nat := file.length + 2

end FileReader

end Csv
