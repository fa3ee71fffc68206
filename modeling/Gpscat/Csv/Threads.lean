import Gpscat.Csv.File
import Gpscat.Lib.WorkQueue

/-!
# The two threads of `read_csv`

The thread that calls `read_csv` reads the file, and `read_csv_worker` parses the parts that it gets
through `feed_buffer`, which `feed_lock` protects. The end mark is the null pointer.
-/

namespace Csv

open Cpp WorkQueue

/-- The variables of the loop of `read_csv`: `buffer` up to `line_buffer`, and the file. -/
structure ReadLoop where
  buffer : Text := []
  processed : Nat := 0
  feof : Bool := false
  infile : List (Text × Bool)
  deriving Repr, DecidableEq

/-- From one test of `processed < bytes` to the next one, or to the next part for the worker. -/
def readLoop (bytes limit : Nat) (st : ReadLoop) : Produce ReadLoop Text :=
  if st.processed < bytes then
    match st.infile with
    | [] => .last st.buffer { st with feof := true }
    | line :: infile =>
      let buffer := st.buffer ++ line.1.takeWhile (· ≠ '\x00')
      -- `0.9 * BUFFER_UPPER_LIMIT`
      if 9 * limit ≤ 10 * buffer.length then
        .item buffer
          { buffer := [], processed := st.processed + buffer.length, feof := line.2, infile := infile }
      else .go { st with buffer := buffer, feof := line.2, infile := infile }
  else .last st.buffer st

/-- `BUFFER_UPPER_LIMIT`. -/
def bufferUpperLimit (bytes : Nat) : Nat := min bytes 1000000

/-- What is left in a file. -/
def unread (infile : List (Text × Bool)) : Text := (infile.map Prod.fst).flatten

/-- The parts that a call of `read_csv` makes of the file. -/
def fileParts (bytes : Nat) (infile : List (Text × Bool)) : List Text :=
  (readParts bytes (bufferUpperLimit bytes) [] 0 false infile).1

/-- `read_csv` and `read_csv_worker`. -/
def readCsvThreads (delimiter : Char) (bytes : Nat) : System ReadLoop Text CSVReader where
  produce := readLoop bytes (bufferUpperLimit bytes)
  consume := CSVReader.feed delimiter

namespace FileReader

/-- The two threads when the worker is started. -/
def startThreads (r : FileReader) (infile : List (Text × Bool)) : State ReadLoop Text CSVReader where
  source := { infile := infile }
  result := r.reader

/-- `read_csv` behind `worker.join()`. -/
def joinedThreads (r : FileReader) (s : State ReadLoop Text CSVReader) : FileReader :=
  if s.source.feof then { r with reader := s.result.endFeed, infile := none }
  else { r with reader := s.result, infile := some s.source.infile }

end FileReader

end Csv
