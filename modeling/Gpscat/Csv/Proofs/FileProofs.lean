import Gpscat.Csv.File
import Gpscat.Csv.Proofs.RowProofs
import Mathlib.Data.List.TakeWhile

/-!
# Guessing and reading a table

A delimiter that does not occur makes a table of one column, without rows of another length. So none
of the other candidates is preferred to the delimiter of the table, and none moves the header.
-/

namespace Csv

open Cpp

/-! ## Candidates that do not occur -/

/-- No row has had more than one column. -/
structure CSVReader.SingleColumn (r : CSVReader) : Prop where
  splitBuffer : r.recordBuffer.splitBuffer = []
  badRows : r.badRows = []
  colNames : r.colNames.length ≤ 1

namespace CSVReader

variable {r : CSVReader}

theorem SingleColumn.append (h : r.SingleColumn) (s : Text) : (r.append s).SingleColumn :=
  ⟨h.splitBuffer, h.badRows, h.colNames⟩

theorem SingleColumn.writeRecord (h : r.SingleColumn) : r.writeRecord.SingleColumn := by
  obtain ⟨hsplits, hbad, hnames⟩ := h
  have hlen : (CSVRow.ofBuffer r.recordBuffer).toVector.length = 1 := by
    rw [CSVRow.toVector, List.length_map, List.length_range, CSVRow.size, CSVRow.ofBuffer, hsplits]
    rfl
  have hsize : ¬ r.recordBuffer.splitBuffer.length > 0 := by
    rw [hsplits]
    exact Nat.lt_irrefl 0
  simp only [CSVReader.writeRecord, if_neg hsize]
  split_ifs
  · exact ⟨rfl, hbad, hnames⟩
  · exact ⟨hsplits, hbad, hnames⟩
  · exact ⟨rfl, hbad, hlen.le⟩
  · exact ⟨hsplits, hbad, hnames⟩

/-- A delimiter that does not occur in the text. -/
theorem parse_of_absent {delim : Char} {text : Text} (habsent : delim ∉ text) :
    (parse delim 0 text).SingleColumn := by
  have hflag : ∀ c ∈ text, parseFlags delim c ≠ .delimiter := by
    intro c hc hflag
    have hne : c ≠ delim := fun h => habsent (h ▸ hc)
    rw [parseFlags, if_neg hne] at hflag
    split_ifs at hflag
  have hfed : (feedFrom (parseFlags delim) {} false none text).SingleColumn :=
    feedFrom_invariant (fun _ s h => h.append s) (fun _ h => h.writeRecord)
      (fun c hc hdelim => absurd hdelim (hflag c hc)) ⟨rfl, rfl, Nat.zero_le 1⟩
  exact hfed.writeRecord

end CSVReader

/-! ## The guess -/

/-- Without rows of another length, the header stays where it is. -/
theorem secondGuessStep_of_badRows {head : Text} {candDelim : Char}
    (hbad : (CSVReader.parse candDelim 0 head).badRows = []) (st : Nat × Int) :
    secondGuessStep head st candDelim = st := by
  have hcount : ¬ (0 > (CSVReader.parse candDelim 0 head).records.length ∧ 0 > st.1) := fun h =>
    absurd h.1 (Nat.not_lt_zero _)
  rw [secondGuessStep, hbad]
  exact if_neg hcount

theorem secondGuess_of_badRows {head : Text} {delims : List Char}
    (hbad : ∀ d ∈ delims, (CSVReader.parse d 0 head).badRows = []) : secondGuess head delims = 0 := by
  have hfold : delims.foldl (secondGuessStep head) (0, 0) = (0, 0) := by
    induction delims with
    | nil => rfl
    | cons d delims ih =>
      rw [List.foldl_cons, secondGuessStep_of_badRows (hbad d List.mem_cons_self)]
      exact ih fun d' hd' => hbad d' (List.mem_cons_of_mem _ hd')
  rw [secondGuess, hfold]

/-- A candidate that does not occur is not preferred to one with a column. -/
theorem FirstGuess.step_of_absent {head : Text} {candDelim : Char} (habsent : candDelim ∉ head)
    {st : FirstGuess} (hcols : 1 ≤ st.maxCols) : FirstGuess.step head st candDelim = st := by
  have hnames := (CSVReader.parse_of_absent habsent).colNames
  exact if_neg fun h => absurd h.2 (by omega)

theorem FirstGuess.foldl_of_absent {head : Text} {delims : List Char}
    (habsent : ∀ d ∈ delims, d ∉ head) {st : FirstGuess} (hcols : 1 ≤ st.maxCols) :
    delims.foldl (FirstGuess.step head) st = st := by
  induction delims with
  | nil => rfl
  | cons d delims ih =>
    rw [List.foldl_cons, FirstGuess.step_of_absent (habsent d List.mem_cons_self) hcols]
    exact ih fun d' hd' => habsent d' (List.mem_cons_of_mem _ hd')

/-- The guess for a text with commas, but without the other candidates. -/
theorem guessDelim_eq {head : Text} (hcols : 1 ≤ (CSVReader.parse ',' 0 head).colNames.length)
    (hrows : 0 ≤ (CSVReader.parse ',' 0 head).rowNum)
    (hbad : (CSVReader.parse ',' 0 head).badRows = [])
    (habsent : ∀ d ∈ possibleDelimiters, d ≠ ',' → d ∉ head) :
    guessDelim head possibleDelimiters = (',', 0) := by
  have hfirst : (firstGuess head possibleDelimiters).1 = ',' := by
    have hcomma : FirstGuess.step head {} ',' =
        { currentDelim := ','
          maxRows := min (CSVReader.parse ',' 0 head).correctRows 100
          maxCols := (CSVReader.parse ',' 0 head).colNames.length } :=
      if_pos ⟨hrows, hcols⟩
    have hcons : possibleDelimiters = ',' :: ['|', '\t', ';', '^'] := rfl
    have hothers : ∀ d ∈ ['|', '\t', ';', '^'], d ∉ head := by
      intro d hd
      refine habsent d (List.mem_cons_of_mem _ hd) ?_
      rintro rfl
      exact absurd hd (by decide)
    rw [firstGuess, hcons, List.foldl_cons, hcomma, FirstGuess.foldl_of_absent hothers hcols]
  have hsecond : secondGuess head possibleDelimiters = 0 := by
    refine secondGuess_of_badRows fun d hd => ?_
    by_cases hcomma : d = ','
    · rwa [hcomma]
    · exact (CSVReader.parse_of_absent (habsent d hd hcomma)).badRows
  rw [guessDelim, hfirst, hsecond, ite_self]

/-! ## Reading a file -/

theorem takeWhile_nul {s : Text} (hnul : '\x00' ∉ s) : s.takeWhile (· ≠ '\x00') = s := by
  rw [List.takeWhile_eq_self_iff]
  intro c hc
  have hne : c ≠ '\x00' := fun h => hnul (h ▸ hc)
  simp [hne]

theorem getCsvHead_eq {file : Text} (hlen : file.length ≤ 500000) (hnul : '\x00' ∉ file) :
    getCsvHead file = file := by
  rw [getCsvHead, List.take_of_length_le hlen, takeWhile_nul hnul]

theorem flatten_fgetsFrom (pageSize : Nat) (line file : Text) :
    ((fgetsFrom pageSize line file).map Prod.fst).flatten = line ++ file := by
  induction file generalizing line with
  | nil =>
    rw [fgetsFrom, List.append_nil]
    split_ifs with hempty
    · rw [List.isEmpty_iff.mp hempty]
      rfl
    · simp
  | cons c file ih =>
    rw [fgetsFrom]
    split_ifs
    · simp [ih]
    · simp [ih]

/-- A file that is smaller than a part is read at once, up to its end. -/
theorem readParts_eq {bytes limit : Nat} (hbytes : 0 < bytes) {lines : List (Text × Bool)}
    {buffer : Text} (feof : Bool) (hnul : ∀ line ∈ lines, '\x00' ∉ line.1)
    (hlen : 10 * (buffer ++ (lines.map Prod.fst).flatten).length < 9 * limit) :
    readParts bytes limit buffer 0 feof lines =
      ([buffer ++ (lines.map Prod.fst).flatten], [], true) := by
  induction lines generalizing buffer feof with
  | nil => simp [readParts, hbytes]
  | cons line lines ih =>
    have hline := takeWhile_nul (hnul line List.mem_cons_self)
    have hrest := @ih (buffer ++ line.1) line.2
      (fun line' hline' => hnul line' (List.mem_cons_of_mem _ hline')) (by simpa using hlen)
    have hsmall : ¬ 9 * limit ≤ 10 * (buffer ++ line.1).length := by
      simp only [List.map_cons, List.flatten_cons, List.length_append] at hlen ⊢
      omega
    rw [readParts, if_pos hbytes]
    dsimp only
    rw [hline, if_neg hsmall, hrest]
    simp

/-- A file of less than 450 KB is parsed at once. -/
theorem create_eq (pageSize : Nat) (filename : Text) {file : Text} (hlen : file.length < 450000)
    (hnul : '\x00' ∉ file) {delim : Char} (hguess : guessDelim file possibleDelimiters = (delim, 0)) :
    FileReader.create pageSize filename (some file) =
      .ok { delimiter := delim, reader := CSVReader.parse delim 0 file, infile := none } := by
  have hlines : ∀ line ∈ fgetsFrom pageSize [] file, '\x00' ∉ line.1 := by
    intro line hline hmem
    have hflat : '\x00' ∈ ((fgetsFrom pageSize [] file).map Prod.fst).flatten :=
      List.mem_flatten.mpr ⟨line.1, List.mem_map_of_mem hline, hmem⟩
    rw [flatten_fgetsFrom] at hflat
    exact hnul hflat
  have hparts : readParts 500000 (min 500000 1000000) [] 0 false (fgetsFrom pageSize [] file) =
      ([file], [], true) := by
    rw [readParts_eq (by decide) false hlines]
    · rw [flatten_fgetsFrom]
      rfl
    · rw [flatten_fgetsFrom]
      have hlimit : min 500000 1000000 = 500000 := rfl
      simp only [List.nil_append, hlimit]
      omega
  rw [FileReader.create, getCsvHead_eq (by omega) hnul, hguess]
  simp only [FileReader.readCsv, hparts]
  rfl

/-- The loop over the rows of a file that has been read up to its end. -/
theorem forRows_closed {σ : Type} (f : List Text → σ → CSVRow → Except Error σ) (rounds : Nat)
    {r : FileReader} (hclosed : r.infile = none) (s : σ) :
    FileReader.forRows f (rounds + 1) r s =
      if r.reader.records = [] then .error .noRow
      else r.reader.records.foldlM (f r.reader.colNames) s := by
  rw [FileReader.forRows, hclosed]
  split_ifs
  · rfl
  · cases r.reader.records.foldlM (f r.reader.colNames) s with
    | error => rfl
    | ok => rfl

end Csv
