import Gpscat.Csv.Table

/-!
# What the parser makes of a table

One lemma for each kind of text that a table consists of: plain text, a quoted field, a field, the
fields of a row, line ends. Each says what the parser does with the text, whatever follows it.
-/

namespace Csv

open Cpp

theorem Terminated.tail {delim : Char} {l : Line} {ls : List Line} (h : Terminated delim (l :: ls)) :
    Terminated delim ls := by
  cases ls with
  | nil => exact trivial
  | cons l' ls => exact h.2

namespace CSVReader

/-! ## Appending -/

theorem append_nil (r : CSVReader) : r.append [] = r := by
  simp [append]

theorem append_append (r : CSVReader) (s t : Text) : (r.append s).append t = r.append (s ++ t) := by
  simp [append]

/-- The fields of a row appended one after the other. -/
def appendFields : CSVReader → List Text → CSVReader
  | r, [] => r
  | r, [field] => r.append field
  | r, field :: fields => (r.append field).pushSplit.appendFields fields

theorem appendFields_eq (fields : List Text) (r : CSVReader) :
    r.appendFields fields =
      { r with
        recordBuffer :=
          { buffer := r.recordBuffer.buffer ++ fields.flatten
            splitBuffer :=
              r.recordBuffer.splitBuffer ++ splitsFrom r.recordBuffer.buffer.length fields } } := by
  induction fields generalizing r with
  | nil => simp [appendFields, splitsFrom]
  | cons field fields ih =>
    cases fields with
    | nil => simp [appendFields, splitsFrom, append]
    | cons next fields =>
      rw [appendFields, ih]
      · simp [splitsFrom, append, pushSplit]
      · simp

/-! ## Steps -/

section Feed

variable {flags : Char → ParseFlags} {r : CSVReader} {prev : Option Char} {c next : Char}
  {quoteEscape : Bool} {rest : Text}

theorem feedFrom_nil : feedFrom flags r quoteEscape prev [] = r := by
  rw [feedFrom]

theorem feedFrom_notSpecial (hc : flags c = .notSpecial) :
    feedFrom flags r quoteEscape prev (c :: rest) =
      feedFrom flags (r.append [c]) quoteEscape (some c) rest := by
  rw [feedFrom.eq_def]
  simp only [hc]

/-- Between quotes, only a quote is special. -/
theorem feedFrom_quoted (hc : flags c ≠ .quote) :
    feedFrom flags r true prev (c :: rest) =
      feedFrom flags (r.append [c]) true (some c) rest := by
  rw [feedFrom.eq_def]
  cases hflag : flags c with
  | quote => exact absurd hflag hc
  | notSpecial => simp only [hflag]
  | delimiter => simp only [hflag, if_true]
  | newline => simp only [hflag, if_true]

theorem feedFrom_delimiter (hc : flags c = .delimiter) :
    feedFrom flags r false prev (c :: rest) = feedFrom flags r.pushSplit false (some c) rest := by
  rw [feedFrom.eq_def]
  simp only [hc, Bool.false_eq_true, if_false]

/-- A line feed behind a newline belongs to it. -/
theorem feedFrom_newline_lf (hc : flags c = .newline) :
    feedFrom flags r false prev (c :: '\n' :: rest) =
      feedFrom flags r.writeRecord false (some '\n') rest := by
  rw [feedFrom.eq_def]
  simp only [hc, Bool.false_eq_true, if_false, if_true]

theorem feedFrom_newline (hc : flags c = .newline) (hrest : rest.head? ≠ some '\n') :
    feedFrom flags r false prev (c :: rest) = feedFrom flags r.writeRecord false (some c) rest := by
  rw [feedFrom.eq_def]
  simp only [hc, Bool.false_eq_true, if_false]
  cases rest with
  | nil => rw [feedFrom_nil]
  | cons next rest =>
    have hne : next ≠ '\n' := fun h => hrest (congrArg some h)
    simp only [if_neg hne]

theorem feedFrom_open (hc : flags c = .quote) :
    feedFrom flags r false prev (c :: rest) =
      feedFrom flags r (prev.any fun p => (flags p).endsField) (some c) rest := by
  rw [feedFrom.eq_def]
  simp only [hc, Bool.false_eq_true, if_false]

theorem feedFrom_close (hc : flags c = .quote) (hnext : (flags next).endsField = true) :
    feedFrom flags r true prev (c :: next :: rest) =
      feedFrom flags r false (some c) (next :: rest) := by
  rw [feedFrom.eq_def]
  simp only [hc, hnext, if_true]

theorem feedFrom_double (hc : flags c = .quote) (hnext : flags next = .quote) :
    feedFrom flags r true prev (c :: next :: rest) =
      feedFrom flags (r.append [c]) true (some next) rest := by
  rw [feedFrom.eq_def]
  simp [hc, hnext, ParseFlags.endsField]

/-- What is kept by appending, by writing a record, and by splitting if there is a delimiter, is kept
by the loop. -/
theorem feedFrom_invariant {P : CSVReader → Prop} (happend : ∀ r s, P r → P (r.append s))
    (hwrite : ∀ r, P r → P r.writeRecord) {text : Text}
    (hsplit : ∀ c ∈ text, flags c = .delimiter → ∀ r, P r → P r.pushSplit) (hr : P r) :
    P (feedFrom flags r quoteEscape prev text) := by
  fun_induction feedFrom flags r quoteEscape prev text with
  | case1 => exact hr
  | case2 _ _ _ c _ _ ih =>
    exact ih (fun d hd => hsplit d (List.mem_cons_of_mem _ hd)) (happend _ _ hr)
  | case3 _ _ c _ _ ih =>
    exact ih (fun d hd => hsplit d (List.mem_cons_of_mem _ hd)) (happend _ _ hr)
  | case4 _ _ _ c _ hc _ ih =>
    exact ih (fun d hd => hsplit d (List.mem_cons_of_mem _ hd))
      (hsplit c List.mem_cons_self hc _ hr)
  | case5 _ _ c _ _ ih =>
    exact ih (fun d hd => hsplit d (List.mem_cons_of_mem _ hd)) (happend _ _ hr)
  | case6 => exact hwrite _ hr
  | case7 _ _ _ c _ _ _ ih =>
    exact ih (fun d hd => hsplit d (List.mem_cons_of_mem _ (List.mem_cons_of_mem _ hd)))
      (hwrite _ hr)
  | case8 _ _ _ c _ _ _ _ _ ih =>
    exact ih (fun d hd => hsplit d (List.mem_cons_of_mem _ hd)) (hwrite _ hr)
  | case9 => exact happend _ _ hr
  | case10 _ _ c _ _ _ _ ih =>
    exact ih (fun d hd => hsplit d (List.mem_cons_of_mem _ hd)) hr
  | case11 _ _ c _ _ _ _ _ ih =>
    exact ih (fun d hd => hsplit d (List.mem_cons_of_mem _ (List.mem_cons_of_mem _ hd)))
      (happend _ _ hr)
  | case12 _ _ c _ _ _ _ _ ih =>
    exact ih (fun d hd => hsplit d (List.mem_cons_of_mem _ hd)) (happend _ _ hr)
  | case13 _ _ _ c _ _ _ ih =>
    exact ih (fun d hd => hsplit d (List.mem_cons_of_mem _ hd)) hr

/-- Plain text. -/
theorem feedFrom_text {s : Text} (hs : ∀ c ∈ s, flags c = .notSpecial) :
    ∃ prev', feedFrom flags r quoteEscape prev (s ++ rest) =
      feedFrom flags (r.append s) quoteEscape prev' rest := by
  induction s generalizing r prev with
  | nil => exact ⟨prev, by rw [append_nil]; rfl⟩
  | cons c s ih =>
    obtain ⟨prev', hprev⟩ := @ih (r.append [c]) (some c)
      fun c' hc' => hs c' (List.mem_cons_of_mem _ hc')
    refine ⟨prev', ?_⟩
    rw [List.cons_append, feedFrom_notSpecial (hs c List.mem_cons_self), hprev, append_append]
    rfl

end Feed

/-! ## Fields -/

section Fields

variable {delim : Char} (hdelim : delim ≠ '"' ∧ delim ≠ '\r' ∧ delim ≠ '\n') {r : CSVReader}
  {prev : Option Char}

theorem parseFlags_delim (delim : Char) : parseFlags delim delim = .delimiter := if_pos rfl

theorem parseFlags_quote (hdelim : delim ≠ '"') : parseFlags delim '"' = .quote := by
  rw [parseFlags, if_neg hdelim.symm, if_pos rfl]

theorem parseFlags_newline (hdelim : delim ≠ '"' ∧ delim ≠ '\r' ∧ delim ≠ '\n') {c : Char}
    (hc : c = '\r' ∨ c = '\n') : parseFlags delim c = .newline := by
  have hne : c ≠ delim ∧ c ≠ '"' := by
    rcases hc with rfl | rfl
    · exact ⟨hdelim.2.1.symm, by decide⟩
    · exact ⟨hdelim.2.2.symm, by decide⟩
  rw [parseFlags, if_neg hne.1, if_neg hne.2, if_pos hc]

theorem parseFlags_ne_quote {c : Char} (hc : c ≠ '"') : parseFlags delim c ≠ .quote := by
  unfold parseFlags
  split_ifs <;> simp

theorem parseFlags_plain {c : Char} (hquote : c ≠ '"') (hdelim : c ≠ delim)
    (hends : c ≠ '\r' ∧ c ≠ '\n') : parseFlags delim c = .notSpecial := by
  simp [parseFlags, hquote, hdelim, hends]

/-- Between quotes, every character counts for itself, and two quotes for one. -/
theorem feedFrom_escaped (r : CSVReader) (prev : Option Char) (hdelim : delim ≠ '"')
    (field rest : Text) :
    ∃ prev', feedFrom (parseFlags delim) r true prev (escaped field ++ rest) =
      feedFrom (parseFlags delim) (r.append field) true prev' rest := by
  induction field generalizing r prev with
  | nil => exact ⟨prev, by rw [append_nil]; rfl⟩
  | cons c field ih =>
    by_cases hc : c = '"'
    · subst hc
      obtain ⟨prev', hprev⟩ := @ih (r.append ['"']) (some '"')
      refine ⟨prev', ?_⟩
      have hquote := parseFlags_quote hdelim
      have htext : escaped ('"' :: field) ++ rest = '"' :: '"' :: (escaped field ++ rest) := rfl
      rw [htext, feedFrom_double hquote hquote, hprev, append_append]
      rfl
    · obtain ⟨prev', hprev⟩ := @ih (r.append [c]) (some c)
      refine ⟨prev', ?_⟩
      have htext : escaped (c :: field) ++ rest = c :: (escaped field ++ rest) := by
        simp [escaped, hc]
      rw [htext, feedFrom_quoted (parseFlags_ne_quote hc), hprev, append_append]
      rfl

/-- The text goes on with a delimiter or a newline, or it ends. At the end of the text, a quote does
not close a field. -/
def FieldEnds (delim : Char) (field rest : Text) : Prop :=
  (∃ c ∈ rest.head?, (parseFlags delim c).endsField = true) ∨
    rest = [] ∧ needsQuotes delim field = false

/-- A quote behind `prev` opens a quoted field. -/
def OpensQuotes (delim : Char) (prev : Option Char) : Prop :=
  prev.any (fun p => (parseFlags delim p).endsField) = true

theorem feedFrom_field (hdelim : delim ≠ '"') {field rest : Text}
    (hread : Readable delim field) (hrest : FieldEnds delim field rest)
    (hprev : needsQuotes delim field = true →
      OpensQuotes delim prev) :
    ∃ prev', feedFrom (parseFlags delim) r false prev (csvEscape delim field ++ rest) =
      feedFrom (parseFlags delim) (r.append field) false prev' rest := by
  by_cases hquotes : needsQuotes delim field = true
  · have hquote := parseFlags_quote hdelim
    have htext : csvEscape delim field ++ rest = '"' :: (escaped field ++ '"' :: rest) := by
      simp [csvEscape, hquotes]
    obtain ⟨prev', hbody⟩ := feedFrom_escaped r (some '"') hdelim field ('"' :: rest)
    refine ⟨some '"', ?_⟩
    rcases hrest with ⟨c, hc, hends⟩ | ⟨-, hnot⟩
    · cases rest with
      | nil => cases hc
      | cons d rest =>
        obtain rfl : d = c := Option.some.inj hc
        have hopen : prev.any (fun p => (parseFlags delim p).endsField) = true := hprev hquotes
        rw [htext, feedFrom_open hquote, hopen, hbody, feedFrom_close hquote hends]
    · rw [hquotes] at hnot
      cases hnot
  · rw [Bool.not_eq_true] at hquotes
    have hplain : ∀ d ∈ field, parseFlags delim d = .notSpecial := by
      intro d hd
      obtain ⟨hcr, hlf⟩ := hread hquotes
      rw [needsQuotes, List.any_eq_false] at hquotes
      have hspecial := hquotes d hd
      refine parseFlags_plain (fun h => ?_) (fun h => ?_) ⟨fun h => ?_, fun h => ?_⟩
      · exact hspecial (by simp [h])
      · exact hspecial (by simp [h])
      · exact hcr (h ▸ hd)
      · exact hlf (h ▸ hd)
    have htext : csvEscape delim field = field := by
      simp [csvEscape, hquotes]
    rw [htext]
    exact feedFrom_text hplain

/-! ## Rows -/

theorem feedFrom_fields (hdelim : delim ≠ '"') {fields : List Text} {rest : Text}
    (hread : ∀ field ∈ fields, Readable delim field)
    (hrest : ∀ field ∈ fields.getLast?, FieldEnds delim field rest)
    (hprev : ∀ field ∈ fields.head?, needsQuotes delim field = true →
      OpensQuotes delim prev) :
    ∃ prev', feedFrom (parseFlags delim) r false prev (writeFields delim fields ++ rest) =
      feedFrom (parseFlags delim) (r.appendFields fields) false prev' rest := by
  induction fields generalizing r prev with
  | nil => exact ⟨prev, rfl⟩
  | cons field fields ih =>
    have hfirst := hread field List.mem_cons_self
    cases fields with
    | nil => exact feedFrom_field hdelim hfirst (hrest field rfl) (hprev field rfl)
    | cons next fields =>
      have hends : (parseFlags delim delim).endsField = true := by
        rw [parseFlags_delim]
        rfl
      have hdelimiter : FieldEnds delim field (delim :: (writeFields delim (next :: fields) ++ rest)) :=
        .inl ⟨delim, rfl, hends⟩
      obtain ⟨prev', hfield⟩ := feedFrom_field (r := r) hdelim hfirst hdelimiter (hprev field rfl)
      obtain ⟨prev'', hfields⟩ := @ih (r.append field).pushSplit (some delim)
        (fun f hf => hread f (List.mem_cons_of_mem _ hf)) hrest (fun _ _ _ => hends)
      refine ⟨prev'', ?_⟩
      have htext : writeFields delim (field :: next :: fields) ++ rest =
          csvEscape delim field ++ delim :: (writeFields delim (next :: fields) ++ rest) := by
        simp [writeFields]
      rw [htext, hfield, feedFrom_delimiter (parseFlags_delim delim), hfields]
      rfl

/-! ## Line ends -/

/-- No field is complete. Then a record is not a row when there are columns enough. -/
structure Blank (r : CSVReader) : Prop where
  splitBuffer : r.recordBuffer.splitBuffer = []
  headerWasParsed : r.headerWasParsed = true
  nCols : 2 ≤ r.nCols

theorem Blank.writeRecord (hr : r.Blank) : r.writeRecord = r := by
  have hne : ¬ 0 + 1 = r.nCols := by
    have := hr.nCols
    omega
  simp [CSVReader.writeRecord, hr.headerWasParsed, hr.splitBuffer, hne]

/-- More line ends change nothing. -/
theorem feedFrom_ends (hdelim : delim ≠ '"' ∧ delim ≠ '\r' ∧ delim ≠ '\n') (hr : r.Blank)
    {ends rest : Text} (hends : ∀ c ∈ ends, c = '\r' ∨ c = '\n') (hrest : rest.head? ≠ some '\n')
    (hprev : OpensQuotes delim prev) :
    ∃ prev', OpensQuotes delim prev' ∧
      feedFrom (parseFlags delim) r false prev (ends ++ rest) =
        feedFrom (parseFlags delim) r false prev' rest := by
  have hnewline : ∀ c ∈ ends, parseFlags delim c = .newline := fun c hc =>
    parseFlags_newline hdelim (hends c hc)
  have hafter : ∀ c, parseFlags delim c = .newline →
      OpensQuotes delim (some c) := by
    intro c hc
    rw [OpensQuotes, Option.any_some, hc]
    rfl
  induction ends using List.twoStepInduction generalizing prev with
  | nil => exact ⟨prev, hprev, rfl⟩
  | singleton c =>
    have hc := hnewline c List.mem_cons_self
    refine ⟨some c, hafter c hc, ?_⟩
    rw [List.singleton_append, feedFrom_newline hc hrest, hr.writeRecord]
  | cons_cons c d ends ih ih' =>
    have hc := hnewline c List.mem_cons_self
    have hd := hnewline d (List.mem_cons_of_mem _ List.mem_cons_self)
    by_cases hlf : d = '\n'
    · subst hlf
      obtain ⟨prev', hprev', hfeed⟩ := ih
        (fun x hx => hends x (List.mem_cons_of_mem _ (List.mem_cons_of_mem _ hx))) (hafter _ hd)
        (fun x hx => hnewline x (List.mem_cons_of_mem _ (List.mem_cons_of_mem _ hx)))
      refine ⟨prev', hprev', ?_⟩
      rw [List.cons_append, List.cons_append, feedFrom_newline_lf hc, hr.writeRecord, hfeed]
    · obtain ⟨prev', hprev', hfeed⟩ := ih' d
        (fun x hx => hends x (List.mem_cons_of_mem _ hx)) (hafter _ hc)
        (fun x hx => hnewline x (List.mem_cons_of_mem _ hx))
      refine ⟨prev', hprev', ?_⟩
      have hhead : (d :: ends ++ rest).head? ≠ some '\n' := fun h => hlf (Option.some.inj h)
      rw [List.cons_append, feedFrom_newline hc hhead, hr.writeRecord, hfeed]

/-- The line ends behind a row: the first one writes it. -/
theorem feedFrom_lineEnds (hdelim : delim ≠ '"' ∧ delim ≠ '\r' ∧ delim ≠ '\n')
    (prev : Option Char) (hr : r.writeRecord.Blank) {c : Char} {ends rest : Text}
    (hends : ∀ d ∈ c :: ends, d = '\r' ∨ d = '\n') (hrest : rest.head? ≠ some '\n') :
    ∃ prev', OpensQuotes delim prev' ∧
      feedFrom (parseFlags delim) r false prev (c :: ends ++ rest) =
        feedFrom (parseFlags delim) r.writeRecord false prev' rest := by
  have hc := parseFlags_newline hdelim (hends c List.mem_cons_self)
  have hopens : ∀ d ∈ c :: ends, OpensQuotes delim (some d) := by
    intro d hd
    rw [OpensQuotes, Option.any_some, parseFlags_newline hdelim (hends d hd)]
    rfl
  cases ends with
  | nil =>
    refine ⟨some c, hopens c List.mem_cons_self, ?_⟩
    rw [List.singleton_append, feedFrom_newline hc hrest]
  | cons d ends =>
    have hmem : d ∈ c :: d :: ends := List.mem_cons_of_mem _ List.mem_cons_self
    by_cases hlf : d = '\n'
    · subst hlf
      obtain ⟨prev', hprev', hfeed⟩ := feedFrom_ends hdelim hr
        (fun x hx => hends x (List.mem_cons_of_mem _ (List.mem_cons_of_mem _ hx))) hrest
        (hopens _ hmem)
      refine ⟨prev', hprev', ?_⟩
      rw [List.cons_append, List.cons_append, feedFrom_newline_lf hc, hfeed]
    · obtain ⟨prev', hprev', hfeed⟩ := feedFrom_ends hdelim hr
        (fun x hx => hends x (List.mem_cons_of_mem _ hx)) hrest (hopens c List.mem_cons_self)
      refine ⟨prev', hprev', ?_⟩
      have hhead : (d :: ends ++ rest).head? ≠ some '\n' := fun h => hlf (Option.some.inj h)
      rw [List.cons_append, feedFrom_newline hc hhead, hfeed]

end Fields

/-! ## Tables -/

theorem length_splitsFrom (pos : Nat) (fields : List Text) :
    (splitsFrom pos fields).length = fields.length - 1 := by
  induction fields generalizing pos with
  | nil => rfl
  | cons field fields ih =>
    cases fields with
    | nil => rfl
    | cons next fields =>
      rw [splitsFrom, List.length_cons, ih]
      · simp
      · simp

section Tables

variable {delim : Char} {k : Nat}

theorem size_rowOf {fields : List Text} (hpos : 0 < fields.length) (hlt : fields.length < 2 ^ 16) :
    (rowOf fields).size = fields.length := by
  have hlen : (splitsFrom 0 fields).length + 1 = fields.length := by
    rw [length_splitsFrom]
    omega
  show (BitVec.ofNat 16 ((splitsFrom 0 fields).length + 1)).toNat = _
  rw [hlen, BitVec.toNat_ofNat, Nat.mod_eq_of_lt hlt]

/-- A parser that has read the header and some rows, and goes on with pending text. -/
theorem tableReader_blank {header : List Text} (hcols : 2 ≤ header.length)
    (rows : List (List Text)) (pending : Text) :
    ((tableReader header rows).append pending).Blank :=
  ⟨rfl, rfl, hcols⟩

theorem append_appendFields (r : CSVReader) (pending field : Text) (fields : List Text) :
    (r.append pending).appendFields (field :: fields) =
      r.appendFields ((pending ++ field) :: fields) := by
  cases fields with
  | nil => exact append_append r pending field
  | cons next fields =>
    show ((r.append pending).append field).pushSplit.appendFields (next :: fields) = _
    rw [append_append]
    rfl

theorem writeRecord_row {header fields : List Text} (hlen : fields.length = header.length)
    (hcols : 2 ≤ header.length) (rows : List (List Text)) :
    ((tableReader header rows).appendFields fields).writeRecord =
      tableReader header (rows ++ [fields]) := by
  have hsplits : (splitsFrom 0 fields).length + 1 = header.length := by
    rw [length_splitsFrom]
    omega
  rw [appendFields_eq]
  simp [writeRecord, tableReader, hsplits, rowOf]

theorem writeRecord_header {header : List Text} (hpos : 0 < header.length)
    (hlt : header.length < 2 ^ 16) :
    (({} : CSVReader).appendFields header).writeRecord = tableReader header [] := by
  have hnames : (rowOf header).toVector.length = header.length := by
    rw [CSVRow.toVector, List.length_map, List.length_range, size_rowOf hpos hlt]
  have hrow : CSVRow.ofBuffer ⟨header.flatten, splitsFrom 0 header⟩ = rowOf header := rfl
  rw [appendFields_eq]
  simp [writeRecord, setColNames, tableReader, hrow, hnames]

theorem head_csvEscape {field : Text} (hread : Readable delim field) :
    (csvEscape delim field).head? ≠ some '\n' := by
  unfold csvEscape
  by_cases hquotes : needsQuotes delim field = true
  · rw [if_pos hquotes]
    simp
  · rw [if_neg hquotes]
    rw [Bool.not_eq_true] at hquotes
    intro hhead
    exact (hread hquotes).2 (List.mem_of_mem_head? hhead)

/-- Only a blank line begins with a line feed. -/
theorem head_writeFields (hdelim : delim ≠ '\n') {fields : List Text}
    (hread : ∀ field ∈ fields, Readable delim field) (hne : fields ≠ []) (hblank : fields ≠ [[]])
    (rest : Text) : (writeFields delim fields ++ rest).head? ≠ some '\n' := by
  cases fields with
  | nil => exact absurd rfl hne
  | cons first fields =>
    have hfirst := head_csvEscape (hread first List.mem_cons_self)
    cases hescape : csvEscape delim first with
    | cons c text =>
      rw [hescape] at hfirst
      cases fields with
      | nil =>
        rw [writeFields, hescape]
        exact hfirst
      | cons next fields =>
        have htext : writeFields delim (first :: next :: fields) =
            csvEscape delim first ++ delim :: writeFields delim (next :: fields) := by
          simp [writeFields]
        rw [htext, hescape]
        exact hfirst
    | nil =>
      cases fields with
      | nil =>
        have hempty : first = [] := by
          rw [csvEscape] at hescape
          split_ifs at hescape with hquotes
          · cases hescape
          · exact hescape
        exact absurd (by rw [hempty]) hblank
      | cons next fields =>
        have htext : writeFields delim (first :: next :: fields) =
            csvEscape delim first ++ delim :: writeFields delim (next :: fields) := by
          simp [writeFields]
        rw [htext, hescape]
        intro hhead
        exact hdelim (Option.some.inj hhead)

/-- No line begins with a line feed. -/
theorem head_fileText (hdelim : delim ≠ '\n') (hk : 2 ≤ k) {lines : List Line}
    (hlines : ∀ l ∈ lines, WellFormed delim k l) : (fileText delim lines).head? ≠ some '\n' := by
  cases lines with
  | nil => simp [fileText]
  | cons l ls =>
    have hl := hlines l List.mem_cons_self
    have hne : l.fields ≠ [] := by
      intro h
      have hlen := hl.length
      rw [h, List.length_nil] at hlen
      omega
    have hblank : l.fields ≠ [[]] := by
      intro h
      have hlen := hl.length
      rw [h] at hlen
      rcases hlen with hlen | hlen
      · rw [List.length_singleton] at hlen
        omega
      · exact hlen.2 rfl
    have htext : fileText delim (l :: ls) =
        writeFields delim l.fields ++ (l.ends ++ fileText delim ls) := by
      simp [fileText, Line.text]
    rw [htext]
    exact head_writeFields hdelim hl.readable hne hblank _

/-- A line: its fields are appended and written, and no field of the next line is complete. -/
theorem feedFrom_line (hdelim : delim ≠ '"' ∧ delim ≠ '\r' ∧ delim ≠ '\n') (hk : 2 ≤ k)
    (r : CSVReader) (prev : Option Char) {l : Line} {ls : List Line} (hl : WellFormed delim k l)
    (hls : ∀ l' ∈ ls, WellFormed delim k l') (hterm : Terminated delim (l :: ls))
    (hblank : (r.appendFields l.fields).writeRecord.Blank)
    (hprev : ∀ field ∈ l.fields.head?, needsQuotes delim field = true → OpensQuotes delim prev) :
    ∃ prev', OpensQuotes delim prev' ∧
      (feedFrom (parseFlags delim) r false prev (fileText delim (l :: ls))).writeRecord =
        (feedFrom (parseFlags delim) (r.appendFields l.fields).writeRecord false prev'
          (fileText delim ls)).writeRecord := by
  have htext : fileText delim (l :: ls) =
      writeFields delim l.fields ++ (l.ends ++ fileText delim ls) := by
    simp [fileText, Line.text]
  have hopens : ∀ c, c = '\r' ∨ c = '\n' → (parseFlags delim c).endsField = true := by
    intro c hc
    rw [parseFlags_newline hdelim hc]
    rfl
  have hends := hl.ends
  rw [htext]
  cases hnewlines : l.ends with
  | nil =>
    -- Only the last line has no line end.
    cases ls with
    | cons l' ls => exact absurd hnewlines hterm.1
    | nil =>
      have hnil : [] ++ fileText delim [] = [] := rfl
      have hrest : ∀ field ∈ l.fields.getLast?,
          FieldEnds delim field ([] ++ fileText delim []) := fun field hfield =>
        .inr ⟨hnil, hterm hnewlines field hfield⟩
      obtain ⟨prev', hfields⟩ := feedFrom_fields (r := r) hdelim.1 hl.readable hrest hprev
      refine ⟨some '\n', hopens '\n' (.inr rfl), ?_⟩
      have htail : fileText delim [] = [] := rfl
      rw [hfields, hnil, htail, feedFrom_nil, feedFrom_nil, hblank.writeRecord]
  | cons c ends =>
    rw [hnewlines] at hends
    have hrest : ∀ field ∈ l.fields.getLast?,
        FieldEnds delim field (c :: ends ++ fileText delim ls) := fun _ _ =>
      .inl ⟨c, rfl, hopens c (hends c List.mem_cons_self)⟩
    obtain ⟨prev', hfields⟩ := feedFrom_fields (r := r) hdelim.1 hl.readable hrest hprev
    obtain ⟨prev'', hprev'', hfeed⟩ := feedFrom_lineEnds hdelim prev' hblank hends
      (head_fileText hdelim.2.2 hk hls)
    refine ⟨prev'', hprev'', ?_⟩
    rw [hfields, hfeed]

/-- The lines behind the header, with the text of lines of a single field pending. -/
theorem feedFrom_lines (hdelim : delim ≠ '"' ∧ delim ≠ '\r' ∧ delim ≠ '\n') {header : List Text}
    (hcols : 2 ≤ header.length) {lines : List Line}
    (hlines : ∀ l ∈ lines, WellFormed delim header.length l) (hterm : Terminated delim lines)
    (rows : List (List Text)) (pending : Text) {prev : Option Char}
    (hprev : OpensQuotes delim prev) :
    (feedFrom (parseFlags delim) ((tableReader header rows).append pending) false prev
        (fileText delim lines)).writeRecord =
      (tableReader header (rows ++ (joined pending (lines.map Line.fields)).1)).append
        (joined pending (lines.map Line.fields)).2 := by
  induction lines generalizing rows pending prev with
  | nil =>
    have htext : fileText delim [] = [] := rfl
    rw [htext, feedFrom_nil, (tableReader_blank hcols rows pending).writeRecord, List.map_nil, joined,
      List.append_nil]
  | cons l ls ih =>
    have hl := hlines l List.mem_cons_self
    have hls : ∀ l' ∈ ls, WellFormed delim header.length l' := fun l' hl' =>
      hlines l' (List.mem_cons_of_mem _ hl')
    have hline := fun hblank => feedFrom_line hdelim hcols ((tableReader header rows).append pending)
      prev hl hls hterm hblank fun _ _ _ => hprev
    rcases hl.length with hlen | ⟨hlen, -⟩
    · match hfields : l.fields with
      | [] => rw [hfields, List.length_nil] at hlen; omega
      | [_] => rw [hfields, List.length_singleton] at hlen; omega
      | field :: next :: fields =>
        have hrow : (((tableReader header rows).append pending).appendFields l.fields).writeRecord =
            tableReader header (rows ++ [(pending ++ field) :: next :: fields]) := by
          have hlen' : ((pending ++ field) :: next :: fields).length = header.length := by
            rw [← hlen, hfields]
            rfl
          rw [hfields, append_appendFields]
          exact writeRecord_row hlen' hcols rows
        obtain ⟨prev', hprev', hfeed⟩ := hline (by
          rw [hrow, ← append_nil (tableReader _ _)]
          exact tableReader_blank hcols _ _)
        rw [hfeed, hrow, ← append_nil (tableReader _ _), ih hls hterm.tail _ _ hprev', List.map_cons,
          hfields, joined]
        simp
    · obtain ⟨comment, hfields⟩ := List.length_eq_one_iff.mp hlen
      have hkept : ((tableReader header rows).append pending).appendFields l.fields =
          (tableReader header rows).append (pending ++ comment) := by
        rw [hfields]
        exact append_append _ _ _
      have hblank := tableReader_blank hcols rows (pending ++ comment)
      rw [hkept, hblank.writeRecord] at hline
      obtain ⟨prev', hprev', hfeed⟩ := hline hblank
      rw [hfeed, ih hls hterm.tail _ _ hprev', List.map_cons, hfields, joined]

/-- **The parser on a table.** It makes a row of every line, whatever the line ends are and also when
the last one is missing. The text of a line of a single field gets into the next row. -/
theorem parse_fileText (hdelim : delim ≠ '"' ∧ delim ≠ '\r' ∧ delim ≠ '\n') {header : Line}
    {lines : List Line} (hcols : 2 ≤ header.fields.length) (hlt : header.fields.length < 2 ^ 16)
    (hlines : ∀ l ∈ header :: lines, WellFormed delim header.fields.length l)
    (hterm : Terminated delim (header :: lines))
    (hfirst : ∀ field ∈ header.fields.head?, needsQuotes delim field = false) :
    parse delim 0 (fileText delim (header :: lines)) =
      (tableReader header.fields (joined [] (lines.map Line.fields)).1).append
        (joined [] (lines.map Line.fields)).2 := by
  have hheader := hlines header List.mem_cons_self
  have hrest : ∀ l ∈ lines, WellFormed delim header.fields.length l := fun l hl =>
    hlines l (List.mem_cons_of_mem _ hl)
  have hwritten := writeRecord_header (lt_of_lt_of_le Nat.two_pos hcols) hlt
  rw [← append_nil (tableReader _ _)] at hwritten
  have hblank : (({} : CSVReader).appendFields header.fields).writeRecord.Blank := by
    rw [hwritten]
    exact tableReader_blank hcols [] []
  obtain ⟨prev', hprev', hline⟩ := feedFrom_line hdelim hcols {} none hheader hrest hterm hblank
    fun field hfield hquotes => absurd hquotes (by rw [hfirst field hfield]; decide)
  show (feedFrom (parseFlags delim) {} false none (fileText delim (header :: lines))).writeRecord = _
  rw [hline, hwritten, feedFrom_lines hdelim hcols hrest hterm.tail [] [] hprev', List.nil_append]

end Tables

end CSVReader

end Csv
