import Gpscat.Csv.Fragments
import Gpscat.Csv.Proofs.ReaderProofs
import Gpscat.Csv.Proofs.ViewsProofs
import Mathlib.Data.List.Chain

/-!
# Feeding a text in fragments

Where a text may be cut, whatever follows, and that the parts of a file may be fed one after the
other.
-/

namespace Csv.CSVReader

open Cpp

section Append

variable {flags : Char → ParseFlags} {r : CSVReader} {quoteEscape : Bool} {prev : Option Char}
  {text rest : Text}

/-- The character before what follows a text. -/
def lastOf (prev : Option Char) (text : Text) : Option Char := text.getLast?.or prev

theorem lastOf_cons (c : Char) (text : Text) : lastOf prev (c :: text) = lastOf (some c) text := by
  rw [lastOf, lastOf, List.getLast?_cons]
  cases text.getLast? <;> rfl

/-- A newline at the end of the text is not followed by a line feed. -/
def CutsLine (flags : Char → ParseFlags) (text rest : Text) : Prop :=
  ∀ c ∈ text.getLast?, flags c = .newline → rest.head? ≠ some '\n'

theorem CutsLine.tail {c next : Char} (h : CutsLine flags (c :: next :: text) rest) :
    CutsLine flags (next :: text) rest := by
  intro d hd
  exact h d (by rwa [List.getLast?_cons_cons])

theorem CutsLine.cons {c : Char} (h : CutsLine flags (c :: text) rest) :
    CutsLine flags text rest := by
  cases text with
  | nil => exact fun d hd => absurd hd (by simp)
  | cons next text => exact h.tail

/-- Between quotes, a quote before an ordinary character counts for itself. -/
theorem feedFrom_stray {c next : Char} (hc : flags c = .quote)
    (hends : ¬ (flags next).endsField = true) (hnext : flags next ≠ .quote) :
    feedFrom flags r true prev (c :: next :: rest) =
      feedFrom flags (r.append [c]) true (some c) (next :: rest) := by
  rw [feedFrom.eq_def]
  simp only [hc, if_true, if_neg hends, if_neg hnext]

/-- What comes of a text and what follows it. At the end of a text, a quote counts for itself inside of
quotes, where it may close them with what follows. -/
theorem feedFrom_append_cases (r : CSVReader) (prev : Option Char) (hcut : CutsLine flags text rest) :
    feedFrom flags r quoteEscape prev (text ++ rest) =
        feedFrom flags (feedFrom flags r quoteEscape prev text)
          (quoteEscapeAfter flags quoteEscape prev text) (lastOf prev text) rest ∨
      ∃ r' prev' c, flags c = .quote ∧ quoteEscapeAfter flags quoteEscape prev text = true ∧
        feedFrom flags r quoteEscape prev text = append r' [c] ∧
        feedFrom flags r quoteEscape prev (text ++ rest) =
          feedFrom flags r' true prev' (c :: rest) := by
  fun_induction feedFrom flags r quoteEscape prev text with
  | case1 q r prev => exact .inl rfl
  | case2 r q prev c text hc ih =>
    rw [quoteEscapeAfter.eq_def, List.cons_append, feedFrom_notSpecial hc, lastOf_cons]
    simp only [hc]
    exact ih hcut.cons
  | case3 r prev c text hc ih =>
    rw [quoteEscapeAfter.eq_def, List.cons_append, feedFrom_quoted (by rw [hc]; decide), lastOf_cons]
    simp only [hc]
    exact ih hcut.cons
  | case4 r q prev c text hc hq ih =>
    obtain rfl : q = false := by simpa using hq
    rw [quoteEscapeAfter.eq_def, List.cons_append, feedFrom_delimiter hc, lastOf_cons]
    simp only [hc]
    exact ih hcut.cons
  | case5 r prev c text hc ih =>
    rw [quoteEscapeAfter.eq_def, List.cons_append, feedFrom_quoted (by rw [hc]; decide), lastOf_cons]
    simp only [hc, if_true]
    exact ih hcut.cons
  | case6 r q prev c hc hq =>
    -- The newline at the cut.
    obtain rfl : q = false := by simpa using hq
    rw [quoteEscapeAfter.eq_def, List.singleton_append, feedFrom_newline hc (hcut c rfl hc)]
    simp only [hc, Bool.false_eq_true, if_false]
    exact .inl rfl
  | case7 r q prev c hc hq text ih =>
    obtain rfl : q = false := by simpa using hq
    have htext : c :: '\n' :: text ++ rest = c :: '\n' :: (text ++ rest) := rfl
    rw [quoteEscapeAfter.eq_def, htext, feedFrom_newline_lf hc, lastOf_cons, lastOf_cons]
    simp only [hc, Bool.false_eq_true, if_false, if_true]
    exact ih hcut.tail.cons
  | case8 r q prev c hc hq next text hne ih =>
    obtain rfl : q = false := by simpa using hq
    have htext : c :: next :: text ++ rest = c :: (next :: text ++ rest) := rfl
    have hhead : (next :: text ++ rest).head? ≠ some '\n' := fun h => hne (Option.some.inj h)
    rw [quoteEscapeAfter.eq_def, htext, feedFrom_newline hc hhead, lastOf_cons]
    simp only [hc, Bool.false_eq_true, if_false, if_neg hne]
    exact ih hcut.tail
  | case9 r prev c hc =>
    -- The quote at the end of the text.
    rw [quoteEscapeAfter.eq_def]
    simp only [hc, if_true]
    exact .inr ⟨r, prev, c, hc, trivial, rfl, rfl⟩
  | case10 r prev c hc next text hends ih =>
    have htext : c :: next :: text ++ rest = c :: next :: (text ++ rest) := rfl
    rw [quoteEscapeAfter.eq_def, htext, feedFrom_close hc hends, lastOf_cons]
    simp only [hc, if_true, if_pos hends]
    exact ih hcut.tail
  | case11 r prev c hc next text hends hnext ih =>
    have htext : c :: next :: text ++ rest = c :: next :: (text ++ rest) := rfl
    rw [quoteEscapeAfter.eq_def, htext, feedFrom_double hc hnext, lastOf_cons, lastOf_cons]
    simp only [hc, if_true, if_neg hends, if_pos hnext]
    exact ih hcut.tail.cons
  | case12 r prev c hc next text hends hnext ih =>
    have htext : c :: next :: text ++ rest = c :: next :: (text ++ rest) := rfl
    rw [quoteEscapeAfter.eq_def, htext, feedFrom_stray hc hends hnext, lastOf_cons]
    simp only [hc, if_true, if_neg hends, if_neg hnext]
    exact ih hcut.tail
  | case13 r q prev c text hc hq ih =>
    obtain rfl : q = false := by simpa using hq
    rw [quoteEscapeAfter.eq_def, List.cons_append, feedFrom_open hc, lastOf_cons]
    simp only [hc, Bool.false_eq_true, if_false]
    exact ih hcut.cons

/-- A text that ends outside of quotes may be fed before what follows it, with the character
before. -/
theorem feedFrom_append (hclosed : quoteEscapeAfter flags quoteEscape prev text = false)
    (hcut : CutsLine flags text rest) :
    feedFrom flags r quoteEscape prev (text ++ rest) =
      feedFrom flags (feedFrom flags r quoteEscape prev text) false (lastOf prev text) rest := by
  rcases feedFrom_append_cases r prev hcut with happend | ⟨_, _, _, _, hopen, _⟩
  · rw [happend, hclosed]
  · rw [hclosed] at hopen
    cases hopen

/-- The character before a text only matters for a quote at its beginning. -/
theorem feedFrom_prev {prev' : Option Char}
    (h : ∀ c ∈ rest.head?, flags c = .quote →
      (prev.any fun p => (flags p).endsField) = prev'.any fun p => (flags p).endsField) :
    feedFrom flags r false prev rest = feedFrom flags r false prev' rest := by
  cases rest with
  | nil => rfl
  | cons c rest =>
    rw [feedFrom.eq_def, feedFrom.eq_def flags r false prev']
    cases hc : flags c with
    | quote =>
      have hprev := h c rfl hc
      simp only [hc, Bool.false_eq_true, if_false, hprev]
    | notSpecial | delimiter => simp only [hc, Bool.false_eq_true, if_false]
    | newline =>
      simp only [hc, Bool.false_eq_true, if_false]

end Append

/-! ## Where a text may be cut -/

section Cut

variable {delim : Char} {a b : Text}

theorem eq_quote_of_flags {c : Char} (h : parseFlags delim c = .quote) : c = '"' := by
  by_contra hc
  exact parseFlags_ne_quote hc h

theorem newline_of_flags {c : Char} (h : parseFlags delim c = .newline) : c = '\r' ∨ c = '\n' := by
  by_contra hc
  rw [parseFlags, if_neg hc] at h
  split_ifs at h

theorem feed_append (r : CSVReader) (hclosed : quoteEscapeAfter (parseFlags delim) false none a = false)
    (hcut : CutsLine (parseFlags delim) a b)
    (hquote : ∀ c ∈ a.getLast?, (parseFlags delim c).endsField = true → b.head? ≠ some '"') :
    feed delim (feed delim r a) b = feed delim r (a ++ b) := by
  rw [feed, feed, feed, feedFrom_append hclosed hcut]
  refine feedFrom_prev fun c hc hflag => ?_
  obtain rfl := eq_quote_of_flags hflag
  cases hlast : a.getLast? with
  | none => rw [lastOf, hlast]; rfl
  | some l =>
    have hends : (parseFlags delim l).endsField = false := by
      cases hends : (parseFlags delim l).endsField with
      | false => rfl
      | true => exact absurd hc (hquote l hlast hends)
    rw [lastOf, hlast]
    exact hends.symm

/-- Inside of quotes a delimiter is text, unless the quote before it closes them. -/
theorem feedFrom_open_delimiter (hdelim : delim ≠ '\n') {r : CSVReader} {prev : Option Char}
    (hopen : quoteEscapeAfter (parseFlags delim) false prev a = true) :
    feedFrom (parseFlags delim) r false prev (a ++ [delim]) =
        (feedFrom (parseFlags delim) r false prev a).append [delim] ∨
      ∃ r' c, feedFrom (parseFlags delim) r false prev a = append r' [c] ∧
        feedFrom (parseFlags delim) r false prev (a ++ [delim]) = pushSplit r' := by
  have hflag := parseFlags_delim delim
  have hcut : CutsLine (parseFlags delim) a [delim] := fun _ _ _ h => hdelim (Option.some.inj h)
  rcases feedFrom_append_cases r prev hcut with
    happend | ⟨r', prev', c, hc, -, htext, hclose⟩
  · rw [hopen, feedFrom_quoted (by rw [hflag]; decide)] at happend
    exact .inl happend
  · have hends : (parseFlags delim delim).endsField = true := by
      rw [hflag]
      rfl
    rw [feedFrom_close hc hends, feedFrom_delimiter hflag, feedFrom_nil] at hclose
    exact .inr ⟨r', c, htext, hclose⟩

/-- A delimiter that is text is not one that ends a field. -/
theorem pushSplit_ne_append (r : CSVReader) (s : Text) : r.pushSplit ≠ r.append s := by
  intro h
  have hlen := congrArg (fun r : CSVReader => r.recordBuffer.splitBuffer.length) h
  simp [pushSplit, append] at hlen

/-- A cut is harmless, whatever follows, exactly outside of quotes and not behind a delimiter or a
newline. This is about calls that keep the text of their rows. -/
theorem feed_append_iff (hdelim : delim ≠ '"' ∧ delim ≠ '\r' ∧ delim ≠ '\n') (a : Text) :
    (∀ (r : CSVReader) (b : Text),
        RowsStay delim r a → RowsStay delim (feed delim r a) b → RowsStay delim r (a ++ b) →
        feed delim (feed delim r a) b = feed delim r (a ++ b)) ↔
      quoteEscapeAfter (parseFlags delim) false none a = false ∧
        ∀ c ∈ a.getLast?, (parseFlags delim c).endsField = false := by
  have hflag := parseFlags_delim delim
  constructor
  · intro hharmless
    have hstart : ∀ text, RowsStay delim {} text := rowsStay_of_empty rfl
    have hclosed : quoteEscapeAfter (parseFlags delim) false none a = false := by
      rw [← Bool.not_eq_true]
      intro hopen
      have hsplit : feed delim (feed delim {} a) [delim] = (feed delim {} a).pushSplit := by
        rw [feed, feedFrom_delimiter hflag, feedFrom_nil]
      have hstay : RowsStay delim (feed delim {} a) [delim] := rowsStay_of_records (by rw [hsplit]; rfl)
      have hcut := hharmless {} [delim] (hstart a) hstay (hstart _)
      rw [hsplit] at hcut
      rcases feedFrom_open_delimiter hdelim.2.2 (r := {}) hopen with htext | ⟨r', c, hend, hclose⟩
      · exact pushSplit_ne_append _ _ (hcut.trans htext)
      · have hboth : (append r' [c]).pushSplit = r'.pushSplit := by
          rw [← hend]
          exact hcut.trans hclose
        have hlen := congrArg (fun r : CSVReader => r.recordBuffer.buffer.length) hboth
        simp [pushSplit, append] at hlen
    refine ⟨hclosed, fun c hc => ?_⟩
    rw [← Bool.not_eq_true]
    intro hends
    have hquote := parseFlags_quote hdelim.1
    have hfragment : feed delim (feed delim {} a) ['"', delim] = (feed delim {} a).pushSplit := by
      rw [feed, feedFrom_open hquote, Option.any_none, feedFrom_delimiter hflag, feedFrom_nil]
    have hstay : RowsStay delim (feed delim {} a) ['"', delim] :=
      rowsStay_of_records (by rw [hfragment]; rfl)
    have hcut := hharmless {} ['"', delim] (hstart a) hstay (hstart _)
    have hwhole : feed delim {} (a ++ ['"', delim]) = (feed delim {} a).append [delim] := by
      have hopen : ((lastOf none a).any fun p => (parseFlags delim p).endsField) = true := by
        rw [lastOf, hc]
        exact hends
      rw [feed, feedFrom_append hclosed (fun _ _ _ => by simp), feedFrom_open hquote, hopen,
        feedFrom_quoted (by rw [hflag]; decide), feedFrom_nil]
      rfl
    rw [hfragment, hwhole] at hcut
    exact pushSplit_ne_append _ _ hcut
  · rintro ⟨hclosed, hlast⟩ r b - - -
    refine feed_append r hclosed (fun c hc hnewline => ?_) fun c hc hends => ?_
    · have hfield := hlast c hc
      rw [hnewline] at hfield
      cases hfield
    · rw [hlast c hc] at hends
      cases hends

theorem feed_append_iff_sample :
    feed ',' (feed ',' {} ['a', ',', 'b']) ['\n', '1', ',', '2'] =
      feed ',' {} ['a', ',', 'b', '\n', '1', ',', '2'] :=
  (feed_append_iff (by decide) ['a', ',', 'b']).mpr
    ⟨by decide, fun c hc => by obtain rfl : 'b' = c := Option.some.inj hc; decide⟩ {}
    ['\n', '1', ',', '2'] (by decide) (by decide) (by decide)

/-! ## Texts without quotes -/

theorem quoteEscapeAfter_of_unquoted {flags : Char → ParseFlags} {q : Bool} {prev : Option Char}
    {text : Text} (hquote : ∀ c ∈ text, flags c ≠ .quote) :
    quoteEscapeAfter flags q prev text = q := by
  fun_induction quoteEscapeAfter flags q prev text with
  | case1 => rfl
  | case2 q prev c text hc ih => exact ih fun d hd => hquote d (List.mem_cons_of_mem _ hd)
  | case3 q prev c text hc ih => exact ih fun d hd => hquote d (List.mem_cons_of_mem _ hd)
  | case4 prev c text hc ih => exact ih fun d hd => hquote d (List.mem_cons_of_mem _ hd)
  | case5 q prev c hc hq => exact (Bool.not_eq_true _ ▸ hq).symm
  | case6 q prev c hc hq text ih =>
    rw [ih fun d hd => hquote d (List.mem_cons_of_mem _ (List.mem_cons_of_mem _ hd))]
    exact (Bool.not_eq_true _ ▸ hq).symm
  | case7 q prev c hc hq next text hne ih =>
    rw [ih fun d hd => hquote d (List.mem_cons_of_mem _ hd)]
    exact (Bool.not_eq_true _ ▸ hq).symm
  | case8 prev c hc | case9 prev c hc | case10 prev c hc | case11 prev c hc | case12 q prev c text hc =>
    exact absurd hc (hquote c List.mem_cons_self)

theorem SingleEnds.tail {s t : Text} (h : SingleEnds (s ++ t)) : SingleEnds t :=
  (List.isChain_append.mp h).2.1

/-- Without quotes and blank lines, a text may be cut anywhere. -/
theorem foldl_feed {parts : List Text} (r : CSVReader) (hquote : '"' ∉ parts.flatten)
    (hends : SingleEnds parts.flatten) :
    parts.foldl (feed delim) r = feed delim r parts.flatten := by
  induction parts generalizing r with
  | nil => rfl
  | cons part parts ih =>
    rw [List.flatten_cons] at hquote hends
    have hplain : ∀ c ∈ part, parseFlags delim c ≠ .quote := fun c hc =>
      parseFlags_ne_quote fun h => hquote (List.mem_append_left _ (h ▸ hc))
    have hrest : '"' ∉ parts.flatten := fun hmem => hquote (List.mem_append_right _ hmem)
    rw [List.foldl_cons, ih _ hrest hends.tail, List.flatten_cons]
    refine feed_append r (quoteEscapeAfter_of_unquoted hplain) (fun c hc hnewline hhead => ?_)
      fun _ _ _ hhead => hrest (List.mem_of_head? hhead)
    exact (List.isChain_append.mp hends).2.2 c hc '\n' hhead ⟨newline_of_flags hnewline, rfl⟩

end Cut

end Csv.CSVReader
