import Gpscat.Csv.Reader

/-!
# Fragments

Texts can be joined together by feeding them one after the other. But each call of `feed` begins
outside of quotes and knows no character before its text.
-/

namespace Csv.CSVReader

open Cpp

/-- `quote_escape` behind a text, with its value and the character before it. -/
def quoteEscapeAfter (flags : Char → ParseFlags) : (quoteEscape : Bool) → Option Char → Text → Bool
  | quoteEscape, _, [] => quoteEscape
  | quoteEscape, prev, c :: rest =>
    match flags c with
    | .notSpecial | .delimiter => quoteEscapeAfter flags quoteEscape (some c) rest
    | .newline =>
      if quoteEscape then quoteEscapeAfter flags true (some c) rest
      else
        match rest with
        | [] => false
        | next :: rest =>
          if next = '\n' then quoteEscapeAfter flags false (some next) rest
          else quoteEscapeAfter flags false (some c) (next :: rest)
    | .quote =>
      if quoteEscape then
        match rest with
        | [] => true
        | next :: rest =>
          if (flags next).endsField then quoteEscapeAfter flags false (some c) (next :: rest)
          else if flags next = .quote then quoteEscapeAfter flags true (some next) rest
          else quoteEscapeAfter flags true (some c) (next :: rest)
      else quoteEscapeAfter flags (prev.any fun p => (flags p).endsField) (some c) rest

/-- A line feed does not follow a newline, so there are neither blank lines nor line ends of two
characters. -/
def SingleEnds (text : Text) : Prop :=
  text.IsChain fun c next => ¬ ((c = '\r' ∨ c = '\n') ∧ next = '\n')

instance (text : Text) : Decidable (SingleEnds text) := inferInstanceAs (Decidable (List.IsChain _ _))

end Csv.CSVReader
