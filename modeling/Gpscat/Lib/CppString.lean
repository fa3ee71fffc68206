import Mathlib.Algebra.Order.Ring.Int
import Mathlib.Data.List.Infix

/-!
# C++ strings

The part of `std::string` and of the text streams that the tools use, over lists of characters.
A position that the C++ code compares with `npos` is an `Option`, with `none` for `npos`; the
places where the code computes with `npos` go through `posAdd`, which wraps as `std::size_t` does.
Functions that throw return `Except`.
-/

namespace Cpp

/-- A `std::string`. -/
abbrev Text := List Char

/-- The exceptions of the standard library that the modelled calls can throw. -/
inductive Exception where
  /-- `std::out_of_range`, thrown by `substr`, `at` and `stoul`. -/
  | outOfRange
  /-- `std::invalid_argument`, thrown by `stoul`. -/
  | invalidArgument
  deriving Repr, DecidableEq

/-- `s.find(pat)`: the first position of `s` at which `pat` stands. -/
def find (pat : Text) : Text → Option Nat
  | [] => if pat.isEmpty then some 0 else none
  | c :: s => if pat.isPrefixOf (c :: s) then some 0 else (find pat s).map (· + 1)

/-- `s.find(pat, pos)`, for a `pat` that is not empty. -/
def findFrom (pat s : Text) (pos : Nat) : Option Nat :=
  (find pat (s.drop pos)).map (pos + ·)

/-- `pos + k` for a result `pos` of `find` and `k > 0`, in `std::size_t`: `npos` is the largest
value, so `npos + k` wraps to `k - 1`. -/
def posAdd (pos : Option Nat) (k : Nat) : Nat :=
  match pos with
  | some i => i + k
  | none => k - 1

/-- `s.substr(pos)`, which throws when `pos` is past the end. -/
def substr (s : Text) (pos : Nat) : Except Exception Text :=
  if pos ≤ s.length then .ok (s.drop pos) else .error .outOfRange

/-- `s.substr(pos, count)`. -/
def substrCount (s : Text) (pos count : Nat) : Except Exception Text :=
  if pos ≤ s.length then .ok ((s.drop pos).take count) else .error .outOfRange

/-- `s.compare(0, n, lit) == 0`: the first `n` characters of `s`, or all of them when there are
fewer, are `lit`. -/
def compareHead (s : Text) (n : Nat) (lit : Text) : Bool :=
  s.take n == lit

/-- `std::isspace` in the "C" locale. -/
def isSpace (c : Char) : Bool :=
  c == ' ' || (9 ≤ c.toNat && c.toNat ≤ 13)

/-- The lines that repeated `std::getline` calls read from a file: the text is cut at every
newline, and characters after the last newline are a line of their own. -/
def lines : Text → List Text
  | [] => []
  | c :: s =>
    if c = '\n' then [] :: lines s
    else match lines s with
      | [] => [[c]]
      | l :: ls => (c :: l) :: ls

/-- The text of some lines, each with its newline. -/
def unlines : List Text → Text
  | [] => []
  | l :: ls => l ++ '\n' :: unlines ls

/-- The strings that an `std::istream_iterator<std::string>` yields: the maximal runs of
characters that are no white space. -/
def words (s : Text) : List Text :=
  (s.splitOnP isSpace).filter (!·.isEmpty)

/-- An optional sign in front of a number: whether it is a minus sign, and what follows it. -/
def splitSign : Text → Bool × Text
  | '-' :: s => (true, s)
  | '+' :: s => (false, s)
  | s => (false, s)

/-- `std::stoul(s)` in base 10: white space and a sign are skipped, the longest run of digits is
read, and what follows it is ignored. A minus sign negates modulo `2 ^ 64`, as `strtoul` does. -/
def stoul (s : Text) : Except Exception Nat :=
  let s := splitSign (s.dropWhile isSpace)
  let digits := s.2.takeWhile Char.isDigit
  let v := Nat.ofDigitChars 10 digits 0
  if digits.isEmpty then .error .invalidArgument
  else if 2 ^ 64 ≤ v then .error .outOfRange
  else .ok (if s.1 then (2 ^ 64 - v) % 2 ^ 64 else v)

end Cpp
