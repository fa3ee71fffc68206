import Gpscat.Csv.Reader
import Gpscat.Lib.IStream

/-!
# Numbers in fields

`data_type` goes through a field and tells what kind of number it is, if any. It computes in
`long double`, which holds every integer up to `2 ^ 64` exactly; a larger one counts as a floating
point number, whatever it is rounded to. The values of floating point numbers are not modelled: an
integer is never read from one.
-/

namespace Csv

open Cpp

inductive DataType where
  | null
  | string
  | int8
  | int16
  | int32
  | int64
  | double
  deriving Repr, DecidableEq

/-- The values of the enumeration. -/
def DataType.toNat : DataType → Nat
  | .null => 0
  | .string => 1
  | .int8 => 2
  | .int16 => 3
  | .int32 => 4
  | .int64 => 5
  | .double => 6

/-- `_determine_integral_type`, of an absolute value. -/
def determineIntegralType (number : Nat) : DataType :=
  if number < 2 ^ 7 - 1 then .int8
  else if number < 2 ^ 15 - 1 then .int16
  else if number < 2 ^ 31 - 1 then .int32
  else if number < 2 ^ 63 - 1 then .int64
  else .double

/-- The variables of `data_type`. -/
structure NumberState where
  wsAllowed : Bool := true
  negAllowed : Bool := true
  dotAllowed : Bool := true
  digitAllowed : Bool := true
  hasDigit : Bool := false
  probFloat : Bool := false
  integralPart : Nat := 0
  deriving Repr, DecidableEq

/-- What `data_type` returns at the end of the field, and the value of an integer. -/
def NumberState.finish (st : NumberState) : DataType × Int :=
  if st.hasDigit then
    (if st.probFloat then .double else determineIntegralType st.integralPart,
      if st.negAllowed then st.integralPart else -st.integralPart)
  else (.null, 0)

/-- The loop of `data_type`, with the character before the current one. Behind an `e` at the end of a
field the source looks at what the memory holds behind the field; a `+` there makes it throw, where
the model yields a string, from which no number is read either. -/
def dataTypeFrom : NumberState → Option Char → Text → DataType × Int
  | st, _, [] => st.finish
  | st, prev, current :: rest =>
    if current = ' ' then
      if st.wsAllowed then dataTypeFrom st (some current) rest
      else if prev.any Char.isDigit then
        dataTypeFrom { st with digitAllowed := false, wsAllowed := true } (some current) rest
      else (.string, 0)
    else if current = '-' then
      if st.negAllowed then dataTypeFrom { st with negAllowed := false } (some current) rest
      else (.string, 0)
    else if current = '.' then
      if st.dotAllowed then
        dataTypeFrom { st with dotAllowed := false, probFloat := true } (some current) rest
      else (.string, 0)
    else if current = 'e' ∨ current = 'E' then
      if st.probFloat then
        -- `_process_potential_exponential`
        let exponent :=
          match rest with
          | [] => dataTypeFrom {} none []
          | c :: rest =>
            if c = '+' then dataTypeFrom {} none rest else dataTypeFrom {} none (c :: rest)
        (if DataType.int8.toNat ≤ exponent.1.toNat then .double else .string, 0)
      else (.string, 0)
    else if current.isDigit then
      if st.digitAllowed then
        dataTypeFrom
          { st with
            hasDigit := true
            wsAllowed := false
            integralPart :=
              if st.probFloat then st.integralPart
              else st.integralPart * 10 + (current.toNat - '0'.toNat) }
          (some current) rest
      else (.string, 0)
    else (.string, 0)

/-- `data_type`, with the value of an integer. -/
def dataType (field : Text) : DataType × Int :=
  if field.isEmpty then (.null, 0) else dataTypeFrom {} none field

/-- `get<std::int32_t>()`. -/
def getInt32 (field : Text) : Except Error (BitVec 32) :=
  let (type, value) := dataType field
  if type.toNat ≤ DataType.string.toNat then .error (.runtimeError "Not a number.".toList)
  else if type = .double then
    .error (.runtimeError
      "Attempted to convert a floating point value to an integral type.".toList)
  else if DataType.int32.toNat < type.toNat then .error (.runtimeError "Overflow error.".toList)
  else .ok (BitVec.ofInt 32 value)

/-- An integer in decimal, with blanks around it. -/
def padded (leading trailing : Nat) (n : Int) : Text :=
  List.replicate leading ' ' ++ IStream.intText n ++ List.replicate trailing ' '

end Csv
