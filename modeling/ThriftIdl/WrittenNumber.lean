import ThriftIdl.Number
import ThriftIdl.Text.Digit

/-!
# Numbers as users write them

A number given by a user may have white space around it, digits of any script, and single
underscores between digits. A double may also be infinite or no number at all, in words.
-/
namespace ThriftIdl

open Text

/-- An integer that a user may give. -/
inductive GivenInteger where
  /-- None is given. -/
  | nothing
  /-- One is asked for, but no number stands in its place. -/
  | blank
  /-- A number. -/
  | number (value : Int)
deriving DecidableEq, Repr

/-- What is given by a number that may be left blank. -/
def GivenInteger.ofOption : Option Int → GivenInteger
  | none => .blank
  | some value => .number value

/-- A text with all decimal digits replaced by those of ASCII. -/
def asciiDigits (text : List Char) : List Char :=
  text.map fun c => (digitValue? c).elim c Nat.digitChar

/-- A text without the underscores that stand between two digits; `previous` says whether a digit
came before. -/
def joinDigits : Bool → List Char → List Char
  | _, [] => []
  | previous, '_' :: c :: text =>
    if previous && isDigit c then c :: joinDigits true text
    else '_' :: joinDigits false (c :: text)
  | _, c :: text => c :: joinDigits (isDigit c) text

/-- A written number in its plain form. -/
def plainNumber (text : List Char) : List Char := joinDigits false (asciiDigits (trimmed text))

/-- The integer that a user wrote. -/
def writtenInteger? (text : List Char) : Option Int :=
  match scanInteger? (plainNumber text) with
  | some (digits, []) => if isConvertible digits then some (signedValue digits) else none
  | _ => none

/-- A number with a point after its last digit, without that point. -/
def dropLastPoint (number : Number) : List Char → List Char
  | '.' :: text =>
    if number.whole.isEmpty || number.fraction.isSome || number.exponent.isSome then '.' :: text
    else text
  | text => text

/-- The number that a text consists of. A point may stand after the digits without any after it. -/
def wholeNumber? (text : List Char) : Option Number :=
  match scanNumber (fun _ => true) text with
  | (number, []) => if number.hasDigits then some number else none
  | (number, rest) =>
    match dropLastPoint number rest with
    | [] => if number.hasDigits then some number else none
    | rest' =>
      match scanExponent? rest' with
      | some (exponent, []) =>
        if rest'.length < rest.length then some { number with exponent := some exponent } else none
      | _ => none

/-- The double that a user wrote. -/
def writtenDouble? (text : List Char) : Option Double :=
  let plain := plainNumber text
  let (sign, unsigned) := scanSign plain
  let word := unsigned.map Char.toLower
  if word = "inf".toList || word = "infinity".toList then
    some (.number (sign = ['-']) .infinity)
  else if word = "nan".toList then some .nan
  else (wholeNumber? plain).map Number.toDouble

end ThriftIdl
