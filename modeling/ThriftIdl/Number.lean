import ThriftIdl.Bounds
import ThriftIdl.Double.Decimal
import ThriftIdl.Text.Scan

/-!
# Numbers in the interface language

An integer is a run of digits after an optional sign. A number in general may have digits before
a point, a point with digits after it, and an exponent; each part may be missing. Scanning takes
the longest such beginning off a text, which may be empty, so that a number is a double only if
it has digits before its exponent and a fraction or an exponent. Main statements: `scanNumber_text`,
the parts of a number are exactly the text that was taken, and `scanInteger?_text` likewise.
-/
namespace ThriftIdl

open Text

/-- The sign at the start of a text, which may be missing, and the text after it. -/
def scanSign : List Char → List Char × List Char
  | c :: text => if c = '+' || c = '-' then ([c], text) else ([], c :: text)
  | [] => ([], [])

/-- The number of digits after an optional sign. -/
def digitCount (numeral : List Char) : Nat := (scanSign numeral).2.length

/-- Whether digits after an optional sign are few enough to be converted to an integer. -/
def isConvertible (numeral : List Char) : Bool := digitCount numeral ≤ digitLimit

/-- Whether digits after an optional sign are an integer of 64 bits. -/
def fitsNumeral (numeral : List Char) : Bool := fitsInteger (signedValue numeral)

/-- Whether digits after an optional sign can be converted and are an integer of 64 bits. -/
def admitsInteger (numeral : List Char) : Bool := isConvertible numeral && fitsNumeral numeral

/-- Whether a number goes on with an exponent: the exponent has 64 bits, or it cannot be converted, so
that nobody knows. -/
def takesExponent (exponent : List Char) : Bool := !isConvertible exponent || fitsNumeral exponent

/-- The digits at the start of a text, and the text after them. -/
def scanDigits (text : List Char) : List Char × List Char :=
  (text.takeWhile isDigit, text.dropWhile isDigit)

/-- The digits after an optional sign, with the sign, and the text after them. -/
def scanInteger? (text : List Char) : Option (List Char × List Char) :=
  let (sign, unsigned) := scanSign text
  let (digits, rest) := scanDigits unsigned
  if digits.isEmpty then none else some (sign ++ digits, rest)

/-- The digits after a point, and the text after them. -/
def scanFraction? : List Char → Option (List Char × List Char)
  | '.' :: text =>
    let (digits, rest) := scanDigits text
    if digits.isEmpty then none else some (digits, rest)
  | _ => none

/-- The letter of an exponent, the exponent, and the text after them. -/
def scanExponent? : List Char → Option ((Char × List Char) × List Char)
  | c :: text =>
    if c = 'e' || c = 'E' then
      (scanInteger? text).map fun (exponent, rest) => ((c, exponent), rest)
    else none
  | [] => none

/-- The parts of a number. -/
structure Number where
  /-- The sign, which may be empty. -/
  sign : List Char
  /-- The digits before the point, which may be empty. -/
  whole : List Char
  /-- The digits after the point, if there is one. -/
  fraction : Option (List Char)
  /-- The letter of the exponent and the exponent with its sign, if there is one. -/
  exponent : Option (Char × List Char)
deriving DecidableEq, Repr

namespace Number

/-- The text of a number. -/
def text (number : Number) : List Char :=
  number.sign ++ number.whole ++ (number.fraction.elim [] ('.' :: ·)) ++
    number.exponent.elim [] fun (letter, exponent) => letter :: exponent

/-- Whether a number has digits before its exponent. -/
def hasDigits (number : Number) : Bool := !number.whole.isEmpty || number.fraction.isSome

/-- Whether a number has neither a fraction nor an exponent. -/
def isIntegral (number : Number) : Bool := number.fraction.isNone && number.exponent.isNone

/-- The exponent of a number without its letter, which is empty if there is none. -/
def scale (number : Number) : List Char := number.exponent.elim [] (·.2)

/-- A number as a numeral; a missing part is nought. -/
def numeral (number : Number) : Numeral where
  negative := number.sign = ['-']
  whole := number.whole
  fraction := number.fraction.getD []
  exponent := number.exponent.elim 0 fun (_, exponent) => signedValue exponent

/-- The double nearest to a number. -/
def toDouble (number : Number) : Double := number.numeral.toDouble

end Number

/-- The longest number at the start of a text, whose exponent is admitted, and the text after it. -/
def scanNumber (admits : List Char → Bool) (text : List Char) : Number × List Char :=
  let (sign, text) := scanSign text
  let (whole, text) := scanDigits text
  let (fraction, text) :=
    match scanFraction? text with
    | some (digits, rest) => (some digits, rest)
    | none => (none, text)
  match scanExponent? text with
  | some ((letter, exponent), rest) =>
    if admits exponent then (⟨sign, whole, fraction, some (letter, exponent)⟩, rest)
    else (⟨sign, whole, fraction, none⟩, text)
  | none => (⟨sign, whole, fraction, none⟩, text)

/-- A sign and the text after it make up the text. -/
theorem scanSign_append (text : List Char) : (scanSign text).1 ++ (scanSign text).2 = text := by
  cases text with
  | nil => rfl
  | cons c text =>
    simp only [scanSign]
    split <;> simp

/-- Digits and the text after them make up the text. -/
theorem scanDigits_append (text : List Char) : (scanDigits text).1 ++ (scanDigits text).2 = text :=
  List.takeWhile_append_dropWhile

/-- An integer and the text after it make up the text. -/
theorem scanInteger?_text {text integer rest : List Char}
    (found : scanInteger? text = some (integer, rest)) : integer ++ rest = text := by
  simp only [scanInteger?] at found
  split at found
  next => simp at found
  next =>
    simp only [Option.some.injEq, Prod.mk.injEq] at found
    obtain ⟨rfl, rfl⟩ := found
    rw [List.append_assoc, scanDigits_append, scanSign_append]

/-- A fraction and the text after it make up the text. -/
theorem scanFraction?_text {text digits rest : List Char}
    (found : scanFraction? text = some (digits, rest)) : '.' :: (digits ++ rest) = text := by
  match text with
  | [] => simp [scanFraction?] at found
  | c :: text =>
    simp only [scanFraction?] at found
    split at found
    next after same =>
      split at found
      next => simp at found
      next =>
        simp only [Option.some.injEq, Prod.mk.injEq] at found
        obtain ⟨rfl, rfl⟩ := found
        rw [scanDigits_append, same]
    next => simp at found

/-- An exponent and the text after it make up the text. -/
theorem scanExponent?_text {text exponent rest : List Char} {letter : Char}
    (found : scanExponent? text = some ((letter, exponent), rest)) :
    letter :: (exponent ++ rest) = text := by
  match text with
  | [] => simp [scanExponent?] at found
  | c :: text =>
    simp only [scanExponent?] at found
    split at found
    next =>
      simp only [Option.map_eq_some_iff, Prod.mk.injEq] at found
      obtain ⟨⟨integer, after⟩, scanned, ⟨rfl, rfl⟩, rfl⟩ := found
      rw [scanInteger?_text scanned]
    next => simp at found

/-- The parts of a number are exactly the text that was taken. -/
theorem scanNumber_text (admits : List Char → Bool) (text : List Char) :
    (scanNumber admits text).1.text ++ (scanNumber admits text).2 = text := by
  have signed := scanSign_append text
  have counted := scanDigits_append (scanSign text).2
  simp only [scanNumber]
  cases fraction : scanFraction? (scanDigits (scanSign text).2).2 with
  | none =>
    cases exponent : scanExponent? (scanDigits (scanSign text).2).2 with
    | none => simp [Number.text, counted, signed]
    | some found =>
      obtain ⟨⟨letter, digits⟩, rest⟩ := found
      have powers := scanExponent?_text exponent
      simp only
      split <;> simp [Number.text, powers, counted, signed]
  | some found =>
    obtain ⟨digits, after⟩ := found
    have pointed := scanFraction?_text fraction
    cases exponent : scanExponent? after with
    | none => simp [Number.text, pointed, counted, signed]
    | some found =>
      obtain ⟨⟨letter, power⟩, rest⟩ := found
      have powers := scanExponent?_text exponent
      simp only
      split <;> simp [Number.text, powers, pointed, counted, signed]

end ThriftIdl
