import ThriftIdl.Bounds
import ThriftIdl.Proofs.Text.Word
import ThriftIdl.Token.Lexer

/-!
# Numbers as parts of a text

Scanning takes a number apart into well-formed parts (`wellFormed_scanNumber`), and a well-formed
number is scanned as itself exactly where nothing goes on with it (`scanNumber_eq_iff`). Which
exponents are admitted decides only whether the exponent belongs to the number (`scanNumber_of_admits`).
What is put after a text changes no number in it if it begins with a
character that no number has (`scanNumber_append_foreign`).
-/
namespace ThriftIdl

open Text

/-- A sign, which may be missing. -/
def IsSign (text : List Char) : Prop := text = [] ∨ text = ['+'] ∨ text = ['-']

/-- A run of digits that is not empty. -/
def IsDigits (text : List Char) : Prop := text ≠ [] ∧ ∀ c ∈ text, isDigit c

/-- An integer as it is written: digits after a sign, which may be missing. -/
def IsInteger (text : List Char) : Prop :=
  ∃ sign digits, text = sign ++ digits ∧ IsSign sign ∧ IsDigits digits

/-- No digit begins a text. -/
def NoDigit (text : List Char) : Prop := ∀ c ∈ text.head?, ¬ isDigit c

/-- Nothing at the start of a text goes on with a number before it. -/
def NumberStop (text : List Char) : Prop :=
  ∀ c ∈ text.head?, ¬ isDigit c ∧ c ≠ '.' ∧ c ≠ 'e' ∧ c ≠ 'E'

/-- Nothing goes on with a number at the end of a text. -/
@[simp] theorem numberStop_nil : NumberStop [] := by simp [NumberStop]

/-- Where no number goes on, there is no digit. -/
theorem NumberStop.noDigit {text : List Char} (stop : NumberStop text) : NoDigit text :=
  fun c mem => (stop c mem).1

/-- Nothing goes on with a number where nothing goes on with a word. -/
theorem Closed.numberStop {rest : List Char} (closed : Closed rest) : NumberStop rest := by
  intro c mem
  have stops := closed c mem
  simp only [continuesName, Bool.or_eq_true, decide_eq_true_eq, not_or] at stops
  refine ⟨stops.1.1.2, stops.1.2, ?_, ?_⟩ <;> (rintro rfl; exact stops.1.1.1 (by decide))

/-- A digit is no sign. -/
theorem not_sign_of_isDigit {c : Char} (digit : isDigit c) : c ≠ '+' ∧ c ≠ '-' := by
  constructor <;> rintro rfl <;> revert digit <;> decide

/-- Digits continue names. -/
theorem continuesName_of_isDigit {c : Char} (digit : isDigit c) : continuesName c := by
  simp [continuesName, digit]

/-- A letter is no digit. -/
theorem not_isDigit_of_isLetter {c : Char} (letter : isLetter c) : ¬ isDigit c := by
  simp only [isLetter, isDigit, Bool.or_eq_true, Bool.and_eq_true, decide_eq_true_eq] at letter ⊢
  omega

/-- A sign before something that is no sign is scanned. -/
theorem scanSign_append_of_isSign {sign text : List Char} (isSign : IsSign sign)
    (stop : ∀ c ∈ text.head?, c ≠ '+' ∧ c ≠ '-') : scanSign (sign ++ text) = (sign, text) := by
  rcases isSign with rfl | rfl | rfl
  · cases text with
    | nil => rfl
    | cons c text =>
      have other := stop c (by simp)
      simp [scanSign, other]
  · simp [scanSign]
  · simp [scanSign]

/-- What is scanned as a sign is one. -/
theorem isSign_scanSign (text : List Char) : IsSign (scanSign text).1 := by
  cases text with
  | nil => exact .inl rfl
  | cons c text =>
    simp only [scanSign]
    split
    next sign =>
      simp only [Bool.or_eq_true, decide_eq_true_eq] at sign
      rcases sign with rfl | rfl
      · exact .inr (.inl rfl)
      · exact .inr (.inr rfl)
    next => exact .inl rfl

/-- What is admitted as an integer has 64 bits. -/
theorem fitsInteger_of_admitsInteger {numeral : List Char} (admits : admitsInteger numeral) :
    fitsInteger (signedValue numeral) := (Bool.and_eq_true_iff.1 admits).2

/-- An exponent of 64 bits belongs to its number. -/
theorem takesExponent_of_fitsNumeral {exponent : List Char} (fits : fitsNumeral exponent) :
    takesExponent exponent := by
  rw [takesExponent, fits, Bool.or_true]

/-- What is admitted as an integer goes on with a number as its exponent. -/
theorem takesExponent_of_admitsInteger {numeral : List Char} (admits : admitsInteger numeral) :
    takesExponent numeral := takesExponent_of_fitsNumeral (Bool.and_eq_true_iff.1 admits).2

/-- What is admitted as an integer can be converted. -/
theorem isConvertible_of_admitsInteger {numeral : List Char} (admits : admitsInteger numeral) :
    isConvertible numeral := (Bool.and_eq_true_iff.1 admits).1

/-- The digits after a sign are counted. -/
theorem digitCount_append {sign digits : List Char} (isSign : IsSign sign)
    (all : ∀ c ∈ digits, isDigit c) : digitCount (sign ++ digits) = digits.length := by
  have unsigned : ∀ c ∈ digits.head?, c ≠ '+' ∧ c ≠ '-' :=
    fun c mem => not_sign_of_isDigit (all c (List.mem_of_mem_head? mem))
  rw [digitCount, scanSign_append_of_isSign isSign unsigned]

/-- Digits before something that is no digit are scanned. -/
theorem scanDigits_append_of_digits {digits text : List Char} (all : ∀ c ∈ digits, isDigit c)
    (stop : NoDigit text) : scanDigits (digits ++ text) = (digits, text) := by
  have stops : text.takeWhile isDigit = [] ∧ text.dropWhile isDigit = text := by
    cases text with
    | nil => simp
    | cons c text =>
      have other : isDigit c = false := by simpa using stop c (by simp)
      simp [other]
  simp [scanDigits, List.takeWhile_append_of_pos all, List.dropWhile_append_of_pos all, stops]

/-- What is scanned as digits are digits. -/
theorem isDigit_of_mem_scanDigits {text : List Char} {c : Char}
    (mem : c ∈ (scanDigits text).1) : isDigit c :=
  List.all_eq_true.1 List.all_takeWhile c mem

/-- After digits that are scanned stands no digit. -/
theorem noDigit_scanDigits (text : List Char) : NoDigit (scanDigits text).2 := by
  intro c head
  have stops := List.head?_dropWhile_not isDigit text
  rw [show (text.dropWhile isDigit).head? = some c from head] at stops
  simpa using stops

/-- An integer is scanned exactly where it is written and no digit follows. -/
theorem scanInteger?_eq_some_iff {text integer rest : List Char} :
    scanInteger? text = some (integer, rest) ↔
      text = integer ++ rest ∧ IsInteger integer ∧ NoDigit rest := by
  constructor
  · intro found
    refine ⟨(scanInteger?_text found).symm, ?_⟩
    simp only [scanInteger?] at found
    split at found
    next => cases found
    next some =>
      simp only [Option.some.injEq, Prod.mk.injEq] at found
      obtain ⟨rfl, rfl⟩ := found
      exact ⟨⟨_, _, rfl, isSign_scanSign text, by simpa using some,
        fun _ mem => isDigit_of_mem_scanDigits mem⟩, noDigit_scanDigits _⟩
  · rintro ⟨rfl, ⟨sign, digits, rfl, isSign, some, all⟩, stop⟩
    have unsigned : ∀ c ∈ (digits ++ rest).head?, c ≠ '+' ∧ c ≠ '-' := by
      obtain ⟨c, digits, rfl⟩ := List.exists_cons_of_ne_nil some
      simpa using not_sign_of_isDigit (all c (by simp))
    simp only [scanInteger?, List.append_assoc, scanSign_append_of_isSign isSign unsigned,
      scanDigits_append_of_digits all stop]
    simp [some]

namespace Number

/-- The parts of a number are what they stand for. -/
structure WellFormed (number : Number) : Prop where
  /-- The sign is one or missing. -/
  sign : IsSign number.sign
  /-- The digits before the point are digits. -/
  whole : ∀ c ∈ number.whole, isDigit c
  /-- The digits after the point are some digits. -/
  fraction : ∀ digits ∈ number.fraction, IsDigits digits
  /-- The exponent is an integer after its letter. -/
  exponent : ∀ power ∈ number.exponent, (power.1 = 'e' ∨ power.1 = 'E') ∧ IsInteger power.2

/-- The exponent of a number, if it has one, is admitted. -/
def Admitted (admits : List Char → Bool) (number : Number) : Prop :=
  ∀ power ∈ number.exponent, admits power.2

end Number

/-- What is scanned as a fraction are some digits. -/
theorem isDigits_of_scanFraction? {text digits rest : List Char}
    (found : scanFraction? text = some (digits, rest)) : IsDigits digits ∧ NoDigit rest := by
  simp only [scanFraction?] at found
  split at found
  next after =>
    split at found
    next => cases found
    next some =>
      simp only [Option.some.injEq, Prod.mk.injEq] at found
      obtain ⟨rfl, rfl⟩ := found
      exact ⟨⟨by simpa using some, fun _ mem => isDigit_of_mem_scanDigits mem⟩,
        noDigit_scanDigits _⟩
  next => cases found

/-- What is scanned as an exponent is an integer after its letter. -/
theorem isInteger_of_scanExponent? {text exponent rest : List Char} {letter : Char}
    (found : scanExponent? text = some ((letter, exponent), rest)) :
    (letter = 'e' ∨ letter = 'E') ∧ IsInteger exponent ∧ NoDigit rest := by
  match text with
  | [] => cases found
  | c :: text =>
    simp only [scanExponent?] at found
    split at found
    next mark =>
      simp only [Option.map_eq_some_iff, Prod.mk.injEq] at found
      obtain ⟨⟨integer, after⟩, scanned, ⟨rfl, rfl⟩, rfl⟩ := found
      exact ⟨by simpa using mark, (scanInteger?_eq_some_iff.1 scanned).2⟩
    next => cases found

/-- A number before its exponent, and the text after that. -/
def scanMantissa (text : List Char) : Number × List Char :=
  let (sign, text) := scanSign text
  let (whole, text) := scanDigits text
  match scanFraction? text with
  | some (digits, rest) => (⟨sign, whole, some digits, none⟩, rest)
  | none => (⟨sign, whole, none, none⟩, text)

/-- A number is its mantissa, with the exponent after it if there is one that is admitted. -/
theorem scanNumber_eq (admits : List Char → Bool) (text : List Char) :
    scanNumber admits text =
      match scanExponent? (scanMantissa text).2 with
      | some (power, rest) =>
        if admits power.2 then
          ({ (scanMantissa text).1 with exponent := some power }, rest)
        else scanMantissa text
      | none => scanMantissa text := by
  simp only [scanNumber, scanMantissa]
  cases scanFraction? (scanDigits (scanSign text).2).2 with
  | none => cases scanExponent? (scanDigits (scanSign text).2).2 <;> rfl
  | some found => cases scanExponent? found.2 <;> rfl

/-- The mantissa of a number has no exponent. -/
theorem exponent_scanMantissa (text : List Char) : (scanMantissa text).1.exponent = none := by
  simp only [scanMantissa]
  split <;> rfl

/-- The parts of a mantissa are well-formed. -/
theorem wellFormed_scanMantissa (text : List Char) : (scanMantissa text).1.WellFormed := by
  have sign := isSign_scanSign text
  have whole : ∀ c ∈ (scanDigits (scanSign text).2).1, isDigit c :=
    fun _ mem => isDigit_of_mem_scanDigits mem
  simp only [scanMantissa]
  split
  next digits rest found =>
    exact ⟨sign, whole, by simpa using (isDigits_of_scanFraction? found).1, by simp⟩
  next => exact ⟨sign, whole, by simp, by simp⟩

/-- The parts of a number that is scanned are well-formed, and its exponent is admitted. -/
theorem wellFormed_scanNumber (admits : List Char → Bool) (text : List Char) :
    (scanNumber admits text).1.WellFormed ∧ (scanNumber admits text).1.Admitted admits := by
  have mantissa := wellFormed_scanMantissa text
  have plain : (scanMantissa text).1.Admitted admits := by
    simp [Number.Admitted, exponent_scanMantissa]
  rw [scanNumber_eq]
  split
  next power rest found =>
    split
    next admitted =>
      have parts := @isInteger_of_scanExponent? _ power.2 _ power.1 found
      exact ⟨⟨mantissa.sign, mantissa.whole, mantissa.fraction,
        by simpa using ⟨parts.1, parts.2.1⟩⟩, by simpa [Number.Admitted] using admitted⟩
    next => exact ⟨mantissa, plain⟩
  next => exact ⟨mantissa, plain⟩

/-- A number whose exponent is admitted is scanned alike, whatever else is admitted. -/
theorem scanNumber_of_admits {admits : List Char → Bool} {text : List Char}
    (admitted : (scanNumber (fun _ => true) text).1.Admitted admits) :
    scanNumber admits text = scanNumber (fun _ => true) text := by
  rw [scanNumber_eq] at admitted
  rw [scanNumber_eq admits, scanNumber_eq fun _ => true]
  split
  next power rest found =>
    simp only [found, ↓reduceIte, Number.Admitted, Option.mem_def, Option.some.injEq,
      forall_eq'] at admitted ⊢
    simp [admitted]
  next => rfl

/-- No fraction is scanned where no point stands. -/
theorem scanFraction?_eq_none {text : List Char} (stop : ∀ c ∈ text.head?, c ≠ '.') :
    scanFraction? text = none := by
  cases text with
  | nil => rfl
  | cons c text =>
    have other : c ≠ '.' := stop c (by simp)
    simp [scanFraction?, other]

/-- No exponent is scanned where its letter does not stand. -/
theorem scanExponent?_eq_none {text : List Char} (stop : ∀ c ∈ text.head?, c ≠ 'e' ∧ c ≠ 'E') :
    scanExponent? text = none := by
  cases text with
  | nil => rfl
  | cons c text =>
    have other := stop c (by simp)
    simp [scanExponent?, other]

section Stopping

variable {admits : List Char → Bool} {rest : List Char}

namespace Number

/-- What follows a number does not go on with it. -/
structure Stops (admits : List Char → Bool) (number : Number) (rest : List Char) : Prop where
  /-- No digit follows. -/
  noDigit : NoDigit rest
  /-- No fraction follows a number that has only digits. -/
  noFraction : number.isIntegral → scanFraction? rest = none
  /-- No exponent that is admitted follows a number that has none. -/
  noExponent : number.exponent = none →
    ∀ found ∈ scanExponent? rest, ¬ admits found.1.2

end Number

/-- Nothing goes on with a mantissa but an exponent. -/
theorem stops_scanMantissa (text : List Char) :
    NoDigit (scanMantissa text).2 ∧
      ((scanMantissa text).1.isIntegral → scanFraction? (scanMantissa text).2 = none) := by
  simp only [scanMantissa]
  split
  next digits rest found =>
    exact ⟨(isDigits_of_scanFraction? found).2, by simp [Number.isIntegral]⟩
  next none => exact ⟨noDigit_scanDigits _, fun _ => none⟩

/-- Nothing goes on with a number that is scanned. -/
theorem stops_scanNumber (admits : List Char → Bool) (text : List Char) :
    (scanNumber admits text).1.Stops admits (scanNumber admits text).2 := by
  have mantissa := stops_scanMantissa text
  rw [scanNumber_eq]
  split
  next power after found =>
    split
    next admitted =>
      have parts := @isInteger_of_scanExponent? _ power.2 _ power.1 found
      exact ⟨parts.2.2, by simp [Number.isIntegral], by simp⟩
    next refused => exact ⟨mantissa.1, mantissa.2, fun _ => by simpa [found] using refused⟩
  next none => exact ⟨mantissa.1, mantissa.2, fun _ => by simp [none]⟩

namespace Number

/-- The exponent of a number with its letter, if there is one. -/
def power (number : Number) : List Char :=
  number.exponent.elim [] fun (letter, exponent) => letter :: exponent

/-- The text of a number without its sign and the digits before the point. -/
def tail (number : Number) : List Char := number.fraction.elim [] ('.' :: ·) ++ number.power

/-- The text of a number is its sign, the digits before the point and the tail. -/
theorem text_eq (number : Number) : number.text = number.sign ++ (number.whole ++ number.tail) := by
  simp [text, tail, power]

variable {number : Number}

/-- What comes after the sign of a number with digits is no sign. -/
theorem WellFormed.not_sign (formed : number.WellFormed) (digits : number.hasDigits) :
    ∀ c ∈ (number.whole ++ number.tail ++ rest).head?, c ≠ '+' ∧ c ≠ '-' := by
  obtain ⟨sign, whole, fraction, exponent⟩ := number
  cases whole with
  | cons c whole => simpa using not_sign_of_isDigit (formed.whole c (by simp))
  | nil =>
    cases fraction with
    | some digits => simp [tail]
    | none => simp [hasDigits] at digits

/-- No digit follows the fraction of a number. -/
theorem WellFormed.noDigit_power (formed : number.WellFormed) (noDigit : NoDigit rest) :
    NoDigit (number.power ++ rest) := by
  obtain ⟨sign, whole, fraction, exponent⟩ := number
  cases exponent with
  | none => exact noDigit
  | some power =>
    have mark : power.1 = 'e' ∨ power.1 = 'E' := (formed.exponent power rfl).1
    rcases mark with mark | mark <;> simp [Number.power, NoDigit, mark, isDigit]

/-- The mantissa of a number is scanned where nothing goes on with the number. -/
theorem WellFormed.scanMantissa (formed : number.WellFormed) (digits : number.hasDigits)
    (stops : number.Stops admits rest) :
    ThriftIdl.scanMantissa (number.text ++ rest) =
      ({ number with exponent := none }, number.power ++ rest) := by
  have powers := formed.noDigit_power stops.noDigit
  have tails : NoDigit (number.tail ++ rest) := by
    rw [tail, List.append_assoc]
    cases number.fraction with
    | none => exact powers
    | some digits => simp [NoDigit, isDigit]
  have signs : scanSign (number.text ++ rest) =
      (number.sign, number.whole ++ number.tail ++ rest) := by
    rw [number.text_eq, List.append_assoc]
    exact scanSign_append_of_isSign formed.sign (formed.not_sign digits)
  have wholes : scanDigits (number.whole ++ number.tail ++ rest) =
      (number.whole, number.tail ++ rest) := by
    rw [List.append_assoc]
    exact scanDigits_append_of_digits formed.whole tails
  simp only [ThriftIdl.scanMantissa, signs, wholes]
  cases fraction : number.fraction with
  | some digits =>
    obtain ⟨some, all⟩ := formed.fraction digits fraction
    have scanned := scanDigits_append_of_digits all powers
    simp [tail, fraction, scanFraction?, scanned, some]
  | none =>
    have scanned : scanFraction? (number.power ++ rest) = none := by
      cases exponent : number.exponent with
      | none =>
        have integral : number.isIntegral := by simp [isIntegral, fraction, exponent]
        simpa [power, exponent] using stops.noFraction integral
      | some found =>
        have mark := (formed.exponent found exponent).1
        refine scanFraction?_eq_none ?_
        rcases mark with mark | mark <;> simp [power, exponent, mark]
    simp [tail, fraction, scanned]

end Number

/-- A well-formed number is scanned exactly where nothing goes on with it. -/
theorem scanNumber_eq_iff {number : Number} (formed : number.WellFormed) (digits : number.hasDigits)
    (admitted : number.Admitted admits) :
    scanNumber admits (number.text ++ rest) = (number, rest) ↔ number.Stops admits rest := by
  constructor
  · intro scanned
    have stops := stops_scanNumber admits (number.text ++ rest)
    rwa [scanned] at stops
  · intro stops
    rw [scanNumber_eq, formed.scanMantissa digits stops]
    obtain ⟨sign, whole, fraction, exponent⟩ := number
    cases exponent with
    | none =>
      have refused := stops.noExponent rfl
      dsimp only [Number.power, Option.elim_none, List.nil_append]
      split
      next power after found => rw [if_neg (refused (power, after) found)]
      next => rfl
    | some power =>
      obtain ⟨mark, isInteger⟩ := formed.exponent power rfl
      have scanned : scanInteger? (power.2 ++ rest) = some (power.2, rest) :=
        scanInteger?_eq_some_iff.2 ⟨rfl, isInteger, stops.noDigit⟩
      have fits : admits power.2 := admitted power rfl
      have found : scanExponent? (power.1 :: (power.2 ++ rest)) = some (power, rest) := by
        simp only [scanExponent?, Bool.or_eq_true, decide_eq_true_eq]
        rw [if_pos mark, scanned]
        rfl
      dsimp only [Number.power, Option.elim_some, List.cons_append]
      rw [found]
      exact if_pos fits

/-- What goes on with no number goes on with none in particular. -/
theorem NumberStop.stops {number : Number} (stop : NumberStop rest) : number.Stops admits rest where
  noDigit := stop.noDigit
  noFraction _ := scanFraction?_eq_none fun c mem => (stop c mem).2.1
  noExponent _ found mem := by
    have none : scanExponent? rest = none := scanExponent?_eq_none fun c mem => (stop c mem).2.2
    rw [none] at mem
    cases mem

end Stopping

/-- A well-formed number that has digits and an exponent that is admitted is scanned as itself
where nothing goes on with it. -/
theorem scanNumber_append (admits : List Char → Bool) {number : Number} {rest : List Char}
    (formed : number.WellFormed) (digits : number.hasDigits) (admitted : number.Admitted admits)
    (stop : NumberStop rest) : scanNumber admits (number.text ++ rest) = (number, rest) :=
  (scanNumber_eq_iff formed digits admitted).2 stop.stops

/-- A number that is scanned is scanned again from its own text. -/
theorem scanNumber_text_self (admits : List Char → Bool) (text : List Char)
    (digits : (scanNumber admits text).1.hasDigits) :
    scanNumber (fun _ => true) (scanNumber admits text).1.text = ((scanNumber admits text).1, []) := by
  have again := scanNumber_append (fun _ => true) (wellFormed_scanNumber admits text).1 digits
    (fun _ _ => rfl) numberStop_nil
  rwa [List.append_nil] at again

/-- An integer that nothing goes on after is a number without a fraction and an exponent. -/
theorem isIntegral_scanNumber_append {admits : List Char → Bool} {integer rest : List Char}
    (isInteger : IsInteger integer) (stop : NumberStop rest) :
    (scanNumber admits (integer ++ rest)).1.isIntegral := by
  obtain ⟨sign, digits, rfl, isSign, some, all⟩ := isInteger
  have formed : Number.WellFormed ⟨sign, digits, none, none⟩ :=
    ⟨isSign, all, by simp, by simp⟩
  have scanned := scanNumber_append admits formed (by simp [Number.hasDigits, some])
    (by simp [Number.Admitted]) stop
  simp only [Number.text, Option.elim_none, List.append_nil] at scanned
  rw [scanned]
  rfl

/-- The mantissa of a number that begins with an integer has digits. -/
theorem hasDigits_scanNumber_of_scanInteger? (admits : List Char → Bool) {text : List Char}
    (found : (scanInteger? text).isSome) : (scanNumber admits text).1.hasDigits := by
  have whole : (scanDigits (scanSign text).2).1 ≠ [] := by
    intro none
    simp [scanInteger?, none] at found
  have mantissa : (scanMantissa text).1.hasDigits := by
    simp only [scanMantissa]
    split <;> simp [Number.hasDigits, whole]
  rw [scanNumber_eq]
  split
  next => split <;> simpa [Number.hasDigits] using mantissa
  next => exact mantissa

/-- No number begins a text: neither a sign nor a digit nor a point. -/
def NoNumber (text : List Char) : Prop :=
  ∀ c ∈ text.head?, ¬ isDigit c ∧ c ≠ '+' ∧ c ≠ '-' ∧ c ≠ '.'

/-- Where no number begins, a scanned number has no digits. -/
theorem NoNumber.hasDigits {text : List Char} (noNumber : NoNumber text) (admits : List Char → Bool) :
    (scanNumber admits text).1.hasDigits = false := by
  cases text with
  | nil => rfl
  | cons c text =>
    obtain ⟨digit, plus, minus, point⟩ := noNumber c (by simp)
    have signs : scanSign (c :: text) = ([], c :: text) := by simp [scanSign, plus, minus]
    have wholes : scanDigits (c :: text) = ([], c :: text) := by simp [scanDigits, digit]
    have fractions : scanFraction? (c :: text) = none := scanFraction?_eq_none (by simpa using point)
    simp only [scanNumber, signs, wholes, fractions]
    split
    next => split <;> rfl
    next => rfl

/-- Where no number begins, no integer is scanned. -/
theorem NoNumber.scanInteger? {text : List Char} (noNumber : NoNumber text) :
    scanInteger? text = none := by
  cases text with
  | nil => rfl
  | cons c text =>
    obtain ⟨digit, plus, minus, -⟩ := noNumber c (by simp)
    simp [ThriftIdl.scanInteger?, scanSign, scanDigits, digit, plus, minus]

section Foreign

/-- A text begins with nothing that may belong to a number. -/
def Foreign (text : List Char) : Prop :=
  ∀ c ∈ text.head?, ¬ isDigit c ∧ c ∉ ['+', '-', '.', 'e', 'E']

variable {rest : List Char} (foreign : Foreign rest) (text : List Char)
include foreign

/-- A sign does not reach into what belongs to no number. -/
theorem scanSign_append_foreign :
    scanSign (text ++ rest) = ((scanSign text).1, (scanSign text).2 ++ rest) := by
  cases text with
  | nil =>
    cases rest with
    | nil => rfl
    | cons c rest =>
      have other := (foreign c (by simp)).2
      simp only [List.mem_cons, not_or] at other
      simp [scanSign, other.1, other.2.1]
  | cons c text =>
    simp only [List.cons_append, scanSign]
    split <;> rfl

/-- Digits do not reach into what belongs to no number. -/
theorem scanDigits_append_foreign :
    scanDigits (text ++ rest) = ((scanDigits text).1, (scanDigits text).2 ++ rest) := by
  have stop : NoDigit rest := fun c head => (foreign c head).1
  induction text with
  | nil =>
    show scanDigits ([] ++ rest) = ([], rest)
    exact scanDigits_append_of_digits (by simp) stop
  | cons c text ih =>
    simp only [scanDigits, Prod.mk.injEq] at ih
    cases digit : isDigit c <;> simp [scanDigits, digit, ih]

/-- An integer does not reach into what belongs to no number. -/
theorem scanInteger?_append_foreign :
    scanInteger? (text ++ rest) = (scanInteger? text).map (Prod.map id (· ++ rest)) := by
  simp only [scanInteger?, scanSign_append_foreign foreign, scanDigits_append_foreign foreign]
  split <;> rfl

/-- A fraction does not reach into what belongs to no number. -/
theorem scanFraction?_append_foreign :
    scanFraction? (text ++ rest) = (scanFraction? text).map (Prod.map id (· ++ rest)) := by
  cases text with
  | nil =>
    refine scanFraction?_eq_none fun c head => ?_
    have other := (foreign c head).2
    simp only [List.mem_cons, not_or] at other
    exact other.2.2.1
  | cons c text =>
    by_cases point : c = '.'
    · subst point
      simp only [List.cons_append, scanFraction?, scanDigits_append_foreign foreign]
      split <;> rfl
    · rw [List.cons_append, scanFraction?_eq_none (by simpa using point),
        scanFraction?_eq_none (by simpa using point)]
      rfl

/-- An exponent does not reach into what belongs to no number. -/
theorem scanExponent?_append_foreign :
    scanExponent? (text ++ rest) = (scanExponent? text).map (Prod.map id (· ++ rest)) := by
  cases text with
  | nil =>
    refine scanExponent?_eq_none fun c head => ?_
    have other := (foreign c head).2
    simp only [List.mem_cons, not_or] at other
    exact ⟨other.2.2.2.1, other.2.2.2.2.1⟩
  | cons c text =>
    simp only [List.cons_append, scanExponent?, scanInteger?_append_foreign foreign]
    split
    · rw [Option.map_map, Option.map_map]
      rfl
    · rfl

/-- A number does not reach into what belongs to no number. -/
theorem scanNumber_append_foreign (admits : List Char → Bool) :
    scanNumber admits (text ++ rest) =
      ((scanNumber admits text).1, (scanNumber admits text).2 ++ rest) := by
  have mantissa : scanMantissa (text ++ rest) =
      ((scanMantissa text).1, (scanMantissa text).2 ++ rest) := by
    simp only [scanMantissa, scanSign_append_foreign foreign, scanDigits_append_foreign foreign,
      scanFraction?_append_foreign foreign]
    cases scanFraction? (scanDigits (scanSign text).2).2 <;> rfl
  simp only [scanNumber_eq, mantissa, scanExponent?_append_foreign foreign]
  cases scanExponent? (scanMantissa text).2 with
  | none => rfl
  | some found =>
    simp only [Option.map_some, Prod.map, id]
    split <;> rfl

end Foreign
end ThriftIdl
