import ThriftIdl.Proofs.Reader.Constants
import ThriftIdl.Proofs.Reader.Alone
import ThriftIdl.Proofs.Text.Pattern
import ThriftIdl.Proofs.Token.Lexer

/-!
# Both readers cut numbers alike

Direct reading scans a number and then looks at what it has scanned; the grammar has a pattern for
each kind of number, and tries the one with a fraction or an exponent first. They take the same
characters off the start of each text, unless the exponent of the number there has more than 64 bits
or a numeral there has more digits than can be converted (`readProduction_number_iff`). Only direct reading
converts numerals, and it raises their number where they are too many
(`readProduction_strictDoubleConstant_of_long`, `readProduction_intConstant_of_long`).
-/
namespace ThriftIdl

open Text
open Readable (strictDouble integer)

/-- The number at the start of a text, if it has digits, has no exponent of more than 64 bits. -/
def ExponentFits (text : List Char) : Prop :=
  (scanNumber (fun _ => true) text).1.hasDigits →
    (scanNumber (fun _ => true) text).1.Admitted fitsNumeral

/-- The exponent of the number at the start of a text, if it has digits, can be converted. -/
def ExponentConverts (text : List Char) : Prop :=
  (scanNumber (fun _ => true) text).1.hasDigits →
    isConvertible (scanNumber (fun _ => true) text).1.scale

/-- The integer at the start of a text, if there is one, can be converted. -/
def IntegerConverts (text : List Char) : Prop := ∀ found ∈ scanInteger? text, isConvertible found.1

/-- A production takes a number of characters off the start of a text. -/
def Takes (production : Production) (limit : Int) (text : List Char) (count : Nat) : Prop :=
  ∃ found rest reading, text = found ++ rest ∧ found.length = count ∧
    readProduction production limit text = .ok (rest, reading)

/-- An integer is not read because the given number of characters at the start of a text is one of
more than 64 bits. -/
def Overflows (limit : Int) (text : List Char) (count : Nat) : Prop :=
  ∃ found rest, text = found ++ rest ∧ found.length = count ∧
    readProduction .intConstant limit text =
      .error (.diagnosis (.ofFault text limit 0 ⟨.integerTooLarge found, text.length⟩))

section Scanning

variable {text rest : List Char}

/-- Whether a number has digits does not depend on the exponents that are admitted. -/
theorem hasDigits_scanNumber (admits : List Char → Bool) (text : List Char) :
    (scanNumber admits text).1.hasDigits = (scanMantissa text).1.hasDigits := by
  rw [scanNumber_eq]
  split
  next => split <;> rfl
  next => rfl

/-- A number whose exponent has 64 bits is scanned as it would be if all exponents were admitted. -/
theorem ExponentFits.scanNumber (fits : ExponentFits text)
    (digits : (scanMantissa text).1.hasDigits) :
    scanNumber takesExponent text = scanNumber (fun _ => true) text :=
  scanNumber_of_admits fun power mem =>
    takesExponent_of_fitsNumeral (fits ((hasDigits_scanNumber _ text).trans digits) power mem)

/-- A number is read as a double where one with a fraction or an exponent is matched. -/
theorem ExponentFits.gives_strictDouble_iff (fits : ExponentFits text)
    (short : ExponentConverts text) :
    (∃ value, (strictDouble : Reader (List Char) Double).Gives text value rest) ↔
      ∃ found, matchDouble? text = some (found, rest) := by
  simp only [Reader.gives_strictDouble_iff_scanNumber, matchDouble?]
  cases digits : (scanMantissa text).1.hasDigits with
  | false =>
    constructor
    · rintro ⟨_, number, scanned, some, -⟩
      have none := hasDigits_scanNumber takesExponent text
      rw [scanned, some, digits] at none
      cases none
    · simp [hasDigits_scanNumber, digits]
  | true =>
    have some := (hasDigits_scanNumber (fun _ => true) text).trans digits
    have few := short some
    rw [fits.scanNumber digits]
    constructor
    · rintro ⟨_, number, scanned, _, integral, -⟩
      rw [scanned] at some ⊢
      exact ⟨number.text, by simp [some, integral]⟩
    · rintro ⟨found, matched⟩
      split at matched
      next holds =>
        simp only [Bool.and_eq_true, Bool.not_eq_true'] at holds
        simp only [Option.some.injEq, Prod.mk.injEq] at matched
        obtain ⟨-, rfl⟩ := matched
        exact ⟨_, _, rfl, holds.1, holds.2, few, rfl⟩
      next => cases matched

/-- Where a number begins, it is not read as a double if none with a fraction or an exponent is
matched. -/
theorem ExponentFits.refuses_strictDouble_iff (fits : ExponentFits text)
    (digits : (scanMantissa text).1.hasDigits) :
    (strictDouble : Reader (List Char) Double).Refuses text ↔ matchDouble? text = none := by
  have some := (hasDigits_scanNumber (fun _ => true) text).trans digits
  rw [Reader.refuses_strictDouble_iff_scanNumber, fits.scanNumber digits, some, matchDouble?]
  simp [some]

end Scanning

namespace Reader

variable {text rest : List Char} {depth : Nat}

/-- What is read as a name is a name. -/
theorem exists_isName_of_gives_name {name : String}
    (given : (Readable.name : Reader (List Char) String).Gives text name rest) :
    ∃ word, text = word ++ rest ∧ IsName word := by
  change (Lexical.name).Gives text name rest at given
  simp only [Lexical.name, gives_orFail, Option.map_eq_some_iff, Prod.mk.injEq] at given
  obtain ⟨⟨word, after⟩, scanned, -, rfl⟩ := given
  obtain ⟨parts, isName, -⟩ := scanName?_eq_some_iff.1 scanned
  exact ⟨word, parts, isName⟩

/-- What is read as a literal begins with a quote. -/
theorem exists_quote_of_gives_literal {value : String}
    (given : (Readable.literal : Reader (List Char) String).Gives text value rest) :
    ∃ (quote : Quote) (tail : List Char), text = quote.char :: tail := by
  change ∃ noted, Lexical.literal text = .ok value rest noted at given
  cases text with
  | nil => simp [Lexical.literal, fail] at given
  | cons c text =>
    cases isQuote : Quote.ofChar? c with
    | none => simp [Lexical.literal, isQuote, fail] at given
    | some quote => exact ⟨quote, text, by rw [Quote.ofChar?_eq_some_iff.1 isQuote]⟩

/-- Where a name is read, no number begins. -/
theorem noNumber_of_gives_name {name : String}
    (given : (Readable.name : Reader (List Char) String).Gives text name rest) : NoNumber text := by
  obtain ⟨word, rfl, isName⟩ := exists_isName_of_gives_name given
  exact noNumber_of_isName isName

/-- Where a literal is read, no number begins. -/
theorem noNumber_of_gives_literal {value : String}
    (given : (Readable.literal : Reader (List Char) String).Gives text value rest) :
    NoNumber text := by
  obtain ⟨quote, tail, rfl⟩ := exists_quote_of_gives_literal given
  have other := quote.noOther
  simp_all [NoNumber]

/-- Where no number begins, none is read. -/
theorem not_gives_of_noNumber (noNumber : NoNumber text) :
    (∀ value rest, ¬ (Readable.strictDouble : Reader (List Char) Double).Gives text value rest) ∧
      ∀ value rest, ¬ (Readable.integer : Reader (List Char) Int).Gives text value rest := by
  constructor
  · intro value rest given
    obtain ⟨number, scanned, digits, -⟩ := gives_strictDouble_iff_scanNumber.1 given
    have none := noNumber.hasDigits takesExponent
    rw [scanned, digits] at none
    cases none
  · intro value rest given
    obtain ⟨found, scanned, -⟩ := gives_integer.1 given
    rw [noNumber.scanInteger?] at scanned
    cases scanned

/-- Where a number begins, neither a name nor a literal is read. -/
theorem refuses_words (number : ¬ NoNumber text) :
    (Readable.name : Reader (List Char) String).Refuses text ∧
      (Readable.literal : Reader (List Char) String).Refuses text :=
  ⟨Decides.refuses (decides_orFail (by decide)) fun _ _ given =>
      number (noNumber_of_gives_name given),
    decides_literal.refuses fun _ _ given => number (noNumber_of_gives_literal given)⟩

/-- What is read as a list or a map is no number. -/
theorem isContainer_of_gives {inner : Option (Reader (List Char) ConstValue)} {value : ConstValue}
    (given : (constListOf inner).Gives text value rest ∨ (constMapOf inner).Gives text value rest) :
    (∃ values, value = .list values) ∨ ∃ entries, value = .map entries := by
  rcases given with list | map
  · obtain ⟨_, _, -, body⟩ := gives_bind.1 list
    obtain ⟨_, -, body⟩ := gives_inside.1 body
    obtain ⟨values, _, -, body⟩ := gives_bind.1 (gives_skipSeparator_bind.1 body)
    obtain ⟨_, _, -, body⟩ := gives_bind.1 body
    exact .inl ⟨values, (gives_pure.1 body).1⟩
  · obtain ⟨_, _, -, body⟩ := gives_bind.1 map
    obtain ⟨_, -, body⟩ := gives_inside.1 body
    obtain ⟨entries, _, -, body⟩ := gives_bind.1 (gives_skipSeparator_bind.1 body)
    obtain ⟨_, _, -, body⟩ := gives_bind.1 body
    exact .inr ⟨entries, (gives_pure.1 body).1⟩

/-- A constant is a double where a number with a fraction or an exponent is read. -/
theorem gives_constValue_double_iff {value : Double} :
    (constValue depth).Gives text (.double value) rest ↔
      (Readable.strictDouble : Reader (List Char) Double).Gives text value rest := by
  rw [constValue_eq]
  constructor
  · intro given
    obtain name | ⟨-, literal | ⟨-, double | ⟨-, int | ⟨-, list | ⟨-, map | ⟨-, impossible⟩⟩⟩⟩⟩⟩ :=
      gives_alternatives.1 given
    · simp [gives_map] at name
    · simp [gives_map] at literal
    · simpa [gives_map] using double
    · simp [gives_map] at int
    · simpa using isContainer_of_gives (.inl list)
    · simpa using isContainer_of_gives (.inr map)
    · exact impossible.elim
  · intro given
    obtain ⟨noName, noLiteral⟩ := refuses_words fun noNumber =>
      (not_gives_of_noNumber noNumber).1 value rest given
    exact gives_alternatives.2 (.inr ⟨refuses_map.2 noName, .inr ⟨refuses_map.2 noLiteral,
      .inl (given.map _)⟩⟩)

/-- A constant is an integer where one is read, and no number with a fraction or an exponent. -/
theorem gives_constValue_int_iff {value : Int} :
    (constValue depth).Gives text (.int value) rest ↔
      (Readable.strictDouble : Reader (List Char) Double).Refuses text ∧
        (Readable.integer : Reader (List Char) Int).Gives text value rest := by
  rw [constValue_eq]
  constructor
  · intro given
    obtain name | ⟨-, literal | ⟨-, double | ⟨refused, int | ⟨-, list | ⟨-, map | ⟨-, impossible⟩⟩⟩⟩⟩⟩ :=
      gives_alternatives.1 given
    · simp [gives_map] at name
    · simp [gives_map] at literal
    · simp [gives_map] at double
    · exact ⟨refuses_map.1 refused, by simpa [gives_map] using int⟩
    · simpa using isContainer_of_gives (.inl list)
    · simpa using isContainer_of_gives (.inr map)
    · exact impossible.elim
  · rintro ⟨noDouble, given⟩
    obtain ⟨noName, noLiteral⟩ := refuses_words fun noNumber =>
      (not_gives_of_noNumber noNumber).2 value rest given
    exact gives_alternatives.2 (.inr ⟨refuses_map.2 noName, .inr ⟨refuses_map.2 noLiteral,
      .inr ⟨refuses_map.2 noDouble, .inl (given.map _)⟩⟩⟩)

end Reader

section Tokens

variable {expected : Expected} {text found rest : List Char}

/-- Where a number with a fraction or an exponent is expected, it is the token that stands where its
pattern matches. -/
theorem matchTerminal?_eq_double_iff (wanted : .double ∈ expected) :
    matchTerminal? expected.contains text = some (.double, found, rest) ↔
      Pattern.double.match? text = some (found, rest) := by
  rw [matchTerminal?_eq_some_iff, Pattern.match?_double, @matchDouble?_eq_some_iff expected]
  simp [wanted]

/-- Where both kinds of numbers are expected, an integer is the token that stands where its pattern
matches and that of the other kind does not. -/
theorem matchTerminal?_eq_integer_iff (wantedDouble : .double ∈ expected)
    (wantedInteger : .integer ∈ expected) :
    matchTerminal? expected.contains text = some (.integer, found, rest) ↔
      Pattern.double.match? text = none ∧ Pattern.integer.match? text = some (found, rest) := by
  rw [matchTerminal?_eq_some_iff, Pattern.match?_double, Pattern.match?_integer]
  constructor
  · rintro ⟨-, rfl, isInteger, stop, integral⟩
    exact ⟨by simp [matchDouble?, integral wantedDouble],
      scanInteger?_eq_some_iff.2 ⟨rfl, isInteger, stop⟩⟩
  · rintro ⟨noDouble, scanned⟩
    have digits : (scanNumber (fun _ => true) text).1.hasDigits :=
      hasDigits_scanNumber_of_scanInteger? _ (Option.isSome_of_eq_some scanned)
    obtain ⟨rfl, isInteger, stop⟩ := scanInteger?_eq_some_iff.1 scanned
    exact ⟨wantedInteger, rfl, isInteger, stop, fun _ => by simpa [matchDouble?, digits] using noDouble⟩

end Tokens

section Productions

variable {limit : Int} {text : List Char} {count : Nat}

/-- A pattern matches some characters where they begin the text and their rest is left. -/
theorem Pattern.length?_eq_some_iff_append {pattern : Pattern} :
    pattern.length? text = some count ↔
      ∃ found rest, text = found ++ rest ∧ found.length = count ∧
        ∃ found, pattern.match? text = some (found, rest) := by
  rw [length?_eq_some_iff]
  constructor
  · rintro ⟨found, rest, matched, rfl⟩
    exact ⟨found, rest, (match?_eq_some_iff.1 matched).1, rfl, found, matched⟩
  · rintro ⟨found, rest, spelled, rfl, found', matched⟩
    have same := (match?_eq_some_iff.1 matched).1
    rw [spelled] at same
    exact ⟨found', rest, matched, by rw [List.append_cancel_right same]⟩

/-- A number with a fraction or an exponent is read by itself where its pattern matches, and takes
the same characters. -/
theorem ExponentFits.takes_strictDouble_iff (fits : ExponentFits text)
    (short : ExponentConverts text) :
    Takes .strictDoubleConstant limit text count ↔ Pattern.double.length? text = some count := by
  have reads : ∀ rest,
      (∃ reading, readProduction .strictDoubleConstant limit text = .ok (rest, reading)) ↔
        ∃ found, Pattern.double.match? text = some (found, rest) := by
    intro rest
    rw [Pattern.match?_double, ← fits.gives_strictDouble_iff short]
    simp only [readProduction_eq_ok_iff, Production.reader, Reader.gives_map]
    constructor
    · rintro ⟨_, _, ⟨value, given, rfl⟩, rfl⟩
      exact ⟨value, given⟩
    · rintro ⟨value, given⟩
      exact ⟨_, _, ⟨value, given, rfl⟩, rfl⟩
  simp only [Takes, Pattern.length?_eq_some_iff_append, ← reads, exists_and_left]

/-- An integer that is read by itself is the one that is scanned, if it can be converted and has 64
bits. -/
theorem readProduction_intConstant (limit : Int) (text : List Char) :
    readProduction .intConstant limit text =
      match scanInteger? text with
      | none => .error (.diagnosis (.ofFault text limit 0 ⟨.integerExpected, text.length⟩))
      | some (found, rest) =>
        if isConvertible found then
          if fitsNumeral found then .ok (rest, .constant (.int (signedValue found)))
          else .error (.diagnosis (.ofFault text limit 0 ⟨.integerTooLarge found, text.length⟩))
        else .error (.tooManyDigits (digitCount found)) := by
  have reads : Production.intConstant.reader limit.toNat text = Reader.bind Lexical.integer
      (fun value => Reader.pure (.constant (.int value))) text := rfl
  rw [readProduction, reads]
  cases scanned : scanInteger? text with
  | none =>
    simp [Reader.bind, Lexical.integer, scanned, Reader.fail, Trace.head, Input.left, Raised.ofFault]
  | some parts =>
    cases few : isConvertible parts.1 with
    | false =>
      simp [Reader.bind, Lexical.integer, Lexical.integerFault, admitsInteger, scanned, few,
        Reader.fail, Trace.head, Raised.ofFault]
    | true =>
      cases fits : fitsNumeral parts.1 with
      | true =>
        simp [Reader.bind, Lexical.integer, admitsInteger, scanned, few, fits, Outcome.after,
          Reader.pure, Reading.map]
      | false =>
        simp [Reader.bind, Lexical.integer, Lexical.integerFault, admitsInteger, scanned, few, fits,
          Reader.fail, Trace.head, Input.left, Raised.ofFault]

/-- An integer that cannot be converted raises how many digits it has. -/
theorem readProduction_intConstant_of_long {found rest : List Char}
    (scanned : scanInteger? text = some (found, rest)) (long : isConvertible found = false) :
    readProduction .intConstant limit text = .error (.tooManyDigits (digitCount found)) := by
  rw [readProduction_intConstant, scanned]
  simp [long]

/-- An exponent that cannot be converted raises how many digits it has, even if its number has none. -/
theorem readProduction_strictDoubleConstant_of_long
    (long : isConvertible (scanNumber (fun _ => true) text).1.scale = false) :
    readProduction .strictDoubleConstant limit text =
      .error (.tooManyDigits (digitCount (scanNumber (fun _ => true) text).1.scale)) := by
  have taken : scanNumber takesExponent text = scanNumber (fun _ => true) text := by
    refine scanNumber_of_admits fun power mem => ?_
    rw [Number.scale, Option.mem_def.1 mem] at long
    rw [takesExponent, show isConvertible power.2 = false from long]
    rfl
  have integral : (scanNumber (fun _ => true) text).1.isIntegral = false := by
    by_contra integral
    rw [Bool.not_eq_false] at integral
    rw [Reader.isConvertible_scale_of_isIntegral integral] at long
    cases long
  have reads : Production.strictDoubleConstant.reader limit.toNat text =
      Reader.bind Lexical.strictDouble (fun value => Reader.pure (.constant (.double value))) text :=
    rfl
  rw [readProduction, reads]
  simp [Reader.bind, Lexical.strictDouble, Lexical.double, taken, integral, long, Reader.fail,
    Trace.head, Raised.ofFault]

/-- Characters between two texts are told apart. -/
theorem eq_of_append_ofList_append {before after : String} {found found' : List Char}
    (same : before ++ String.ofList found ++ after = before ++ String.ofList found' ++ after) :
    found = found' := by
  have characters := congrArg String.toList same
  simpa using characters

/-- Which integer has more than 64 bits is said where one is diagnosed. -/
theorem eq_of_ofFault_integerTooLarge {found found' : List Char} {left : Nat}
    (same : Diagnosis.ofFault text limit 0 ⟨.integerTooLarge found, left⟩ =
      .ofFault text limit 0 ⟨.integerTooLarge found', left⟩) : found = found' :=
  eq_of_append_ofList_append (congrArg Diagnosis.message same)

/-- An integer is read by itself where its pattern matches, and takes the same characters, unless
they are an integer of more than 64 bits. -/
theorem takes_integer_or_overflows_iff (short : IntegerConverts text) :
    Takes .intConstant limit text count ∨ Overflows limit text count ↔
      Pattern.integer.length? text = some count := by
  simp only [Takes, Overflows, Pattern.length?_eq_some_iff, Pattern.match?_integer,
    readProduction_intConstant]
  cases scanned : scanInteger? text with
  | none => simp [Diagnosis.ofFault, Reason.kind]
  | some parts =>
    have few : isConvertible parts.1 := short parts scanned
    obtain ⟨digits, after⟩ := parts
    have parts := scanInteger?_text scanned
    simp only [few, ↓reduceIte, Option.some.injEq, Prod.mk.injEq]
    constructor
    · rintro (⟨found, rest, reading, spelled, counted, read⟩ | ⟨found, rest, spelled, counted, failed⟩)
      · split at read
        next =>
          simp only [Except.ok.injEq, Prod.mk.injEq] at read
          obtain ⟨rfl, -⟩ := read
          rw [spelled] at parts
          exact ⟨found, after, ⟨List.append_cancel_right parts, rfl⟩, counted⟩
        next => cases read
      · split at failed
        next => cases failed
        next =>
          obtain rfl := eq_of_ofFault_integerTooLarge (Raised.diagnosis.inj (Except.error.inj failed))
          exact ⟨digits, after, ⟨rfl, rfl⟩, counted⟩
    · rintro ⟨_, _, ⟨rfl, rfl⟩, counted⟩
      cases fitsNumeral digits with
      | true => exact .inl ⟨digits, after, _, parts.symm, counted, rfl⟩
      | false => exact .inr ⟨digits, after, parts.symm, counted, rfl⟩

/-- On a text whose number has no exponent of more than 64 bits or with more digits than can be converted,
both readers cut numbers alike. A number with a fraction or an exponent is read by itself where its
pattern matches, and an integer that can be converted where its own pattern does, unless it has more than
64 bits. A constant is a double where the token of such a number stands, with the same text. It is an
integer where the token of an integer of 64 bits stands that can be converted. -/
theorem readProduction_number_iff (limit : Int) (fits : ExponentFits text)
    (short : ExponentConverts text) :
    (∀ count, Takes .strictDoubleConstant limit text count ↔
      Pattern.double.length? text = some count) ∧
    (IntegerConverts text → ∀ count,
      Takes .intConstant limit text count ∨ Overflows limit text count ↔
        Pattern.integer.length? text = some count) ∧
    ∀ expected : Expected, .double ∈ expected → .integer ∈ expected → ∀ found rest,
      ((text = found ++ rest ∧ ∃ value,
          readProduction .constValue limit text = .ok (rest, .constant (.double value))) ↔
        matchTerminal? expected.contains text = some (.double, found, rest)) ∧
      (IntegerConverts text → ((text = found ++ rest ∧ ∃ value,
          readProduction .constValue limit text = .ok (rest, .constant (.int value))) ↔
        matchTerminal? expected.contains text = some (.integer, found, rest) ∧
          fitsInteger (signedValue found))) := by
  refine ⟨fun _ => fits.takes_strictDouble_iff short, fun short _ => takes_integer_or_overflows_iff short,
    fun expected wantedDouble wantedInteger found rest => ⟨?_, fun short => ?_⟩⟩
  · rw [matchTerminal?_eq_double_iff wantedDouble, Pattern.match?_double]
    simp only [readProduction_constValue_iff, Reader.gives_constValue_double_iff,
      fits.gives_strictDouble_iff short]
    constructor
    · rintro ⟨spelled, found', matched⟩
      have parts := (@matchDouble?_eq_some_iff expected _ _ _).1 matched
      rw [spelled] at parts
      rw [matched, List.append_cancel_right parts.1]
    · intro matched
      exact ⟨((@matchDouble?_eq_some_iff expected _ _ _).1 matched).1, found, matched⟩
  · rw [matchTerminal?_eq_integer_iff wantedDouble wantedInteger, Pattern.match?_double,
      Pattern.match?_integer]
    simp only [readProduction_constValue_iff, Reader.gives_constValue_int_iff, Reader.gives_integer]
    -- An integer has digits, so that its number is refused as a double where none is matched.
    have refused {found rest : List Char} (scanned : scanInteger? text = some (found, rest)) :=
      fits.refuses_strictDouble_iff ((hasDigits_scanNumber (fun _ => true) text).symm.trans
        (hasDigits_scanNumber_of_scanInteger? _ (Option.isSome_of_eq_some scanned)))
    constructor
    · rintro ⟨spelled, value, noDouble, found', scanned, fits', rfl⟩
      have parts := scanInteger?_text scanned
      rw [spelled] at parts
      obtain rfl := List.append_cancel_right parts
      exact ⟨⟨(refused scanned).1 noDouble, scanned⟩, fitsInteger_of_admitsInteger fits'⟩
    · rintro ⟨⟨noDouble, scanned⟩, fits'⟩
      have admits : admitsInteger found := Bool.and_eq_true_iff.2 ⟨short _ scanned, fits'⟩
      exact ⟨(scanInteger?_text scanned).symm, _, (refused scanned).2 noDouble, found, scanned, admits,
        rfl⟩

/-- A number with a fraction and an exponent in front of a comma is read with six characters, and
read as a constant up to the comma; as an integer it is read with one. -/
theorem readProduction_number_iff_scientific : ExponentFits "1.5e-3,".toList ∧
    ExponentConverts "1.5e-3,".toList ∧ IntegerConverts "1.5e-3,".toList ∧
    Takes .strictDoubleConstant 64 "1.5e-3,".toList 6 ∧
    (Takes .intConstant 64 "1.5e-3,".toList 1 ∨ Overflows 64 "1.5e-3,".toList 1) ∧
    ∃ value, readProduction .constValue 64 "1.5e-3,".toList =
      .ok (",".toList, .constant (.double value)) := by
  have fits : ExponentFits "1.5e-3,".toList := by
    rintro - power mem
    have scanned : (scanNumber (fun _ => true) "1.5e-3,".toList).1.exponent =
        some ('e', "-3".toList) := by decide
    rw [scanned] at mem
    obtain rfl := Option.some.inj mem
    decide
  have few : ExponentConverts "1.5e-3,".toList := fun _ => by decide
  have short : IntegerConverts "1.5e-3,".toList := by
    intro found scanned
    have first : scanInteger? "1.5e-3,".toList = some ("1".toList, ".5e-3,".toList) := by decide
    obtain rfl := Option.some.inj (first.symm.trans scanned)
    decide
  obtain ⟨double, integer, constant⟩ := readProduction_number_iff 64 fits few
  have token := constant [.double, .integer] (by simp) (by simp) "1.5e-3".toList ",".toList
  exact ⟨fits, few, short, (double 6).2 (by decide), (integer short 1).2 (by decide),
    (token.1.2 (by decide)).2⟩

end Productions
end ThriftIdl
