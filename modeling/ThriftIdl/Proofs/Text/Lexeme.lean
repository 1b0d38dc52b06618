import ThriftIdl.Proofs.Text.Literal
import ThriftIdl.Proofs.Text.Numeral
import ThriftIdl.Proofs.Text.Separation

/-!
# Texts as lexemes

A lexeme is a piece of a text as its characters alone make it: a word, a mark, a literal or a
number, whatever a reader expects there. It remembers where it begins and whether a blank or a
comment stands before it. How far a number goes depends on the exponents that are admitted, so that
the lexemes of a text depend on them too. Main statements: `scanShape?_eq_some_iff`, what can be
scanned at the start of a text, and `lexemes_eq`, a text that consists of lexemes consists of one
sequence of them only.
-/
namespace ThriftIdl

open Text

/-- The shapes that the characters of a lexeme may have. -/
inductive Shape where
  /-- A name or a keyword. -/
  | word
  /-- A single character. -/
  | mark (mark : Mark)
  /-- A literal with its quotes. -/
  | literal
  /-- A number with a fraction or an exponent. -/
  | double
  /-- A number without a fraction and an exponent. -/
  | integer
deriving DecidableEq, Repr

/-- A piece of a text. -/
structure Lexeme where
  /-- The shape of the characters. -/
  shape : Shape
  /-- The characters. -/
  text : List Char
  /-- The number of characters left at its start. -/
  left : Nat
  /-- Whether a blank or a comment stands before it. -/
  apart : Bool
deriving DecidableEq, Repr

/-- Whether a blank or a complete comment begins a text. -/
def hasGap (text : List Char) : Bool := (afterSeparator? text).isSome

/-- The mark at the start of a text, and the text after it. -/
def scanMark? : List Char → Option (Mark × List Char)
  | [] => none
  | c :: text => (Mark.all.find? fun mark => mark.char = c).map fun mark => (mark, text)

/-- The shape that begins a text, its characters, and the text after it. -/
def scanShape? (admits : List Char → Bool) (text : List Char) : Option (Shape × List Char × List Char) :=
  let (number, rest) := scanNumber admits text
  if number.hasDigits && !number.isIntegral then some (.double, number.text, rest)
  else
    ((scanInteger? text).map fun (found, rest) => (.integer, found, rest)).or <|
      ((matchLiteral? text).map fun (found, rest) => (.literal, found, rest)).or <|
        ((scanName? text).map fun (found, rest) => (.word, found, rest)).or <|
          (scanMark? text).map fun (mark, rest) => (.mark mark, [mark.char], rest)

/-- Some characters in front of a rest are a shape as a whole, and the shape ends with them. -/
def Shape.Before (admits : List Char → Bool) (found rest : List Char) : Shape → Prop
  | word => IsName found ∧ Closed rest
  | mark symbol => found = [symbol.char]
  | literal => IsLiteral found
  | double => ∃ number, scanNumber admits (found ++ rest) = (number, rest) ∧ number.hasDigits ∧
      number.isIntegral = false
  | integer => IsInteger found ∧ NoDigit rest ∧ (scanNumber admits (found ++ rest)).1.isIntegral

/-- Every mark is among all marks. -/
theorem Mark.mem_all (mark : Mark) : mark ∈ Mark.all := by cases mark <;> decide

/-- Different marks have different characters. -/
theorem Mark.char_inj {mark other : Mark} : mark.char = other.char ↔ mark = other := by
  constructor
  · intro same
    have all : ∀ mark ∈ Mark.all, ∀ other ∈ Mark.all, mark.char = other.char → mark = other := by
      decide
    exact all mark mark.mem_all other other.mem_all same
  · rintro rfl
    rfl

/-- A mark is scanned exactly where its character stands. -/
theorem scanMark?_eq_some_iff {text rest : List Char} {mark : Mark} :
    scanMark? text = some (mark, rest) ↔ text = mark.char :: rest := by
  cases text with
  | nil => simp [scanMark?]
  | cons c text =>
    simp only [scanMark?, Option.map_eq_some_iff, Prod.mk.injEq, List.cons.injEq]
    constructor
    · rintro ⟨_, found, rfl, rfl⟩
      have same := List.find?_some found
      simp only [decide_eq_true_eq] at same
      exact ⟨same.symm, rfl⟩
    · rintro ⟨rfl, rfl⟩
      cases found : Mark.all.find? fun other => other.char = mark.char with
      | none =>
        have other := List.find?_eq_none.1 found mark mark.mem_all
        simp at other
      | some other =>
        have same := List.find?_some found
        simp only [decide_eq_true_eq, Mark.char_inj] at same
        exact ⟨other, rfl, same, rfl⟩

/-- A mark begins no number, no literal and no name. -/
theorem Mark.noOther (mark : Mark) : ¬ isDigit mark.char ∧ mark.char ∉ ['+', '-', '.', '_'] ∧
    mark.char ≠ Quote.single.char ∧ mark.char ≠ Quote.double.char ∧ ¬ isLetter mark.char := by
  have all : ∀ mark ∈ Mark.all, ¬ isDigit mark.char ∧ mark.char ∉ ['+', '-', '.', '_'] ∧
      mark.char ≠ Quote.single.char ∧ mark.char ≠ Quote.double.char ∧ ¬ isLetter mark.char := by
    decide
  exact all mark mark.mem_all

/-- Quotes are no letters, no digits and none of the other characters that begin something. -/
theorem Text.Quote.noOther (quote : Quote) :
    ¬ isDigit quote.char ∧ quote.char ∉ ['+', '-', '.', '_'] ∧ ¬ isLetter quote.char := by
  cases quote <;> decide

/-- Where a letter or an underscore stands, no number begins. -/
theorem noNumber_of_isName {name rest : List Char} (isName : IsName name) :
    NoNumber (name ++ rest) := by
  obtain ⟨c, tail, rfl, letter | rfl⟩ := isName.exists_cons
  · intro d mem
    obtain rfl : c = d := by simpa using mem
    refine ⟨not_isDigit_of_isLetter letter, ?_, ?_, ?_⟩ <;>
      (rintro rfl; revert letter; decide)
  · simp [NoNumber, isDigit]

/-- A name begins with no quote. -/
theorem matchLiteral?_of_isName {name rest : List Char} (isName : IsName name) :
    matchLiteral? (name ++ rest) = none := by
  obtain ⟨c, tail, rfl, letter | rfl⟩ := isName.exists_cons
  · refine matchLiteral?_cons_eq_none ?_ ?_ <;> (rintro rfl; revert letter; decide)
  · exact matchLiteral?_cons_eq_none (by decide) (by decide)

section Scanning

variable {admits : List Char → Bool} {text found rest : List Char} {shape : Shape}

/-- What is scanned is a shape that ends before the rest. -/
theorem before_of_scanShape? (scanned : scanShape? admits text = some (shape, found, rest)) :
    text = found ++ rest ∧ shape.Before admits found rest := by
  simp only [scanShape?] at scanned
  split at scanned
  next double =>
    simp only [Option.some.injEq, Prod.mk.injEq] at scanned
    obtain ⟨rfl, rfl, rfl⟩ := scanned
    have parts := scanNumber_text admits text
    simp only [Bool.and_eq_true, Bool.not_eq_true'] at double
    refine ⟨parts.symm, (scanNumber admits text).1, ?_, double.1, double.2⟩
    rw [parts]
  next single =>
    simp only [Option.or_eq_some_iff, Option.map_eq_some_iff, Prod.mk.injEq, Prod.exists] at scanned
    rcases scanned with ⟨_, _, integer, rfl, rfl, rfl⟩ |
      ⟨_, ⟨_, _, literal, rfl, rfl, rfl⟩ | ⟨_, ⟨_, _, word, rfl, rfl, rfl⟩ |
        ⟨_, mark, _, marked, rfl, rfl, rfl⟩⟩⟩
    · obtain ⟨rfl, isInteger, stop⟩ := scanInteger?_eq_some_iff.1 integer
      refine ⟨rfl, isInteger, stop, ?_⟩
      simpa [hasDigits_scanNumber_of_scanInteger?, integer] using single
    · exact matchLiteral?_eq_some_iff.1 literal
    · exact scanName?_eq_some_iff.1 word
    · exact ⟨scanMark?_eq_some_iff.1 marked, rfl⟩

/-- A shape that ends before the rest is scanned. -/
theorem Shape.Before.scan (before : shape.Before admits found rest) :
    scanShape? admits (found ++ rest) = some (shape, found, rest) := by
  cases shape with
  | double =>
    obtain ⟨number, scanned, digits, integral⟩ := before
    have parts := scanNumber_text admits (found ++ rest)
    rw [scanned] at parts
    obtain rfl : number.text = found := List.append_cancel_right parts
    simp [scanShape?, scanned, digits, integral]
  | integer =>
    obtain ⟨isInteger, stop, integral⟩ := before
    simp [scanShape?, integral, scanInteger?_eq_some_iff.2 ⟨rfl, isInteger, stop⟩]
  | literal =>
    have matched := matchLiteral?_eq_some_iff.2 ⟨(rfl : found ++ rest = _), before⟩
    obtain ⟨quote, value, rfl, _⟩ := before
    have other := quote.noOther
    have noNumber : NoNumber (quote.char :: (value ++ [quote.char]) ++ rest) := by
      simp_all [NoNumber]
    simp only [scanShape?, noNumber.hasDigits, noNumber.scanInteger?, matched]
    simp
  | word =>
    obtain ⟨isName, closed⟩ := before
    have noNumber : NoNumber (found ++ rest) := noNumber_of_isName isName
    have scanned := scanName?_eq_some_iff.2 ⟨(rfl : found ++ rest = _), isName, closed⟩
    simp only [scanShape?, noNumber.hasDigits, noNumber.scanInteger?,
      matchLiteral?_of_isName isName, scanned]
    simp
  | mark mark =>
    obtain rfl : found = [mark.char] := before
    obtain ⟨digit, other, single, double, letter⟩ := mark.noOther
    have noNumber : NoNumber ([mark.char] ++ rest) := by
      simp_all [NoNumber]
    have marked : scanMark? (mark.char :: rest) = some (mark, rest) :=
      scanMark?_eq_some_iff.2 rfl
    have noName : scanName? (mark.char :: rest) = none :=
      scanName?_cons_eq_none letter (by simp_all)
    simp only [scanShape?, noNumber.hasDigits, noNumber.scanInteger?]
    simp [matchLiteral?_cons_eq_none single double, noName, marked]

/-- A shape is scanned exactly where its characters stand and it ends with them. -/
theorem scanShape?_eq_some_iff :
    scanShape? admits text = some (shape, found, rest) ↔
      text = found ++ rest ∧ shape.Before admits found rest := by
  refine ⟨before_of_scanShape?, ?_⟩
  rintro ⟨rfl, before⟩
  exact before.scan

/-- A shape has characters. -/
theorem Shape.Before.ne_nil (before : shape.Before admits found rest) : found ≠ [] := by
  cases shape with
  | double =>
    obtain ⟨number, scanned, digits, integral⟩ := before
    rintro rfl
    have parts := scanNumber_text admits rest
    rw [List.nil_append] at scanned
    rw [scanned] at parts
    have empty : number.text = [] := by simpa using parts
    obtain ⟨sign, whole, fraction, exponent⟩ := number
    cases fraction <;> simp_all [Number.text, Number.hasDigits]
  | integer =>
    obtain ⟨sign, digits, rfl, -, some, -⟩ := before.1
    simp [some]
  | literal =>
    obtain ⟨quote, value, rfl, _⟩ := before
    simp
  | word =>
    obtain ⟨c, tail, rfl, -⟩ := before.1.exists_cons
    simp
  | mark mark =>
    obtain rfl : found = [mark.char] := before
    simp

/-- A number begins with a digit, a sign or a point. -/
theorem not_noNumber_of_before (number : shape = .double ∨ shape = .integer)
    (before : shape.Before admits found rest) : ¬ NoNumber (found ++ rest) := by
  intro noNumber
  rcases number with rfl | rfl
  · obtain ⟨number, scanned, digits, _⟩ := before
    have none := noNumber.hasDigits admits
    rw [scanned] at none
    simp [none] at digits
  · have scanned := scanInteger?_eq_some_iff.2 ⟨(rfl : found ++ rest = _), before.1, before.2.1⟩
    rw [noNumber.scanInteger?] at scanned
    cases scanned

/-- The characters that begin what can be skipped. -/
def opensGap (c : Char) : Bool := isBlank c || c = '/' || c = '#'

/-- A shape begins with no character of what can be skipped. -/
theorem Shape.Before.not_opensGap (before : shape.Before admits found rest) :
    ∀ c ∈ (found ++ rest).head?, ¬ opensGap c := by
  have letters : ∀ c, isLetter c → ¬ opensGap c := by
    intro c letter
    simp only [isLetter, Bool.or_eq_true, Bool.and_eq_true, decide_eq_true_eq] at letter
    simp only [opensGap, isBlank, Bool.or_eq_true, decide_eq_true_eq]
    rintro (((((rfl | rfl) | rfl) | rfl) | rfl) | rfl) <;> revert letter <;> decide
  have numbers : (shape = .double ∨ shape = .integer) →
      ∀ c ∈ (found ++ rest).head?, ¬ opensGap c := by
    intro number c mem opens
    refine not_noNumber_of_before number before ?_
    intro d mem'
    obtain rfl := Option.some.inj (mem.symm.trans mem')
    simp only [opensGap, isBlank, Bool.or_eq_true, decide_eq_true_eq] at opens
    rcases opens with ((((rfl | rfl) | rfl) | rfl) | rfl) | rfl <;> decide
  cases shape with
  | double => exact numbers (.inl rfl)
  | integer => exact numbers (.inr rfl)
  | literal =>
    obtain ⟨quote, value, rfl, _⟩ := before
    cases quote <;> simp [Quote.char, opensGap, isBlank]
  | word =>
    obtain ⟨c, tail, rfl, letter | rfl⟩ := before.1.exists_cons
    · simpa using letters c letter
    · simp [opensGap, isBlank]
  | mark mark =>
    obtain rfl : found = [mark.char] := before
    cases mark <;> simp [Mark.char, opensGap, isBlank]

/-- Nothing can be skipped before another character. -/
theorem skip_cons_of_not_opensGap {c : Char} (other : ¬ opensGap c) (tail : List Char) :
    skip (c :: tail) = c :: tail := by
  simp only [opensGap, Bool.or_eq_true, decide_eq_true_eq, not_or] at other
  exact skip_of_none (afterSeparator?_cons_eq_none other.1.1 other.1.2 other.2)

/-- Nothing can be skipped where a shape begins. -/
theorem Shape.Before.skip (before : shape.Before admits found rest) :
    skip (found ++ rest) = found ++ rest := by
  obtain ⟨c, tail, rfl⟩ := List.exists_cons_of_ne_nil before.ne_nil
  exact skip_cons_of_not_opensGap (before.not_opensGap c (by simp)) _

end Scanning

/-- A lexeme is what stands at the start of a text, after blanks and comments. -/
structure Lexeme.At (admits : List Char → Bool) (text : List Char) (lexeme : Lexeme)
    (rest : List Char) : Prop where
  /-- Its characters and the rest are what is left after skipping. -/
  spelled : skip text = lexeme.text ++ rest
  /-- Its characters have its shape. -/
  before : lexeme.shape.Before admits lexeme.text rest
  /-- It begins after what is skipped. -/
  left : lexeme.left = (skip text).length
  /-- It is apart from what stands before the text if something is skipped. -/
  apart : lexeme.apart = hasGap text

/-- The lexeme at the start of a text, and the text after it. -/
def lexeme? (admits : List Char → Bool) (text : List Char) : Option (Lexeme × List Char) :=
  (scanShape? admits (skip text)).map fun (shape, found, rest) =>
    (⟨shape, found, (skip text).length, hasGap text⟩, rest)

/-- The lexeme of a text is the one that stands at its start. -/
theorem lexeme?_eq_some_iff {admits : List Char → Bool} {text rest : List Char} {lexeme : Lexeme} :
    lexeme? admits text = some (lexeme, rest) ↔ lexeme.At admits text rest := by
  simp only [lexeme?, Option.map_eq_some_iff, Prod.mk.injEq, Prod.exists, scanShape?_eq_some_iff]
  constructor
  · rintro ⟨shape, found, _, ⟨spelled, before⟩, rfl, rfl⟩
    exact ⟨spelled, before, rfl, rfl⟩
  · rintro ⟨spelled, before, left, apart⟩
    obtain ⟨shape, found, left', apart'⟩ := lexeme
    exact ⟨shape, found, rest, ⟨spelled, before⟩, by simp_all, rfl⟩

/-- At most one lexeme stands at the start of a text. -/
theorem Lexeme.At.unique {admits : List Char → Bool} {text rest rest' : List Char}
    {lexeme lexeme' : Lexeme} (first : lexeme.At admits text rest)
    (second : lexeme'.At admits text rest') : lexeme = lexeme' ∧ rest = rest' := by
  have same := (lexeme?_eq_some_iff.2 first).symm.trans (lexeme?_eq_some_iff.2 second)
  simpa using same

/-- Less is left after a lexeme. -/
theorem Lexeme.At.length_lt {admits : List Char → Bool} {text rest : List Char} {lexeme : Lexeme}
    (here : lexeme.At admits text rest) : rest.length < text.length := by
  have shorter := length_skip_le text
  have some := List.length_pos_iff.2 here.before.ne_nil
  rw [here.spelled, List.length_append] at shorter
  omega

/-- A text begins with some lexemes, and a rest follows them. -/
def Lexes (admits : List Char → Bool) : List Char → List Lexeme → List Char → Prop
  | text, [], rest => rest = text
  | text, lexeme :: lexemes, rest =>
    ∃ after, lexeme.At admits text after ∧ Lexes admits after lexemes rest

section Lexing

variable {admits : List Char → Bool} {text rest rest' : List Char} {lexeme : Lexeme}
  {lexemes lexemes' : List Lexeme}

/-- No lexemes leave the text as it is. -/
@[simp] theorem lexes_nil : Lexes admits text [] rest ↔ rest = text := Iff.rfl

/-- Lexemes begin with the first one. -/
@[simp] theorem lexes_cons : Lexes admits text (lexeme :: lexemes) rest ↔
    ∃ after, lexeme.At admits text after ∧ Lexes admits after lexemes rest := Iff.rfl

/-- Lexemes in a row are read one part after the other. -/
@[simp] theorem lexes_append : Lexes admits text (lexemes ++ lexemes') rest ↔
    ∃ after, Lexes admits text lexemes after ∧ Lexes admits after lexemes' rest := by
  induction lexemes generalizing text with
  | nil => simp
  | cons lexeme lexemes ih =>
    simp only [List.cons_append, lexes_cons, ih]
    constructor
    · rintro ⟨after, here, middle, first, last⟩
      exact ⟨middle, ⟨after, here, first⟩, last⟩
    · rintro ⟨middle, ⟨after, here, first⟩, last⟩
      exact ⟨after, here, middle, first, last⟩

/-- Each lexeme takes at least one character. -/
theorem Lexes.length_le (lexes : Lexes admits text lexemes rest) :
    lexemes.length + rest.length ≤ text.length := by
  induction lexemes generalizing text with
  | nil =>
    obtain rfl := lexes
    simp
  | cons lexeme lexemes ih =>
    obtain ⟨after, here, others⟩ := lexes
    have less := here.length_lt
    have more := ih others
    simp only [List.length_cons]
    omega

/-- Two sequences of lexemes that both go on to the end of a text are the same. -/
theorem Lexes.unique (first : Lexes admits text lexemes rest) (ends : skip rest = [])
    (second : Lexes admits text lexemes' rest') (ends' : skip rest' = []) :
    lexemes = lexemes' ∧ rest = rest' := by
  -- A lexeme has characters, so that none stands at the end of the text.
  have nothing : ∀ {lexeme : Lexeme} {text after : List Char}, skip text = [] →
      ¬ lexeme.At admits text after := by
    intro lexeme text after ends here
    have empty := here.spelled
    rw [ends] at empty
    exact here.before.ne_nil (List.append_eq_nil_iff.1 empty.symm).1
  induction lexemes generalizing text lexemes' with
  | nil =>
    obtain rfl := first
    cases lexemes' with
    | nil => exact ⟨rfl, second.symm⟩
    | cons lexeme lexemes' =>
      obtain ⟨after, here, -⟩ := second
      exact absurd here (nothing ends)
  | cons lexeme lexemes ih =>
    obtain ⟨after, here, others⟩ := first
    cases lexemes' with
    | nil =>
      obtain rfl := second
      exact absurd here (nothing ends')
    | cons lexeme' lexemes' =>
      obtain ⟨after', here', others'⟩ := second
      obtain ⟨rfl, rfl⟩ := here.unique here'
      obtain ⟨rfl, rfl⟩ := ih others others'
      exact ⟨rfl, rfl⟩

end Lexing

/-- At most the given number of lexemes of a text, whatever their exponents are. -/
def lexemesWithin : Nat → List Char → List Lexeme
  | 0, _ => []
  | count + 1, text =>
    match lexeme? (fun _ => true) text with
    | some (lexeme, rest) => lexeme :: lexemesWithin count rest
    | none => []

/-- The lexemes of a text, up to the first place where none stands. -/
def lexemes (text : List Char) : List Lexeme := lexemesWithin text.length text

/-- A text that consists of lexemes consists of those. -/
theorem lexemes_eq {text rest : List Char} {parts : List Lexeme}
    (lexes : Lexes (fun _ => true) text parts rest) (ends : skip rest = []) :
    lexemes text = parts := by
  suffices within : ∀ count, text.length ≤ count → lexemesWithin count text = parts from
    within _ (Nat.le_refl _)
  induction parts generalizing text with
  | nil =>
    obtain rfl := lexes
    intro count _
    cases count with
    | zero => rfl
    | succ count => simp [lexemesWithin, lexeme?, ends, scanShape?, scanNumber, scanSign, scanDigits,
        scanFraction?, scanExponent?, scanInteger?, matchLiteral?, scanName?, scanMark?,
        Number.hasDigits]
  | cons lexeme parts ih =>
    obtain ⟨after, here, others⟩ := lexes
    intro count enough
    have less := here.length_lt
    cases count with
    | zero => omega
    | succ count =>
      simp only [lexemesWithin, lexeme?_eq_some_iff.2 here]
      rw [ih others count (by omega)]

/-- Whether a lexeme is a number whose exponent can be converted and has more than 64 bits. -/
def Lexeme.overflows (lexeme : Lexeme) : Bool :=
  lexeme.shape = .double &&
    (scanNumber (fun _ => true) lexeme.text).1.exponent.any fun power => !takesExponent power.2

/-- Whether a lexeme is no number whose exponent has more digits than can be converted. -/
def Lexeme.converts (lexeme : Lexeme) : Bool :=
  lexeme.shape ≠ .double || isConvertible (scanNumber (fun _ => true) lexeme.text).1.scale

/-- Only the exponent of a number counts. -/
theorem Lexeme.converts_iff {lexeme : Lexeme} (shape : lexeme.shape = .double) :
    lexeme.converts ↔ isConvertible (scanNumber (fun _ => true) lexeme.text).1.scale := by
  simp [converts, shape]

/-- A lexeme whose exponent has 64 bits stands where it would stand if all exponents were
admitted. -/
theorem Lexeme.At.fits {text rest : List Char} {lexeme : Lexeme}
    (here : lexeme.At (fun _ => true) text rest) (small : lexeme.overflows = false) :
    lexeme.At takesExponent text rest := by
  refine ⟨here.spelled, ?_, here.left, here.apart⟩
  have before := here.before
  obtain ⟨shape, found, left, apart⟩ := lexeme
  cases shape with
  | word | mark | literal => exact before
  | double =>
    obtain ⟨number, scanned, digits, integral⟩ := before
    have again := scanNumber_text_self (fun _ => true) (found ++ rest)
      (by rw [scanned]; exact digits)
    have parts := scanNumber_text (fun _ => true) (found ++ rest)
    rw [scanned] at again parts
    obtain rfl : number.text = found := List.append_cancel_right parts
    simp only [overflows, again, decide_true, Bool.true_and, Option.any_eq_false] at small
    refine ⟨number, ?_, digits, integral⟩
    rw [scanNumber_of_admits, scanned]
    rw [scanned]
    intro power mem
    simpa using small power mem
  | integer =>
    obtain ⟨isInteger, stop, integral⟩ := before
    refine ⟨isInteger, stop, ?_⟩
    rw [scanNumber_of_admits]
    · exact integral
    · simp only [Number.isIntegral, Bool.and_eq_true, Option.isNone_iff_eq_none] at integral
      simp [Number.Admitted, integral]

/-- Lexemes whose exponents have 64 bits are the lexemes that a reader of such exponents sees. -/
theorem Lexes.fits {text rest : List Char} {parts : List Lexeme}
    (lexes : Lexes (fun _ => true) text parts rest)
    (small : ∀ lexeme ∈ parts, lexeme.overflows = false) : Lexes takesExponent text parts rest := by
  induction parts generalizing text with
  | nil => exact lexes
  | cons lexeme parts ih =>
    obtain ⟨after, here, others⟩ := lexes
    exact ⟨after, here.fits (small lexeme (by simp)), ih others fun other mem =>
      small other (by simp [mem])⟩

end ThriftIdl
