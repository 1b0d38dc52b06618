import ThriftIdl.Proofs.Grammar.Spelling
import ThriftIdl.Proofs.Reader.Results
import ThriftIdl.Reader.Source

/-!
# Direct reading of single lexemes

The readers of single tokens read lexemes: each gives a value exactly where a lexeme of its kind
stands, and refuses all other texts (`gives_name`, `refuses_name` and so on). What stands before a
lexeme has been skipped then, and the statements are about the text before skipping, because it
tells whether the lexeme is apart. Only an integer may be read off the front of a number that goes
on, so that a number is a lexeme of its own only where nothing goes on after it
(`at_of_scanInteger?`).
-/
namespace ThriftIdl

open Text
open TokenReader (unquoted)

/-- The lexeme at the start of a text, if there is one, has a property. -/
def Faces (text : List Char) (property : Lexeme → Prop) : Prop :=
  ∀ lexeme rest, lexeme.At takesExponent text rest → property lexeme

section Faces

variable {text rest : List Char} {lexeme : Lexeme} {property : Lexeme → Prop}

/-- A text faces what stands at its start. -/
theorem Lexeme.At.faces (here : lexeme.At takesExponent text rest) (holds : property lexeme) :
    Faces text property := by
  intro other rest' there
  rw [← (here.unique there).1]
  exact holds

/-- A text faces what it faces after skipping. -/
theorem faces_of_nil (ends : skip text = []) : Faces text property := by
  intro lexeme rest here
  have empty := here.spelled
  rw [ends] at empty
  exact absurd (List.append_eq_nil_iff.1 empty.symm).1 here.before.ne_nil

/-- A text faces whatever follows from what it faces. -/
theorem Faces.imp {other : Lexeme → Prop} (faces : Faces text property)
    (step : ∀ lexeme, property lexeme → other lexeme) : Faces text other :=
  fun lexeme rest here => step lexeme (faces lexeme rest here)

end Faces

/-- A lexeme of a shape stands at the start of a text exactly where its characters do. -/
theorem exists_at_iff (shape : Shape) {admits : List Char → Bool} {text found rest : List Char} :
    (∃ lexeme : Lexeme, lexeme.At admits text rest ∧ lexeme.shape = shape ∧ lexeme.text = found) ↔
      skip text = found ++ rest ∧ shape.Before admits found rest := by
  constructor
  · rintro ⟨lexeme, here, rfl, rfl⟩
    exact ⟨here.spelled, here.before⟩
  · rintro ⟨spelled, before⟩
    exact ⟨⟨shape, found, (skip text).length, hasGap text⟩, ⟨spelled, before, rfl, rfl⟩, rfl, rfl⟩

/-- The first answer of a list is one that all answers agree on. -/
theorem findSome?_eq_some_of_agree {α β : Type} {ask : α → Option β} {things : List α} {thing : α}
    {answer : β} (mem : thing ∈ things) (asked : ask thing = some answer)
    (agree : ∀ other ∈ things, ∀ answer', ask other = some answer' → answer' = answer) :
    things.findSome? ask = some answer := by
  cases found : things.findSome? ask with
  | none =>
    have none := List.findSome?_eq_none_iff.1 found thing mem
    rw [asked] at none
    cases none
  | some answer' =>
    obtain ⟨other, mem', asked'⟩ := List.exists_of_findSome?_eq_some found
    rw [agree other mem' answer' asked']

namespace Reader

open Readable

variable {text rest : List Char}

/-- Whether an input is given a value or refused, there is no third way. -/
def Decides {α : Type} (reader : Reader (List Char) α) : Prop :=
  ∀ input, (∃ value rest, reader.Gives input value rest) ∨ reader.Refuses input

/-- What is decided and not given is refused. -/
theorem Decides.refuses {α : Type} {reader : Reader (List Char) α} {input : List Char}
    (decides : reader.Decides) (nothing : ∀ value rest, ¬ reader.Gives input value rest) :
    reader.Refuses input := by
  rcases decides input with ⟨value, rest, given⟩ | refused
  · exact absurd given (nothing value rest)
  · exact refused

/-- Cutting something off or failing is decided. -/
theorem decides_orFail {α : Type} {reason : Reason} {cut : List Char → Option (α × List Char)}
    (kind : reason.kind ≠ .nesting) : (orFail reason cut).Decides := by
  intro input
  cases found : cut input with
  | none => exact .inr (refuses_orFail kind found)
  | some found' => exact .inl ⟨found'.1, found'.2, gives_orFail.2 found⟩

section Separators

/-- A separator is read where there is a gap, to its end. -/
@[simp] theorem gives_separator {value : Unit} :
    (separator : Reader (List Char) Unit).Gives text value rest ↔
      hasGap text ∧ rest = skip text := by
  change (∃ noted, Lexical.separator text = .ok value rest noted) ↔ _
  simp only [Lexical.separator, hasGap]
  cases found : afterSeparator? text with
  | none => simp [fail]
  | some after => simp [skip_of_some found, eq_comm]

/-- Where there is no gap, a separator is refused. -/
theorem refuses_separator (none : hasGap text = false) :
    (separator : Reader (List Char) Unit).Refuses text := by
  have nothing : afterSeparator? text = Option.none := by simpa [hasGap] using none
  change ∃ failure rest noted, Lexical.separator text = .fail failure rest noted ∧ _
  simp only [Lexical.separator, nothing]
  split
  · exact refuses_fail (by decide)
  · exact refuses_fail (by decide)

/-- Skipping says whether there is a gap and goes to its end. -/
@[simp] theorem gives_skipSeparator {value : Bool} :
    (skipSeparator : Reader (List Char) Bool).Gives text value rest ↔
      value = hasGap text ∧ rest = skip text := by
  change (∃ noted, Lexical.skipSeparator text = .ok value rest noted) ↔ _
  simp only [Lexical.skipSeparator, hasGap]
  cases found : afterSeparator? text with
  | none => simp [skip_of_none found, eq_comm]
  | some after => simp [skip_of_some found, eq_comm]

/-- Skipping refuses nothing. -/
@[simp] theorem not_refuses_skipSeparator :
    ¬ (skipSeparator : Reader (List Char) Bool).Refuses text := by
  rintro ⟨_, _, _, failed, _⟩
  change Lexical.skipSeparator text = _ at failed
  simp only [Lexical.skipSeparator] at failed
  split at failed <;> cases failed

end Separators

section Words

/-- A name is read where a word stands. -/
theorem gives_name {name : String} :
    (Readable.name : Reader (List Char) String).Gives (skip text) name rest ↔
      ∃ lexeme : Lexeme, lexeme.At takesExponent text rest ∧ lexeme.IsWord name := by
  change (Lexical.name).Gives (skip text) name rest ↔ _
  simp only [Lexical.name, gives_orFail, Option.map_eq_some_iff, Prod.mk.injEq, Prod.exists,
    Lexeme.IsWord, exists_at_iff, scanName?_eq_some_iff, Shape.Before]
  constructor
  · rintro ⟨found, _, ⟨spelled, isName, closed⟩, rfl, rfl⟩
    simpa using ⟨spelled, isName, closed⟩
  · rintro ⟨spelled, isName, closed⟩
    exact ⟨name.toList, rest, ⟨spelled, isName, closed⟩, by simp, rfl⟩

/-- Where no word stands, a name is refused. -/
theorem refuses_name (faces : Faces text fun lexeme => lexeme.shape ≠ .word) :
    (Readable.name : Reader (List Char) String).Refuses (skip text) := by
  refine Decides.refuses (decides_orFail (by decide)) fun name rest given => ?_
  obtain ⟨lexeme, here, word⟩ := gives_name.1 given
  exact faces lexeme rest here word.1

/-- A keyword is read where it stands as a word. -/
theorem gives_keyword {word production : String} (isName : IsName word.toList) :
    (keyword word production : Reader (List Char) Unit).Gives (skip text) () rest ↔
      ∃ lexeme : Lexeme, lexeme.At takesExponent text rest ∧ lexeme.IsWord word := by
  change (Lexical.keyword word production).Gives (skip text) () rest ↔ _
  simp only [Lexical.keyword, gives_orFail, Option.map_eq_some_iff, Prod.mk.injEq, Lexeme.IsWord,
    exists_at_iff, afterKeyword?_eq_some_iff, Shape.Before]
  constructor
  · rintro ⟨_, ⟨spelled, closed⟩, -, rfl⟩
    exact ⟨spelled, isName, closed⟩
  · rintro ⟨spelled, -, closed⟩
    exact ⟨rest, ⟨spelled, closed⟩, by simp⟩

/-- Where a keyword does not stand, it is refused. -/
theorem refuses_keyword {word production : String} (isName : IsName word.toList)
    (faces : Faces text fun lexeme => ¬ lexeme.IsWord word) :
    (keyword word production : Reader (List Char) Unit).Refuses (skip text) := by
  refine Decides.refuses (decides_orFail (by simp [Reason.kind])) fun value rest given => ?_
  obtain ⟨lexeme, here, found⟩ := (gives_keyword isName).1 given
  exact faces lexeme rest here found

variable {α : Type} {reason : Reason} {words : List (String × α)}

/-- One of some keywords is read only where it stands as a word. -/
theorem exists_of_gives_oneOf {value : α} (areNames : ∀ word ∈ words, IsName word.1.toList)
    (given : (oneOf reason words : Reader (List Char) α).Gives (skip text) value rest) :
    ∃ word, (word, value) ∈ words ∧
      ∃ lexeme : Lexeme, lexeme.At takesExponent text rest ∧ lexeme.IsWord word := by
  change (Lexical.oneOf reason words).Gives (skip text) value rest at given
  simp only [Lexical.oneOf, gives_orFail] at given
  obtain ⟨⟨word, value'⟩, mem, found⟩ := List.exists_of_findSome?_eq_some given
  simp only [Option.map_eq_some_iff, Prod.mk.injEq] at found
  obtain ⟨_, after, rfl, rfl⟩ := found
  obtain ⟨spelled, closed⟩ := afterKeyword?_eq_some_iff.1 after
  exact ⟨word, mem, (exists_at_iff .word).2 ⟨spelled, areNames _ mem, closed⟩⟩

/-- One of some keywords is read where it stands as a word, if no other one has the same text. -/
theorem gives_oneOf {lexeme : Lexeme} {word : String} {value : α}
    (areNames : ∀ word ∈ words, IsName word.1.toList)
    (distinct : ∀ value', (word, value') ∈ words → value' = value)
    (mem : (word, value) ∈ words) (here : lexeme.At takesExponent text rest)
    (isWord : lexeme.IsWord word) :
    (oneOf reason words : Reader (List Char) α).Gives (skip text) value rest := by
  change (Lexical.oneOf reason words).Gives (skip text) value rest
  obtain ⟨spelled, isName, closed⟩ := (exists_at_iff .word).1 ⟨lexeme, here, isWord⟩
  have scanned : scanName? (skip text) = some (word.toList, rest) :=
    scanName?_eq_some_iff.2 ⟨spelled, isName, closed⟩
  simp only [Lexical.oneOf, gives_orFail]
  refine findSome?_eq_some_of_agree mem ?_ ?_
  · simp [afterKeyword?_eq_some_iff.2 ⟨spelled, closed⟩]
  · rintro ⟨other, value'⟩ mem' answer found
    simp only [Option.map_eq_some_iff] at found
    obtain ⟨after, found, rfl⟩ := found
    rw [afterKeyword?_eq_some_iff_scanName? (areNames _ mem'), scanned] at found
    simp only [Option.some.injEq, Prod.mk.injEq, String.toList_inj] at found
    obtain ⟨rfl, rfl⟩ := found
    rw [distinct value' mem']

/-- Where none of some keywords stands, they are refused. -/
theorem refuses_oneOf (areNames : ∀ word ∈ words, IsName word.1.toList)
    (kind : reason.kind ≠ .nesting)
    (faces : Faces text fun lexeme => ∀ word ∈ words, ¬ lexeme.IsWord word.1) :
    (oneOf reason words : Reader (List Char) α).Refuses (skip text) := by
  refine Decides.refuses (decides_orFail kind) fun value rest given => ?_
  obtain ⟨word, mem, lexeme, here, isWord⟩ := exists_of_gives_oneOf areNames given
  exact faces lexeme rest here (word, value) mem isWord

end Words

section Marks

/-- A mark stands where its character does. -/
theorem exists_isMark_iff {mark : Mark} :
    (∃ lexeme : Lexeme, lexeme.At takesExponent text rest ∧ lexeme.IsMark mark) ↔
      skip text = mark.char :: rest := by
  constructor
  · rintro ⟨lexeme, here, isMark⟩
    have before := here.before
    rw [isMark] at before
    have spelled := here.spelled
    rwa [show lexeme.text = [mark.char] from before] at spelled
  · intro spelled
    obtain ⟨lexeme, here, isMark, -⟩ :=
      (exists_at_iff (.mark mark)).2 ⟨spelled, (rfl : [mark.char] = _)⟩
    exact ⟨lexeme, here, isMark⟩

/-- The character of a mark is read where the mark stands. -/
theorem gives_character (mark : Mark) {production : String} :
    (character mark.char production : Reader (List Char) Unit).Gives (skip text) () rest ↔
      ∃ lexeme : Lexeme, lexeme.At takesExponent text rest ∧ lexeme.IsMark mark := by
  change (∃ noted, Lexical.character mark.char production (skip text) = .ok () rest noted) ↔ _
  rw [exists_isMark_iff]
  simp only [Lexical.character]
  cases skip text with
  | nil => simp [fail]
  | cons c after =>
    by_cases same : c = mark.char
    · simp [same, eq_comm]
    · simp [same, fail]

/-- One given character is decided. -/
theorem decides_character (wanted : Char) (production : String) :
    (character wanted production : Reader (List Char) Unit).Decides := by
  intro input
  change (∃ value rest noted, Lexical.character wanted production input = .ok value rest noted) ∨
    ∃ failure rest noted, Lexical.character wanted production input = .fail failure rest noted ∧ _
  cases input with
  | nil => exact .inr (refuses_fail (by simp [Reason.kind]))
  | cons c after =>
    simp only [Lexical.character]
    split
    next => exact .inl ⟨(), after, none, rfl⟩
    next => exact .inr (refuses_fail (by simp [Reason.kind]))

/-- Where a mark does not stand, its character is refused. -/
theorem refuses_character (mark : Mark) {production : String}
    (faces : Faces text fun lexeme => ¬ lexeme.IsMark mark) :
    (character mark.char production : Reader (List Char) Unit).Refuses (skip text) := by
  refine (decides_character mark.char production).refuses fun value rest given => ?_
  obtain ⟨lexeme, here, isMark⟩ := (gives_character mark).1 given
  exact faces lexeme rest here isMark

/-- A lexeme is a list separator. -/
def IsSeparator (lexeme : Lexeme) : Prop := lexeme.IsMark .comma ∨ lexeme.IsMark .semicolon

/-- A list separator is read where a comma or a semicolon stands. -/
theorem exists_gives_listSeparator :
    (∃ value, (listSeparator : Reader (List Char) Char).Gives (skip text) value rest) ↔
      ∃ lexeme : Lexeme, lexeme.At takesExponent text rest ∧ IsSeparator lexeme := by
  have marked : (∃ lexeme : Lexeme, lexeme.At takesExponent text rest ∧ IsSeparator lexeme) ↔
      skip text = ',' :: rest ∨ skip text = ';' :: rest := by
    simp only [IsSeparator, and_or_left, exists_or, exists_isMark_iff]
    rfl
  rw [marked]
  change (∃ value noted, Lexical.listSeparator (skip text) = .ok value rest noted) ↔ _
  simp only [Lexical.listSeparator]
  cases skip text with
  | nil => simp [fail]
  | cons c after => by_cases c = ',' <;> by_cases c = ';' <;> simp_all [fail]

/-- A list separator is decided. -/
theorem decides_listSeparator : (listSeparator : Reader (List Char) Char).Decides := by
  intro input
  change (∃ value rest noted, Lexical.listSeparator input = .ok value rest noted) ∨
    ∃ failure rest noted, Lexical.listSeparator input = .fail failure rest noted ∧ _
  cases input with
  | nil => exact .inr (refuses_fail (by decide))
  | cons c after =>
    simp only [Lexical.listSeparator]
    split
    next => exact .inl ⟨c, after, none, rfl⟩
    next => exact .inr (refuses_fail (by decide))

/-- Where neither a comma nor a semicolon stands, a list separator is refused. -/
theorem refuses_listSeparator (faces : Faces text fun lexeme => ¬ IsSeparator lexeme) :
    (listSeparator : Reader (List Char) Char).Refuses (skip text) := by
  refine decides_listSeparator.refuses fun value rest given => ?_
  obtain ⟨lexeme, here, found⟩ := exists_gives_listSeparator.1 ⟨value, given⟩
  exact faces lexeme rest here found

end Marks

section Literals

/-- A literal is read where it stands, and given without its quotes. -/
theorem gives_literal {value : String} :
    (literal : Reader (List Char) String).Gives (skip text) value rest ↔
      ∃ lexeme : Lexeme, lexeme.At takesExponent text rest ∧ lexeme.shape = .literal ∧
        value = unquoted lexeme.text := by
  have found : (∃ lexeme : Lexeme, lexeme.At takesExponent text rest ∧ lexeme.shape = .literal ∧
      value = unquoted lexeme.text) ↔
      ∃ found, matchLiteral? (skip text) = some (found, rest) ∧ value = unquoted found := by
    constructor
    · rintro ⟨lexeme, here, shape, rfl⟩
      have before := here.before
      rw [shape] at before
      exact ⟨lexeme.text, matchLiteral?_eq_some_iff.2 ⟨here.spelled, before⟩, rfl⟩
    · rintro ⟨found, matched, rfl⟩
      obtain ⟨lexeme, here, shape, rfl⟩ := (exists_at_iff .literal).2
        (matchLiteral?_eq_some_iff.1 matched)
      exact ⟨lexeme, here, shape, rfl⟩
  rw [found]
  change (∃ noted, Lexical.literal (skip text) = .ok value rest noted) ↔ _
  simp only [Lexical.literal]
  cases skip text with
  | nil => simp [fail, matchLiteral?]
  | cons c after =>
    simp only [matchLiteral?]
    cases Quote.ofChar? c with
    | none => simp [fail]
    | some quote =>
      cases splitAt? [c] after with
      | none => simp [fail]
      | some parts => simp [unquoted, eq_comm, and_comm]

/-- A literal is decided. -/
theorem decides_literal : (literal : Reader (List Char) String).Decides := by
  intro input
  change (∃ value rest noted, Lexical.literal input = .ok value rest noted) ∨
    ∃ failure rest noted, Lexical.literal input = .fail failure rest noted ∧ _
  cases input with
  | nil => exact .inr (refuses_fail (by decide))
  | cons c after =>
    simp only [Lexical.literal]
    cases Quote.ofChar? c with
    | none => exact .inr (refuses_fail (by decide))
    | some quote =>
      cases splitAt? [c] after with
      | none => exact .inr (refuses_fail (by simp [Reason.kind]))
      | some parts => exact .inl ⟨_, _, _, rfl⟩

/-- Where no literal stands, it is refused. -/
theorem refuses_literal (faces : Faces text fun lexeme => lexeme.shape ≠ .literal) :
    (literal : Reader (List Char) String).Refuses (skip text) := by
  refine decides_literal.refuses fun value rest given => ?_
  obtain ⟨lexeme, here, shape, -⟩ := gives_literal.1 given
  exact faces lexeme rest here shape

end Literals

section Numbers

/-- An integer that begins a text is a lexeme if nothing after it goes on with a number. -/
theorem at_of_scanInteger? {found : List Char} (scanned : scanInteger? (skip text) = some (found, rest))
    (stop : NumberStop rest) :
    ∃ lexeme : Lexeme, lexeme.At takesExponent text rest ∧ lexeme.shape = .integer ∧
      lexeme.text = found := by
  obtain ⟨spelled, isInteger, noDigit⟩ := scanInteger?_eq_some_iff.1 scanned
  exact (exists_at_iff .integer).2 ⟨spelled, isInteger, noDigit, isIntegral_scanNumber_append isInteger stop⟩

/-- An integer that begins a text is a lexeme, or else it begins a number that goes on. -/
theorem at_or_of_scanInteger? {found : List Char}
    (scanned : scanInteger? (skip text) = some (found, rest)) :
    (∃ lexeme : Lexeme, lexeme.At takesExponent text rest ∧ lexeme.shape = .integer ∧
      lexeme.text = found) ∨
        ∃ (lexeme : Lexeme) (after : List Char), lexeme.At takesExponent text after ∧
          lexeme.shape = .double := by
  have digits : (scanNumber takesExponent (skip text)).1.hasDigits :=
    hasDigits_scanNumber_of_scanInteger? takesExponent (Option.isSome_of_eq_some scanned)
  obtain ⟨spelled, isInteger, noDigit⟩ := scanInteger?_eq_some_iff.1 scanned
  cases integral : (scanNumber takesExponent (skip text)).1.isIntegral with
  | true =>
    exact .inl ((exists_at_iff .integer).2 ⟨spelled, isInteger, noDigit, spelled ▸ integral⟩)
  | false =>
    have parts := scanNumber_text takesExponent (skip text)
    obtain ⟨lexeme, here, shape, -⟩ := (exists_at_iff .double).2
      ⟨parts.symm, _, by rw [parts], digits, integral⟩
    exact .inr ⟨lexeme, _, here, shape⟩

/-- An integer is read off the start of a text if it has 64 bits. -/
theorem gives_integer {value : Int} :
    (integer : Reader (List Char) Int).Gives text value rest ↔
      ∃ found, scanInteger? text = some (found, rest) ∧ admitsInteger found ∧
        value = signedValue found := by
  change (∃ noted, Lexical.integer text = .ok value rest noted) ↔ _
  simp only [Lexical.integer]
  cases scanInteger? text with
  | none => simp [fail]
  | some parts =>
    obtain ⟨found, after⟩ := parts
    simp only [Option.some.injEq, Prod.mk.injEq]
    cases fits : admitsInteger found with
    | true =>
      simp only [↓reduceIte, Outcome.ok.injEq]
      constructor
      · rintro ⟨_, rfl, rfl, -⟩
        exact ⟨found, ⟨rfl, rfl⟩, fits, rfl⟩
      · rintro ⟨_, ⟨rfl, rfl⟩, -, rfl⟩
        exact ⟨none, rfl, rfl, rfl⟩
    | false =>
      simp only [Bool.false_eq_true, ↓reduceIte, fail, reduceCtorEq, exists_const, false_iff]
      rintro ⟨_, ⟨rfl, rfl⟩, fits', -⟩
      rw [fits] at fits'
      cases fits'

/-- An integer of 64 bits is read where it stands as a lexeme. -/
theorem gives_integer_of_at {lexeme : Lexeme} (here : lexeme.At takesExponent text rest)
    (shape : lexeme.shape = .integer) (fits : admitsInteger lexeme.text) :
    (integer : Reader (List Char) Int).Gives (skip text) (signedValue lexeme.text) rest := by
  have before := here.before
  rw [shape] at before
  exact gives_integer.2 ⟨lexeme.text, scanInteger?_eq_some_iff.2 ⟨here.spelled, before.1, before.2.1⟩,
    fits, rfl⟩

/-- Where no number stands, an integer is refused. -/
theorem refuses_integer
    (faces : Faces text fun lexeme => lexeme.shape ≠ .double ∧ lexeme.shape ≠ .integer) :
    (integer : Reader (List Char) Int).Refuses (skip text) := by
  have nothing : scanInteger? (skip text) = none := by
    rw [Option.eq_none_iff_forall_not_mem]
    rintro ⟨found, rest⟩ scanned
    rcases at_or_of_scanInteger? scanned with ⟨lexeme, here, shape, -⟩ | ⟨lexeme, after, here, shape⟩
    · exact (faces lexeme rest here).2 shape
    · exact (faces lexeme after here).1 shape
  change ∃ failure rest noted, Lexical.integer (skip text) = .fail failure rest noted ∧ _
  simp only [Lexical.integer, nothing]
  exact refuses_fail (by decide)

/-- A number is read as a double off the start of a text if it has digits and a fraction or an
exponent, and its exponent can be converted. -/
theorem gives_strictDouble_iff_scanNumber {value : Double} :
    (strictDouble : Reader (List Char) Double).Gives text value rest ↔
      ∃ number, scanNumber takesExponent text = (number, rest) ∧ number.hasDigits ∧
        number.isIntegral = false ∧ isConvertible number.scale ∧ value = number.toDouble := by
  change (∃ noted, Lexical.strictDouble text = .ok value rest noted) ↔ _
  simp only [Lexical.strictDouble, Lexical.double]
  generalize scanNumber takesExponent text = scanned
  obtain ⟨number, after⟩ := scanned
  cases integral : number.isIntegral <;> cases few : isConvertible number.scale <;>
    cases digits : number.hasDigits
  case false.true.true =>
    simp only [Bool.not_true, Bool.false_eq_true, ↓reduceIte, Outcome.ok.injEq,
      Prod.mk.injEq]
    constructor
    · rintro ⟨_, rfl, rfl, -⟩
      exact ⟨number, ⟨rfl, rfl⟩, digits, integral, few, rfl⟩
    · rintro ⟨_, ⟨rfl, rfl⟩, -, -, -, rfl⟩
      exact ⟨none, rfl, rfl, rfl⟩
  all_goals
    simp only [Bool.not_true, Bool.not_false, Bool.false_eq_true, ↓reduceIte, fail,
      reduceCtorEq, exists_const, Prod.mk.injEq, false_iff]
    rintro ⟨_, ⟨rfl, -⟩, some, fractional, short, -⟩
    simp_all

/-- A number with a fraction or an exponent is read where it stands, if its exponent can be
converted. -/
theorem gives_strictDouble {value : Double} :
    (strictDouble : Reader (List Char) Double).Gives (skip text) value rest ↔
      ∃ lexeme : Lexeme, lexeme.At takesExponent text rest ∧ lexeme.shape = .double ∧
        lexeme.converts ∧ value = (scanNumber (fun _ => true) lexeme.text).1.toDouble := by
  have parts := scanNumber_text takesExponent (skip text)
  have again := scanNumber_text_self takesExponent (skip text)
  rw [gives_strictDouble_iff_scanNumber]
  constructor
  · rintro ⟨number, scanned, digits, integral, few, rfl⟩
    rw [scanned] at parts again
    obtain ⟨lexeme, here, shape, found⟩ := (exists_at_iff .double).2
      ⟨parts.symm, number, by rw [parts, scanned], digits, integral⟩
    refine ⟨lexeme, here, shape, ?_, by rw [found, again digits]⟩
    rw [Lexeme.converts_iff shape, found, again digits]
    exact few
  · rintro ⟨lexeme, here, shape, converts, rfl⟩
    have before := here.before
    rw [shape] at before
    obtain ⟨number, scanned, digits, integral⟩ := before
    rw [here.spelled, scanned] at parts again
    have found : number.text = lexeme.text := List.append_cancel_right parts
    rw [Lexeme.converts_iff shape, ← found, again digits] at converts
    exact ⟨number, by rw [here.spelled, scanned], digits, integral, converts,
      by rw [← found, again digits]⟩

/-- The exponent that a number does not have can be converted. -/
theorem isConvertible_scale_of_isIntegral {number : Number} (integral : number.isIntegral) :
    isConvertible number.scale := by
  simp only [Number.isIntegral, Bool.and_eq_true, Option.isNone_iff_eq_none] at integral
  rw [Number.scale, integral.2]
  rfl

/-- A number is refused as a double if it has neither a fraction nor an exponent, or if it has no
digits and its exponent can be converted. -/
theorem refuses_strictDouble_iff_scanNumber :
    (strictDouble : Reader (List Char) Double).Refuses text ↔
      (scanNumber takesExponent text).1.isIntegral ∨
        isConvertible (scanNumber takesExponent text).1.scale ∧
          (scanNumber takesExponent text).1.hasDigits = false := by
  change (∃ failure rest noted, Lexical.strictDouble text = .fail failure rest noted ∧ _) ↔ _
  simp only [Lexical.strictDouble, Lexical.double]
  generalize scanNumber takesExponent text = scanned
  obtain ⟨number, after⟩ := scanned
  cases integral : number.isIntegral with
  | true => simp [fail, Failure.isFinal, Trace.head, Reason.kind]
  | false =>
    cases few : isConvertible number.scale <;> cases digits : number.hasDigits <;>
      simp [fail, Failure.isFinal, Trace.head, Reason.kind]

/-- A number with a fraction or an exponent is not refused where it stands, whatever its exponent. -/
theorem not_refuses_strictDouble {lexeme : Lexeme} (here : lexeme.At takesExponent text rest)
    (shape : lexeme.shape = .double) :
    ¬ (strictDouble : Reader (List Char) Double).Refuses (skip text) := by
  have before := here.before
  rw [shape] at before
  obtain ⟨number, scanned, digits, integral⟩ := before
  rw [refuses_strictDouble_iff_scanNumber, here.spelled, scanned, digits, integral]
  simp

/-- Neither a digit nor a letter nor a sign belongs to a number. -/
theorem foreign_cons {c : Char} (digit : ¬ isDigit c) (sign : c ∉ ['+', '-', '.', '_'])
    (letter : ¬ isLetter c) : Foreign (c :: text) := by
  rintro _ ⟨⟩
  refine ⟨digit, fun mem => ?_⟩
  simp only [List.mem_cons, List.not_mem_nil, or_false, not_or] at sign mem
  rcases mem with rfl | rfl | rfl | rfl | rfl
  · exact sign.1 rfl
  · exact sign.2.1 rfl
  · exact sign.2.2.1 rfl
  all_goals exact absurd letter (by decide)

/-- Nothing of a number stands before a character that no number has. -/
theorem Foreign.isIntegral_scanNumber (foreign : Foreign text) :
    (scanNumber takesExponent text).1.isIntegral := by
  have nothing := scanNumber_append_foreign foreign [] takesExponent
  rw [List.nil_append] at nothing
  rw [nothing]
  rfl

/-- Where something else than a word and a number with a fraction or an exponent stands, no such
number is read. -/
theorem refuses_strictDouble {lexeme : Lexeme} (here : lexeme.At takesExponent text rest)
    (fractional : lexeme.shape ≠ .double) (other : lexeme.shape ≠ .word) :
    (strictDouble : Reader (List Char) Double).Refuses (skip text) := by
  refine refuses_strictDouble_iff_scanNumber.2 (.inl ?_)
  have before := here.before
  rw [here.spelled]
  cases shape : lexeme.shape with
  | double => exact absurd shape fractional
  | word => exact absurd shape other
  | integer =>
    rw [shape] at before
    exact before.2.2
  | mark mark =>
    rw [shape] at before
    obtain ⟨digit, sign, -, -, letter⟩ := mark.noOther
    rw [show lexeme.text = [mark.char] from before]
    exact Foreign.isIntegral_scanNumber (foreign_cons digit sign letter)
  | literal =>
    rw [shape] at before
    obtain ⟨quote, value, spelled, -⟩ := before
    obtain ⟨digit, sign, letter⟩ := quote.noOther
    rw [spelled]
    exact Foreign.isIntegral_scanNumber (foreign_cons digit sign letter)

end Numbers

section Scopes

/-- The scopes of a namespace but the star are names. -/
theorem isName_of_mem_namespaceScopes {scope : String} (mem : scope ∈ namespaceScopes)
    (other : scope ≠ "*") : IsName scope.toList := by
  have all : ∀ scope ∈ namespaceScopes, scope ≠ "*" → IsName scope.toList := by decide
  exact all scope mem other

/-- The star is cut off wherever it stands, and another scope where it stands as a name. -/
theorem afterScope?_eq_some_iff_starts {scope : String} (known : scope ∈ namespaceScopes) :
    Lexical.afterScope? scope text = some rest ↔
      if scope = "*" then text = '*' :: rest else scanName? text = some (scope.toList, rest) := by
  rw [Lexical.afterScope?]
  split
  next star =>
    rw [star]
    exact after?_eq_some_iff
  next other =>
    exact afterKeyword?_eq_some_iff_scanName? (isName_of_mem_namespaceScopes known other)

/-- What can be cut off as a scope of a namespace. -/
theorem afterScope?_eq_some_iff {scope : String} (mem : scope ∈ namespaceScopes) :
    Lexical.afterScope? scope (skip text) = some rest ↔
      ∃ lexeme : Lexeme, lexeme.At takesExponent text rest ∧
        (lexeme.IsMark .star ∧ scope = "*" ∨ lexeme.IsWord scope) := by
  rw [afterScope?_eq_some_iff_starts mem]
  split
  next star =>
    have noWord : ∀ lexeme : Lexeme, lexeme.At takesExponent text rest → ¬ lexeme.IsWord scope := by
      intro lexeme here isWord
      have before := here.before
      rw [isWord.1, isWord.2, star] at before
      exact absurd before.1 (by decide)
    show skip text = Mark.star.char :: rest ↔ _
    rw [← exists_isMark_iff]
    refine exists_congr fun lexeme => and_congr_right fun here => ?_
    rw [or_iff_left (noWord lexeme here), and_iff_left star]
  next other =>
    have isName := isName_of_mem_namespaceScopes mem other
    simp only [other, and_false, false_or, Lexeme.IsWord, exists_at_iff, scanName?_eq_some_iff,
      Shape.Before, isName, true_and]

/-- At most one scope stands at the start of a text. -/
theorem afterScope?_unique {scope scope' : String} {rest' : List Char} (known : scope ∈ namespaceScopes)
    (known' : scope' ∈ namespaceScopes) (first : Lexical.afterScope? scope text = some rest)
    (second : Lexical.afterScope? scope' text = some rest') : scope = scope' ∧ rest = rest' := by
  rw [afterScope?_eq_some_iff_starts known] at first
  rw [afterScope?_eq_some_iff_starts known'] at second
  -- No name begins with the star, so that a star and a name never stand at one place.
  have noName (left : List Char) : scanName? ('*' :: left) = none :=
    scanName?_cons_eq_none (by decide) (by decide)
  split at first <;> split at second
  next star star' =>
    rw [first] at second
    exact ⟨star.trans star'.symm, List.tail_eq_of_cons_eq second⟩
  next =>
    rw [first, noName] at second
    cases second
  next =>
    rw [second, noName] at first
    cases first
  next =>
    rw [first] at second
    obtain ⟨same, left⟩ := Prod.mk.inj (Option.some.inj second)
    exact ⟨String.toList_inj.1 same, left⟩

/-- Among known scopes, the first that stands at the start of a text is the one that does. -/
theorem findSome?_afterScope?_eq_some_iff {scopes : List String} {scope : String}
    (known : ∀ scope ∈ scopes, scope ∈ namespaceScopes) :
    (scopes.findSome? fun scope => (Lexical.afterScope? scope text).map fun rest => (scope, rest)) =
        some (scope, rest) ↔
      scope ∈ scopes ∧ Lexical.afterScope? scope text = some rest := by
  constructor
  · intro found
    obtain ⟨_, mem, tried⟩ := List.exists_of_findSome?_eq_some found
    obtain ⟨_, cut, same⟩ := Option.map_eq_some_iff.1 tried
    obtain ⟨rfl, rfl⟩ := Prod.mk.inj same
    exact ⟨mem, cut⟩
  · rintro ⟨mem, cut⟩
    refine findSome?_eq_some_of_agree mem (by rw [cut]; rfl) fun other mem' answer tried => ?_
    obtain ⟨left, cut', rfl⟩ := Option.map_eq_some_iff.1 tried
    obtain ⟨rfl, rfl⟩ := afterScope?_unique (known scope mem) (known other mem') cut cut'
    rfl

/-- The scope of a namespace is read where the star or the word of a scope stands. -/
theorem gives_namespaceScope {scope : String} :
    (namespaceScope : Reader (List Char) String).Gives (skip text) scope rest ↔
      scope ∈ namespaceScopes ∧ ∃ lexeme : Lexeme, lexeme.At takesExponent text rest ∧
        (lexeme.IsMark .star ∧ scope = "*" ∨ lexeme.IsWord scope) := by
  change (Lexical.namespaceScope).Gives (skip text) scope rest ↔ _
  rw [Lexical.namespaceScope, gives_orFail, findSome?_afterScope?_eq_some_iff fun _ => id]
  exact and_congr_right afterScope?_eq_some_iff

end Scopes

section Rows

variable {α β : Type} {value : β}

/-- After the place that is reached, reading goes on there. -/
theorem gives_here_bind {next : Nat → Reader (List Char) β} :
    (here >>= next).Gives text value rest ↔ (next text.length).Gives text value rest := by
  simp [gives_bind, Input.left]

/-- After skipping, reading goes on where it ends. -/
theorem gives_skipSeparator_bind {next : Bool → Reader (List Char) β} :
    (skipSeparator >>= next).Gives text value rest ↔
      (next (hasGap text)).Gives (skip text) value rest := by
  simp [gives_bind]

/-- After a separator, reading goes on where it ends. -/
theorem gives_separator_bind {next : Unit → Reader (List Char) β} :
    (separator >>= next).Gives text value rest ↔
      hasGap text ∧ (next ()).Gives (skip text) value rest := by
  simp only [gives_bind, gives_separator]
  constructor
  · rintro ⟨_, _, ⟨gap, rfl⟩, given⟩
    exact ⟨gap, given⟩
  · rintro ⟨gap, given⟩
    exact ⟨(), skip text, ⟨gap, rfl⟩, given⟩

/-- After a keyword, reading goes on behind its lexeme. -/
theorem gives_keyword_bind {word production : String} {next : Unit → Reader (List Char) β}
    (isName : IsName word.toList) :
    (keyword word production >>= next).Gives (skip text) value rest ↔
      ∃ (lexeme : Lexeme) (after : List Char), lexeme.At takesExponent text after ∧
        lexeme.IsWord word ∧ (next ()).Gives after value rest := by
  rw [gives_bind]
  constructor
  · rintro ⟨_, after, reads, given⟩
    obtain ⟨lexeme, here, isWord⟩ := (gives_keyword isName).1 reads
    exact ⟨lexeme, after, here, isWord, given⟩
  · rintro ⟨lexeme, after, here, isWord, given⟩
    exact ⟨(), after, (gives_keyword isName).2 ⟨lexeme, here, isWord⟩, given⟩

/-- After a mark, reading goes on behind its lexeme. -/
theorem gives_character_bind (mark : Mark) {production : String}
    {next : Unit → Reader (List Char) β} :
    (character mark.char production >>= next).Gives (skip text) value rest ↔
      ∃ (lexeme : Lexeme) (after : List Char), lexeme.At takesExponent text after ∧
        lexeme.IsMark mark ∧ (next ()).Gives after value rest := by
  rw [gives_bind]
  constructor
  · rintro ⟨_, after, reads, given⟩
    obtain ⟨lexeme, here, isMark⟩ := (gives_character mark).1 reads
    exact ⟨lexeme, after, here, isMark, given⟩
  · rintro ⟨lexeme, after, here, isMark, given⟩
    exact ⟨(), after, (gives_character mark).2 ⟨lexeme, here, isMark⟩, given⟩

/-- After a name, reading goes on behind its lexeme. -/
theorem gives_name_bind {next : String → Reader (List Char) β} :
    (Readable.name >>= next).Gives (skip text) value rest ↔
      ∃ (lexeme : Lexeme) (name : String) (after : List Char), lexeme.At takesExponent text after ∧
        lexeme.IsWord name ∧ (next name).Gives after value rest := by
  simp only [gives_bind, gives_name]
  constructor
  · rintro ⟨name, after, ⟨lexeme, here, isWord⟩, given⟩
    exact ⟨lexeme, name, after, here, isWord, given⟩
  · rintro ⟨lexeme, name, after, here, isWord, given⟩
    exact ⟨name, after, ⟨lexeme, here, isWord⟩, given⟩

/-- After a separator and a name, reading goes on behind the lexeme of the name, which is apart from
what stands before it. -/
theorem gives_apart_name_bind {next : String → Reader (List Char) β} :
    (separator >>= fun _ => Readable.name >>= next).Gives text value rest ↔
      ∃ (lexeme : Lexeme) (name : String) (after : List Char), lexeme.At takesExponent text after ∧
        lexeme.IsWord name ∧ lexeme.apart ∧ (next name).Gives after value rest := by
  rw [gives_separator_bind]
  constructor
  · rintro ⟨gap, given⟩
    obtain ⟨lexeme, name, after, here, isName, given⟩ := gives_name_bind.1 given
    exact ⟨lexeme, name, after, here, isName, here.apart.trans gap, given⟩
  · rintro ⟨lexeme, name, after, here, isName, apart, given⟩
    exact ⟨here.apart.symm.trans apart, gives_name_bind.2 ⟨lexeme, name, after, here, isName, given⟩⟩

/-- After a keyword and a name apart from it, reading goes on behind the lexemes of both. -/
theorem gives_heading_bind {word production : String} {next : String → Reader (List Char) β}
    (isWord : IsName word.toList) :
    (keyword word production >>= fun _ => separator >>= fun _ => Readable.name >>= next).Gives
        (skip text) value rest ↔
      ∃ (first second : Lexeme) (name : String) (middle after : List Char),
        first.At takesExponent text middle ∧ first.IsWord word ∧ second.At takesExponent middle after ∧
          second.IsWord name ∧ second.apart ∧ (next name).Gives after value rest := by
  rw [gives_keyword_bind isWord]
  constructor
  · rintro ⟨first, middle, here, isFirst, given⟩
    obtain ⟨second, name, after, there, isName, apart, given⟩ := gives_apart_name_bind.1 given
    exact ⟨first, second, name, middle, after, here, isFirst, there, isName, apart, given⟩
  · rintro ⟨first, second, name, middle, after, here, isFirst, there, isName, apart, given⟩
    refine ⟨first, middle, here, isFirst, ?_⟩
    exact gives_apart_name_bind.2 ⟨second, name, after, there, isName, apart, given⟩

/-- A keyword and a literal apart from it are read where their lexemes stand. -/
theorem gives_keyword_literal {word production found : String} (isWord : IsName word.toList) :
    (keyword word production >>= fun _ => separator >>= fun _ => literal :
        Reader (List Char) String).Gives (skip text) found rest ↔
      ∃ first second : Lexeme, Lexes takesExponent text [first, second] rest ∧ first.IsWord word ∧
        second.shape = .literal ∧ second.apart ∧ found = unquoted second.text := by
  simp only [gives_keyword_bind isWord, gives_separator_bind, gives_literal]
  constructor
  · rintro ⟨first, middle, here, isFirst, gap, second, there, shape, same⟩
    exact ⟨first, second, ⟨middle, here, rest, there, rfl⟩, isFirst, shape, there.apart.trans gap, same⟩
  · rintro ⟨first, second, ⟨middle, here, _, there, rfl⟩, isFirst, shape, apart, same⟩
    exact ⟨first, middle, here, isFirst, there.apart.symm.trans apart, second, there, shape, same⟩

/-- After skipping, what is refused where it ends is refused. -/
theorem refuses_skipSeparator_bind {next : Bool → Reader (List Char) β}
    (refused : (next (hasGap text)).Refuses (skip text)) :
    (skipSeparator >>= next).Refuses text :=
  Gives.bind_refuses (gives_skipSeparator.2 ⟨rfl, rfl⟩) refused

/-- What is refused after each separator is refused. -/
theorem refuses_separator_bind {next : Unit → Reader (List Char) β}
    (refused : hasGap text → (next ()).Refuses (skip text)) :
    (separator >>= next).Refuses text := by
  cases gap : hasGap text with
  | true => exact Gives.bind_refuses (gives_separator.2 ⟨gap, rfl⟩) (refused gap)
  | false => exact (refuses_separator gap).bind

/-- What is refused behind each such keyword is refused. -/
theorem refuses_keyword_bind {word production : String} {next : Unit → Reader (List Char) β}
    (isName : IsName word.toList)
    (refused : ∀ (lexeme : Lexeme) (after : List Char), lexeme.At takesExponent text after →
      lexeme.IsWord word → (next ()).Refuses after) :
    (keyword word production >>= next).Refuses (skip text) := by
  by_cases stands : ∃ (lexeme : Lexeme) (after : List Char), lexeme.At takesExponent text after ∧
      lexeme.IsWord word
  · obtain ⟨lexeme, after, here, isWord⟩ := stands
    exact Gives.bind_refuses ((gives_keyword isName).2 ⟨lexeme, here, isWord⟩)
      (refused lexeme after here isWord)
  · refine (refuses_keyword isName fun lexeme after here isWord => ?_).bind
    exact stands ⟨lexeme, after, here, isWord⟩

/-- What is refused behind each such mark is refused. -/
theorem refuses_character_bind (mark : Mark) {production : String}
    {next : Unit → Reader (List Char) β}
    (refused : ∀ (lexeme : Lexeme) (after : List Char), lexeme.At takesExponent text after →
      lexeme.IsMark mark → (next ()).Refuses after) :
    (character mark.char production >>= next).Refuses (skip text) := by
  by_cases stands : ∃ (lexeme : Lexeme) (after : List Char), lexeme.At takesExponent text after ∧
      lexeme.IsMark mark
  · obtain ⟨lexeme, after, here, isMark⟩ := stands
    exact Gives.bind_refuses ((gives_character mark).2 ⟨lexeme, here, isMark⟩)
      (refused lexeme after here isMark)
  · refine (refuses_character mark fun lexeme after here isMark => ?_).bind
    exact stands ⟨lexeme, after, here, isMark⟩

/-- What is read inside a container is read with the reader for its inside. -/
theorem gives_inside {α β : Type} {production : String} {inner : Option (Reader (List Char) α)}
    {body : Reader (List Char) α → Reader (List Char) β} {value : β} :
    (inside production inner body).Gives text value rest ↔
      ∃ rule, inner = some rule ∧ (body rule).Gives text value rest := by
  cases inner with
  | none => simp [inside]
  | some rule => simp [inside]

end Rows

section Soundness

/-- What a reader gives after skipping is spelled by the lexemes that it takes. -/
def Sound {α : Type} (reader : Reader (List Char) α) (spelling : List Lexeme → α → Prop) : Prop :=
  ∀ ⦃text rest : List Char⦄ ⦃value : α⦄, reader.Gives (skip text) value rest →
    ∃ lexemes, Lexes takesExponent text lexemes rest ∧ spelling lexemes value

/-- What a sound reader gives before another one is spelled. -/
theorem Sound.bind {α β : Type} {reader : Reader (List Char) α}
    {spelling : List Lexeme → α → Prop} {next : α → Reader (List Char) β} {value : β}
    (sound : Sound reader spelling) (given : (reader >>= next).Gives (skip text) value rest) :
    ∃ (lexemes : List Lexeme) (first : α) (after : List Char),
      Lexes takesExponent text lexemes after ∧ spelling lexemes first ∧
        (next first).Gives after value rest := by
  obtain ⟨first, after, opening, closing⟩ := gives_bind.1 given
  obtain ⟨lexemes, lexes, spelled⟩ := sound opening
  exact ⟨lexemes, first, after, lexes, spelled, closing⟩

/-- A sound reader never leaves more than it found. -/
theorem Sound.length_le {α : Type} {reader : Reader (List Char) α}
    {spelling : List Lexeme → α → Prop} {value : α} (sound : Sound reader spelling)
    (given : reader.Gives (skip text) value rest) : rest.length ≤ text.length := by
  obtain ⟨lexemes, lexes, -⟩ := sound given
  have taken := lexes.length_le
  omega

end Soundness

end Reader
end ThriftIdl
