import Mathlib.Data.List.Chain
import ThriftIdl.Canonical
import ThriftIdl.Proofs.Double.Layout
import ThriftIdl.Proofs.Grammar.WellFormed
import ThriftIdl.Proofs.Reader.Lexemes
import ThriftIdl.Proofs.Text.Separated

/-!
# Pieces of canonical text

A piece of text spells something if its lexemes do, whatever filler stands before it and wherever a
word or a number that it may end with does not go on (`Spells`). Words, marks, literals and numbers
are such pieces, and pieces are put together with fillers between them or without any
(`Spells.append`, `spells_spaced_cons`, `spells_divided`).
-/
namespace ThriftIdl

open Text
open TokenReader (unquoted)

/-- A text spells something if its lexemes do, with a filler before it and where its last lexeme
stops. No two of them are taken for parts of one word. -/
def Spells (stop : List Char → Prop) (text : List Char) (spelling : List Lexeme → Prop) : Prop :=
  ∀ ⦃gap rest⦄, Filler gap → stop rest → ∃ lexemes,
    AllLexes takesExponent (gap ++ (text ++ rest)) lexemes rest ∧ spelling lexemes ∧
      (gap ≠ [] → Apart lexemes) ∧ lexemes.IsChain Loose

/-- Texts may follow each other without a gap: a mark closes the first or opens the second. -/
inductive Meets : List Char → List Char → Prop where
  /-- The second begins with a mark. -/
  | closing (symbol : Mark) {text text' : List Char} : Meets text (symbol.char :: text')
  /-- The first is a mark after which nothing need stand. -/
  | opening {symbol : Mark} {text' : List Char} : symbol ≠ .moreThan → symbol ≠ .star →
      Meets [symbol.char] text'

/-- Where nothing is asked of what follows. -/
def Anywhere (_ : List Char) : Prop := True

/-- Parts of a whole that follow each other; the second is apart if there is a gap before it. -/
def Joined (gap : List Char) (first second : List Lexeme → Prop) (lexemes : List Lexeme) : Prop :=
  ∃ before after, lexemes = before ++ after ∧ first before ∧ second after ∧
    (gap ≠ [] → Apart after)

/-- A blank closes a word. -/
theorem closed_blank (rest : List Char) : Closed (' ' :: rest) := by
  simp only [closed_cons]
  decide

section Spells

variable {stop stop' : List Char → Prop} {text text' : List Char}
  {spelling spelling' : List Lexeme → Prop}

/-- What is spelled is spelled in every other way that follows from it. -/
theorem Spells.imp (spells : Spells stop text spelling)
    (step : ∀ lexemes, spelling lexemes → spelling' lexemes) : Spells stop text spelling' := by
  intro gap rest filler stops
  obtain ⟨lexemes, lexes, spelled, apart⟩ := spells filler stops
  exact ⟨lexemes, lexes, step lexemes spelled, apart⟩

/-- What is spelled before anything is spelled before what closes a word. -/
theorem Spells.closed (spells : Spells Anywhere text spelling) : Spells Closed text spelling :=
  fun _ _ filler _ => spells filler trivial

/-- The lexemes of texts that meet are loose from each other. -/
theorem loose_of_meets {gap rest : List Char} {before after : List Lexeme} (filler : Filler gap)
    (meets : Meets text text')
    (lexes : Lexes takesExponent (gap ++ (text ++ (text' ++ rest))) before (text' ++ rest))
    (lexes' : Lexes takesExponent (text' ++ rest) after rest) :
    ∀ first ∈ before.getLast?, ∀ second ∈ after.head?, Loose first second := by
  intro first last second head
  cases meets with
  | closing symbol =>
    obtain ⟨others, rfl⟩ := List.head?_eq_some_iff.1 head
    obtain ⟨_, here, -⟩ := lexes'
    exact .inr (.inl ⟨symbol, (Lexeme.At.eq_mark .nil here).1⟩)
  | @opening symbol text' noMore noStar =>
    cases before with
    | nil => simp at last
    | cons lexeme others =>
      obtain ⟨_, here, more⟩ := lexes
      obtain ⟨mark, rfl⟩ := Lexeme.At.eq_mark filler here
      -- The mark is all of the first text.
      have none : others = [] := by
        have enough : others.length + (text' ++ rest).length ≤ (text' ++ rest).length :=
          more.length_le
        exact List.length_eq_zero_iff.1 (by omega)
      subst none
      obtain rfl : lexeme = first := by simpa using last
      exact .inr (.inr ⟨symbol, mark, noMore, noStar⟩)

/-- Texts that spell something do so one after the other. -/
theorem Spells.append {gap : List Char} (first : Spells stop text spelling) (filler : Filler gap)
    (second : Spells stop' text' spelling') (meets : gap = [] → Meets text text')
    (stops : ∀ rest, stop' rest → stop (gap ++ (text' ++ rest))) :
    Spells stop' (text ++ (gap ++ text')) (Joined gap spelling spelling') := by
  intro gap' rest filler' ends
  obtain ⟨before, lexes, spelled, apart, loose⟩ := first filler' (stops rest ends)
  obtain ⟨after, lexes', spelled', apart', loose'⟩ := second filler ends
  refine ⟨before ++ after, fun _ more => ?_, ⟨before, after, rfl, spelled, spelled', apart'⟩,
    fun some => ?_, List.isChain_append.2 ⟨loose, loose', ?_⟩⟩
  · simp only [List.append_assoc]
    exact lexes_append.2 ⟨_, lexes more, lexes' more⟩
  · cases before with
    | nil =>
      -- An empty part leaves its gap, so that the next part begins after it.
      have same : gap ++ (text' ++ rest) = gap' ++ (text ++ (gap ++ (text' ++ rest))) :=
        lexes fun _ fits => fits
      have skipped : hasGap (gap' ++ (text ++ (gap ++ (text' ++ rest)))) := filler'.hasGap some _
      rw [← same] at skipped
      exact (lexes' fun _ fits => fits).apart skipped
    | cons lexeme before => simpa [Apart] using apart some
  · by_cases none : gap = []
    · subst none
      exact loose_of_meets filler' (meets rfl) (lexes fun _ fits => fits) (lexes' fun _ fits => fits)
    · intro lexeme _ next head
      exact .inl (apart' none next head)

/-- Texts that spell something do so without a gap between them, where they meet. -/
theorem Spells.then (first : Spells stop text spelling) (second : Spells stop' text' spelling')
    (meets : Meets text text') (stops : ∀ rest, stop' rest → stop (text' ++ rest)) :
    Spells stop' (text ++ text') (Joined [] spelling spelling') :=
  first.append .nil second (fun _ => meets) stops

/-- Texts that spell something do so with a blank between them. -/
theorem Spells.spaced (first : Spells Closed text spelling)
    (second : Spells stop' text' spelling') :
    Spells stop' (text ++ ([' '] ++ text')) (Joined [' '] spelling spelling') :=
  first.append (.blank rfl .nil) second (by simp) fun _ _ => closed_blank _

/-- Texts that spell something do so with a blank between them, whatever stands there. -/
theorem Spells.blank (first : Spells Anywhere text spelling)
    (second : Spells stop' text' spelling') :
    Spells stop' (text ++ ([' '] ++ text')) (Joined [' '] spelling spelling') :=
  first.append (.blank rfl .nil) second (by simp) fun _ _ => trivial

/-- A single lexeme is spelled by its characters. -/
theorem spells_lexeme (shape : Shape) {found : List Char}
    (before : ∀ rest, stop rest → ∀ ⦃admits : List Char → Bool⦄, (∀ n, takesExponent n → admits n) →
      shape.Before admits found rest) :
    Spells stop found fun lexemes =>
      ∃ lexeme : Lexeme, lexemes = [lexeme] ∧ lexeme.shape = shape ∧ lexeme.text = found := by
  intro gap rest filler stops
  refine ⟨[_], fun _ more => ⟨_, at_of_filler filler (before rest stops more), rfl⟩,
    ⟨_, rfl, rfl, rfl⟩, fun some => ?_, .singleton _⟩
  simpa [Apart] using some

/-- A word is spelled by itself. -/
theorem spells_word (word : String) (isName : IsName word.toList) :
    Spells Closed word.toList fun lexemes =>
      ∃ lexeme : Lexeme, lexemes = [lexeme] ∧ lexeme.IsWord word :=
  spells_lexeme .word fun _ closed _ _ => ⟨isName, closed⟩

/-- A mark is spelled by its character. -/
theorem spells_mark (mark : Mark) :
    Spells Anywhere [mark.char] fun lexemes =>
      ∃ lexeme : Lexeme, lexemes = [lexeme] ∧ lexeme.IsMark mark :=
  (spells_lexeme (.mark mark) fun _ _ _ _ => rfl).imp
    fun _ ⟨lexeme, single, isMark, _⟩ => ⟨lexeme, single, isMark⟩

/-- A text is an integer of 64 bits. -/
structure DenotesInteger (text : List Char) (n : Int) : Prop where
  /-- The text is an integer. -/
  isInteger : IsInteger text
  /-- The integer has the value. -/
  value : signedValue text = n
  /-- The integer can be converted and has 64 bits. -/
  fits : admitsInteger text

/-- The digits of an integer of 64 bits are that integer. -/
theorem denotesInteger_integer {n : Int} (fits : fitsInteger n) : DenotesInteger (integer n) n :=
  ⟨isInteger_integer n, signedValue_integer n, admitsInteger_integer fits⟩

/-- An integer of 64 bits is spelled by its text. -/
theorem DenotesInteger.spells {n : Int} (denotes : DenotesInteger text n) :
    Spells Closed text fun lexemes => ∃ lexeme : Lexeme, lexemes = [lexeme] ∧
      lexeme.shape = .integer ∧ signedValue lexeme.text = n ∧ admitsInteger lexeme.text := by
  have whole : ∀ admits, Shape.integer.Whole admits text := fun _ => denotes.isInteger
  refine (spells_lexeme .integer fun _ closed admits _ => (whole admits).before closed).imp ?_
  rintro _ ⟨lexeme, rfl, shape, rfl⟩
  exact ⟨lexeme, rfl, shape, denotes.value, denotes.fits⟩

/-- A text is a double with an exponent that can be converted and has 64 bits, if it has one. -/
structure DenotesDouble (text : List Char) (value : Double) : Prop where
  /-- The text is a number with a fraction or an exponent. -/
  whole : Shape.double.Whole admitsInteger text
  /-- The number has the value. -/
  value : (scanNumber (fun _ => true) text).1.toDouble = value

/-- A double is spelled by its text. -/
theorem DenotesDouble.spells {value : Double} (denotes : DenotesDouble text value) :
    Spells Closed text fun lexemes => ∃ lexeme : Lexeme, lexemes = [lexeme] ∧
      lexeme.shape = .double ∧ lexeme.converts ∧
        (scanNumber (fun _ => true) lexeme.text).1.toDouble = value := by
  have more {admits : List Char → Bool} (more : ∀ n, takesExponent n → admits n) (n : List Char)
      (fits : admitsInteger n) : admits n := more n (takesExponent_of_admitsInteger fits)
  refine (spells_lexeme .double fun rest closed _ admits =>
    (denotes.whole.mono (more admits)).before closed).imp ?_
  rintro _ ⟨lexeme, rfl, shape, rfl⟩
  have whole := denotes.whole
  rw [← shape] at whole
  exact ⟨lexeme, rfl, shape, whole.converts fun _ => isConvertible_of_admitsInteger, denotes.value⟩

/-- The text of a finite double is that double. -/
theorem denotesDouble_text {value : Double} (finite : value.isFinite) :
    DenotesDouble value.text value := by
  obtain ⟨number, text, terse, fractional, admitted, reads⟩ :=
    Double.exists_number_of_isFinite finite
  have again :=
    scanNumber_append (fun _ => true) terse.formed terse.hasDigits (fun _ _ => rfl) numberStop_nil
  rw [List.append_nil, text] at again
  exact ⟨⟨number, terse.formed, terse.hasDigits, fractional, admitted, text.symm⟩,
    by rw [again, reads]⟩

/-- A literal is spelled by its text. -/
theorem spells_literal (isLiteral : IsLiteral text) :
    Spells Anywhere text fun lexemes => ∃ lexeme : Lexeme, lexemes = [lexeme] ∧
      lexeme.shape = .literal ∧ unquoted lexeme.text = unquoted text := by
  refine (spells_lexeme .literal fun _ _ _ _ => isLiteral).imp ?_
  rintro _ ⟨lexeme, rfl, shape, rfl⟩
  exact ⟨lexeme, rfl, shape, rfl⟩

/-- A text without quotes of both kinds has a literal. -/
theorem exists_isLiteral {text : String} (quotable : holdsBothQuotes text = false) :
    ∃ written, literalIdl text = .ok written ∧ IsLiteral written ∧ unquoted written = text := by
  have quoted : ∀ quote : Quote, quote.char ∉ text.toList →
      IsLiteral (quote.char :: (text.toList ++ [quote.char])) ∧
        unquoted (quote.char :: (text.toList ++ [quote.char])) = text :=
    fun quote clear => ⟨⟨quote, text.toList, rfl, clear⟩, by simp [unquoted]⟩
  simp only [holdsBothQuotes, Bool.and_eq_false_iff] at quotable
  simp only [literalIdl]
  split
  next clear => exact ⟨_, rfl, quoted .double (by simpa using clear)⟩
  next double =>
    have clear : text.toList.contains Quote.single.char = false := by simp_all
    simp only [clear, Bool.not_false, ↓reduceIte]
    exact ⟨_, rfl, quoted .single (by simpa using clear)⟩

end Spells

section Rows

variable {text : List Char} {spelling : List Lexeme → Prop}

/-- A mark closes a word. -/
theorem closed_mark (mark : Mark) (rest : List Char) : Closed ([mark.char] ++ rest) := by
  rw [List.singleton_append, closed_cons]
  cases mark <;> decide

/-- A text with others after it, and blanks between them, spells what it spells and what they
spell. -/
theorem spells_spaced_cons {texts : List (List Char)} {spelling' : List Lexeme → Prop}
    (first : Spells Closed text spelling) (others : Spells Closed (spaced texts) spelling')
    (some : texts ≠ []) :
    Spells Closed (spaced (text :: texts)) (Joined [' '] spelling spelling') := by
  obtain ⟨next, texts, rfl⟩ := List.exists_cons_of_ne_nil some
  have row : spaced (text :: next :: texts) = text ++ ([' '] ++ spaced (next :: texts)) := by
    simp [spaced, List.intercalate]
  rw [row]
  exact first.spaced others

/-- A single text is spaced as it is. -/
@[simp] theorem spaced_singleton (text : List Char) : spaced [text] = text := by
  simp [spaced, List.intercalate]

/-- A single text spells as it does alone. -/
theorem spells_spaced_singleton {stop : List Char → Prop} (spells : Spells stop text spelling) :
    Spells stop (spaced [text]) spelling := by
  simpa using spells

/-- What stands between items: a list separator with a filler after it, or a filler that is not
empty. -/
inductive Divider : List Char → Prop where
  /-- A list separator. -/
  | mark {symbol : Mark} {gap : List Char} : symbol = .comma ∨ symbol = .semicolon → Filler gap →
      Divider (symbol.char :: gap)
  /-- A filler alone. -/
  | gap {gap : List Char} : Filler gap → gap ≠ [] → Divider gap

/-- A comma with a blank after it divides items. -/
theorem divider_comma : Divider [',', ' '] :=
  have mark : Divider (Mark.comma.char :: [' ']) := .mark (.inl rfl) (.blank rfl .nil)
  mark

/-- A single item is spelled as elements. -/
theorem Elements.single {α : Type} {item : List Lexeme → α → Prop} {lexemes : List Lexeme}
    {value : α} (spelled : item lexemes value) : Elements true item lexemes [value] := by
  have none : Elements true item [] [] := .nil
  simpa using Elements.cons spelled .absent none (by simp [Apart])

/-- Texts with a divider between them spell elements, if each of them spells one. -/
theorem spells_divided {α : Type} {item : List Lexeme → α → Prop} {divider : List Char}
    {texts : List (List Char)} {values : List α} (divides : Divider divider)
    (each : List.Forall₂ (fun text value => Spells Closed text (item · value)) texts values)
    (some : texts ≠ []) :
    Spells Closed (divider.intercalate texts) (Elements true item · values) := by
  induction each with
  | nil => exact absurd rfl some
  | @cons text value texts values first others ih =>
    cases others with
    | nil =>
      have single : divider.intercalate [text] = text := by simp [List.intercalate]
      rw [single]
      exact first.imp fun _ spelled => .single spelled
    | @cons next _ texts values second others =>
      have row : divider.intercalate (text :: next :: texts) =
          text ++ (divider ++ divider.intercalate (next :: texts)) := by
        simp [List.intercalate]
      rw [row]
      have tail := ih (by simp)
      cases divides with
      | @mark symbol gap isSeparator filler =>
        have noMore : symbol ≠ .moreThan ∧ symbol ≠ .star := by
          rcases isSeparator with rfl | rfl <;> decide
        have marked := (spells_mark symbol).append filler tail
          (fun _ => .opening noMore.1 noMore.2) fun _ _ => trivial
        refine (first.then marked (.closing symbol) fun rest _ => closed_mark symbol _).imp ?_
        rintro _ ⟨before, _, rfl, spelled, ⟨_, after, rfl, ⟨lexeme, rfl, isMark⟩, spelled', -⟩, -⟩
        have separator : SeparatorSpelling [lexeme] := by
          rcases isSeparator with rfl | rfl
          · exact .comma isMark
          · exact .semicolon isMark
        exact .cons spelled separator spelled' (by simp)
      | gap filler some =>
        refine (first.append filler tail (absurd · some) fun rest _ => filler.closed some _).imp ?_
        rintro _ ⟨before, after, rfl, spelled, spelled', apart⟩
        exact .cons spelled .absent spelled' fun _ _ => apart some

/-- Divided items are spelled between the marks around them. -/
theorem spells_enclosed {α : Type} {item : List Lexeme → α → Prop} {divider gap : List Char}
    {texts : List (List Char)} {values : List α} (opening closing : Mark)
    (noMore : opening ≠ .moreThan) (noStar : opening ≠ .star) (divides : Divider divider)
    (filler : Filler gap)
    (each : List.Forall₂ (fun text value => Spells Closed text (item · value)) texts values) :
    Spells Anywhere
      ([opening.char] ++ (gap ++ (divider.intercalate texts ++ (gap ++ [closing.char]))))
      fun lexemes => ∃ (first last : Lexeme) (elements : List Lexeme),
        lexemes = first :: (elements ++ [last]) ∧ first.IsMark opening ∧ last.IsMark closing ∧
          Elements true item elements values := by
  by_cases none : texts = []
  · subst none
    cases each
    have row : [opening.char] ++ (gap ++ (divider.intercalate [] ++ (gap ++ [closing.char]))) =
        [opening.char] ++ ((gap ++ gap) ++ [closing.char]) := by
      simp [List.intercalate]
    rw [row]
    refine ((spells_mark opening).append (filler.append filler) (spells_mark closing)
      (fun _ => .opening noMore noStar) fun _ _ => trivial).imp ?_
    rintro _ ⟨_, _, rfl, ⟨first, rfl, isOpening⟩, ⟨last, rfl, isClosing⟩, -⟩
    exact ⟨first, last, [], rfl, isOpening, isClosing, .nil⟩
  · have closes : ∀ rest, Closed (gap ++ ([closing.char] ++ rest)) := by
      intro rest
      by_cases empty : gap = []
      · subst empty
        exact closed_mark closing rest
      · exact filler.closed empty _
    have inner := (spells_divided divides each none).append filler (spells_mark closing)
      (fun empty => .closing closing) fun rest _ => closes rest
    have whole := (spells_mark opening).append filler inner
      (fun _ => .opening noMore noStar) fun _ _ => trivial
    refine whole.imp ?_
    rintro _ ⟨_, _, rfl, ⟨first, rfl, isOpening⟩, ⟨elements, _, rfl, spelled,
      ⟨last, rfl, isClosing⟩, -⟩, -⟩
    exact ⟨first, last, elements, rfl, isOpening, isClosing, spelled⟩

end Rows

end ThriftIdl
