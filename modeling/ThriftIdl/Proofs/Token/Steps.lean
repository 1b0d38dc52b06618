import ThriftIdl.Proofs.Grammar.Spelling
import ThriftIdl.Proofs.Token.Lexer
import ThriftIdl.Proofs.Token.Results

/-!
# Taking single tokens

The token ahead stands at the start of a text (`Stands`). Taking it passes one lexeme of the text,
and the next token stands at the start of what is left then (`Takes`). There is one lemma for each
kind of token. After a token that binds, a token that joins is parted from it (`Parted`).
-/
namespace ThriftIdl.TokenReader

open Text

/-- The token ahead stands at the start of a text where some terminals are expected, or nothing but
blanks and comments is left. -/
inductive Stands (expected : Expected) (text : List Char) (ahead : Ahead) : Prop where
  /-- Nothing is left. -/
  | ending : ahead.token.terminal = .ending → skip text = [] → Stands expected text ahead
  /-- A token stands there. -/
  | token : skip text = ahead.token.text ++ ahead.rest →
      ahead.token.terminal.Before expected ahead.token.text ahead.rest →
      ahead.token.left = (skip text).length → Stands expected text ahead

/-- Something stands before the token ahead if it joins. -/
def Parted (text : List Char) (ahead : Ahead) : Prop := ahead.token.terminal.joins → hasGap text

/-- The token ahead is taken as a lexeme, and the next token stands after it. -/
structure Takes (follow : Expected) (text : List Char) (lexeme : Lexeme) (before after : Ahead) :
    Prop where
  /-- The lexeme stands at the start of the text. -/
  here : lexeme.At (fun _ => true) text before.rest
  /-- The next token stands after it. -/
  stands : Stands follow before.rest after
  /-- Nothing is said of the meaning. -/
  invalid : after.invalid = before.invalid
  /-- The lexeme begins where the token does. -/
  left : lexeme.left = before.token.left
  /-- The lexeme is apart if something can be skipped before it. -/
  apart : lexeme.apart = hasGap text

/-- No keyword of a definition is expected. -/
def Inner (expected : Expected) : Prop := ∀ word ∈ Keyword.definitions, .keyword word ∉ expected

instance (expected : Expected) : Decidable (Inner expected) :=
  inferInstanceAs (Decidable (∀ word ∈ Keyword.definitions, .keyword word ∉ expected))

section Stands

variable {expected expected' : Expected} {terminal : Terminal} {text found rest : List Char}
  {before after : Ahead}

/-- A token that stands where more is expected stands where less is. -/
theorem Stands.mono (stands : Stands expected text before) (less : expected' ⊆ expected) :
    Stands expected' text before := by
  cases stands with
  | ending ends empty => exact .ending ends empty
  | token spelled stands left => exact .token spelled (stands.mono less) left

/-- A token that is ahead of nothing is the end. -/
theorem Stands.here (stands : Stands expected text before)
    (some : before.token.terminal ≠ .ending) :
    skip text = before.token.text ++ before.rest ∧
      before.token.terminal.Before expected before.token.text before.rest ∧
      before.token.left = (skip text).length := by
  cases stands with
  | ending ends => exact absurd ends some
  | token spelled stands left => exact ⟨spelled, stands, left⟩

/-- The end stands where nothing is left. -/
theorem Stands.ends (stands : Stands expected text before)
    (ending : before.token.terminal = .ending) : skip text = [] := by
  cases stands with
  | ending _ empty => exact empty
  | token _ stands =>
    rw [ending] at stands
    exact stands.elim

/-- The next token stands after the one that is taken. -/
theorem stands_of_nextToken {previous : Option Token} {total : Nat}
    (next : nextToken expected previous total text = .ok (before.token, before.rest)) :
    Stands expected text before := by
  rcases nextToken_eq_ok_iff.1 next with ⟨ends, token, -⟩ | ⟨-, spelled, stands, left, -⟩
  · exact .ending (by rw [token]) ends
  · exact .token spelled stands left

/-- The next token is the end or one that is expected. -/
theorem mem_of_advance {follow : Expected} (given : Gives (advance follow) before found after) :
    after.token.terminal = .ending ∨ after.token.terminal ∈ follow := by
  obtain ⟨-, -, next⟩ := gives_advance.1 given
  rcases nextToken_eq_ok_iff.1 next with ⟨-, token, -⟩ | ⟨mem, -⟩
  · exact .inl (by rw [token])
  · exact .inr mem

/-- After a token that binds, a token that joins is parted from it. -/
theorem parted_of_advance {follow : Expected} (stands : Stands expected text before)
    (given : Gives (advance follow) before found after) (binds : before.token.terminal.binds) :
    Parted before.rest after := by
  have some : before.token.terminal ≠ .ending := by
    intro ends
    rw [ends] at binds
    cases binds
  obtain ⟨-, stands, -⟩ := stands.here some
  obtain ⟨-, -, next⟩ := gives_advance.1 given
  exact hasGap_of_nextToken stands binds next

/-- A token is taken as the lexeme of its shape, if it stands for the whole of it. -/
theorem takes_of_same {follow : Expected} (stands : Stands expected text before)
    (same : before.token.terminal = terminal) (given : Gives (advance follow) before found after)
    (some : terminal ≠ .ending)
    (whole : terminal.Before expected found before.rest →
      terminal.shape.Before (fun _ => true) found before.rest) :
    ∃ lexeme, Takes follow text lexeme before after ∧ lexeme.shape = terminal.shape ∧
      lexeme.text = found := by
  subst same
  obtain ⟨spelled, stands, left⟩ := stands.here some
  obtain ⟨rfl, invalid, next⟩ := gives_advance.1 given
  refine ⟨⟨before.token.terminal.shape, before.token.text, before.token.left, hasGap text⟩, ?_, rfl, rfl⟩
  exact ⟨⟨spelled, whole stands, left, rfl⟩, stands_of_nextToken next, invalid, rfl, rfl⟩

end Stands

section Takes

variable {expected follow : Expected} {text found : List Char} {before after : Ahead}

/-- A mark is taken. -/
theorem takes_mark {symbol : Mark} (stands : Stands expected text before)
    (same : before.token.terminal = .mark symbol)
    (given : Gives (advance follow) before found after) :
    ∃ lexeme, Takes follow text lexeme before after ∧ lexeme.IsMark symbol := by
  obtain ⟨lexeme, takes, shape, -⟩ := takes_of_same stands same given (by simp) id
  exact ⟨lexeme, takes, shape⟩

/-- A keyword is taken, unless the keyword of a definition may follow. -/
theorem takes_keyword {word : Keyword} (stands : Stands expected text before)
    (same : before.token.terminal = .keyword word)
    (given : Gives (advance follow) before found after) (inner : Inner follow) :
    ∃ lexeme, Takes follow text lexeme before after ∧ lexeme.IsWord word.text ∧
      Parted before.rest after := by
  obtain ⟨-, here, -⟩ := stands.here (by simp [same])
  obtain ⟨isText, -, next⟩ := gives_advance.1 given
  have closed := closed_of_nextToken here (by rw [same]; rfl) inner next
  rw [same, ← isText] at here
  obtain ⟨lexeme, takes, shape, rfl⟩ := takes_of_same stands same given (by simp) fun here =>
    ⟨here.1 ▸ word.isName, closed⟩
  exact ⟨lexeme, takes, ⟨shape, here.1⟩, parted_of_advance stands given (by rw [same]; rfl)⟩

/-- A name is taken. -/
theorem takes_name (stands : Stands expected text before)
    (same : before.token.terminal = .identifier)
    (given : Gives (advance follow) before found after) :
    ∃ lexeme, Takes follow text lexeme before after ∧ lexeme.IsWord (String.ofList found) ∧
      (∀ word, .keyword word ∈ expected → String.ofList found ≠ word.text) ∧
      Parted before.rest after := by
  obtain ⟨-, here, -⟩ := stands.here (by simp [same])
  obtain ⟨isText, -, -⟩ := gives_advance.1 given
  rw [same, ← isText] at here
  obtain ⟨-, -, other⟩ := here
  obtain ⟨lexeme, takes, shape, rfl⟩ := takes_of_same stands same given (by simp) fun here =>
    ⟨here.1, here.2.1⟩
  refine ⟨lexeme, takes, ⟨shape, by simp⟩, fun word mem is => ?_,
    parted_of_advance stands given (by rw [same]; rfl)⟩
  exact other word mem (by rw [← is, String.toList_ofList])

/-- A literal is taken. -/
theorem takes_literal (stands : Stands expected text before)
    (same : before.token.terminal = .literal)
    (given : Gives (advance follow) before found after) :
    ∃ lexeme, Takes follow text lexeme before after ∧ lexeme.shape = .literal ∧
      lexeme.text = found ∧ Parted before.rest after := by
  obtain ⟨lexeme, takes, shape, found⟩ := takes_of_same stands same given (by simp) id
  exact ⟨lexeme, takes, shape, found, parted_of_advance stands given (by rw [same]; rfl)⟩

/-- A number with a fraction or an exponent is taken. -/
theorem takes_double (stands : Stands expected text before)
    (same : before.token.terminal = .double)
    (given : Gives (advance follow) before found after) :
    ∃ lexeme, Takes follow text lexeme before after ∧ lexeme.shape = .double ∧
      lexeme.text = found :=
  takes_of_same stands same given (by simp) id

/-- An integer is taken where a number with a fraction or an exponent is expected too, or where the
keyword of a definition may not follow. -/
theorem takes_integer (stands : Stands expected text before)
    (same : before.token.terminal = .integer)
    (given : Gives (advance follow) before found after)
    (settled : .double ∈ expected ∨ Inner follow) :
    ∃ lexeme, Takes follow text lexeme before after ∧ lexeme.shape = .integer ∧
      lexeme.text = found ∧ Parted before.rest after := by
  obtain ⟨-, here, -⟩ := stands.here (by simp [same])
  obtain ⟨-, -, next⟩ := gives_advance.1 given
  have closed : Inner follow → Closed before.rest := fun inner =>
    closed_of_nextToken here (by rw [same]; rfl) inner next
  obtain ⟨lexeme, takes, shape, found⟩ := takes_of_same stands same given (by simp) fun here => by
    refine ⟨here.1, here.2.1, ?_⟩
    rcases settled with double | inner
    · exact here.2.2 double
    · exact isIntegral_scanNumber_append here.1 (closed inner).numberStop
  exact ⟨lexeme, takes, shape, found, parted_of_advance stands given (by rw [same]; rfl)⟩

/-- A list separator is taken if there is one ahead, and else nothing is. -/
theorem exists_separator (follow : Expected) {done : Unit} (stands : Stands expected text before)
    (less : follow ⊆ expected) (less' : follow ⊆ Follow.afterSeparator)
    (given : Gives takeSeparator before done after) :
    ∃ separator rest, Lexes (fun _ => true) text separator rest ∧ SeparatorSpelling separator ∧
      Stands follow rest after ∧ after.invalid = before.invalid ∧
        (separator = [] → rest = text ∧ after = before) := by
  rcases gives_takeSeparator.1 given with ⟨mem, found, given⟩ | ⟨-, rfl⟩
  · have marks : before.token.terminal = .mark .comma ∨ before.token.terminal = .mark .semicolon := by
      simpa [Follow.separator] using mem
    rcases marks with same | same
    · obtain ⟨lexeme, takes, isMark⟩ := takes_mark stands same given
      exact ⟨[lexeme], _, ⟨_, takes.here, rfl⟩, .comma isMark, takes.stands.mono less', takes.invalid,
        by simp⟩
    · obtain ⟨lexeme, takes, isMark⟩ := takes_mark stands same given
      exact ⟨[lexeme], _, ⟨_, takes.here, rfl⟩, .semicolon isMark, takes.stands.mono less',
        takes.invalid, by simp⟩
  · exact ⟨[], text, rfl, .absent, stands.mono less, rfl, fun _ => ⟨rfl, rfl⟩⟩

/-- An integer whose meaning nothing is said of has 64 bits. -/
theorem sound_int64 {value : Int} (given : Gives (int64 found) before value after)
    (stands : Stands expected text before) :
    value = signedValue found ∧ Stands expected text after ∧ after.token = before.token ∧
      (after.invalid = none → before.invalid = none ∧ admitsInteger found) := by
  obtain ⟨same, ⟨fits, rfl⟩ | ⟨-, rfl⟩⟩ := gives_int64.1 given
  · exact ⟨same, stands, rfl, fun none => ⟨none, fits⟩⟩
  · refine ⟨same, ?_, rfl, by simp⟩
    cases stands with
    | ending ends empty => exact .ending ends empty
    | token spelled stands left => exact .token spelled stands left

end Takes

end ThriftIdl.TokenReader
