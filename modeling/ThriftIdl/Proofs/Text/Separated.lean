import ThriftIdl.Proofs.Text.Lexeme

/-!
# Separated tokens

A filler consists of blanks and complete comments, of which a comment to the end of a line is closed
by the line end. A text is separated if it consists of tokens with fillers between them that are not
empty. Its lexemes are its tokens (`Separated.exists_lexes`), all but the first apart from what is
before them, so that no two of them are taken for parts of one word (`isChain_loose_of_apart`).
-/
namespace ThriftIdl

open Text

/-- Blanks and complete comments. -/
inductive Filler : List Char → Prop where
  /-- Nothing. -/
  | nil : Filler []
  /-- A blank. -/
  | blank {c : Char} {rest : List Char} : isBlank c → Filler rest → Filler (c :: rest)
  /-- A comment after two slashes, with the line end. -/
  | slashes {comment rest : List Char} : '\n' ∉ comment → Filler rest →
      Filler ('/' :: '/' :: (comment ++ '\n' :: rest))
  /-- A comment after a hash, with the line end. -/
  | hash {comment rest : List Char} : '\n' ∉ comment → Filler rest →
      Filler ('#' :: (comment ++ '\n' :: rest))
  /-- A comment between its marks. -/
  | block {comment rest : List Char} : ¬ ['*', '/'] <:+: comment → Filler rest →
      Filler ('/' :: '*' :: (comment ++ '*' :: '/' :: rest))

section Fillers

variable {gap comment text : List Char}

/-- A text is split at the first end of a block comment. -/
theorem splitAt?_commentEnd (clear : ¬ ['*', '/'] <:+: comment) (rest : List Char) :
    splitAt? ['*', '/'] (comment ++ '*' :: '/' :: rest) = some (comment, rest) := by
  induction comment with
  | nil => rfl
  | cons c comment ih =>
    have inner : ¬ ['*', '/'] <:+: comment := fun within =>
      clear (within.trans (List.suffix_cons c comment).isInfix)
    have here : after? ['*', '/'] (c :: (comment ++ '*' :: '/' :: rest)) = none := by
      cases found : after? ['*', '/'] (c :: (comment ++ '*' :: '/' :: rest)) with
      | none => rfl
      | some left =>
        have begins := after?_eq_some_iff.1 found
        cases comment with
        | nil => simp at begins
        | cons d comment =>
          simp only [List.cons_append, List.nil_append, List.cons.injEq] at begins
          obtain ⟨rfl, rfl, -⟩ := begins
          have starts : ['*', '/'] <+: '*' :: '/' :: comment := by simp
          exact absurd starts.isInfix clear
    rw [List.cons_append, splitAt?, here]
    simp only [ih inner]
    rfl

/-- A comment to the end of the line ends before the line end. -/
theorem dropWhile_comment (clear : '\n' ∉ comment) (rest : List Char) :
    (comment ++ '\n' :: rest).dropWhile (· ≠ '\n') = '\n' :: rest := by
  rw [List.dropWhile_append_of_pos]
  · simp
  · intro c mem
    simpa using ne_of_mem_of_not_mem mem clear

/-- What follows a comment to the end of the line begins with the line end. -/
theorem afterSeparator?_lineComment {c : Char} {tail rest : List Char} (blank : isBlank c = false)
    (starts : afterLineMark? (c :: tail) = some (comment ++ '\n' :: rest)) (clear : '\n' ∉ comment) :
    afterSeparator? (c :: tail) = some ('\n' :: rest) := by
  simp only [afterSeparator?, blank, scanComment?, starts, dropWhile_comment clear rest]
  rfl

/-- What follows the first blank or comment of a filler is a filler with the text after it. -/
theorem Filler.afterSeparator? (filler : Filler gap) (some : gap ≠ []) (text : List Char) :
    ∃ rest, Filler rest ∧ ThriftIdl.afterSeparator? (gap ++ text) = .some (rest ++ text) ∧
      rest.length < gap.length := by
  cases filler with
  | nil => exact absurd rfl some
  | @blank c rest blank filler =>
    exact ⟨rest, filler, by simp [ThriftIdl.afterSeparator?, blank], by simp⟩
  | @slashes comment rest clear filler =>
    refine ⟨'\n' :: rest, .blank (by decide) filler, ?_, ?_⟩
    · exact afterSeparator?_lineComment (by decide) (by simp [afterLineMark?, after?]) clear
    · simp only [List.length_append, List.length_cons]
      omega
  | @hash comment rest clear filler =>
    refine ⟨'\n' :: rest, .blank (by decide) filler, ?_, ?_⟩
    · exact afterSeparator?_lineComment (by decide) (by simp [afterLineMark?, after?]) clear
    · simp only [List.length_append, List.length_cons]
      omega
  | @block comment rest clear filler =>
    have split := splitAt?_commentEnd clear (rest ++ text)
    refine ⟨rest, filler, ?_, by simp only [List.length_append, List.length_cons]; omega⟩
    simp [ThriftIdl.afterSeparator?, isBlank, scanComment?, afterLineMark?, after?, split]

/-- A filler is skipped. -/
theorem Filler.skip (filler : Filler gap) (text : List Char) :
    ThriftIdl.skip (gap ++ text) = ThriftIdl.skip text := by
  induction size : gap.length using Nat.strong_induction_on generalizing gap with
  | _ size ih =>
    by_cases none : gap = []
    · rw [none, List.nil_append]
    · obtain ⟨rest, filler, found, shorter⟩ := filler.afterSeparator? none text
      rw [skip_of_some found, ih rest.length (size ▸ shorter) filler rfl]

/-- A filler that is not empty is a gap. -/
theorem Filler.hasGap (filler : Filler gap) (some : gap ≠ []) (text : List Char) :
    ThriftIdl.hasGap (gap ++ text) = true := by
  obtain ⟨rest, -, found, -⟩ := filler.afterSeparator? some text
  simp [ThriftIdl.hasGap, found]

/-- A filler closes a word. -/
theorem Filler.closed (filler : Filler gap) (some : gap ≠ []) (text : List Char) :
    Closed (gap ++ text) := by
  cases filler with
  | nil => exact absurd rfl some
  | blank blank _ =>
    simp only [List.cons_append, closed_cons]
    simp only [isBlank, Bool.or_eq_true, decide_eq_true_eq] at blank
    rcases blank with ((rfl | rfl) | rfl) | rfl <;> decide
  | slashes | hash | block => simp only [List.cons_append, closed_cons]; decide

/-- One filler after another is a filler. -/
theorem Filler.append {gap' : List Char} (filler : Filler gap) (filler' : Filler gap') :
    Filler (gap ++ gap') := by
  induction filler with
  | nil => exact filler'
  | blank blank _ ih => exact .blank blank ih
  | slashes clear _ ih => simpa using Filler.slashes clear ih
  | hash clear _ ih => simpa using Filler.hash clear ih
  | block clear _ ih => simpa using Filler.block clear ih

end Fillers

/-- Some characters are a token of a given shape as a whole. The exponent of a number is one that is
admitted. -/
def Shape.Whole (admits : List Char → Bool) (token : List Char) : Shape → Prop
  | word => IsName token
  | mark symbol => token = [symbol.char]
  | literal => IsLiteral token
  | double => ∃ number : Number, number.WellFormed ∧ number.hasDigits ∧ number.isIntegral = false ∧
      number.Admitted admits ∧ token = number.text
  | integer => IsInteger token

/-- A token is a lexeme where no word goes on after it. -/
theorem Shape.Whole.before {admits : List Char → Bool} {token rest : List Char} {shape : Shape}
    (whole : shape.Whole admits token) (closed : Closed rest) : shape.Before admits token rest := by
  cases shape with
  | word => exact ⟨whole, closed⟩
  | mark | literal => exact whole
  | double =>
    obtain ⟨number, formed, digits, fractional, admitted, rfl⟩ := whole
    exact ⟨number, scanNumber_append admits formed digits admitted closed.numberStop, digits,
      fractional⟩
  | integer =>
    exact ⟨whole, closed.numberStop.noDigit, isIntegral_scanNumber_append whole closed.numberStop⟩

/-- A lexeme is a token. -/
theorem Shape.Before.whole {admits : List Char → Bool} {token rest : List Char} {shape : Shape}
    (before : shape.Before admits token rest) : shape.Whole admits token := by
  cases shape with
  | word => exact before.1
  | mark | literal => exact before
  | double =>
    obtain ⟨number, scanned, digits, fractional⟩ := before
    have formed := wellFormed_scanNumber admits (token ++ rest)
    have text := scanNumber_text admits (token ++ rest)
    rw [scanned] at formed text
    exact ⟨number, formed.1, digits, fractional, formed.2, (List.append_cancel_right text).symm⟩
  | integer => exact before.1

/-- A lexeme stands after a filler. -/
theorem at_of_filler {admits : List Char → Bool} {shape : Shape} {gap token rest : List Char}
    (filler : Filler gap) (before : shape.Before admits token rest) :
    (⟨shape, token, (token ++ rest).length, !gap.isEmpty⟩ : Lexeme).At admits
      (gap ++ (token ++ rest)) rest := by
  have start := before.skip
  have skipped : skip (gap ++ (token ++ rest)) = token ++ rest := (filler.skip _).trans start
  refine ⟨skipped, before, congrArg List.length skipped.symm, ?_⟩
  cases gap with
  | nil =>
    have stop := skip_eq_self_iff.1 start
    simp [hasGap, stop]
  | cons c gap => exact (filler.hasGap (by simp) _).symm

/-- A word, a mark, a literal or a number. -/
def IsToken (admits : List Char → Bool) (token : List Char) : Prop := ∃ shape : Shape, shape.Whole admits token

/-- Tokens, each after a filler that is not empty, and a filler after the last. -/
inductive Spaced : List (List Char) → List Char → Prop where
  /-- Nothing but a filler is left. -/
  | nil {gap : List Char} : Filler gap → Spaced [] gap
  /-- A token after a filler, and others after it. -/
  | cons {gap token rest : List Char} {tokens : List (List Char)} : Filler gap → gap ≠ [] →
      Spaced tokens rest → Spaced (token :: tokens) (gap ++ (token ++ rest))

/-- Tokens with fillers between them that are not empty, and perhaps fillers around them. -/
inductive Separated : List (List Char) → List Char → Prop where
  /-- There are no tokens. -/
  | nil {gap : List Char} : Filler gap → Separated [] gap
  /-- A token and others after it. -/
  | cons {gap token rest : List Char} {tokens : List (List Char)} : Filler gap →
      Spaced tokens rest → Separated (token :: tokens) (gap ++ (token ++ rest))

section Lexing

variable {admits : List Char → Bool} {tokens : List (List Char)} {text : List Char}

/-- A token stays one if more exponents are admitted. -/
theorem Shape.Whole.mono {admits' : List Char → Bool} {token : List Char} {shape : Shape}
    (whole : shape.Whole admits token) (more : ∀ n, admits n → admits' n) :
    shape.Whole admits' token := by
  cases shape with
  | word | mark | literal | integer => exact whole
  | double =>
    obtain ⟨number, formed, digits, fractional, admitted, rfl⟩ := whole
    exact ⟨number, formed, digits, fractional, fun power mem => more _ (admitted power mem), rfl⟩

/-- A token can be converted if its exponent is one of those that can. -/
theorem Shape.Whole.converts {lexeme : Lexeme} (whole : lexeme.shape.Whole admits lexeme.text)
    (few : ∀ exponent, admits exponent → isConvertible exponent) : lexeme.converts := by
  by_cases shape : lexeme.shape = .double
  · rw [shape] at whole
    obtain ⟨number, formed, digits, -, admitted, text⟩ := whole
    have scanned :=
      scanNumber_append (fun _ => true) formed digits (fun _ _ => rfl) numberStop_nil
    rw [List.append_nil, ← text] at scanned
    rw [Lexeme.converts_iff shape, scanned, Number.scale]
    cases exponent : number.exponent with
    | none => rfl
    | some power => exact few _ (admitted power exponent)
  · simp [Lexeme.converts, shape]

/-- Some lexemes are those of a text, whether only these exponents are admitted or more. -/
def AllLexes (admits : List Char → Bool) (text : List Char) (lexemes : List Lexeme) (rest : List Char) :
    Prop :=
  ∀ ⦃admits' : List Char → Bool⦄, (∀ n, admits n → admits' n) → Lexes admits' text lexemes rest

/-- Spaced tokens close a word before them. -/
theorem Spaced.closed (spaced : Spaced tokens text) : Closed text := by
  cases spaced with
  | nil filler =>
    by_cases none : text = []
    · rw [none]
      exact closed_nil
    · simpa using filler.closed none []
  | cons filler some _ => exact filler.closed some _

/-- A token after a filler is a lexeme. -/
theorem exists_at_of_isToken {gap token rest : List Char} (filler : Filler gap)
    (isToken : IsToken admits token) (closed : Closed rest) :
    ∃ lexeme : Lexeme, (∀ ⦃admits' : List Char → Bool⦄, (∀ n, admits n → admits' n) →
      lexeme.At admits' (gap ++ (token ++ rest)) rest) ∧ lexeme.text = token ∧
        lexeme.shape.Whole admits lexeme.text ∧ (gap ≠ [] → lexeme.apart) := by
  obtain ⟨shape, whole⟩ := isToken
  exact ⟨_, fun _ more => at_of_filler filler ((whole.mono more).before closed), rfl, whole, by simp⟩

/-- Spaced tokens are the lexemes of their text, all apart. -/
theorem Spaced.exists_lexes (spaced : Spaced tokens text)
    (each : ∀ token ∈ tokens, IsToken admits token) :
    ∃ lexemes rest, AllLexes admits text lexemes rest ∧ skip rest = [] ∧
      lexemes.map Lexeme.text = tokens ∧
        (∀ lexeme ∈ lexemes, lexeme.shape.Whole admits lexeme.text) ∧
          ∀ lexeme ∈ lexemes, lexeme.apart := by
  induction spaced with
  | @nil gap filler =>
    have ends : skip gap = [] := by simpa [skip, skipWithin] using filler.skip []
    exact ⟨[], gap, fun _ _ => rfl, ends, rfl, by simp, by simp⟩
  | cons filler some spaced ih =>
    obtain ⟨isToken, each⟩ := List.forall_mem_cons.1 each
    obtain ⟨lexemes, rest, lexes, ends, texts, wholes, apart⟩ := ih each
    obtain ⟨lexeme, here, text, whole, apart'⟩ := exists_at_of_isToken filler isToken spaced.closed
    exact ⟨lexeme :: lexemes, rest, fun _ more => ⟨_, here more, lexes more⟩, ends,
      by simp [text, texts], List.forall_mem_cons.2 ⟨whole, wholes⟩,
      List.forall_mem_cons.2 ⟨apart' some, apart⟩⟩

/-- Separated tokens are the lexemes of their text, all but the first apart. -/
theorem Separated.exists_lexes (separated : Separated tokens text)
    (each : ∀ token ∈ tokens, IsToken admits token) :
    ∃ lexemes rest, AllLexes admits text lexemes rest ∧ skip rest = [] ∧
      lexemes.map Lexeme.text = tokens ∧
        (∀ lexeme ∈ lexemes, lexeme.shape.Whole admits lexeme.text) ∧
          ∀ lexeme ∈ lexemes.tail, lexeme.apart := by
  cases separated with
  | nil filler =>
    obtain ⟨lexemes, rest, lexes, ends, texts, wholes, apart⟩ := (Spaced.nil filler).exists_lexes each
    exact ⟨lexemes, rest, lexes, ends, texts, wholes,
      fun lexeme mem => apart lexeme (List.mem_of_mem_tail mem)⟩
  | cons filler spaced =>
    obtain ⟨isToken, each⟩ := List.forall_mem_cons.1 each
    obtain ⟨lexemes, rest, lexes, ends, texts, wholes, apart⟩ := spaced.exists_lexes each
    obtain ⟨lexeme, here, text, whole, -⟩ := exists_at_of_isToken filler isToken spaced.closed
    exact ⟨lexeme :: lexemes, rest, fun _ more => ⟨_, here more, lexes more⟩, ends,
      by simp [text, texts], List.forall_mem_cons.2 ⟨whole, wholes⟩, apart⟩

end Lexing

section Looseness

/-- Two lexemes are not taken for parts of one word, whatever is expected. -/
def Loose (first second : Lexeme) : Prop :=
  second.apart ∨ (∃ symbol, second.shape = .mark symbol) ∨
    ∃ symbol, first.shape = .mark symbol ∧ symbol ≠ .moreThan ∧ symbol ≠ .star

/-- Lexemes of which all but the first are apart are loose. -/
theorem isChain_loose_of_apart {lexemes : List Lexeme}
    (apart : ∀ lexeme ∈ lexemes.tail, lexeme.apart) :
    lexemes.IsChain Loose := by
  induction lexemes with
  | nil => exact .nil
  | cons first others ih =>
    cases others with
    | nil => exact .singleton first
    | cons second others =>
      obtain ⟨here, more⟩ := List.forall_mem_cons.1 apart
      exact .cons_cons (.inl here) (ih more)

/-- A lexeme where a mark stands is that mark. -/
theorem Lexeme.At.eq_mark {admits : List Char → Bool} {gap rest after : List Char} {symbol : Mark}
    {lexeme : Lexeme} (filler : Filler gap)
    (here : lexeme.At admits (gap ++ (symbol.char :: rest)) after) :
    lexeme.shape = .mark symbol ∧ after = rest := by
  have mark : Shape.Before admits [symbol.char] rest (.mark symbol) := rfl
  obtain ⟨rfl, rfl⟩ := here.unique (at_of_filler filler mark)
  exact ⟨rfl, rfl⟩

end Looseness

end ThriftIdl
