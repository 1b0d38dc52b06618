import ThriftIdl.Proofs.Text.Lexeme

/-!
# Tokens in front of a text

A token is matched exactly where its terminal is expected and its characters stand
(`matchTerminal?_eq_some_iff`). Where no name is expected, a keyword may be matched off the front of
a word, and where no number with a fraction or an exponent is expected, an integer off the front of
one. The token after it then touches it, and is rejected (`closed_of_nextToken`).
-/
namespace ThriftIdl

open Text

/-- The shape of the characters of a token. -/
def Terminal.shape : Terminal → Shape
  | keyword _ | identifier | ending => .word
  | mark symbol => .mark symbol
  | literal => .literal
  | double => .double
  | integer => .integer

/-- Some characters in front of a rest are a token as a whole, where some terminals are expected. -/
def Terminal.Before (expected : Expected) (found rest : List Char) : Terminal → Prop
  | keyword word => found = word.text.toList ∧ (identifier ∈ expected → Closed rest)
  | mark symbol => found = [symbol.char]
  | identifier => IsName found ∧ Closed rest ∧
      ∀ word, keyword word ∈ expected → found ≠ word.text.toList
  | literal => IsLiteral found
  | double => ∃ number, scanNumber (fun _ => true) (found ++ rest) = (number, rest) ∧
      number.hasDigits ∧ number.isIntegral = false
  | integer => IsInteger found ∧ NoDigit rest ∧
      (double ∈ expected → (scanNumber (fun _ => true) (found ++ rest)).1.isIntegral)
  | ending => False

section Matching

variable {expects : Terminal → Bool} {expected : Expected} {terminal : Terminal}
  {text found rest : List Char}

/-- One terminal is matched exactly where it is expected and scanned. -/
theorem matchOne?_eq_some_iff {wanted : Terminal}
    {scan : List Char → Option (List Char × List Char)} :
    matchOne? expects wanted scan text = some (terminal, found, rest) ↔
      terminal = wanted ∧ expects wanted ∧ scan text = some (found, rest) := by
  simp only [matchOne?]
  split
  next holds =>
    simp only [Option.map_eq_some_iff, Prod.mk.injEq, Prod.exists, holds, true_and]
    constructor
    · rintro ⟨_, _, scanned, rfl, rfl, rfl⟩
      exact ⟨rfl, scanned⟩
    · rintro ⟨rfl, scanned⟩
      exact ⟨found, rest, scanned, rfl, rfl, rfl⟩
  next fails => simp [fails]

/-- A keyword is matched exactly where it is expected and a text begins with it. -/
theorem matchKeyword?_eq_some_iff {word : Keyword} :
    matchKeyword? expects text = some (word, rest) ↔
      expects (.keyword word) ∧ text = word.text.toList ++ rest := by
  have each : ∀ (other : Keyword) (after : Keyword × List Char),
      (if expects (.keyword other) then
          (after? other.text.toList text).map fun rest => (other, rest)
        else none) = some after ↔
        expects (.keyword other) ∧ after.1 = other ∧ text = other.text.toList ++ after.2 := by
    rintro other ⟨word, rest⟩
    split
    next holds =>
      simp only [Option.map_eq_some_iff, after?_eq_some_iff, Prod.mk.injEq, holds, true_and]
      constructor
      · rintro ⟨_, spelled, rfl, rfl⟩
        exact ⟨rfl, spelled⟩
      · rintro ⟨rfl, spelled⟩
        exact ⟨rest, spelled, rfl, rfl⟩
    next fails => simp [fails]
  constructor
  · intro matched
    obtain ⟨other, -, here⟩ := List.exists_of_findSome?_eq_some matched
    obtain ⟨expected, rfl, spelled⟩ := (each other _).1 here
    exact ⟨expected, spelled⟩
  · rintro ⟨expected, rfl⟩
    cases matched : matchKeyword? expects (word.text.toList ++ rest) with
    | none =>
      have here := List.findSome?_eq_none_iff.1 matched word word.mem_all
      rw [(each word (word, rest)).2 ⟨expected, rfl, rfl⟩] at here
      cases here
    | some after =>
      obtain ⟨other, -, here⟩ := List.exists_of_findSome?_eq_some matched
      obtain ⟨-, same, spelled⟩ := (each other after).1 here
      -- Of two keywords that begin one text, one begins the other.
      have prefixes := List.prefix_or_prefix_of_prefix
        (List.prefix_append word.text.toList rest) ⟨after.2, spelled.symm⟩
      obtain rfl : word = other := by
        rcases prefixes with begins | begins
        · exact Keyword.eq_of_isPrefix begins
        · exact (Keyword.eq_of_isPrefix begins).symm
      have rests : rest = after.2 := List.append_cancel_left spelled
      rw [rests, ← same]

/-- A word that is an expected keyword has its terminal. -/
theorem wordTerminal_eq_keyword {word : Keyword} (expected : expects (.keyword word)) :
    wordTerminal expects word.text.toList = .keyword word := by
  simp only [wordTerminal]
  split
  next other same =>
    have holds := List.find?_some same
    simp only [Bool.and_eq_true, decide_eq_true_eq, Keyword.text_inj] at holds
    rw [holds.2]
  next none =>
    have fails := List.find?_eq_none.1 none word word.mem_all
    simp [expected] at fails

/-- A word that is no expected keyword is a name. -/
theorem wordTerminal_eq_identifier {word : List Char}
    (other : ∀ keyword, expects (.keyword keyword) → word ≠ keyword.text.toList) :
    wordTerminal expects word = .identifier := by
  simp only [wordTerminal]
  split
  next keyword same =>
    have holds := List.find?_some same
    simp only [Bool.and_eq_true, decide_eq_true_eq] at holds
    exact absurd holds.2.symm (other keyword holds.1)
  next => rfl

/-- Where a name is expected, a word is a keyword that is expected or a name. -/
theorem wordTerminal_cases (expects : Terminal → Bool) (word : List Char) :
    (∃ keyword, wordTerminal expects word = .keyword keyword ∧ expects (.keyword keyword) ∧
      word = keyword.text.toList) ∨
    (wordTerminal expects word = .identifier ∧
      ∀ keyword, expects (.keyword keyword) → word ≠ keyword.text.toList) := by
  by_cases some : ∃ keyword, expects (.keyword keyword) ∧ word = keyword.text.toList
  · obtain ⟨keyword, expected, rfl⟩ := some
    exact .inl ⟨keyword, wordTerminal_eq_keyword expected, expected, rfl⟩
  · have other : ∀ keyword, expects (.keyword keyword) → word ≠ keyword.text.toList :=
      fun keyword expected same => some ⟨keyword, expected, same⟩
    exact .inr ⟨wordTerminal_eq_identifier other, other⟩

/-- A word is matched exactly where it stands as a keyword or a name that is expected. -/
theorem matchWord?_eq_some_iff :
    matchWord? expected.contains text = some (terminal, found, rest) ↔
      terminal ∈ expected ∧ text = found ++ rest ∧ terminal.Before expected found rest ∧
        terminal.shape = .word := by
  simp only [matchWord?, List.contains_eq_mem, decide_eq_true_eq]
  split
  next named =>
    simp only [Option.map_eq_some_iff, Prod.mk.injEq, Prod.exists, scanName?_eq_some_iff]
    constructor
    · rintro ⟨word, _, ⟨rfl, isName, closed⟩, rfl, rfl, rfl⟩
      rcases wordTerminal_cases expected.contains word with
        ⟨keyword, same, expected, spelled⟩ | ⟨same, other⟩
      · rw [same]
        exact ⟨by simpa using expected, rfl, ⟨spelled, fun _ => closed⟩, rfl⟩
      · rw [same]
        exact ⟨named, rfl, ⟨isName, closed, by simpa using other⟩, rfl⟩
    · rintro ⟨mem, rfl, before, shape⟩
      cases terminal with
      | keyword word =>
        obtain ⟨rfl, closed⟩ := before
        exact ⟨_, _, ⟨rfl, word.isName, closed named⟩, wordTerminal_eq_keyword (by simpa using mem),
          rfl, rfl⟩
      | identifier =>
        obtain ⟨isName, closed, other⟩ := before
        exact ⟨_, _, ⟨rfl, isName, closed⟩, wordTerminal_eq_identifier (by simpa using other), rfl,
          rfl⟩
      | ending => exact before.elim
      | mark | literal | double | integer => cases shape
  next unnamed =>
    simp only [Option.map_eq_some_iff, Prod.mk.injEq, Prod.exists, matchKeyword?_eq_some_iff,
      List.contains_eq_mem, decide_eq_true_eq]
    constructor
    · rintro ⟨word, _, ⟨mem, rfl⟩, rfl, rfl, rfl⟩
      exact ⟨mem, rfl, ⟨rfl, fun named => absurd named unnamed⟩, rfl⟩
    · rintro ⟨mem, rfl, before, shape⟩
      cases terminal with
      | keyword word =>
        obtain ⟨rfl, -⟩ := before
        exact ⟨word, _, ⟨mem, rfl⟩, rfl, rfl, rfl⟩
      | identifier => exact absurd mem unnamed
      | ending => exact before.elim
      | mark | literal | double | integer => cases shape

/-- A mark is matched exactly where it is expected and its character stands. -/
theorem matchMark?_eq_some_iff {symbol : Mark} :
    matchMark? expects text = some (symbol, rest) ↔
      expects (.mark symbol) ∧ text = symbol.char :: rest := by
  cases text with
  | nil => simp [matchMark?]
  | cons c text =>
    simp only [matchMark?, Option.map_eq_some_iff, Prod.mk.injEq, List.cons.injEq]
    constructor
    · rintro ⟨_, matched, rfl, rfl⟩
      have holds := List.find?_some matched
      simp only [Bool.and_eq_true, decide_eq_true_eq] at holds
      exact ⟨holds.1, holds.2.symm, rfl⟩
    · rintro ⟨expected, rfl, rfl⟩
      cases matched : Mark.all.find? fun other =>
          expects (.mark other) && other.char = symbol.char with
      | none =>
        have fails := List.find?_eq_none.1 matched symbol symbol.mem_all
        simp [expected] at fails
      | some other =>
        have holds := List.find?_some matched
        simp only [Bool.and_eq_true, decide_eq_true_eq, Mark.char_inj] at holds
        exact ⟨other, rfl, holds.2, rfl⟩

/-- A number with a fraction or an exponent is matched exactly where it stands. -/
theorem matchDouble?_eq_some_iff :
    matchDouble? text = some (found, rest) ↔
      text = found ++ rest ∧ Terminal.double.Before expected found rest := by
  simp only [matchDouble?]
  constructor
  · intro matched
    split at matched
    next double =>
      simp only [Option.some.injEq, Prod.mk.injEq] at matched
      obtain ⟨rfl, rfl⟩ := matched
      have parts := scanNumber_text (fun _ => true) text
      simp only [Bool.and_eq_true, Bool.not_eq_true'] at double
      refine ⟨parts.symm, (scanNumber (fun _ => true) text).1, ?_, double.1, double.2⟩
      rw [parts]
    next => cases matched
  · rintro ⟨rfl, number, scanned, digits, fractional⟩
    have parts := scanNumber_text (fun _ => true) (found ++ rest)
    rw [scanned] at parts
    obtain rfl : number.text = found := List.append_cancel_right parts
    simp [scanned, digits, fractional]

/-- A word is a name. -/
theorem Terminal.Before.isName (before : terminal.Before expected found rest)
    (isWord : terminal.shape = .word) : IsName found := by
  cases terminal with
  | keyword word =>
    obtain ⟨rfl, -⟩ := before
    exact word.isName
  | identifier => exact before.1
  | ending => exact before.elim
  | mark | literal | double | integer => cases isWord

/-- Where no number begins, none is matched. -/
theorem matchOne?_of_noNumber (noNumber : NoNumber text) :
    matchOne? expects .double matchDouble? text = none ∧
      matchOne? expects .integer scanInteger? text = none := by
  simp [matchOne?, matchDouble?, noNumber.hasDigits, noNumber.scanInteger?]

/-- Where a mark stands, no word is matched. -/
theorem matchWord?_mark (symbol : Mark) :
    matchWord? expected.contains (symbol.char :: rest) = none := by
  rw [Option.eq_none_iff_forall_not_mem]
  rintro ⟨terminal, found, after⟩ matched
  obtain ⟨-, spelled, before, word⟩ := matchWord?_eq_some_iff.1 matched
  obtain ⟨c, tail, rfl, first⟩ := (before.isName word).exists_cons
  simp only [List.cons_append, List.cons.injEq] at spelled
  obtain ⟨rfl, -⟩ := spelled
  obtain ⟨-, other, -, -, letter⟩ := symbol.noOther
  rcases first with first | first
  · exact letter first
  · simp [first] at other

/-- A token is matched exactly where its terminal is expected and its characters stand. -/
theorem matchTerminal?_eq_some_iff :
    matchTerminal? expected.contains text = some (terminal, found, rest) ↔
      terminal ∈ expected ∧ text = found ++ rest ∧ terminal.Before expected found rest := by
  simp only [matchTerminal?, Option.or_eq_some_iff]
  constructor
  · rintro (double | ⟨double, integer | ⟨-, literal | ⟨-, word | ⟨-, mark⟩⟩⟩⟩)
    · obtain ⟨rfl, mem, matched⟩ := matchOne?_eq_some_iff.1 double
      exact ⟨by simpa using mem, matchDouble?_eq_some_iff.1 matched⟩
    · obtain ⟨rfl, mem, scanned⟩ := matchOne?_eq_some_iff.1 integer
      obtain ⟨rfl, isInteger, stop⟩ := scanInteger?_eq_some_iff.1 scanned
      refine ⟨by simpa using mem, rfl, isInteger, stop, fun wanted => ?_⟩
      -- A number that was tried before and not taken has neither a fraction nor an exponent.
      have digits : (scanNumber (fun _ => true) (found ++ rest)).1.hasDigits :=
        hasDigits_scanNumber_of_scanInteger? _ (by rw [scanned]; rfl)
      simpa [matchOne?, matchDouble?, wanted, digits] using double
    · obtain ⟨rfl, mem, matched⟩ := matchOne?_eq_some_iff.1 literal
      exact ⟨by simpa using mem, matchLiteral?_eq_some_iff.1 matched⟩
    · obtain ⟨mem, spelled, before, -⟩ := matchWord?_eq_some_iff.1 word
      exact ⟨mem, spelled, before⟩
    · simp only [Option.map_eq_some_iff, Prod.mk.injEq, Prod.exists] at mark
      obtain ⟨symbol, _, matched, rfl, rfl, rfl⟩ := mark
      obtain ⟨mem, rfl⟩ := matchMark?_eq_some_iff.1 matched
      exact ⟨by simpa using mem, rfl, rfl⟩
  · rintro ⟨mem, rfl, before⟩
    have wanted : expected.contains terminal := by simpa using mem
    -- Nothing that comes before the terminal in the order of the alternatives stands there.
    cases terminal with
    | double =>
      exact .inl (matchOne?_eq_some_iff.2 ⟨rfl, wanted, matchDouble?_eq_some_iff.2 ⟨rfl, before⟩⟩)
    | integer =>
      obtain ⟨isInteger, stop, integral⟩ := before
      refine .inr ⟨?_, .inl (matchOne?_eq_some_iff.2
        ⟨rfl, wanted, scanInteger?_eq_some_iff.2 ⟨rfl, isInteger, stop⟩⟩)⟩
      simp only [matchOne?, List.contains_eq_mem, decide_eq_true_eq, matchDouble?]
      split
      next double => simp [integral double]
      next => rfl
    | literal =>
      have matched := matchLiteral?_eq_some_iff.2 ⟨(rfl : found ++ rest = _), before⟩
      obtain ⟨quote, value, rfl, _⟩ := before
      have other := quote.noOther
      have noNumber : NoNumber (quote.char :: (value ++ [quote.char]) ++ rest) := by
        simp_all [NoNumber]
      obtain ⟨double, integer⟩ := matchOne?_of_noNumber noNumber
      exact .inr ⟨double, .inr ⟨integer, .inl (matchOne?_eq_some_iff.2 ⟨rfl, wanted, matched⟩)⟩⟩
    | keyword | identifier =>
      obtain ⟨double, integer⟩ := matchOne?_of_noNumber (noNumber_of_isName (before.isName rfl))
      have literal : matchOne? expected.contains .literal matchLiteral? (found ++ rest) = none := by
        simp [matchOne?, matchLiteral?_of_isName (before.isName rfl)]
      have word := matchWord?_eq_some_iff.2 ⟨mem, rfl, before, rfl⟩
      exact .inr ⟨double, .inr ⟨integer, .inr ⟨literal, .inl word⟩⟩⟩
    | mark symbol =>
      obtain rfl : found = [symbol.char] := before
      obtain ⟨digit, other, single, quote, letter⟩ := symbol.noOther
      have noNumber : NoNumber ([symbol.char] ++ rest) := by
        simp_all [NoNumber]
      obtain ⟨double, integer⟩ := matchOne?_of_noNumber noNumber
      have literal : matchOne? expected.contains .literal matchLiteral? ([symbol.char] ++ rest) =
          none := by
        simp [matchOne?, matchLiteral?_cons_eq_none single quote]
      have marked := matchMark?_eq_some_iff.2 ⟨wanted, (rfl : symbol.char :: rest = _)⟩
      refine .inr ⟨double, .inr ⟨integer, .inr ⟨literal, .inr ⟨matchWord?_mark symbol, ?_⟩⟩⟩⟩
      simp [marked]
    | ending => exact before.elim

end Matching

section Neighbours

/-- Whether a token of a terminal needs something between it and a word after it. -/
def Terminal.binds : Terminal → Bool
  | keyword _ | identifier | literal | integer => true
  | mark symbol => symbol = .star
  | double | ending => false

/-- Whether a token of a terminal needs something between it and a word before it. -/
def Terminal.joins : Terminal → Bool
  | keyword word => !Keyword.definitions.contains word
  | identifier | literal => true
  | mark _ | double | integer | ending => false

variable {expected : Expected} {terminal : Terminal} {text found rest : List Char}

/-- What stands where more is expected stands where less is. -/
theorem Terminal.Before.mono {expected' : Expected} (stands : terminal.Before expected found rest)
    (less : expected' ⊆ expected) : terminal.Before expected' found rest := by
  cases terminal with
  | keyword word => exact ⟨stands.1, fun mem => stands.2 (less mem)⟩
  | identifier => exact ⟨stands.1, stands.2.1, fun word mem => stands.2.2 word (less mem)⟩
  | integer => exact ⟨stands.1, stands.2.1, fun mem => stands.2.2 (less mem)⟩
  | mark | literal | double | ending => exact stands

/-- A token has characters. -/
theorem Terminal.Before.ne_nil (before : terminal.Before expected found rest) : found ≠ [] := by
  cases terminal with
  | keyword | identifier =>
    obtain ⟨c, tail, rfl, -⟩ := (before.isName rfl).exists_cons
    simp
  | mark symbol =>
    obtain rfl : found = [symbol.char] := before
    simp
  | literal =>
    obtain ⟨quote, value, rfl, -⟩ := before
    simp
  | integer =>
    obtain ⟨sign, digits, rfl, -, some, -⟩ := before.1
    simp [some]
  | double =>
    have double : Shape.double.Before (fun _ => true) found rest := before
    exact double.ne_nil
  | ending => exact before.elim

/-- The last character of a token that binds ends a word. -/
theorem Terminal.Before.endsWord (before : terminal.Before expected found rest)
    (binds : terminal.binds) : found.getLast?.any endsWord := by
  have last : ∀ word : List Char, word ≠ [] → (∀ c ∈ word, continuesName c) →
      word.getLast?.any ThriftIdl.endsWord := by
    intro word some all
    rw [List.getLast?_eq_some_getLast some, Option.any_some]
    simp [ThriftIdl.endsWord, all _ (List.getLast_mem some)]
  cases terminal with
  | keyword | identifier => exact last found before.ne_nil (before.isName rfl).continued
  | literal =>
    obtain ⟨quote, value, rfl, -⟩ := before
    rw [← List.cons_append, List.getLast?_concat]
    cases quote <;> simp [ThriftIdl.endsWord]
  | integer =>
    obtain ⟨sign, digits, rfl, -, some, all⟩ := before.1
    rw [List.getLast?_append_of_ne_nil _ some]
    exact last digits some fun c mem => continuesName_of_isDigit (all c mem)
  | mark symbol =>
    obtain rfl : found = [symbol.char] := before
    obtain rfl : symbol = .star := of_decide_eq_true binds
    rfl
  | double | ending => cases binds

/-- The first character of a token that joins starts a word. -/
theorem Terminal.Before.startsWord (before : terminal.Before expected found rest)
    (joins : terminal.joins) : found.head?.any startsWord := by
  cases terminal with
  | keyword | identifier =>
    obtain ⟨c, tail, rfl, -⟩ := (before.isName rfl).exists_cons
    have continued := (before.isName rfl).continued c (by simp)
    simp [ThriftIdl.startsWord, continued]
  | literal =>
    obtain ⟨quote, value, rfl, -⟩ := before
    cases quote <;> simp [ThriftIdl.startsWord]
  | mark | double | integer | ending => cases joins

/-- Two tokens touch if the first ends a word and the second starts one, unless it is the keyword of
a definition. -/
theorem touching_of_words {previous next : Token} (plain : previous.terminal ≠ .mark .moreThan)
    (ends : previous.text.getLast?.any endsWord) (starts : next.text.head?.any startsWord)
    (inner : ∀ word ∈ Keyword.definitions, next.terminal ≠ .keyword word) :
    touching previous next := by
  have words : wordsTouch previous next := by simp [wordsTouch, plain, ends, starts]
  simp only [touching]
  split
  next word same =>
    have other : word ∉ Keyword.definitions := fun mem => inner word mem same
    simp [other, words]
  next => exact words

/-- A token that stands at the start of a text is the one that is matched there. -/
theorem eq_of_matchTerminal? {token : Token} {terminal : Terminal} {found after : List Char}
    (matched : matchTerminal? expected.contains text = some (terminal, found, after))
    (mem : token.terminal ∈ expected) (spelled : text = token.text ++ rest)
    (before : token.terminal.Before expected token.text rest) (left : token.left = text.length) :
    token = ⟨terminal, found, text.length⟩ ∧ rest = after := by
  have again := matchTerminal?_eq_some_iff.2 ⟨mem, spelled, before⟩
  rw [matched] at again
  simp only [Option.some.injEq, Prod.mk.injEq] at again
  obtain ⟨same, same', rfl⟩ := again
  obtain ⟨terminal', found', left'⟩ := token
  exact ⟨by simp_all, rfl⟩

/-- The next token is the end of the text or stands at its start, and it does not touch the token
before it. -/
theorem nextToken_eq_ok_iff {previous : Option Token} {total : Nat} {token : Token} :
    nextToken expected previous total text = .ok (token, rest) ↔
      (skip text = [] ∧ token = ⟨.ending, [], previous.elim total (·.left)⟩ ∧ rest = []) ∨
      (token.terminal ∈ expected ∧ skip text = token.text ++ rest ∧
        token.terminal.Before expected token.text rest ∧ token.left = (skip text).length ∧
        (hasGap text = false → ∀ before ∈ previous, ¬ touching before token)) := by
  -- Whether tokens touch is told from how much is left, which is the same where nothing is skipped.
  have gap : (skip text).length = text.length ↔ hasGap text = false := length_skip_eq_iff
  simp only [nextToken]
  cases start : skip text with
  | nil =>
    simp only [Except.ok.injEq, Prod.mk.injEq]
    constructor
    · rintro ⟨rfl, rfl⟩
      exact .inl ⟨trivial, rfl, rfl⟩
    · rintro (⟨-, rfl, rfl⟩ | ⟨-, spelled, before, -⟩)
      · exact ⟨rfl, rfl⟩
      · exact absurd (List.append_eq_nil_iff.1 spelled.symm).1 before.ne_nil
  | cons c tail =>
    rw [start] at gap
    simp only
    split
    next terminal found after matched =>
      obtain ⟨mem, spelled, before⟩ := matchTerminal?_eq_some_iff.1 matched
      have none : ¬ (c :: tail = [] ∧
          token = ⟨.ending, [], previous.elim total (·.left)⟩ ∧ rest = []) := by simp
      simp only [none, false_or]
      split
      next touches =>
        simp only [Bool.and_eq_true, decide_eq_true_eq, Option.any_eq_true] at touches
        obtain ⟨same, before', mem', touches⟩ := touches
        simp only [reduceCtorEq, false_iff]
        rintro ⟨mem, spelled, before, left, clear⟩
        obtain ⟨rfl, -⟩ := eq_of_matchTerminal? matched mem spelled before left
        exact clear (gap.1 same) before' mem' touches
      next clear =>
        simp only [Except.ok.injEq, Prod.mk.injEq]
        constructor
        · rintro ⟨rfl, rfl⟩
          refine ⟨mem, spelled, before, rfl, fun closed before' mem' touches => clear ?_⟩
          simp only [Bool.and_eq_true, decide_eq_true_eq, Option.any_eq_true]
          exact ⟨gap.2 closed, before', mem', touches⟩
        · rintro ⟨mem, spelled, before, left, -⟩
          obtain ⟨rfl, rfl⟩ := eq_of_matchTerminal? matched mem spelled before left
          exact ⟨rfl, rfl⟩
    next unmatched =>
      constructor
      · intro failed
        split at failed <;> cases failed
      · rintro (⟨none, -⟩ | ⟨mem, spelled, before, -⟩)
        · cases none
        · rw [matchTerminal?_eq_some_iff.2 ⟨mem, spelled, before⟩] at unmatched
          cases unmatched

/-- A character that continues a name opens nothing that can be skipped. -/
theorem afterSeparator?_of_continuesName {c : Char} {tail : List Char} (continued : continuesName c) :
    afterSeparator? (c :: tail) = none := by
  have blank : ¬ isBlank c := by
    intro blank
    simp only [isBlank, Bool.or_eq_true, decide_eq_true_eq] at blank
    rcases blank with ((rfl | rfl) | rfl) | rfl <;> revert continued <;> decide
  refine afterSeparator?_cons_eq_none blank ?_ ?_ <;> (rintro rfl; revert continued; decide)

variable {previous token : Token} {total : Nat}

/-- Something stands between a token that binds and a token that joins. -/
theorem hasGap_of_nextToken {earlier : Expected} {after : List Char}
    (stands : previous.terminal.Before earlier previous.text after) (binds : previous.terminal.binds)
    (next : nextToken expected (some previous) total text = .ok (token, rest))
    (joins : token.terminal.joins) : hasGap text := by
  rcases nextToken_eq_ok_iff.1 next with ⟨-, rfl, -⟩ | ⟨-, -, before, -, clear⟩
  · cases joins
  · by_contra closed
    refine clear (by simpa using closed) previous rfl ?_
    refine touching_of_words ?_ (stands.endsWord binds) (before.startsWord joins) ?_
    · intro same
      rw [same] at binds
      cases binds
    · intro word mem same
      rw [same] at joins
      simp [Terminal.joins, mem] at joins

/-- Something stands between the bracket that closes a type and a name. -/
theorem hasGap_of_nextToken_moreThan (closing : previous.terminal = .mark .moreThan)
    (next : nextToken expected (some previous) total text = .ok (token, rest))
    (name : token.terminal = .identifier) : hasGap text := by
  rcases nextToken_eq_ok_iff.1 next with ⟨-, rfl, -⟩ | ⟨-, -, -, -, clear⟩
  · cases name
  · by_contra closed
    refine clear (by simpa using closed) previous rfl ?_
    simp [touching, wordsTouch, closing, name]

/-- A token that binds ends where no name goes on, unless the keyword of a definition may follow. -/
theorem closed_of_nextToken {earlier : Expected} {after : List Char}
    (stands : previous.terminal.Before earlier previous.text after) (binds : previous.terminal.binds)
    (inner : ∀ word ∈ Keyword.definitions, .keyword word ∉ expected)
    (next : nextToken expected (some previous) total text = .ok (token, rest)) : Closed text := by
  intro c mem continued
  obtain ⟨tail, rfl⟩ : ∃ tail, text = c :: tail := by
    cases text with
    | nil => cases mem
    | cons d tail => exact ⟨tail, by simpa using mem⟩
  have nothing : afterSeparator? (c :: tail) = none :=
    afterSeparator?_of_continuesName continued
  rcases nextToken_eq_ok_iff.1 next with ⟨ends, -⟩ | ⟨mem, spelled, before, -, clear⟩
  · rw [skip_of_none nothing] at ends
    cases ends
  · refine clear (by simp [hasGap, nothing]) previous rfl ?_
    obtain ⟨d, found, text⟩ := List.exists_cons_of_ne_nil before.ne_nil
    rw [skip_of_none nothing, text] at spelled
    simp only [List.cons_append, List.cons.injEq] at spelled
    obtain ⟨rfl, -⟩ := spelled
    refine touching_of_words ?_ (stands.endsWord binds) ?_ ?_
    · intro same
      rw [same] at binds
      cases binds
    · simp [text, startsWord, continued]
    · intro word isDefinition same
      rw [same] at mem
      exact inner word isDefinition mem

end Neighbours

end ThriftIdl
