import ThriftIdl.Proofs.Names
import ThriftIdl.Proofs.Text.Separated
import ThriftIdl.Proofs.Token.Steps

/-!
# Readers that pass lexemes

What is spelled is read over tokens wherever each lexeme is taken for what it is meant: a word for
a keyword or a name (`Opens`), and no two lexemes for parts of one word (`Loose`). Then the token
ahead is that of the first lexeme that is left (`Leads`), and a reader passes the lexemes of what it
reads (`Passes`). Nothing is said of what it gives, because the lexemes of a text spell one thing
only.
-/
namespace ThriftIdl

/-- The kind of token that a lexeme is where some terminals are expected. -/
def Lexeme.terminal (expected : Expected) (lexeme : Lexeme) : Terminal :=
  match lexeme.shape with
  | .word => wordTerminal expected.contains lexeme.text
  | .mark symbol => .mark symbol
  | .literal => .literal
  | .double => .double
  | .integer => .integer

/-- The next token where some terminals are expected is one of them. -/
def Opens (expected : Expected) (terminal : Terminal) : List Lexeme → Prop
  | [] => terminal = .ending
  | lexeme :: _ => lexeme.terminal expected = terminal ∧ terminal ∈ expected

/-- A token of a given kind is ahead, and it is that of the first of some lexemes. Nothing is said of
the meaning of what was before. -/
inductive Leads : Terminal → List Lexeme → Ahead → Prop where
  /-- No lexemes are left. -/
  | ending {ahead : Ahead} : ahead.token.terminal = .ending → ahead.invalid = none →
      Leads .ending [] ahead
  /-- The first of the lexemes is ahead, and the others after it are left. -/
  | token {lexeme : Lexeme} {others : List Lexeme} {rest : List Char} {ahead : Ahead} :
      ahead.token.terminal.shape = lexeme.shape → ahead.token.text = lexeme.text →
      ahead.token.left = lexeme.left →
      lexeme.shape.Before (fun _ => true) lexeme.text ahead.rest →
      Lexes (fun _ => true) ahead.rest others rest →
      skip rest = [] → (lexeme :: others).IsChain Loose → ahead.invalid = none →
      Leads ahead.token.terminal (lexeme :: others) ahead

/-- A reader gives something, and leaves some lexemes. -/
def Passes {α : Type} (reader : TokenReader α) (before : Ahead) (terminal : Terminal)
    (others : List Lexeme) : Prop :=
  ∃ value after, reader.Gives before value after ∧ Leads terminal others after

section Opening

variable {expected : Expected} {lexeme : Lexeme} {others : List Lexeme}

/-- A token has the shape of its lexeme. -/
theorem Lexeme.shape_terminal : (lexeme.terminal expected).shape = lexeme.shape := by
  rw [Lexeme.terminal]
  split
  next word =>
    rcases wordTerminal_cases expected.contains lexeme.text with ⟨_, same, -⟩ | ⟨same, -⟩ <;>
      rw [same, word] <;> rfl
  all_goals simp [Terminal.shape, *]

/-- A word that is expected as a keyword is one. -/
theorem opens_keyword (word : Keyword) (isWord : lexeme.IsWord word.text)
    (mem : .keyword word ∈ expected) : Opens expected (.keyword word) (lexeme :: others) := by
  refine ⟨?_, mem⟩
  rw [Lexeme.terminal, isWord.1, isWord.2]
  exact wordTerminal_eq_keyword (by simpa using mem)

/-- A word that is not expected as a keyword is a name. -/
theorem opens_name {name : String} (isWord : lexeme.IsWord name) (free : Free expected name)
    (mem : .identifier ∈ expected) : Opens expected .identifier (lexeme :: others) := by
  refine ⟨?_, mem⟩
  rw [Lexeme.terminal, isWord.1, isWord.2]
  refine wordTerminal_eq_identifier fun word mem same => free word (by simpa using mem) ?_
  exact String.toList_inj.1 same

/-- A mark that is expected is one. -/
theorem opens_mark {symbol : Mark} (isMark : lexeme.IsMark symbol)
    (mem : .mark symbol ∈ expected) : Opens expected (.mark symbol) (lexeme :: others) := by
  refine ⟨?_, mem⟩
  rw [Lexeme.terminal, isMark]

/-- A literal that is expected is one. -/
theorem opens_literal (shape : lexeme.shape = .literal) (mem : .literal ∈ expected) :
    Opens expected .literal (lexeme :: others) := by
  refine ⟨?_, mem⟩
  rw [Lexeme.terminal, shape]

/-- A number with a fraction or an exponent that is expected is one. -/
theorem opens_double (shape : lexeme.shape = .double) (mem : .double ∈ expected) :
    Opens expected .double (lexeme :: others) := by
  refine ⟨?_, mem⟩
  rw [Lexeme.terminal, shape]

/-- An integer that is expected is one. -/
theorem opens_integer (shape : lexeme.shape = .integer) (mem : .integer ∈ expected) :
    Opens expected .integer (lexeme :: others) := by
  refine ⟨?_, mem⟩
  rw [Lexeme.terminal, shape]

/-- The next token is expected, unless nothing is left. -/
theorem Opens.mem {terminal : Terminal} {lexemes : List Lexeme}
    (opens : Opens expected terminal lexemes) : terminal = .ending ∨ terminal ∈ expected := by
  cases lexemes with
  | nil => exact .inl opens
  | cons => exact .inr opens.2

/-- A terminal that is not expected is not that of the next token. -/
theorem Opens.ne {terminal other : Terminal} {lexemes : List Lexeme}
    (opens : Opens expected terminal lexemes) (missing : other ∉ expected)
    (some : other ≠ .ending) : terminal ≠ other := by
  rintro rfl
  rcases opens.mem with ending | mem
  · exact some ending
  · exact missing mem

/-- A lexeme stands where a token of its kind does. -/
theorem Shape.Before.terminal {rest : List Char}
    (before : lexeme.shape.Before (fun _ => true) lexeme.text rest) :
    (lexeme.terminal expected).Before expected lexeme.text rest := by
  rw [Lexeme.terminal]
  split
  next word =>
    rw [word] at before
    rcases wordTerminal_cases expected.contains lexeme.text with
      ⟨word, same, -, text⟩ | ⟨same, free⟩
    · rw [same]
      exact ⟨text, fun _ => before.2⟩
    · rw [same]
      exact ⟨before.1, before.2, fun word mem => free word (by simpa using mem)⟩
  next symbol mark =>
    rw [mark] at before
    exact before
  next literal =>
    rw [literal] at before
    exact before
  next double =>
    rw [double] at before
    exact before
  next integer =>
    rw [integer] at before
    exact ⟨before.1, before.2.1, fun _ => before.2.2⟩

end Opening

section Steps

variable {terminal next : Terminal} {follow : Expected} {lexeme : Lexeme}
  {lexemes others : List Lexeme} {before after : Ahead}

/-- The kind of token that is ahead. -/
theorem Leads.terminal_eq (leads : Leads terminal lexemes before) :
    before.token.terminal = terminal := by
  cases leads with
  | ending ending => exact ending
  | token => rfl

/-- Nothing is said of the meaning of what was before. -/
theorem Leads.invalid_eq (leads : Leads terminal lexemes before) : before.invalid = none := by
  cases leads with
  | ending _ invalid => exact invalid
  | token _ _ _ _ _ _ _ invalid => exact invalid

/-- There are no more lexemes than characters left, but for the one ahead. -/
theorem Leads.length_le (leads : Leads terminal lexemes before) :
    lexemes.length ≤ before.rest.length + 1 := by
  cases leads with
  | ending => simp
  | token _ _ _ _ lexes =>
    have enough := lexes.length_le
    simp only [List.length_cons]
    omega

/-- A token with the shape of a mark is the mark. -/
theorem Terminal.eq_mark {symbol : Mark} (shape : terminal.shape = .mark symbol) :
    terminal = .mark symbol := by
  cases terminal <;> simp_all [Terminal.shape]

/-- Tokens do not touch if they do not look like parts of one word. -/
theorem not_touching {token token' : Token} (apart : wordsTouch token token' = false) :
    ¬ touching token token' := by
  simp only [touching, apart]
  split <;> simp

/-- No mark looks like the beginning of a word, and only the star looks like the end of one. -/
theorem Mark.noWord (symbol : Mark) :
    startsWord symbol.char = false ∧ (symbol ≠ .star → endsWord symbol.char = false) := by
  cases symbol <;> decide

/-- A token does not touch one before it if their lexemes are loose without being apart. -/
theorem not_touching_of_loose {first second : Lexeme} {token token' : Token} {rest rest' : List Char}
    (shape : token.terminal.shape = first.shape) (text : token.text = first.text)
    (before : first.shape.Before (fun _ => true) first.text rest)
    (shape' : token'.terminal.shape = second.shape) (text' : token'.text = second.text)
    (before' : second.shape.Before (fun _ => true) second.text rest')
    (loose : Loose first second) (close : second.apart = false) : ¬ touching token token' := by
  refine not_touching ?_
  rcases loose with apart | ⟨symbol, mark⟩ | ⟨symbol, mark, noMore, noStar⟩
  · simp [apart] at close
  · rw [mark] at shape' before'
    have same : second.text = [symbol.char] := before'
    rw [wordsTouch, Terminal.eq_mark shape', text', same]
    simp [symbol.noWord]
  · rw [mark] at shape before
    have same : first.text = [symbol.char] := before
    rw [wordsTouch, Terminal.eq_mark shape, text, same]
    simp [symbol.noWord.2 noStar, noMore]

/-- The token ahead has the shape of its lexeme. -/
theorem Leads.shape_eq (leads : Leads terminal (lexeme :: others) before) :
    terminal.shape = lexeme.shape := by
  cases leads with
  | token shape => exact shape

/-- The token ahead is a mark if its lexeme is. -/
theorem Leads.eq_mark {symbol : Mark} (leads : Leads terminal (lexeme :: others) before)
    (isMark : lexeme.IsMark symbol) : terminal = .mark symbol :=
  Terminal.eq_mark (leads.shape_eq.trans isMark)

/-- Taking the token ahead leaves the lexemes after it. -/
theorem Leads.advance (leads : Leads terminal (lexeme :: others) before)
    (opens : Opens follow next others) :
    ∃ after, (TokenReader.advance follow).Gives before lexeme.text after ∧
      Leads next others after := by
  cases leads with
  | @token _ _ rest _ shape text left whole lexes ends chain invalid =>
    cases others with
    | nil =>
      obtain rfl : next = .ending := opens
      obtain rfl : rest = before.rest := lexes
      refine ⟨⟨⟨.ending, [], before.token.left⟩, [], none⟩, ?_, .ending rfl rfl⟩
      exact TokenReader.gives_advance.2
        ⟨text.symm, invalid.symm, nextToken_eq_ok_iff.2 (.inl ⟨ends, rfl, rfl⟩)⟩
    | cons second others =>
      obtain ⟨rfl, mem⟩ := opens
      obtain ⟨after, here, lexes⟩ := lexes
      obtain ⟨loose, chain⟩ := List.isChain_cons_cons.1 chain
      let ahead : Ahead := ⟨⟨second.terminal follow, second.text, second.left⟩, after, none⟩
      have leads : Leads ahead.token.terminal (second :: others) ahead :=
        .token Lexeme.shape_terminal rfl rfl here.before lexes ends chain rfl
      refine ⟨ahead, ?_, leads⟩
      refine TokenReader.gives_advance.2 ⟨text.symm, invalid.symm, nextToken_eq_ok_iff.2 (.inr
        ⟨mem, here.spelled, here.before.terminal, here.left, fun close token mem => ?_⟩)⟩
      obtain rfl : before.token = token := by simpa using mem
      exact not_touching_of_loose shape text whole Lexeme.shape_terminal rfl here.before loose
        (by rw [here.apart, close])

end Steps

section Passing

variable {α β : Type} {terminal next wanted : Terminal} {follow : Expected} {lexeme : Lexeme}
  {lexemes others : List Lexeme} {before : Ahead}

/-- A reader that gives something at once passes nothing. -/
theorem passes_pure {value : α} (leads : Leads terminal others before) :
    Passes (pure value) before terminal others :=
  ⟨value, before, TokenReader.gives_pure.2 ⟨rfl, rfl⟩, leads⟩

/-- Readers one after the other pass the lexemes of both. -/
theorem Passes.bind {first : TokenReader α} {second : α → TokenReader β} {middle : List Lexeme}
    (passes : Passes first before next middle)
    (passes' : ∀ value after, Leads next middle after →
      Passes (second value) after terminal others) :
    Passes (first >>= second) before terminal others := by
  obtain ⟨value, after, given, leads⟩ := passes
  obtain ⟨value', after', given', leads'⟩ := passes' value after leads
  exact ⟨value', after', TokenReader.gives_bind.2 ⟨value, after, given, given'⟩, leads'⟩

/-- What a reader gives is passed on. -/
theorem passes_bind_of_gives {first : TokenReader α} {second : α → TokenReader β} {value : α}
    {after : Ahead} (given : first.Gives before value after)
    (passes : Passes (second value) after terminal others) :
    Passes (first >>= second) before terminal others := by
  obtain ⟨value', after', given', leads⟩ := passes
  exact ⟨value', after', TokenReader.gives_bind.2 ⟨value, after, given, given'⟩, leads⟩

/-- What is done with what a reader gives passes nothing more. -/
theorem Passes.map {reader : TokenReader α} (change : α → β)
    (passes : Passes reader before terminal others) :
    Passes (change <$> reader) before terminal others := by
  obtain ⟨value, after, given, leads⟩ := passes
  exact ⟨_, after, TokenReader.gives_map.2 ⟨value, given, rfl⟩, leads⟩

/-- The kind of the token ahead decides. -/
theorem passes_next_bind {second : Terminal → TokenReader β} (leads : Leads wanted lexemes before)
    (passes : Passes (second wanted) before terminal others) :
    Passes (TokenReader.next >>= second) before terminal others := by
  obtain ⟨value, after, given, left⟩ := passes
  refine ⟨value, after, TokenReader.gives_bind.2 ⟨wanted, before, ?_, given⟩, left⟩
  exact TokenReader.gives_next.2 ⟨leads.terminal_eq.symm, rfl⟩

/-- The place of the token ahead is noted. -/
theorem passes_place_bind {second : Nat → TokenReader β}
    (passes : ∀ place, Passes (second place) before terminal others) :
    Passes (TokenReader.place >>= second) before terminal others := by
  obtain ⟨value, after, given, left⟩ := passes before.token.left
  refine ⟨value, after, TokenReader.gives_bind.2 ⟨_, before, ?_, given⟩, left⟩
  exact TokenReader.gives_place.2 ⟨rfl, rfl⟩

/-- What depends on the token ahead and what is left may be read. -/
theorem passes_get_bind {second : Ahead → TokenReader β}
    (passes : Passes (second before) before terminal others) :
    Passes (get >>= second) before terminal others := by
  obtain ⟨value, after, given, left⟩ := passes
  exact ⟨value, after, TokenReader.gives_get_bind.2 given, left⟩

/-- The token ahead is taken. -/
theorem passes_advance_bind {second : List Char → TokenReader β} {middle : List Lexeme}
    (leads : Leads wanted (lexeme :: middle) before) (opens : Opens follow next middle)
    (passes : ∀ after, Leads next middle after →
      Passes (second lexeme.text) after terminal others) :
    Passes (TokenReader.advance follow >>= second) before terminal others := by
  obtain ⟨after, given, leads⟩ := leads.advance opens
  obtain ⟨value, last, given', left⟩ := passes after leads
  exact ⟨value, last, TokenReader.gives_bind.2 ⟨_, after, given, given'⟩, left⟩

/-- The token ahead is taken if it is of the kind that is wanted. -/
theorem passes_take_bind {second : List Char → TokenReader β} {middle : List Lexeme}
    (leads : Leads wanted (lexeme :: middle) before) (opens : Opens follow next middle)
    (passes : ∀ after, Leads next middle after →
      Passes (second lexeme.text) after terminal others) :
    Passes (TokenReader.take wanted follow >>= second) before terminal others := by
  obtain ⟨after, given, left⟩ := leads.advance opens
  obtain ⟨value, last, given', left'⟩ := passes after left
  have taken := TokenReader.gives_take.2 ⟨leads.terminal_eq, given⟩
  exact ⟨value, last, TokenReader.gives_bind.2 ⟨_, after, taken, given'⟩, left'⟩

/-- A token of the wanted kind is taken, and that is said. -/
theorem passes_takes_bind {second : Bool → TokenReader β} {middle : List Lexeme}
    (leads : Leads wanted (lexeme :: middle) before) (opens : Opens follow next middle)
    (passes : ∀ after, Leads next middle after → Passes (second true) after terminal others) :
    Passes (TokenReader.takes wanted follow >>= second) before terminal others := by
  obtain ⟨after, given, left⟩ := leads.advance opens
  obtain ⟨value, last, given', left'⟩ := passes after left
  have taken := TokenReader.gives_takes.2 (.inl ⟨leads.terminal_eq, rfl, _, given⟩)
  exact ⟨value, last, TokenReader.gives_bind.2 ⟨_, after, taken, given'⟩, left'⟩

/-- A token of another kind is not taken, and that is said. -/
theorem passes_takes_bind_of_ne {second : Bool → TokenReader β}
    (leads : Leads next lexemes before) (other : next ≠ wanted)
    (passes : Passes (second false) before terminal others) :
    Passes (TokenReader.takes wanted follow >>= second) before terminal others := by
  obtain ⟨value, last, given, left⟩ := passes
  have missed : (TokenReader.takes wanted follow).Gives before false before :=
    TokenReader.gives_takes.2 (.inr ⟨leads.terminal_eq ▸ other, rfl, rfl⟩)
  exact ⟨value, last, TokenReader.gives_bind.2 ⟨_, before, missed, given⟩, left⟩

/-- A name is taken. -/
theorem passes_name (leads : Leads .identifier (lexeme :: others) before)
    (opens : Opens follow terminal others) :
    Passes (TokenReader.name follow) before terminal others :=
  passes_take_bind leads opens fun _ left => passes_pure left

/-- A name is taken, and is the text of its lexeme. -/
theorem passes_name_bind {second : String → TokenReader β} {middle : List Lexeme}
    (leads : Leads .identifier (lexeme :: middle) before) (opens : Opens follow next middle)
    (passes : ∀ after, Leads next middle after →
      Passes (second (String.ofList lexeme.text)) after terminal others) :
    Passes (TokenReader.name follow >>= second) before terminal others := by
  obtain ⟨after, given, left⟩ := leads.advance opens
  have taken := TokenReader.gives_take.2 ⟨leads.terminal_eq, given⟩
  have named : (TokenReader.name follow).Gives before (String.ofList lexeme.text) after :=
    TokenReader.gives_bind.2 ⟨_, after, taken, TokenReader.gives_pure.2 ⟨rfl, rfl⟩⟩
  exact passes_bind_of_gives named (passes after left)

/-- A literal is taken. -/
theorem passes_literal (leads : Leads .literal (lexeme :: others) before)
    (opens : Opens follow terminal others) :
    Passes (TokenReader.literal follow) before terminal others :=
  passes_take_bind leads opens fun _ left => passes_pure left

/-- An integer of 64 bits has a value. -/
theorem passes_int64 {text : List Char} (fits : admitsInteger text)
    (leads : Leads terminal others before) :
    Passes (TokenReader.int64 text) before terminal others :=
  ⟨_, before, TokenReader.gives_int64.2 ⟨rfl, .inl ⟨fits, rfl⟩⟩, leads⟩

end Passing

section Separators

variable {terminal next : Terminal} {separator others : List Lexeme} {before : Ahead}

/-- What is ahead of a list separator, or of what follows if there is none. -/
theorem exists_opens_separator (spelled : SeparatorSpelling separator) (next : Terminal) :
    ∃ terminal, (separator = [] → terminal = next) ∧
      ∀ ⦃follow others⦄, Follow.separator ⊆ follow → (separator = [] → Opens follow next others) →
        Opens follow terminal (separator ++ others) := by
  cases spelled with
  | absent => exact ⟨next, fun _ => rfl, fun _ _ _ opens => opens rfl⟩
  | comma isMark =>
    exact ⟨.mark .comma, fun none => absurd none (by simp),
      fun _ _ less _ => opens_mark isMark (less (by decide))⟩
  | semicolon isMark =>
    exact ⟨.mark .semicolon, fun none => absurd none (by simp),
      fun _ _ less _ => opens_mark isMark (less (by decide))⟩

/-- A list separator is taken if there is one. -/
theorem passes_takeSeparator (spelled : SeparatorSpelling separator)
    (leads : Leads terminal (separator ++ others) before)
    (absent : separator = [] → terminal = next)
    (opens : Opens Follow.afterSeparator next others) :
    Passes TokenReader.takeSeparator before next others := by
  refine passes_next_bind leads ?_
  cases spelled with
  | absent =>
    obtain rfl := absent rfl
    have comma : terminal ≠ .mark .comma := opens.ne (by decide) (by simp)
    have semicolon : terminal ≠ .mark .semicolon := opens.ne (by decide) (by simp)
    have none : Follow.separator.contains terminal = false := by
      simp [Follow.separator, comma, semicolon]
    rw [none]
    exact passes_pure leads
  | comma isMark =>
    obtain rfl := leads.eq_mark isMark
    exact passes_advance_bind leads opens fun _ left => passes_pure left
  | semicolon isMark =>
    obtain rfl := leads.eq_mark isMark
    exact passes_advance_bind leads opens fun _ left => passes_pure left

end Separators

section Items

open TokenReader

variable {α β : Type} {closing : Terminal} {item : TokenReader α} {opening : β → Terminal}
  {follows : List Expected} {spelling : List Lexeme → β → Prop} {lexemes others : List Lexeme}
  {values : List β} {before : Ahead} {bound : Nat}

/-- Items in a row are read in as many rounds, if each of them is passed wherever its first token is
ahead, and the tokens that the items begin with are what is expected after each item. -/
theorem exists_rounds (spelled : Sequence spelling lexemes values) (enough : lexemes.length ≤ bound)
    (each : ∀ ⦃first others value before terminal⦄, spelling first value → value ∈ values →
      first.length ≤ bound → Leads (opening value) (first ++ others) before →
      (∀ follow ∈ follows, Opens follow terminal others) → Passes item before terminal others)
    (opens : ∀ ⦃first others value⦄, spelling first value → value ∈ values.tail →
      ∀ follow ∈ follows, Opens follow (opening value) (first ++ others))
    (unlike : ∀ value ∈ values, opening value ≠ closing)
    (ends : ∀ follow ∈ follows, Opens follow closing others)
    (leads : Leads (values.head?.elim closing opening) (lexemes ++ others) before) :
    ∃ reads after, Rounds closing item before reads after ∧ reads.length = values.length ∧
      Leads closing others after := by
  induction spelled generalizing before with
  | nil => exact ⟨[], before, .done leads.terminal_eq, rfl, leads⟩
  | @cons first rest value values one more ih =>
    rw [List.append_assoc] at leads
    rw [List.length_append] at enough
    have rest_opens : ∀ follow ∈ follows,
        Opens follow (values.head?.elim closing opening) (rest ++ others) := by
      intro follow mem
      cases more with
      | nil => exact ends follow mem
      | cons one' _ =>
        rw [List.append_assoc]
        exact opens one' (by simp) follow mem
    obtain ⟨read, middle, given, left⟩ := each one (by simp) (by omega) leads rest_opens
    obtain ⟨reads, after, rounds, length, left'⟩ := ih (by omega)
      (fun _ _ _ _ _ one' mem => each one' (List.mem_cons_of_mem _ mem))
      (fun _ _ _ one' mem => opens one' (List.mem_of_mem_tail mem))
      (fun value mem => unlike value (List.mem_cons_of_mem _ mem)) left
    have other : before.token.terminal ≠ closing := by
      rw [leads.terminal_eq]
      exact unlike value (by simp)
    exact ⟨read :: reads, after, .more other given rounds, by simp [length], left'⟩

/-- Items in a row are no more than their lexemes, if each has some. -/
theorem Sequence.length_le (spelled : Sequence spelling lexemes values)
    (some : ∀ first value, spelling first value → first ≠ []) : values.length ≤ lexemes.length := by
  induction spelled with
  | nil => simp
  | cons one _ ih =>
    have length := List.length_pos_iff.2 (some _ _ one)
    simp only [List.length_cons, List.length_append]
    omega

/-- Items in a row are passed up to what closes them. -/
theorem passes_items (follows : List Expected) (spelled : Sequence spelling lexemes values)
    (some : ∀ first value, spelling first value → first ≠ [])
    (each : ∀ ⦃first others value before terminal⦄, spelling first value → value ∈ values →
      first.length ≤ lexemes.length → Leads (opening value) (first ++ others) before →
      (∀ follow ∈ follows, Opens follow terminal others) → Passes item before terminal others)
    (opens : ∀ ⦃first others value⦄, spelling first value → value ∈ values.tail →
      ∀ follow ∈ follows, Opens follow (opening value) (first ++ others))
    (unlike : ∀ value ∈ values, opening value ≠ closing)
    (ends : ∀ follow ∈ follows, Opens follow closing others)
    (leads : Leads (values.head?.elim closing opening) (lexemes ++ others) before) :
    Passes (items closing item) before closing others := by
  obtain ⟨reads, after, rounds, length, left⟩ :=
    exists_rounds spelled (Nat.le_refl _) each opens unlike ends leads
  have fewer := spelled.length_le some
  have enough := leads.length_le
  rw [List.length_append] at enough
  exact ⟨reads, after, gives_items.2 ⟨rounds, by omega⟩, left⟩

/-- What is ahead of items in a row is the first of them, or what closes them. -/
theorem Sequence.opens {expected : Expected} (spelled : Sequence spelling lexemes values)
    (first : ∀ ⦃first others value⦄, spelling first value → value ∈ values →
      Opens expected (opening value) (first ++ others))
    (ends : Opens expected closing others) :
    Opens expected (values.head?.elim closing opening) (lexemes ++ others) := by
  cases spelled with
  | nil => exact ends
  | cons one =>
    rw [List.append_assoc]
    exact first one (by simp)

end Items

end ThriftIdl
