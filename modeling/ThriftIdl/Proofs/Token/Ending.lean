import ThriftIdl.Proofs.Token.Following

/-!
# The first token of another text

Where a reader of tokens takes the last token of a text, and a definition may follow that token, the
first token of the text on the next line is ahead then (`Ends`). All productions that end a definition
are such readers, so that the definitions of one text and those of another are read one after the
other (`rounds_joined`).
-/
namespace ThriftIdl.TokenReader

open Text

variable {second : List Char}

section Ending

/-- What is ahead at the end of a text, and what is ahead there if another text follows: the first
token of that text. -/
structure Arrives (second : List Char) (after after' : Ahead) : Prop where
  /-- Nothing is left of the one text. -/
  ending : after.token.terminal = .ending
  /-- The same is said of the meaning. -/
  invalid : after'.invalid = after.invalid
  /-- There is no token, or the first token is ahead. -/
  first : (skip second = [] ∧ after'.token.terminal = .ending) ∨
    (after'.token.terminal ∈ Follow.definition ∧
      nextToken Follow.definition none second.length second = .ok (after'.token, after'.rest))

/-- Reading a text over tokens can begin, and the keyword that begins it is not the beginning of a
longer word. -/
def Begins (second : List Char) : Prop :=
  ∃ token rest, nextToken Follow.definition none second.length second = .ok (token, rest) ∧
    (token.terminal ≠ .ending → Closed rest)

variable (second) in
/-- The second reader has the first token of the other text ahead where the first one has reached the
end of its text. -/
def Ends {α β : Type} (change : α → β) (reader : TokenReader α) (reader' : TokenReader β) : Prop :=
  ∀ ⦃before value after⦄, Gives reader before value after → before.Sound →
    before.token.terminal ≠ .ending → after.token.terminal = .ending →
      ∃ after', Gives reader' (before.joined second) (change value) after' ∧
        Arrives second after after'

variable (second) in
/-- The second reader stays at the first token of the other text where the first one stays at the end
of its text. -/
def Stays {α β : Type} (change : α → β) (reader : TokenReader α) (reader' : TokenReader β) : Prop :=
  ∀ ⦃before value after before'⦄, Gives reader before value after → Arrives second before before' →
    ∃ after', Gives reader' before' (change value) after' ∧ Arrives second after after'

/-- A reader that cannot read anything at the end of a text. -/
def Needs {α : Type} (reader : TokenReader α) : Prop :=
  ∀ ⦃before value after⦄, Gives reader before value after → before.Sound →
    before.token.terminal ≠ .ending

variable {α β γ δ : Type} {change : α → β} {change' : γ → δ} {follow : Expected}
  {terminal : Terminal} {first : TokenReader α} {first' : TokenReader β} {next : α → TokenReader γ}
  {next' : β → TokenReader δ}

/-- A row needs a token if its first part does. -/
theorem Needs.bind (needs : Needs first) : Needs (first >>= next) := by
  intro before value after gives sound
  obtain ⟨middle, ahead, gives, -⟩ := gives_bind.1 gives
  exact needs gives sound

/-- A row needs a token if what comes second does. -/
theorem Needs.after (follows : Follows second change first first') (needs : ∀ value, Needs (next value)) :
    Needs (first >>= next) := by
  intro before value after gives sound
  obtain ⟨middle, ahead, opens, closes⟩ := gives_bind.1 gives
  obtain ⟨soundAhead, goes⟩ := follows opens sound
  exact (goes (needs middle closes soundAhead)).1

/-- A token that is taken is needed, unless it is the end. -/
theorem needs_take (inside : terminal ≠ .ending) : Needs (take terminal follow) := by
  intro before value after gives _
  rw [(gives_take.1 gives).1]
  exact inside

/-- A name is needed where it is read. -/
theorem needs_name : Needs (name follow) := (needs_take (by decide)).bind

/-- A literal is needed where it is read. -/
theorem needs_literal : Needs (literal follow) := (needs_take (by decide)).bind

/-- The braces of a body are needed. -/
theorem needs_body {item : TokenReader α} {start : Expected} : Needs (body start item) :=
  (needs_take (by decide)).bind

/-- A constant is needed where it is read. -/
theorem needs_constant : Needs constant := by
  intro before value after gives _ ending
  rw [constant, gives_get_bind, constantWithin, constantOf, gives_bind] at gives
  obtain ⟨found, ahead, gives, gives'⟩ := gives
  obtain ⟨rfl, rfl⟩ := gives_next.1 gives
  rw [ending] at gives'
  exact not_gives_reject gives'

/-- A type is needed where it is read, whatever is inside. -/
theorem needs_typeOf {named : Bool} {inner : TokenReader FieldType} : Needs (typeOf named inner) := by
  intro before value after gives _ ending
  rw [typeOf, gives_bind] at gives
  obtain ⟨found, ahead, gives, gives'⟩ := gives
  obtain ⟨rfl, rfl⟩ := gives_next.1 gives
  rw [ending] at gives'
  exact not_gives_reject gives'

/-- A type is needed where it is read. -/
theorem needs_type : Needs type :=
  fun _ _ _ gives => needs_typeOf (gives_get_bind.1 gives)

/-- A type that may get a second name is needed where it is read. -/
theorem needs_definitionType : Needs definitionType :=
  fun _ _ _ gives => needs_typeOf (gives_get_bind.1 gives)

/-- Giving a value stays at the first token of the other text. -/
theorem Stays.pure {value : α} : Stays second change (Pure.pure value) (Pure.pure (change value)) := by
  intro before given after before' gives arrives
  obtain ⟨rfl, rfl⟩ := gives_pure.1 gives
  exact ⟨before', gives_pure.2 ⟨rfl, rfl⟩, arrives⟩

/-- A row stays there if its parts do. -/
theorem Stays.bind (opening : Stays second change first first')
    (closing : ∀ value, Stays second change' (next value) (next' (change value))) :
    Stays second change' (first >>= next) (first' >>= next') := by
  intro before given after before' gives arrives
  obtain ⟨middle, ahead, opens, closes⟩ := gives_bind.1 gives
  obtain ⟨ahead', opens', arrives⟩ := opening opens arrives
  obtain ⟨after', closes', arrives⟩ := closing middle closes arrives
  exact ⟨after', gives_bind.2 ⟨_, _, opens', closes'⟩, arrives⟩

/-- Converting the text of an integer stays there. -/
theorem stays_int64 {text : List Char} : Stays second id (int64 text) (int64 text) := by
  intro before value after before' gives arrives
  obtain ⟨rfl, ⟨fits, rfl⟩ | ⟨large, rfl⟩⟩ := gives_int64.1 gives
  · exact ⟨before', gives_int64.2 ⟨rfl, .inl ⟨fits, rfl⟩⟩, arrives⟩
  · refine ⟨_, gives_int64.2 ⟨rfl, .inr ⟨large, rfl⟩⟩, arrives.ending, ?_, arrives.first⟩
    rw [arrives.invalid]

/-- No list separator is the first token of a text. -/
theorem stays_takeSeparator : Stays second id takeSeparator takeSeparator := by
  intro before value after before' gives arrives
  have none : ∀ terminal ∈ Follow.separator, terminal ≠ .ending ∧ terminal ∉ Follow.definition := by
    decide
  rcases gives_takeSeparator.1 gives with ⟨mem, -⟩ | ⟨-, rfl⟩
  · exact absurd arrives.ending (none _ mem).1
  · refine ⟨before', gives_takeSeparator.2 (.inr ⟨fun mem => ?_, rfl⟩), arrives⟩
    rcases arrives.first with ⟨-, ending⟩ | ⟨begins, -⟩
    · exact (none _ mem).1 ending
    · exact (none _ mem).2 begins

/-- Giving a value takes no token and ends no text. -/
theorem ends_pure {value : α} {reader' : TokenReader β} : Ends second change (pure value) reader' := by
  intro before given after gives _ inside ending
  obtain ⟨-, rfl⟩ := gives_pure.1 gives
  exact absurd ending inside

/-- Converting the text of an integer takes no token and ends no text. -/
theorem ends_int64 {text : List Char} : Ends second id (int64 text) (int64 text) := by
  intro before value after gives _ inside ending
  obtain ⟨-, ⟨-, rfl⟩ | ⟨-, rfl⟩⟩ := gives_int64.1 gives <;> exact absurd ending inside

/-- What is rejected ends no text. -/
theorem ends_reject {reader' : TokenReader β} : Ends second change reject reader' :=
  fun _ _ _ gives => absurd gives not_gives_reject

/-- Where the last token is taken, the first token of the other text is ahead. -/
theorem ends_advance (begins : Begins second) (more : Follow.definition ⊆ follow) :
    Ends second id (advance follow) (advance follow) := by
  intro before text after gives _ _ ending
  obtain ⟨rfl, invalid, found⟩ := gives_advance.1 gives
  have ends := (ending_of_nextToken found).1 ending
  obtain ⟨token, rest, starts, closed⟩ := begins
  by_cases inside : token.terminal = .ending
  · have ends' := (ending_of_nextToken starts).1 inside
    have whole : skip (before.rest ++ '\n' :: second) = [] := (skip_joined_of_nil ends).trans ends'
    exact ⟨⟨⟨.ending, [], before.token.left + (second.length + 1)⟩, [], before.invalid⟩,
      gives_advance.2 ⟨rfl, rfl, nextToken_eq_ok_iff.2 (.inl ⟨whole, rfl, rfl⟩)⟩, ending,
      invalid.symm, .inl ⟨ends', rfl⟩⟩
  · have mem : token.terminal ∈ Follow.definition := by
      rcases nextToken_eq_ok_iff.1 starts with ⟨-, rfl, -⟩ | ⟨mem, -⟩
      · exact absurd rfl inside
      · exact mem
    exact ⟨⟨token, rest, before.invalid⟩, gives_advance.2 ⟨rfl, rfl,
      nextToken_joined_of_nil ends more starts closed inside⟩, ending, invalid.symm,
      .inr ⟨mem, starts⟩⟩

/-- A text may end in the first part of a row, if the second stays there, or in the second. -/
theorem Ends.bind (opening : Ends second change first first')
    (follows : Follows second change first first')
    (closing : ∀ value, Ends second change' (next value) (next' (change value)))
    (stays : ∀ value, Stays second change' (next value) (next' (change value))) :
    Ends second change' (first >>= next) (first' >>= next') := by
  intro before given after gives sound inside ending
  obtain ⟨middle, ahead, opens, closes⟩ := gives_bind.1 gives
  obtain ⟨soundAhead, goes⟩ := follows opens sound
  by_cases last : ahead.token.terminal = .ending
  · obtain ⟨ahead', opens', arrives⟩ := opening opens sound inside last
    obtain ⟨after', closes', arrives⟩ := stays middle closes arrives
    exact ⟨after', gives_bind.2 ⟨_, _, opens', closes'⟩, arrives⟩
  · obtain ⟨after', closes', arrives⟩ := closing middle closes soundAhead last ending
    exact ⟨after', gives_bind.2 ⟨_, _, (goes last).2, closes'⟩, arrives⟩

/-- A text ends in the second part of a row if that always takes a token. -/
theorem Ends.after (follows : Follows second change first first')
    (inside : ∀ ⦃before value ahead⦄, Gives first before value ahead →
      ∀ ⦃found after⦄, Gives (next value) ahead found after → ahead.Sound →
        before.token.terminal ≠ .ending → ahead.token.terminal ≠ .ending)
    (closing : ∀ value, Ends second change' (next value) (next' (change value))) :
    Ends second change' (first >>= next) (first' >>= next') := by
  intro before given after gives sound some ending
  obtain ⟨middle, ahead, opens, closes⟩ := gives_bind.1 gives
  obtain ⟨soundAhead, goes⟩ := follows opens sound
  have last := inside opens closes soundAhead some
  obtain ⟨after', closes', arrives⟩ := closing middle closes soundAhead last ending
  exact ⟨after', gives_bind.2 ⟨_, _, (goes last).2, closes'⟩, arrives⟩

/-- A text ends in the second part of a row if that needs a token. -/
theorem Ends.needed (follows : Follows second change first first')
    (needs : ∀ value, Needs (next value))
    (closing : ∀ value, Ends second change' (next value) (next' (change value))) :
    Ends second change' (first >>= next) (first' >>= next') :=
  .after follows (fun _ value _ _ _ _ gives sound _ => needs value gives sound) closing

/-- The kind of the token ahead may be looked at first. -/
theorem ends_next_bind {next : Terminal → TokenReader γ} {next' : Terminal → TokenReader δ}
    (closing : ∀ terminal, Ends second change' (next terminal) (next' terminal)) :
    Ends second change' (TokenReader.next >>= next) (TokenReader.next >>= next') := by
  refine .after follows_next (fun before terminal ahead gives _ _ _ _ inside => ?_) closing
  obtain ⟨-, rfl⟩ := gives_next.1 gives
  exact inside

/-- The place of the token ahead may be looked at first. -/
theorem ends_place_bind {next : Nat → TokenReader γ} {next' : Nat → TokenReader δ}
    (closing : ∀ place, Ends second change' (next place) (next' (place + (second.length + 1)))) :
    Ends second change' (place >>= next) (place >>= next') := by
  refine .after follows_place (fun before place ahead gives _ _ _ _ inside => ?_) closing
  obtain ⟨-, rfl⟩ := gives_place.1 gives
  exact inside

/-- Behind items stands the terminal that closes them. -/
theorem terminal_of_rounds {item : TokenReader α} {before after : Ahead} {values : List α}
    (rounds : Rounds terminal item before values after) : after.token.terminal = terminal := by
  induction rounds with
  | done same => exact same
  | more _ _ _ ih => exact ih

/-- Items need the terminal that closes them. -/
theorem needs_items {item : TokenReader α} {item' : TokenReader β}
    (follows : Follows second change item item') (closing : terminal ≠ .ending) :
    Needs (items terminal item) := by
  intro before values after gives sound
  refine ((follows_items follows gives sound).2 ?_).1
  rw [terminal_of_rounds (gives_items.1 gives).1]
  exact closing

/-- A text ends behind items, since these leave the terminal that closes them. -/
theorem ends_items_bind {item : TokenReader α} {item' : TokenReader β}
    {next : List α → TokenReader γ} {next' : List β → TokenReader δ}
    (follows : Follows second change item item') (closing : terminal ≠ .ending)
    (ends : ∀ values, Ends second change' (next values) (next' (values.map change))) :
    Ends second change' (items terminal item >>= next) (items terminal item' >>= next') := by
  refine .after (follows_items follows) (fun before values ahead gives _ _ _ _ _ => ?_) ends
  rw [terminal_of_rounds (gives_items.1 gives).1]
  exact closing

variable (begins : Begins second) (more : Follow.definition ⊆ follow)
include begins

include more in

/-- A text may end with a token whose text is wrapped. -/
theorem ends_advance_pure {wrap : List Char → γ} {wrap' : List Char → δ}
    (same : ∀ text, wrap' text = change' (wrap text)) :
    Ends second change' (advance follow >>= fun text => pure (wrap text))
      (advance follow >>= fun text => pure (wrap' text)) :=
  (ends_advance begins more).bind follows_advance (fun _ => ends_pure) fun text => by
    rw [id, same]
    exact .pure

include more in

/-- A text may end with a given token. -/
theorem ends_take : Ends second id (take terminal follow) (take terminal follow) := by
  refine ends_next_bind fun found => ?_
  split
  · exact ends_advance begins more
  · exact ends_reject

include more in

/-- A text may end with a name. -/
theorem ends_name : Ends second id (name follow) (name follow) :=
  (ends_take begins more).bind follows_take (fun _ => ends_pure) fun _ => .pure

include more in

/-- A text may end with a literal. -/
theorem ends_literal : Ends second id (literal follow) (literal follow) :=
  (ends_take begins more).bind follows_take (fun _ => ends_pure) fun _ => .pure

/-- A text may end with a list separator. -/
theorem ends_takeSeparator : Ends second id takeSeparator takeSeparator := by
  refine ends_next_bind fun found => ?_
  split
  · exact ends_advance_pure begins (by decide) fun _ => rfl
  · exact ends_pure

/-- A text may end with a constant, whatever is inside. -/
theorem ends_constantOf {inner inner' : TokenReader ConstValue}
    (follows : Follows second id inner inner') :
    Ends second id (constantOf inner) (constantOf inner') := by
  have more : Follow.definition ⊆ Follow.afterConstant := by decide
  refine ends_next_bind fun terminal => ?_
  split
  · exact ends_advance_pure begins more fun _ => rfl
  · exact ends_advance_pure begins more fun _ => rfl
  · exact ends_advance_pure begins more fun _ => rfl
  · exact (ends_advance begins more).bind follows_advance
      (fun _ => ends_int64.bind follows_int64 (fun _ => ends_pure) fun _ => .pure)
      fun _ => stays_int64.bind fun _ => .pure
  · exact .needed follows_advance (fun _ => (needs_items (follows_element follows) (by decide)).bind)
      fun _ => ends_items_bind (follows_element follows) (by decide) fun values => by
        rw [List.map_id]
        exact ends_advance_pure begins more fun _ => rfl
  · exact .needed follows_advance (fun _ => (needs_items (follows_entry follows) (by decide)).bind)
      fun _ => ends_items_bind (follows_entry follows) (by decide) fun entries => by
        rw [List.map_id]
        exact ends_advance_pure begins more fun _ => rfl
  · exact ends_reject

/-- A text may end with a constant. -/
theorem ends_constant : Ends second id constant constant := by
  intro before value after gives sound inside ending
  rw [constant, gives_get_bind] at gives
  have longer : before.rest.length ≤ (before.joined second).rest.length := by
    simp [Ahead.joined]
  obtain ⟨after', goes, arrives⟩ :=
    ends_constantOf begins (follows_constantWithin longer) gives sound inside ending
  exact ⟨after', gives_get_bind.2 goes, arrives⟩

/-- A text may end with the closing brace of a body. -/
theorem ends_body {change : α → α} {start : Expected} {item : TokenReader α}
    (follows : Follows second change item item) :
    Ends second (List.map change) (body start item) (body start item) :=
  .needed follows_take (fun _ => (needs_items follows (by decide)).bind) fun _ =>
    ends_items_bind follows (by decide) fun _ =>
      ends_advance_pure begins (List.Subset.refl _) fun _ => rfl

/-- A text may end with a record. -/
theorem ends_recordRest {place : Nat} :
    Ends second (Record.map (· + (second.length + 1))) (recordRest place)
      (recordRest (place + (second.length + 1))) :=
  .needed follows_advance (fun _ => needs_name.bind) fun _ =>
    .needed follows_name (fun _ => needs_body.bind) fun _ =>
      (ends_body begins follows_field).bind (follows_body follows_field) (fun _ => ends_pure)
        fun _ => .pure

/-- A text may end with a service. -/
theorem ends_serviceRest {place : Nat} :
    Ends second (Service.map (· + (second.length + 1))) (serviceRest place)
      (serviceRest (place + (second.length + 1))) := by
  have based : Follows second id (some <$> name [.mark .leftBrace])
      (some <$> name [.mark .leftBrace]) := follows_name.map fun _ => rfl
  have alone : Follows second id (pure none : TokenReader (Option String)) (pure none) := .pure
  have taken {word : Keyword} : Follows second id (takes (.keyword word) [.identifier])
      (takes (.keyword word) [.identifier]) := follows_takes
  refine .needed follows_advance (fun _ => needs_name.bind) fun service =>
    .needed follows_name (fun _ => .after taken fun found => ?_) fun _ =>
      .needed follows_takes (fun found => ?_) fun found => ?_
  · split
    · exact .after based fun _ => needs_body.bind
    · exact .after alone fun _ => needs_body.bind
  · split
    · exact .after based fun _ => needs_body.bind
    · exact .after alone fun _ => needs_body.bind
  · simp only [id]
    split
    · exact .needed based (fun _ => needs_body.bind) fun _ => (ends_body begins follows_function).bind
        (follows_body follows_function) (fun _ => ends_pure) fun _ => .pure
    · exact .needed alone (fun _ => needs_body.bind) fun _ => (ends_body begins follows_function).bind
        (follows_body follows_function) (fun _ => ends_pure) fun _ => .pure

/-- A text may end with a definition. -/
theorem ends_definition :
    Ends second (Definition.map (· + (second.length + 1))) definition definition := by
  have self : Follow.definition ⊆ Follow.definition := List.Subset.refl _
  have separated {value : Definition Nat} :
      Ends second (Definition.map (· + (second.length + 1)))
        (do takeSeparator; return value)
        (do takeSeparator; return value.map (· + (second.length + 1))) :=
    (ends_takeSeparator begins).bind follows_takeSeparator (fun _ => ends_pure) fun _ => .pure
  have stays {value : Definition Nat} :
      Stays second (Definition.map (· + (second.length + 1)))
        (do takeSeparator; return value)
        (do takeSeparator; return value.map (· + (second.length + 1))) :=
    stays_takeSeparator.bind fun _ => .pure
  refine ends_place_bind fun place => ends_next_bind fun terminal => ?_
  split
  · exact .needed follows_advance (fun _ => needs_literal.bind) fun _ =>
      (ends_literal begins self).bind follows_literal (fun _ => ends_pure) fun _ => .pure
  · exact .needed follows_advance (fun _ => needs_literal.bind) fun _ =>
      (ends_literal begins self).bind follows_literal (fun _ => ends_pure) fun _ => .pure
  · have scopes : Follows second id namespaceScope namespaceScope := follows_namespaceScope
    exact .needed follows_advance (fun _ => .after scopes fun _ => needs_name.bind) fun _ =>
      .needed scopes (fun _ => needs_name.bind) fun _ =>
        (ends_name begins self).bind follows_name (fun _ => ends_pure) fun _ => .pure
  · exact .needed follows_advance (fun _ => needs_definitionType.bind) fun _ =>
      .needed follows_definitionType (fun _ => needs_name.bind) fun _ =>
        (ends_name begins (by decide)).bind follows_name (fun _ => separated) fun _ => stays
  · exact .needed follows_advance (fun _ => needs_type.bind) fun _ =>
      .needed follows_type (fun _ => needs_name.bind) fun _ =>
      .needed follows_name (fun _ => (needs_take (by decide)).bind) fun _ =>
      .needed follows_take (fun _ => needs_constant.bind) fun _ =>
        (ends_constant begins).bind follows_constant (fun _ => separated) fun _ => stays
  · exact .needed follows_advance (fun _ => needs_name.bind) fun _ =>
      .needed follows_name (fun _ => needs_body.bind) fun _ =>
        (ends_body begins follows_enumValue).bind (follows_body follows_enumValue)
          (fun _ => ends_pure) fun _ => .pure
  · exact (ends_recordRest begins).bind follows_recordRest (fun _ => ends_pure) fun _ => .pure
  · exact (ends_recordRest begins).bind follows_recordRest (fun _ => ends_pure) fun _ => .pure
  · exact (ends_recordRest begins).bind follows_recordRest (fun _ => ends_pure) fun _ => .pure
  · exact (ends_serviceRest begins).bind follows_serviceRest (fun _ => ends_pure) fun _ => .pure
  · exact ends_reject

omit begins in
/-- A keyword in front of a token that is no definition is not the beginning of a longer word. -/
theorem closed_of_advance {before after : Ahead} {text : List Char} {word : Keyword}
    (inner : Inner follow) (same : before.token.terminal = .keyword word)
    (stands : before.token.terminal.Before Follow.definition before.token.text before.rest)
    (given : Gives (advance follow) before text after) : Closed before.rest :=
  closed_of_nextToken stands (by rw [same]; rfl) inner (gives_advance.1 given).2.2

omit begins in
/-- The keyword of a definition that is read is not the beginning of a longer word. -/
theorem closed_of_definition {before after : Ahead} {value : Definition Nat}
    (given : Gives definition before value after)
    (stands : before.token.terminal.Before Follow.definition before.token.text before.rest) :
    Closed before.rest := by
  obtain ⟨_, _, placing, given⟩ := gives_bind.1 given
  obtain ⟨rfl, rfl⟩ := gives_place.1 placing
  obtain ⟨_, _, ahead, given⟩ := gives_bind.1 given
  obtain ⟨rfl, rfl⟩ := gives_next.1 ahead
  split at given
  case h_11 => exact absurd given not_gives_reject
  case h_7 same | h_8 same | h_9 same | h_10 same =>
    obtain ⟨_, _, given, -⟩ := gives_bind.1 given
    obtain ⟨_, _, starting, -⟩ := gives_bind.1 given
    exact closed_of_advance (by decide) same stands starting
  all_goals
    rename_i same
    obtain ⟨_, _, starting, -⟩ := gives_bind.1 given
    exact closed_of_advance (by decide) same stands starting

omit begins in
/-- Reading a text can begin if definitions are read off it. -/
theorem begins_of_rounds {start last : Ahead} {values : List (Definition Nat)}
    (rounds : Rounds .ending definition start values last)
    (starts : nextToken Follow.definition none second.length second = .ok (start.token, start.rest)) :
    Begins second := by
  refine ⟨_, _, starts, fun inside => ?_⟩
  rcases nextToken_eq_ok_iff.1 starts with ⟨-, same, -⟩ | ⟨-, -, stands, -⟩
  · exact absurd (congrArg Token.terminal same) inside
  · cases rounds with
    | done same => exact absurd same inside
    | more _ given _ => exact closed_of_definition given stands

/-- Definitions of one text and of another are read one after the other, if the other text follows. -/
theorem rounds_joined {before after start last : Ahead} {values values' : List (Definition Nat)}
    (rounds : Rounds .ending definition before values after)
    (rounds' : Rounds .ending definition start values' last) (invalid : start.invalid = after.invalid)
    (starts : nextToken Follow.definition none second.length second = .ok (start.token, start.rest))
    (sound : before.Sound) (inside : before.token.terminal ≠ .ending) :
    ∃ last', Rounds .ending definition (before.joined second)
      (values.map (Definition.map (· + (second.length + 1))) ++ values') last' ∧
        last'.invalid = last.invalid := by
  induction rounds with
  | done same => exact absurd same inside
  | @more before middle after value values other given rounds ih =>
    have follows : Follows second (Definition.map (· + (second.length + 1))) definition definition :=
      follows_definition
    obtain ⟨soundMiddle, goes⟩ := follows given sound
    by_cases ending : middle.token.terminal = .ending
    · cases rounds with
      | more other => exact absurd ending other
      | done =>
        obtain ⟨middle', given', arrives⟩ := ends_definition begins given sound other ending
        have same : middle'.invalid = start.invalid := arrives.invalid.trans invalid.symm
        rcases arrives.first with ⟨nothing, ends⟩ | ⟨-, starts'⟩
        · have ended : start.token.terminal = .ending := (ending_of_nextToken starts).2 nothing
          cases rounds' with
          | more other => exact absurd ended other
          | done => exact ⟨middle', .more inside given' (.done ends), same⟩
        · rw [starts] at starts'
          simp only [Except.ok.injEq, Prod.mk.injEq] at starts'
          obtain ⟨token, rest⟩ := starts'
          obtain rfl : middle' = start := by
            cases middle'
            cases start
            simp_all
          exact ⟨last, .more inside given' rounds', rfl⟩
    · obtain ⟨last', more, same⟩ := ih invalid soundMiddle ending
      exact ⟨last', .more inside (goes ending).2 more, same⟩

end Ending

end ThriftIdl.TokenReader
