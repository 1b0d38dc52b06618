import ThriftIdl.Proofs.Grammar.Depth
import ThriftIdl.Proofs.Names
import ThriftIdl.Proofs.Token.Steps

/-!
# Types over tokens

A type that is read over tokens is spelled by the lexemes that are passed, and no name in it is a
keyword that begins a type (`sound_type`). What follows a type is apart from it if it is a name.
-/
namespace ThriftIdl.TokenReader

variable {text : List Char} {before after : Ahead}

/-- A reader of types passes lexemes that spell its types, and begins with a word. -/
def SoundType (reader : TokenReader FieldType) (spelling : List Lexeme → FieldType → Prop) : Prop :=
  ∀ ⦃before after value text⦄, Gives reader before value after →
    Stands Follow.definitionType text before → ∃ lexemes rest,
      Lexes (fun _ => true) text lexemes rest ∧ spelling lexemes value ∧
        Stands Follow.afterType rest after ∧ after.invalid = before.invalid ∧ Parted rest after ∧
          before.token.terminal.joins

/-- After a bracket that closes a type, only a name is parted from it. -/
theorem parted_of_moreThan {follow : Expected} {found : List Char}
    (closing : before.token.terminal = .mark .moreThan)
    (given : Gives (advance follow) before found after)
    (only : after.token.terminal ∈ follow → after.token.terminal.joins →
      after.token.terminal = .identifier) : Parted before.rest after := by
  intro joins
  obtain ⟨-, -, next⟩ := gives_advance.1 given
  rcases mem_of_advance given with ends | mem
  · rw [ends] at joins
    cases joins
  · exact hasGap_of_nextToken_moreThan closing next (only mem joins)

/-- Of what may follow a type only a name joins. -/
theorem identifier_of_mem_afterType {terminal : Terminal} (mem : terminal ∈ Follow.afterType)
    (joins : terminal.joins) : terminal = .identifier := by
  simp only [Follow.afterType, List.mem_cons, List.not_mem_nil, or_false] at mem
  rcases mem with rfl | rfl | rfl
  · rfl
  · cases joins
  · cases joins

/-- The bracket that closes the inner types is taken. -/
theorem takes_moreThan {expected : Expected} {found : List Char}
    (stands : Stands expected text before)
    (given : Gives (take (.mark .moreThan) Follow.afterType) before found after) :
    ∃ lexeme, Takes Follow.afterType text lexeme before after ∧ lexeme.IsMark .moreThan ∧
      Parted before.rest after := by
  obtain ⟨same, given⟩ := gives_take.1 given
  obtain ⟨lexeme, takes, isMark⟩ := takes_mark stands same given
  exact ⟨lexeme, takes, isMark, parted_of_moreThan same given identifier_of_mem_afterType⟩

/-- A type of another language is passed, if there is one. -/
theorem spelled_leadingCppType {expected : Expected} {done : Unit}
    (given : Gives leadingCppType before done after) (stands : Stands expected text before) :
    ∃ lexemes rest, Lexes (fun _ => true) text lexemes rest ∧ CppTypeSpelling lexemes ∧
      after.invalid = before.invalid ∧
        ((after = before ∧ rest = text ∧ before.token.terminal ≠ .keyword .cppType) ∨
          (Stands Follow.afterCppType rest after ∧ Parted rest after)) := by
  obtain ⟨taken, middle, given, others⟩ := gives_bind.1 given
  rcases gives_takes.1 given with ⟨same, rfl, _, given⟩ | ⟨other, rfl, rfl⟩
  · obtain ⟨word, takes, isWord, parted⟩ := takes_keyword stands same given (by decide)
    simp only [↓reduceIte] at others
    obtain ⟨_, _, given, others⟩ := gives_bind.1 others
    obtain ⟨-, rfl⟩ := gives_pure.1 others
    obtain ⟨same, given⟩ := gives_take.1 given
    obtain ⟨literal, takes', isLiteral, -, parted'⟩ := takes_literal takes.stands same given
    have apart : literal.apart := takes'.apart.trans (parted (by rw [same]; rfl))
    exact ⟨[word, literal], _, ⟨_, takes.here, _, takes'.here, rfl⟩,
      .present isWord isLiteral apart, takes'.invalid.trans takes.invalid,
      .inr ⟨takes'.stands, parted'⟩⟩
  · simp only [Bool.false_eq_true, ↓reduceIte] at others
    obtain ⟨-, rfl⟩ := gives_pure.1 others
    exact ⟨[], text, rfl, .absent, rfl, .inl ⟨rfl, rfl, other⟩⟩

section Containers

variable {inner : TokenReader FieldType} {spelling : List Lexeme → FieldType → Prop}
  {value : FieldType} {found : List Char}

/-- The keyword of a container is passed with its bracket and with what may stand between them. -/
theorem spelled_opening {word : Keyword} {expected : Expected} {done : Unit} {started middle : Ahead}
    {found' : List Char} (stands : Stands expected text before)
    (same : before.token.terminal = .keyword word)
    (starts : Gives (advance [.keyword .cppType, .mark .lessThan]) before found started)
    (leading : Gives leadingCppType started done middle)
    (given : Gives (take (.mark .lessThan) Follow.type) middle found' after) :
    ∃ (keyword less : Lexeme) (cppType : List Lexeme) (rest : List Char),
      Lexes (fun _ => true) text (keyword :: (cppType ++ [less])) rest ∧ keyword.IsWord word.text ∧
        CppTypeSpelling cppType ∧ less.IsMark .lessThan ∧ Stands Follow.type rest after ∧
          after.invalid = before.invalid := by
  obtain ⟨keyword, takes, isWord, -⟩ := takes_keyword stands same starts (by decide)
  obtain ⟨cppType, rest, lexes, spelled, invalid, ends⟩ :=
    spelled_leadingCppType leading takes.stands
  obtain ⟨same', given⟩ := gives_take.1 given
  obtain ⟨_, next⟩ : ∃ expected, Stands expected rest middle := by
    rcases ends with ⟨rfl, rfl, -⟩ | ⟨stands, -⟩
    · exact ⟨_, takes.stands⟩
    · exact ⟨_, stands⟩
  obtain ⟨less, takes', isLess⟩ := takes_mark next same' given
  exact ⟨keyword, less, cppType, _, ⟨_, takes.here, lexes_append.2 ⟨_, lexes, _, takes'.here, rfl⟩⟩,
    isWord, spelled, isLess, takes'.stands, takes'.invalid.trans (invalid.trans takes.invalid)⟩

/-- What may begin a type may begin one that gets a second name, or it is a name. -/
theorem definitionType_subset : Follow.definitionType ⊆ Follow.type :=
  List.subset_append_left _ _

/-- What follows the bracket of a list type is passed, if there is any of it. -/
theorem spelled_trailing {expected : Expected} {done : Unit} {middle : Ahead}
    (stands : Stands expected text before)
    (given : Gives (take (.mark .moreThan) Follow.afterListType) before found middle)
    (trailing : Gives leadingCppType middle done after) :
    ∃ more cppType rest, Lexes (fun _ => true) text (more :: cppType) rest ∧
      more.IsMark .moreThan ∧ CppTypeSpelling cppType ∧ Stands Follow.afterType rest after ∧
        after.invalid = before.invalid ∧ Parted rest after := by
  obtain ⟨same, given⟩ := gives_take.1 given
  obtain ⟨more, takes, isMore⟩ := takes_mark stands same given
  obtain ⟨cppType, rest, lexes, spelled, invalid, ends⟩ :=
    spelled_leadingCppType trailing takes.stands
  refine ⟨more, cppType, rest, ⟨_, takes.here, lexes⟩, isMore, spelled, ?_,
    invalid.trans takes.invalid, ?_⟩
  · rcases ends with ⟨rfl, rfl, -⟩ | ⟨stands, -⟩
    · exact takes.stands.mono (List.subset_cons_self _ _)
    · exact stands.mono (List.subset_cons_self _ _)
  · rcases ends with ⟨rfl, rfl, other⟩ | ⟨-, parted⟩
    · refine parted_of_moreThan same given fun mem joins => ?_
      rcases List.mem_cons.1 mem with cppType | mem
      · exact absurd cppType other
      · exact identifier_of_mem_afterType mem joins
    · exact parted

/-- Lexemes are passed that spell a container, and what follows is parted from them. -/
def PassedContainer (spelling : List Lexeme → FieldType → Prop) (text : List Char)
    (before after : Ahead) (type : FieldType) : Prop :=
  ∃ lexemes rest, Lexes (fun _ => true) text lexemes rest ∧
    ContainerTypeSpelling spelling lexemes type ∧ Stands Follow.afterType rest after ∧
      after.invalid = before.invalid ∧ Parted rest after

section Kinds

variable {started led opened inside parting last trailed : Ahead} {starting opening separating
  closing : List Char}

/-- What is read as a map type is spelled. -/
theorem passedContainer_map (sound : SoundType inner spelling) {key value : FieldType}
    (stands : Stands Follow.definitionType text before)
    (same : before.token.terminal = .keyword .map)
    (starts : Gives (advance [.keyword .cppType, .mark .lessThan]) before starting started)
    (leads : Gives leadingCppType started () led)
    (opens : Gives (take (.mark .lessThan) Follow.type) led opening opened)
    (readsKey : Gives inner opened key inside)
    (separates : Gives (take (.mark .comma) Follow.type) inside separating parting)
    (readsValue : Gives inner parting value last)
    (closes : Gives (take (.mark .moreThan) Follow.afterType) last closing after) :
    PassedContainer spelling text before after (.map key value) := by
  obtain ⟨word, less, cppType, place, lexes, isWord, spelledCpp, isLess, stands, invalid⟩ :=
    spelled_opening stands same starts leads opens
  obtain ⟨keys, place', lexesKey, spelledKey, stands, invalidKey, -⟩ :=
    sound readsKey (stands.mono definitionType_subset)
  obtain ⟨same', separates⟩ := gives_take.1 separates
  obtain ⟨comma, takesComma, isComma⟩ := takes_mark stands same' separates
  obtain ⟨values, place'', lexesValue, spelledValue, stands, invalidValue, -⟩ :=
    sound readsValue (takesComma.stands.mono definitionType_subset)
  obtain ⟨more, takesMore, isMore, parted⟩ := takes_moreThan stands closes
  refine ⟨_, _, ?_, .map isWord spelledCpp isLess spelledKey isComma spelledValue isMore,
    takesMore.stands, ?_, parted⟩
  · simp only [lexes_cons, lexes_append, lexes_nil] at lexes ⊢
    obtain ⟨_, atWord, _, lexesCpp, _, atLess, rfl⟩ := lexes
    exact ⟨_, atWord, _, lexesCpp, _, atLess, _, lexesKey, _, takesComma.here, _, lexesValue, _,
      takesMore.here, rfl⟩
  · rw [takesMore.invalid, invalidValue, takesComma.invalid, invalidKey, invalid]

/-- What is read as a set type is spelled. -/
theorem passedContainer_set (sound : SoundType inner spelling) {element : FieldType}
    (stands : Stands Follow.definitionType text before)
    (same : before.token.terminal = .keyword .set)
    (starts : Gives (advance [.keyword .cppType, .mark .lessThan]) before starting started)
    (leads : Gives leadingCppType started () led)
    (opens : Gives (take (.mark .lessThan) Follow.type) led opening opened)
    (reads : Gives inner opened element last)
    (closes : Gives (take (.mark .moreThan) Follow.afterType) last closing after) :
    PassedContainer spelling text before after (.set element) := by
  obtain ⟨word, less, cppType, place, lexes, isWord, spelledCpp, isLess, stands, invalid⟩ :=
    spelled_opening stands same starts leads opens
  obtain ⟨elements, place', lexesInside, spelled, stands, invalidInside, -⟩ :=
    sound reads (stands.mono definitionType_subset)
  obtain ⟨more, takesMore, isMore, parted⟩ := takes_moreThan stands closes
  refine ⟨_, _, ?_, .set isWord spelledCpp isLess spelled isMore, takesMore.stands, ?_, parted⟩
  · simp only [lexes_cons, lexes_append, lexes_nil] at lexes ⊢
    obtain ⟨_, atWord, _, lexesCpp, _, atLess, rfl⟩ := lexes
    exact ⟨_, atWord, _, lexesCpp, _, atLess, _, lexesInside, _, takesMore.here, rfl⟩
  · rw [takesMore.invalid, invalidInside, invalid]

/-- What is read as a list type is spelled. -/
theorem passedContainer_list (sound : SoundType inner spelling) {element : FieldType}
    (stands : Stands Follow.definitionType text before)
    (same : before.token.terminal = .keyword .list)
    (starts : Gives (advance [.mark .lessThan]) before starting started)
    (opens : Gives (take (.mark .lessThan) Follow.type) started opening opened)
    (reads : Gives inner opened element last)
    (closes : Gives (take (.mark .moreThan) Follow.afterListType) last closing trailed)
    (trails : Gives leadingCppType trailed () after) :
    PassedContainer spelling text before after (.list element) := by
  obtain ⟨word, takes, isWord, -⟩ := takes_keyword stands same starts (by decide)
  obtain ⟨same', opens⟩ := gives_take.1 opens
  obtain ⟨less, takesLess, isLess⟩ := takes_mark takes.stands same' opens
  obtain ⟨elements, place', lexesInside, spelled, stands, invalidInside, -⟩ :=
    sound reads (takesLess.stands.mono definitionType_subset)
  obtain ⟨more, cppType, rest, ⟨_, atMore, lexes⟩, isMore, spelledCpp, stands, invalid, parted⟩ :=
    spelled_trailing stands closes trails
  refine ⟨_, _, ?_, .list isWord isLess spelled isMore spelledCpp, stands, ?_, parted⟩
  · simp only [lexes_cons, lexes_append]
    exact ⟨_, takes.here, _, takesLess.here, _, lexesInside, _, atMore, lexes⟩
  · rw [invalid, invalidInside, takesLess.invalid, takes.invalid]

end Kinds

/-- A type is spelled if its inner types are, and a name is no keyword that begins a type. -/
theorem sound_typeOf (named : Bool) (sound : SoundType inner spelling) :
    SoundType (typeOf named inner) fun lexemes type =>
      (TypeSpelling 0 lexemes type ∧ type.Settled) ∨
        ContainerTypeSpelling spelling lexemes type := by
  intro before after value text given stands
  obtain ⟨_, _, ahead, given⟩ := gives_bind.1 given
  obtain ⟨rfl, rfl⟩ := gives_next.1 ahead
  split at given
  next type base =>
    simp only [gives_bind, gives_pure] at given
    obtain ⟨_, _, starts, rfl, rfl⟩ := given
    obtain ⟨word, takes, isWord, parted⟩ := takes_keyword stands base starts (by decide)
    exact ⟨[word], _, ⟨_, takes.here, rfl⟩, .inl ⟨.inl (.base isWord), trivial⟩, takes.stands,
      takes.invalid, parted, by rw [base]; rfl⟩
  next map =>
    simp only [gives_bind, gives_pure] at given
    obtain ⟨_, _, starts, _, _, leads, _, _, opens, key, _, readsKey, _, _, separates, value, _,
      readsValue, _, _, closes, rfl, rfl⟩ := given
    obtain ⟨lexemes, rest, lexes, spelled, stands, invalid, parted⟩ :=
      passedContainer_map sound stands map starts leads opens readsKey separates readsValue closes
    exact ⟨lexemes, rest, lexes, .inr spelled, stands, invalid, parted, by rw [map]; rfl⟩
  next set =>
    simp only [gives_bind, gives_pure] at given
    obtain ⟨_, _, starts, _, _, leads, _, _, opens, element, _, reads, _, _, closes, rfl, rfl⟩ := given
    obtain ⟨lexemes, rest, lexes, spelled, stands, invalid, parted⟩ :=
      passedContainer_set sound stands set starts leads opens reads closes
    exact ⟨lexemes, rest, lexes, .inr spelled, stands, invalid, parted, by rw [set]; rfl⟩
  next list =>
    simp only [gives_bind, gives_pure] at given
    obtain ⟨_, _, starts, _, _, opens, element, _, reads, _, _, closes, _, _, trails, rfl, rfl⟩ := given
    obtain ⟨lexemes, rest, lexes, spelled, stands, invalid, parted⟩ :=
      passedContainer_list sound stands list starts opens reads closes trails
    exact ⟨lexemes, rest, lexes, .inr spelled, stands, invalid, parted, by rw [list]; rfl⟩
  next name =>
    split at given
    next isNamed =>
      simp only [gives_bind, gives_pure] at given
      obtain ⟨_, _, starts, rfl, rfl⟩ := given
      obtain ⟨word, takes, isWord, other, parted⟩ := takes_name stands name starts
      have free : Free Follow.definitionType _ := other
      have unlike : ∀ type : BaseType, _ ≠ type.keyword := fun type =>
        other (.base type) (by simp [Follow.definitionType, Follow.baseType, type.mem_all])
      exact ⟨[word], _, ⟨_, takes.here, rfl⟩,
        .inl ⟨.inr (.named isWord unlike), free.mono (by decide)⟩, takes.stands, takes.invalid, parted,
        by rw [name]; rfl⟩
    next => exact absurd given not_gives_reject
  next => exact absurd given not_gives_reject

/-- A type is spelled and settled if its inner types are. -/
theorem settled_of_inner {lexemes : List Lexeme} {type : FieldType} {levels : Nat}
    (spelled : (TypeSpelling 0 lexemes type ∧ type.Settled) ∨
      ContainerTypeSpelling (fun lexemes type => TypeSpelling levels lexemes type ∧ type.Settled)
        lexemes type) :
    TypeSpelling (levels + 1) lexemes type ∧ type.Settled := by
  rw [typeSpelling_succ]
  rcases spelled with ⟨plain, settled⟩ | container
  · exact ⟨.inl plain, settled⟩
  · cases container with
    | map word cppType less key comma value more =>
      exact ⟨.inr (.map word cppType less key.1 comma value.1 more), key.2, value.2⟩
    | set word cppType less element more =>
      exact ⟨.inr (.set word cppType less element.1 more), element.2⟩
    | list word less element more cppType =>
      exact ⟨.inr (.list word less element.1 more cppType), element.2⟩

/-- What is read as a type of some levels is spelled within fewer. -/
theorem sound_typeWithin (levels : Nat) :
    SoundType (typeWithin (levels + 1)) fun lexemes type =>
      TypeSpelling levels lexemes type ∧ type.Settled := by
  induction levels with
  | zero =>
    have none : SoundType (typeWithin 0) fun _ _ => False := by
      intro before after value text given
      exact absurd given not_gives_reject
    intro before after value text given stands
    obtain ⟨lexemes, rest, lexes, spelled, others⟩ := sound_typeOf true none given stands
    refine ⟨lexemes, rest, lexes, ?_, others⟩
    rcases spelled with spelled | container
    · exact spelled
    · rcases container with ⟨_, _, _, inside, _⟩ | ⟨_, _, _, inside, _⟩ | ⟨_, _, inside, _⟩ <;>
        exact inside.elim
  | succ levels ih =>
    intro before after value text given stands
    obtain ⟨lexemes, rest, lexes, spelled, others⟩ := sound_typeOf true ih given stands
    exact ⟨lexemes, rest, lexes, settled_of_inner spelled, others⟩

/-- A type is spelled within every limit that its depth does not exceed. -/
theorem sound_type :
    SoundType type fun lexemes type =>
      (∀ limit, type.depth ≤ limit → TypeSpelling limit lexemes type) ∧ type.Settled := by
  intro before after value text given stands
  rw [type, gives_get_bind] at given
  obtain ⟨lexemes, rest, lexes, spelled, others⟩ := sound_typeWithin _ given stands
  exact ⟨lexemes, rest, lexes, ⟨fun limit shallow => spelled.1.within shallow, spelled.2⟩, others⟩

/-- A type that gets a second name is not only known by its name. -/
theorem ne_named_of_gives {name : String} (given : Gives (typeOf false inner) before value after) :
    value ≠ .named name := by
  obtain ⟨_, _, ahead, given⟩ := gives_bind.1 given
  obtain ⟨rfl, rfl⟩ := gives_next.1 ahead
  rintro rfl
  split at given <;> simp [gives_bind, gives_map] at given

/-- A type that gets a second name is spelled within every limit that its depth does not exceed. -/
theorem sound_definitionType :
    SoundType definitionType fun lexemes type =>
      (∀ limit, type.depth ≤ limit → DefinitionTypeSpelling limit lexemes type) ∧
        type.Settled := by
  intro before after value text given stands
  have inner : Gives (typeOf false (typeWithin (before.rest.length + 1))) before value after := by
    rwa [definitionType, gives_get_bind] at given
  obtain ⟨lexemes, rest, lexes, spelled, others⟩ :=
    sound_typeOf false (sound_typeWithin before.rest.length) inner stands
  obtain ⟨whole, settled⟩ := settled_of_inner spelled
  exact ⟨lexemes, rest, lexes, ⟨fun limit shallow =>
    ⟨whole.within shallow, fun name => ne_named_of_gives inner⟩, settled⟩, others⟩

end Containers

end ThriftIdl.TokenReader
