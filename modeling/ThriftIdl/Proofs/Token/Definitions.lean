import ThriftIdl.Proofs.Token.Functions

/-!
# Definitions over tokens

A definition that is read over tokens is spelled by the lexemes that are passed, unless something is
said of its meaning (`sound_definition`). The values of an enumeration are parted even where no list
separator stands between them, because a word never touches what is before it (`sound_enumValues`).
-/
namespace ThriftIdl.TokenReader

variable {text : List Char} {before after : Ahead}

/-- A name is taken. -/
theorem takes_nameReader {follow expected : Expected} {found : String}
    (given : Gives (name follow) before found after) (stands : Stands expected text before) :
    ∃ lexeme, Takes follow text lexeme before after ∧ lexeme.IsWord found ∧
      before.token.terminal = .identifier ∧ Parted before.rest after := by
  simp only [name, gives_bind, gives_pure, gives_take] at given
  obtain ⟨_, _, ⟨same, given⟩, rfl, rfl⟩ := given
  obtain ⟨lexeme, takes, isWord, -, parted⟩ := takes_name stands same given
  exact ⟨lexeme, takes, isWord, same, parted⟩

/-- After a keyword a name is taken that is apart from it. -/
theorem takes_keyword_name {word : Keyword} {follow expected : Expected} {middle : Ahead}
    {found : List Char} {wanted : String} (stands : Stands expected text before)
    (same : before.token.terminal = .keyword word)
    (starting : Gives (advance [.identifier]) before found middle)
    (naming : Gives (name follow) middle wanted after) :
    ∃ keyword lexeme : Lexeme, ∃ rest, Lexes (fun _ => true) text [keyword, lexeme] rest ∧
      keyword.IsWord word.text ∧ keyword.left = before.token.left ∧ lexeme.IsWord wanted ∧
        lexeme.apart ∧ Stands follow rest after ∧ after.invalid = before.invalid := by
  obtain ⟨keyword, takes, isKeyword, parted⟩ := takes_keyword stands same starting (by decide)
  obtain ⟨lexeme, takes', isWord, same', -⟩ := takes_nameReader naming takes.stands
  exact ⟨keyword, lexeme, _, ⟨_, takes.here, _, takes'.here, rfl⟩, isKeyword, takes.left, isWord,
    takes'.apart.trans (parted (by rw [same']; rfl)), takes'.stands,
    takes'.invalid.trans takes.invalid⟩

/-- Lexemes are passed that spell a definition within every limit that its depth does not exceed, unless
something is said of its meaning. -/
def PassedAs (text : List Char) (before after : Ahead) (value : Definition Nat) : Prop :=
  ∃ lexemes rest, Lexes (fun _ => true) text lexemes rest ∧ Stands Follow.definition rest after ∧
    (after.invalid = none → before.invalid = none ∧
      (∀ limit, value.depth ≤ limit → DefinitionSpelling false limit lexemes value) ∧ value.Settled)

section EnumValues

/-- The value of an enumeration is passed with the list separator after it. What follows is parted
from it if that is missing. -/
theorem spelled_enumValue {value : EnumValue Nat} (given : Gives enumValue before value after)
    (stands : Stands [.identifier] text before) :
    ∃ first separator rest, Lexes (fun _ => true) text (first ++ separator) rest ∧
      Stands [.identifier] rest after ∧ before.token.terminal = .identifier ∧
        SeparatorSpelling separator ∧ (separator = [] → Parted rest after) ∧
          (after.invalid = none → before.invalid = none ∧ EnumValueSpelling first value) := by
  obtain ⟨_, _, placing, given⟩ := gives_bind.1 given
  obtain ⟨rfl, rfl⟩ := gives_place.1 placing
  obtain ⟨name, _, naming, given⟩ := gives_bind.1 given
  obtain ⟨taken, _, taking, given⟩ := gives_bind.1 given
  obtain ⟨number, _, numbering, given⟩ := gives_ite_bind.1 given
  obtain ⟨_, _, separating, given⟩ := gives_bind.1 given
  obtain ⟨rfl, rfl⟩ := gives_pure.1 given
  obtain ⟨word, takes, isWord, same, parted⟩ := takes_nameReader naming stands
  rw [← takes.left]
  rcases gives_takes.1 taking with ⟨same', rfl, _, taking⟩ | ⟨-, rfl, rfl⟩
  · simp only [↓reduceIte, gives_map, gives_bind, gives_take] at numbering
    obtain ⟨value, ⟨_, _, ⟨same'', taking'⟩, meaning⟩, rfl⟩ := numbering
    obtain ⟨equal, takes', isEqual⟩ := takes_mark takes.stands same' taking
    obtain ⟨number, takes'', shape, rfl, parted⟩ :=
      takes_integer takes'.stands same'' taking' (.inr (by decide))
    obtain ⟨rfl, stands, token, clear⟩ := sound_int64 meaning takes''.stands
    obtain ⟨separator, rest, lexes, spelled, stands, invalid, absent⟩ :=
      exists_separator [.identifier] stands (by decide) (by decide) separating
    refine ⟨[word, equal, number], separator, rest, ?_, stands, same, spelled, ?_, fun none => ?_⟩
    · simp only [lexes_append, lexes_cons, lexes_nil]
      exact ⟨_, ⟨_, takes.here, _, takes'.here, _, takes''.here, rfl⟩, lexes⟩
    · intro empty joins
      obtain ⟨rfl, rfl⟩ := absent empty
      exact parted (by rwa [← token])
    · obtain ⟨none, fits⟩ := clear (invalid.symm.trans none)
      exact ⟨takes.invalid.symm.trans (takes'.invalid.symm.trans (takes''.invalid.symm.trans none)),
        .numbered isWord isEqual shape fits⟩
  · simp only [Bool.false_eq_true, ↓reduceIte] at numbering
    obtain ⟨rfl, rfl⟩ := gives_pure.1 numbering
    obtain ⟨separator, rest, lexes, spelled, stands, invalid, absent⟩ :=
      exists_separator [.identifier] takes.stands (by decide) (by decide) separating
    refine ⟨[word], separator, rest, ?_, stands, same, spelled, ?_, fun none => ?_⟩
    · simp only [lexes_append, lexes_cons, lexes_nil]
      exact ⟨_, ⟨_, takes.here, rfl⟩, lexes⟩
    · intro empty
      obtain ⟨rfl, rfl⟩ := absent empty
      exact parted
    · exact ⟨takes.invalid.symm.trans (invalid.symm.trans none), .plain isWord⟩

/-- The values of an enumeration are spelled and parted. -/
theorem sound_enumValues {closing : Terminal} {values : List (EnumValue Nat)}
    (rounds : Rounds closing enumValue before values after) (stands : Stands [.identifier] text before) :
    ∃ lexemes rest, Lexes (fun _ => true) text lexemes rest ∧ Stands [.identifier] rest after ∧
      after.token.terminal = closing ∧ (Parted text before → Apart lexemes) ∧
        (after.invalid = none → before.invalid = none ∧
          Elements true EnumValueSpelling lexemes values) := by
  induction rounds generalizing text with
  | done same =>
    exact ⟨[], text, rfl, stands, same, fun _ => by simp [Apart], fun none => ⟨none, .nil⟩⟩
  | more _ first _ ih =>
    obtain ⟨first, separator, middle, lexes, stands, joins, spelledSeparator, parted, spelled⟩ :=
      spelled_enumValue first stands
    obtain ⟨others, rest, lexes', stands, same, apart, spelled'⟩ := ih stands
    have whole : Lexes (fun _ => true) text (first ++ (separator ++ others)) rest := by
      rw [← List.append_assoc]
      exact lexes_append.2 ⟨_, lexes, lexes'⟩
    refine ⟨first ++ (separator ++ others), rest, whole, stands, same, fun parted =>
      whole.apart (parted (by rw [joins]; rfl)), fun none => ?_⟩
    obtain ⟨none, spelled'⟩ := spelled' none
    obtain ⟨none, spelled⟩ := spelled none
    exact ⟨none, .cons spelled spelledSeparator spelled' fun _ empty => apart (parted empty)⟩

end EnumValues

section Bodies

/-- A body is passed with its braces if its items are. -/
theorem sound_body {α : Type} {item : TokenReader α} {start expected : Expected} {values : List α}
    {items : List Lexeme → Prop} (given : Gives (body start item) before values after)
    (stands : Stands expected text before)
    (sound : ∀ ⦃before after text⦄, Rounds (.mark .rightBrace) item before values after →
      Stands start text before → ∃ lexemes rest, Lexes (fun _ => true) text lexemes rest ∧
        (∃ expected, Stands expected rest after) ∧ after.token.terminal = .mark .rightBrace ∧
          (after.invalid = none → before.invalid = none ∧ items lexemes)) :
    ∃ opening closing : Lexeme, ∃ members rest,
      Lexes (fun _ => true) text (opening :: (members ++ [closing])) rest ∧
        opening.IsMark .leftBrace ∧ closing.IsMark .rightBrace ∧
          Stands Follow.definition rest after ∧
            (after.invalid = none → before.invalid = none ∧ items members) := by
  simp only [body, gives_bind, gives_pure, gives_take, gives_items] at given
  obtain ⟨_, _, ⟨same, starting⟩, values, _, ⟨rounds, -⟩, _, _, ending, rfl, rfl⟩ := given
  exact spelled_enclosed stands same starting
    (fun stands => sound rounds (stands.mono (List.subset_cons_self _ _))) ending

/-- A body is passed with its braces if its items are spelled one by one. -/
theorem sound_itemBody {α : Type} {item : TokenReader α} {start expected : Expected} {values : List α}
    {spelling : List Lexeme → α → Prop} (sound : SoundAs item start start spelling)
    (given : Gives (body start item) before values after) (stands : Stands expected text before) :
    ∃ opening closing : Lexeme, ∃ members rest,
      Lexes (fun _ => true) text (opening :: (members ++ [closing])) rest ∧
        opening.IsMark .leftBrace ∧ closing.IsMark .rightBrace ∧
          Stands Follow.definition rest after ∧
            (after.invalid = none → before.invalid = none ∧ Sequence spelling members values) := by
  refine sound_body given stands fun before after text rounds stands => ?_
  obtain ⟨lexemes, rest, lexes, stands, others⟩ := sound_rounds sound rounds stands
  exact ⟨lexemes, rest, lexes, ⟨_, stands⟩, others⟩

/-- What is read as a record after its keyword is spelled with the keyword. -/
theorem passedAs_record {kind : RecordKind} {word : Keyword} {value : Record Nat}
    (given : Gives (recordRest before.token.left) before value after)
    (stands : Stands Follow.definition text before)
    (same : before.token.terminal = .keyword word) (isKind : word.text = kind.keyword) :
    PassedAs text before after (.record kind value) := by
  simp only [recordRest, gives_bind, gives_pure] at given
  obtain ⟨_, _, starting, name, _, naming, fields, _, reading, rfl, rfl⟩ := given
  obtain ⟨keyword, lexeme, _, lexes, isKeyword, left, isWord, apart, stands, invalid⟩ :=
    takes_keyword_name stands same starting naming
  obtain ⟨opening, closing, members, rest, lexes', isOpening, isClosing, stands, spelled⟩ :=
    sound_itemBody sound_field reading stands
  refine ⟨[keyword, lexeme] ++ (opening :: (members ++ [closing])), rest,
    lexes_append.2 ⟨_, lexes, lexes'⟩, stands, fun none => ?_⟩
  obtain ⟨none, spelled⟩ := spelled none
  refine ⟨invalid.symm.trans none, fun limit shallow => ?_, spelled.all fun _ _ one => one.2⟩
  have each := greatest_le_iff.1 shallow
  rw [← left]
  exact .record (isKind ▸ isKeyword) isWord apart isOpening
    (spelled.imp fun _ field mem one => one.1 limit (each field mem)) isClosing

/-- The service that a service extends is passed, if there is one. -/
theorem spelled_base {base : Option String} {taken : Bool} {middle : Ahead} {expected : Expected}
    (taking : Gives (takes (.keyword .extending) [.identifier]) before taken middle)
    (given : Gives (if taken then some <$> name [.mark .leftBrace] else pure none) middle base after)
    (stands : Stands expected text before) :
    ∃ lexemes rest, Lexes (fun _ => true) text lexemes rest ∧ BaseSpelling lexemes base ∧
      (∃ expected, Stands expected rest after) ∧ after.invalid = before.invalid := by
  rcases gives_takes.1 taking with ⟨same, rfl, _, taking⟩ | ⟨-, rfl, rfl⟩
  · simp only [↓reduceIte, gives_map] at given
    obtain ⟨found, naming, rfl⟩ := given
    obtain ⟨keyword, lexeme, rest, lexes, isKeyword, -, isWord, apart, stands, invalid⟩ :=
      takes_keyword_name stands same taking naming
    exact ⟨_, rest, lexes, .present isKeyword isWord apart, ⟨_, stands⟩, invalid⟩
  · simp only [Bool.false_eq_true, ↓reduceIte] at given
    obtain ⟨rfl, rfl⟩ := gives_pure.1 given
    exact ⟨[], text, rfl, .absent, ⟨_, stands⟩, rfl⟩

/-- What is read as a service after its keyword is spelled with the keyword. -/
theorem passedAs_service {value : Service Nat}
    (given : Gives (serviceRest before.token.left) before value after)
    (stands : Stands Follow.definition text before)
    (same : before.token.terminal = .keyword .service) :
    PassedAs text before after (.service value) := by
  obtain ⟨_, _, starting, given⟩ := gives_bind.1 given
  obtain ⟨name, _, naming, given⟩ := gives_bind.1 given
  obtain ⟨taken, _, taking, given⟩ := gives_bind.1 given
  obtain ⟨base, _, extending, given⟩ := gives_ite_bind.1 given
  obtain ⟨functions, _, reading, given⟩ := gives_bind.1 given
  obtain ⟨rfl, rfl⟩ := gives_pure.1 given
  obtain ⟨keyword, lexeme, middle, lexes, isKeyword, left, isWord, apart, stands, invalid⟩ :=
    takes_keyword_name stands same starting naming
  obtain ⟨bases, place', lexesBase, spelledBase, ⟨_, stands⟩, invalidBase⟩ :=
    spelled_base taking extending stands
  obtain ⟨opening, closing, members, rest, lexes', isOpening, isClosing, stands, spelled⟩ :=
    sound_itemBody sound_function reading stands
  refine ⟨[keyword, lexeme] ++ (bases ++ (opening :: (members ++ [closing]))), rest,
    lexes_append.2 ⟨_, lexes, lexes_append.2 ⟨_, lexesBase, lexes'⟩⟩, stands, fun none => ?_⟩
  obtain ⟨none, spelled⟩ := spelled none
  refine ⟨invalid.symm.trans (invalidBase.symm.trans none), fun limit shallow => ?_,
    spelled.all fun _ _ one => one.2⟩
  have each := greatest_le_iff.1 shallow
  rw [← left]
  exact .service isKeyword isWord apart spelledBase isOpening
    (spelled.imp fun _ function mem one => one.1 limit (each function mem)) isClosing

end Bodies

section Definitions

/-- The scope of a namespace is passed, and reported if it is none. -/
theorem spelled_namespaceScope {scope : String} {expected : Expected}
    (given : Gives namespaceScope before scope after) (stands : Stands expected text before) :
    ∃ mark rest, mark.At (fun _ => true) text rest ∧ Stands [.identifier] rest after ∧
      Parted rest after ∧ (after.invalid = none → before.invalid = none ∧
        ((before.token.terminal.joins → mark.apart) → ScopeSpelling false mark scope)) := by
  obtain ⟨taken, _, taking, others⟩ := gives_bind.1 given
  rcases gives_takes.1 taking with ⟨same, rfl, _, taking⟩ | ⟨-, rfl, rfl⟩
  · simp only [↓reduceIte] at others
    obtain ⟨rfl, rfl⟩ := gives_pure.1 others
    obtain ⟨mark, takes, isMark⟩ := takes_mark stands same taking
    exact ⟨mark, _, takes.here, takes.stands, parted_of_advance stands taking (by rw [same]; rfl),
      fun none => ⟨takes.invalid.symm.trans none, fun _ => .star isMark (by simp)⟩⟩
  · simp only [Bool.false_eq_true, ↓reduceIte] at others
    obtain ⟨name, _, naming, others⟩ := gives_bind.1 others
    obtain ⟨word, takes, isWord, same, parted⟩ := takes_nameReader naming stands
    split at others
    next isScope =>
      obtain ⟨rfl, rfl⟩ := gives_pure.1 others
      have mem : scope ∈ namespaceScopes := by simpa using isScope
      exact ⟨word, _, takes.here, takes.stands, parted, fun none =>
        ⟨takes.invalid.symm.trans none, fun apart => .word isWord mem (apart (by rw [same]; rfl))⟩⟩
    next =>
      simp only [gives_bind, gives_report, gives_pure] at others
      obtain ⟨_, _, rfl, rfl, rfl⟩ := others
      refine ⟨word, _, takes.here, ?_, parted, fun none => by simp at none⟩
      cases takes.stands with
      | ending terminal ends => exact .ending terminal ends
      | token spelled before left => exact .token spelled before left

/-- A literal after a keyword is passed. -/
theorem takes_keyword_literal {word : Keyword} {middle : Ahead} {found : List Char} {path : String}
    (stands : Stands Follow.definition text before) (same : before.token.terminal = .keyword word)
    (starting : Gives (advance [.literal]) before found middle)
    (reading : Gives (literal Follow.definition) middle path after) :
    ∃ keyword lexeme : Lexeme, ∃ rest, Lexes (fun _ => true) text [keyword, lexeme] rest ∧
      keyword.IsWord word.text ∧ lexeme.shape = .literal ∧ path = unquoted lexeme.text ∧
        lexeme.apart ∧ Stands Follow.definition rest after ∧ after.invalid = before.invalid := by
  obtain ⟨keyword, takes, isKeyword, parted⟩ := takes_keyword stands same starting (by decide)
  simp only [literal, gives_bind, gives_pure, gives_take] at reading
  obtain ⟨_, _, ⟨same', reading⟩, rfl, rfl⟩ := reading
  obtain ⟨lexeme, takes', shape, rfl, -⟩ := takes_literal takes.stands same' reading
  exact ⟨keyword, lexeme, _, ⟨_, takes.here, _, takes'.here, rfl⟩, isKeyword, shape, rfl,
    takes'.apart.trans (parted (by rw [same']; rfl)), takes'.stands,
    takes'.invalid.trans takes.invalid⟩

section Kinds

variable {started typed named equated valued : Ahead} {found equal : List Char} {wanted : String}

/-- What is read as a namespace after its keyword is spelled with the keyword. -/
theorem passedAs_space {scope : String} (stands : Stands Follow.definition text before)
    (same : before.token.terminal = .keyword .space)
    (starting : Gives (advance [.identifier, .mark .star]) before found started)
    (scoping : Gives namespaceScope started scope named)
    (naming : Gives (name Follow.definition) named wanted after) :
    PassedAs text before after (.space ⟨scope, wanted⟩) := by
  obtain ⟨keyword, takes, isKeyword, parted⟩ := takes_keyword stands same starting (by decide)
  obtain ⟨mark, _, atMark, stands, parted', spelled⟩ := spelled_namespaceScope scoping takes.stands
  obtain ⟨word, takes', isWord, same', -⟩ := takes_nameReader naming stands
  refine ⟨[keyword, mark, word], _, ⟨_, takes.here, _, atMark, _, takes'.here, rfl⟩, takes'.stands,
    fun none => ?_⟩
  obtain ⟨none, spelled⟩ := spelled (takes'.invalid.symm.trans none)
  exact ⟨takes.invalid.symm.trans none, fun _ _ => .space isKeyword
    (spelled fun joins => atMark.apart.trans (parted joins)) isWord
    (takes'.apart.trans (parted' (by rw [same']; rfl))), trivial⟩

/-- After a keyword a type is passed and a name, each apart from what stands before it. -/
theorem takes_keyword_type_name {reader : TokenReader FieldType}
    {spelling : List Lexeme → FieldType → Prop} {word : Keyword} {start follow : Expected}
    {type : FieldType} (sound : SoundType reader spelling) (stands : Stands Follow.definition text before)
    (same : before.token.terminal = .keyword word)
    (starting : Gives (advance start) before found started) (inner : Inner start)
    (within : Follow.definitionType ⊆ start) (typing : Gives reader started type typed)
    (naming : Gives (name follow) typed wanted after) :
    ∃ (keyword lexeme : Lexeme) (types : List Lexeme) (rest : List Char),
      Lexes (fun _ => true) text (keyword :: (types ++ [lexeme])) rest ∧ keyword.IsWord word.text ∧
        keyword.left = before.token.left ∧ spelling types type ∧ Apart types ∧ lexeme.IsWord wanted ∧
          lexeme.apart ∧ Stands follow rest after ∧ after.invalid = before.invalid := by
  obtain ⟨keyword, takes, isKeyword, parted⟩ := takes_keyword stands same starting inner
  obtain ⟨types, _, lexes, spelled, stands, invalid, parted', joins⟩ :=
    sound typing (takes.stands.mono within)
  obtain ⟨lexeme, takes', isWord, same', -⟩ := takes_nameReader naming stands
  exact ⟨keyword, lexeme, types, _,
    ⟨_, takes.here, lexes_append.2 ⟨_, lexes, _, takes'.here, rfl⟩⟩, isKeyword, takes.left, spelled,
    parted.apart lexes joins, isWord, takes'.apart.trans (parted' (by rw [same']; rfl)),
    takes'.stands, takes'.invalid.trans (invalid.trans takes.invalid)⟩

/-- What is read as a second name for a type after its keyword is spelled with the keyword. -/
theorem passedAs_typedef {type : FieldType} (stands : Stands Follow.definition text before)
    (same : before.token.terminal = .keyword .typedef)
    (starting : Gives (advance Follow.definitionType) before found started)
    (typing : Gives definitionType started type typed)
    (naming : Gives (name Follow.afterAlias) typed wanted named)
    (separating : Gives takeSeparator named () after) :
    PassedAs text before after (.typedef ⟨type, wanted, before.token.left⟩) := by
  obtain ⟨keyword, word, types, _, lexes, isKeyword, left, ⟨spelled, settled⟩, apart, isWord, apart',
    stands, invalid⟩ := takes_keyword_type_name sound_definitionType stands same starting (by decide)
      (List.Subset.refl _) typing naming
  obtain ⟨separator, rest, lexes', spelledSeparator, stands, invalid', -⟩ :=
    exists_separator Follow.definition stands (by decide) (by decide) separating
  refine ⟨keyword :: (types ++ word :: separator), rest, ?_, stands, fun none => ?_⟩
  · simp only [lexes_append, lexes_cons, lexes_nil] at lexes ⊢
    obtain ⟨_, here, _, lexesTypes, _, atName, rfl⟩ := lexes
    exact ⟨_, here, _, lexesTypes, _, atName, lexes'⟩
  refine ⟨invalid.symm.trans (invalid'.symm.trans none), fun limit shallow => ?_, settled⟩
  rw [← left]
  exact .typedef isKeyword (spelled limit shallow) apart isWord apart' spelledSeparator

/-- What is read as a constant declaration after its keyword is spelled with the keyword. -/
theorem passedAs_const {type : FieldType} {value : ConstValue}
    (stands : Stands Follow.definition text before)
    (same : before.token.terminal = .keyword .const)
    (starting : Gives (advance Follow.type) before found started)
    (typing : Gives TokenReader.type started type typed)
    (naming : Gives (name [.mark .equal]) typed wanted named)
    (atEqual : named.token.terminal = .mark .equal)
    (assigning : Gives (advance Follow.constant) named equal equated)
    (reading : Gives constant equated value valued)
    (separating : Gives takeSeparator valued () after) :
    PassedAs text before after (.const ⟨wanted, type, value, before.token.left⟩) := by
  obtain ⟨keyword, word, types, _, lexes, isKeyword, left, ⟨spelledType, settled⟩, apart, isWord,
    apart', stands, invalid⟩ := takes_keyword_type_name sound_type stands same starting (by decide)
      definitionType_subset typing naming
  obtain ⟨mark, takes, isEqual⟩ := takes_mark stands atEqual assigning
  obtain ⟨values, _, lexesValue, stands, spelled⟩ := sound_constant reading takes.stands
  obtain ⟨separator, rest, lexes', spelledSeparator, stands, invalid', -⟩ :=
    exists_separator Follow.definition stands (by decide) (by decide) separating
  refine ⟨keyword :: (types ++ word :: mark :: (values ++ separator)), rest, ?_, stands,
    fun none => ?_⟩
  · simp only [lexes_append, lexes_cons, lexes_nil] at lexes ⊢
    obtain ⟨_, here, _, lexesTypes, _, atName, rfl⟩ := lexes
    exact ⟨_, here, _, lexesTypes, _, atName, _, takes.here, _, lexesValue, lexes'⟩
  obtain ⟨none, spelled⟩ := spelled (invalid'.symm.trans none)
  refine ⟨invalid.symm.trans (takes.invalid.symm.trans none), fun limit shallow => ?_, settled⟩
  obtain ⟨shallowType, shallowValue⟩ := Nat.max_le.1 shallow
  rw [← left]
  exact .const isKeyword (spelledType limit shallowType) apart isWord apart' isEqual
    (spelled limit shallowValue) spelledSeparator

/-- What is read as an enumeration after its keyword is spelled with the keyword. -/
theorem passedAs_enum {values : List (EnumValue Nat)} (stands : Stands Follow.definition text before)
    (same : before.token.terminal = .keyword .enum)
    (starting : Gives (advance [.identifier]) before found started)
    (naming : Gives (name [.mark .leftBrace]) started wanted named)
    (reading : Gives (body [.identifier] enumValue) named values after) :
    PassedAs text before after (.enum ⟨wanted, values, before.token.left⟩) := by
  obtain ⟨keyword, lexeme, _, lexes, isKeyword, left, isWord, apart, stands, invalid⟩ :=
    takes_keyword_name stands same starting naming
  obtain ⟨opening, closing, members, rest, lexes', isOpening, isClosing, stands, spelled⟩ :=
    sound_body reading stands fun _ _ _ rounds stands => by
      obtain ⟨lexemes, rest, lexes, stands, same, -, others⟩ := sound_enumValues rounds stands
      exact ⟨lexemes, rest, lexes, ⟨_, stands⟩, same, others⟩
  refine ⟨[keyword, lexeme] ++ (opening :: (members ++ [closing])), rest,
    lexes_append.2 ⟨_, lexes, lexes'⟩, stands, fun none => ?_⟩
  obtain ⟨none, spelled⟩ := spelled none
  refine ⟨invalid.symm.trans none, fun _ _ => ?_, trivial⟩
  rw [← left]
  exact .enum isKeyword isWord apart isOpening spelled isClosing

end Kinds

/-- A definition is spelled within every limit that its depth does not exceed. -/
theorem sound_definition :
    SoundAs definition Follow.definition Follow.definition fun lexemes value =>
      (∀ limit, value.depth ≤ limit → DefinitionSpelling false limit lexemes value) ∧
        value.Settled := by
  intro before after value text given stands
  obtain ⟨_, _, placing, given⟩ := gives_bind.1 given
  obtain ⟨rfl, rfl⟩ := gives_place.1 placing
  obtain ⟨_, _, ahead, given⟩ := gives_bind.1 given
  obtain ⟨rfl, rfl⟩ := gives_next.1 ahead
  split at given
  next inclusion =>
    simp only [gives_bind, gives_pure] at given
    obtain ⟨_, _, starting, path, _, reading, rfl, rfl⟩ := given
    obtain ⟨keyword, lexeme, rest, lexes, isKeyword, shape, rfl, apart, stands, invalid⟩ :=
      takes_keyword_literal stands inclusion starting reading
    exact ⟨_, rest, lexes, stands, fun none => ⟨invalid.symm.trans none, fun _ _ =>
      .inclusion isKeyword shape apart, trivial⟩⟩
  next cppInclusion =>
    simp only [gives_bind, gives_pure] at given
    obtain ⟨_, _, starting, path, _, reading, rfl, rfl⟩ := given
    obtain ⟨keyword, lexeme, rest, lexes, isKeyword, shape, rfl, apart, stands, invalid⟩ :=
      takes_keyword_literal stands cppInclusion starting reading
    exact ⟨_, rest, lexes, stands, fun none => ⟨invalid.symm.trans none, fun _ _ =>
      .cppInclusion isKeyword shape apart, trivial⟩⟩
  next space =>
    simp only [gives_bind, gives_pure] at given
    obtain ⟨_, _, starting, scope, _, scoping, name, _, naming, rfl, rfl⟩ := given
    exact passedAs_space stands space starting scoping naming
  next typedef =>
    simp only [gives_bind, gives_pure] at given
    obtain ⟨_, _, starting, type, _, typing, name, _, naming, _, _, separating, rfl, rfl⟩ := given
    exact passedAs_typedef stands typedef starting typing naming separating
  next const =>
    simp only [gives_bind, gives_pure, gives_take] at given
    obtain ⟨_, _, starting, type, _, typing, name, _, naming, _, _, ⟨equal, assigning⟩, value, _,
      reading, _, _, separating, rfl, rfl⟩ := given
    exact passedAs_const stands const starting typing naming equal assigning reading separating
  next enum =>
    simp only [gives_bind, gives_pure] at given
    obtain ⟨_, _, starting, name, _, naming, values, _, reading, rfl, rfl⟩ := given
    exact passedAs_enum stands enum starting naming reading
  next struct =>
    obtain ⟨value, reading, rfl⟩ := gives_map.1 given
    exact passedAs_record reading stands struct rfl
  next union =>
    obtain ⟨value, reading, rfl⟩ := gives_map.1 given
    exact passedAs_record reading stands union rfl
  next exception =>
    obtain ⟨value, reading, rfl⟩ := gives_map.1 given
    exact passedAs_record reading stands exception rfl
  next service =>
    obtain ⟨value, reading, rfl⟩ := gives_map.1 given
    exact passedAs_service reading stands service
  next => exact absurd given not_gives_reject

end Definitions

end ThriftIdl.TokenReader
