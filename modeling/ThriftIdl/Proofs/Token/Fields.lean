import ThriftIdl.Proofs.Token.Constants
import ThriftIdl.Proofs.Token.Types

/-!
# Fields over tokens

A field that is read over tokens is spelled by the lexemes that are passed, unless something is said
of its meaning (`sound_field`), and so are fields between round brackets (`spelled_fieldList`). Where
a field may begin, the words for its requiredness are keywords, so that a type that is named like
one of them stands after such a word only.
-/
namespace ThriftIdl.TokenReader

variable {text : List Char} {before after : Ahead}

/-- A type that is only known by its name is the name that was ahead. -/
theorem ahead_of_gives_named {name : String} (given : Gives type before (.named name) after) :
    before.token.terminal = .identifier ∧ String.ofList before.token.text = name := by
  rw [type, gives_get_bind, typeWithin, typeOf] at given
  obtain ⟨_, _, ahead, given⟩ := gives_bind.1 given
  obtain ⟨rfl, rfl⟩ := gives_next.1 ahead
  split at given
  case h_5 same =>
    simp only [↓reduceIte, gives_bind, gives_pure, FieldType.named.injEq, gives_advance] at given
    obtain ⟨_, _, ⟨rfl, -⟩, rfl, -⟩ := given
    exact ⟨same, rfl⟩
  all_goals simp [gives_bind, gives_map] at given

/-- A type is not named like a keyword that is expected where the type begins. -/
theorem ne_keyword_of_gives_named (word : Keyword) {name : String} {expected : Expected}
    (given : Gives type before (.named name) after) (stands : Stands expected text before)
    (mem : .keyword word ∈ expected) : name ≠ word.text := by
  obtain ⟨same, rfl⟩ := ahead_of_gives_named given
  obtain ⟨-, before, -⟩ := stands.here (by simp [same])
  rw [same] at before
  intro equal
  exact before.2.2 word mem (by rw [← equal, String.toList_ofList])

/-- What stands where a type begins is a word. -/
theorem Parted.apart {lexemes : List Lexeme} {rest : List Char} (parted : Parted text before)
    (lexes : Lexes (fun _ => true) text lexemes rest) (joins : before.token.terminal.joins) :
    Apart lexemes :=
  lexes.apart (parted joins)

/-- The number of a field is passed with the colon after it, if there is one. -/
theorem spelled_fieldId {id : Option (List Char)} (given : Gives fieldId before id after)
    (stands : Stands Follow.field text before) :
    ∃ ids rest, Lexes (fun _ => true) text ids rest ∧ Stands Follow.numberedField rest after ∧
      after.invalid = before.invalid ∧
        ((id = none ∧ ids = [] ∧ rest = text ∧ after = before) ∨
          ∃ number colon : Lexeme, ids = [number, colon] ∧ number.shape = .integer ∧
            colon.IsMark .colon ∧ number.left = before.token.left ∧ id = some number.text) := by
  obtain ⟨_, _, ahead, given⟩ := gives_bind.1 given
  obtain ⟨rfl, rfl⟩ := gives_next.1 ahead
  split at given
  next same =>
    simp only [gives_bind, gives_pure, gives_take] at given
    obtain ⟨_, _, starting, _, _, ⟨same', dividing⟩, rfl, rfl⟩ := given
    obtain ⟨number, takes, shape, rfl, -⟩ := takes_integer stands same starting (.inr (by decide))
    obtain ⟨colon, takes', isColon⟩ := takes_mark takes.stands same' dividing
    exact ⟨[number, colon], _, ⟨_, takes.here, _, takes'.here, rfl⟩, takes'.stands,
      takes'.invalid.trans takes.invalid, .inr ⟨number, colon, rfl, shape, isColon, takes.left, rfl⟩⟩
  next =>
    obtain ⟨rfl, rfl⟩ := gives_pure.1 given
    exact ⟨[], text, rfl, stands.mono (List.subset_cons_self _ _), rfl, .inl ⟨rfl, rfl, rfl, rfl⟩⟩

/-- The requiredness of a field and its type are passed. -/
theorem spelled_requiredness_type {word : Requiredness} {value : FieldType} {middle : Ahead}
    (given : Gives requiredness before word middle) (reads : Gives type middle value after)
    (stands : Stands Follow.numberedField text before) :
    ∃ words types rest, Lexes (fun _ => true) text (words ++ types) rest ∧
      RequirednessSpelling words word types value ∧
        ((∀ limit, value.depth ≤ limit → TypeSpelling limit types value) ∧ value.Settled) ∧
          Stands Follow.afterType rest after ∧ after.invalid = before.invalid ∧
            Parted rest after ∧ BeginsAt before.token.left (words ++ types) := by
  -- The two words differ only in what they mean.
  have stated : ∀ {word : Keyword} {found : List Char} {ahead : Ahead},
      before.token.terminal = .keyword word → Gives (advance Follow.type) before found ahead →
        Gives type ahead value after → ∃ (lexeme : Lexeme) (types : List Lexeme) (rest : List Char),
          Lexes (fun _ => true) text (lexeme :: types) rest ∧ lexeme.IsWord word.text ∧
            Apart types ∧
              ((∀ limit, value.depth ≤ limit → TypeSpelling limit types value) ∧ value.Settled) ∧
              Stands Follow.afterType rest after ∧ after.invalid = before.invalid ∧
                Parted rest after ∧ lexeme.left = before.token.left := by
    intro word found ahead same given reads
    obtain ⟨lexeme, takes, isWord, parted⟩ := takes_keyword stands same given (by decide)
    obtain ⟨types, rest, lexes, spelled, stands, invalid, parted', joins⟩ :=
      sound_type reads (takes.stands.mono definitionType_subset)
    exact ⟨lexeme, types, rest, ⟨_, takes.here, lexes⟩, isWord, parted.apart lexes joins, spelled,
      stands, invalid.trans takes.invalid, parted', takes.left⟩
  obtain ⟨taken, _, given, others⟩ := gives_bind.1 given
  rcases gives_takes.1 given with ⟨same, rfl, _, given⟩ | ⟨-, rfl, rfl⟩
  · simp only [↓reduceIte] at others
    obtain ⟨rfl, rfl⟩ := gives_pure.1 others
    obtain ⟨lexeme, types, rest, lexes, isWord, apart, spelled, stands, invalid, parted, left⟩ :=
      stated same given reads
    exact ⟨[lexeme], types, rest, lexes, .required isWord apart, spelled, stands, invalid, parted,
      by simpa [BeginsAt] using left⟩
  simp only [Bool.false_eq_true, ↓reduceIte] at others
  obtain ⟨taken, _, given, last⟩ := gives_bind.1 others
  rcases gives_takes.1 given with ⟨same, rfl, _, given⟩ | ⟨-, rfl, rfl⟩
  · simp only [↓reduceIte] at last
    obtain ⟨rfl, rfl⟩ := gives_pure.1 last
    obtain ⟨lexeme, types, rest, lexes, isWord, apart, spelled, stands, invalid, parted, left⟩ :=
      stated same given reads
    exact ⟨[lexeme], types, rest, lexes, .optional isWord apart, spelled, stands, invalid, parted,
      by simpa [BeginsAt] using left⟩
  · simp only [Bool.false_eq_true, ↓reduceIte] at last
    obtain ⟨rfl, rfl⟩ := gives_pure.1 last
    obtain ⟨types, rest, lexes, spelled, stands', invalid, parted, joins⟩ :=
      sound_type reads (stands.mono (by decide))
    refine ⟨[], types, rest, lexes, .unstated ?_ ?_, spelled, stands', invalid, parted, ?_⟩
    · rintro rfl
      exact ne_keyword_of_gives_named .required reads stands (by decide) rfl
    · rintro rfl
      exact ne_keyword_of_gives_named .optional reads stands (by decide) rfl
    · rw [(stands.here fun ending => by rw [ending] at joins; cases joins).2.2]
      exact lexes.beginsAt

/-- The default value of a field is passed, if there is one. -/
theorem spelled_defaultValue {value : Option ConstValue}
    (given : Gives defaultValue before value after) (stands : Stands Follow.afterFieldName text before) :
    ∃ defaults rest, Lexes (fun _ => true) text defaults rest ∧
      (∃ expected, Follow.field ⊆ expected ∧ Stands expected rest after) ∧
        (after.invalid = none → before.invalid = none ∧
          ∀ limit, greatest ConstValue.depth value.toList ≤ limit →
            DefaultSpelling false limit defaults value) := by
  obtain ⟨taken, _, taking, others⟩ := gives_bind.1 given
  rcases gives_takes.1 taking with ⟨same, rfl, _, taking⟩ | ⟨-, rfl, rfl⟩
  · simp only [↓reduceIte, gives_bind, gives_pure] at others
    obtain ⟨value, _, reading, rfl, rfl⟩ := others
    obtain ⟨equal, takes, isEqual⟩ := takes_mark stands same taking
    obtain ⟨values, rest, lexes, stands, spelled⟩ := sound_constant reading takes.stands
    refine ⟨equal :: values, rest, ⟨_, takes.here, lexes⟩, ⟨_, by decide, stands⟩, fun none => ?_⟩
    obtain ⟨none, spelled⟩ := spelled none
    refine ⟨takes.invalid.symm.trans none, fun limit shallow => .present isEqual (spelled limit ?_)⟩
    simpa [greatest] using shallow
  · simp only [Bool.false_eq_true, ↓reduceIte] at others
    obtain ⟨rfl, rfl⟩ := gives_pure.1 others
    exact ⟨[], text, rfl, ⟨_, by decide, stands⟩, fun none => ⟨none, fun _ _ => .absent⟩⟩

/-- What is meant by the number of a field is looked at. -/
theorem meaning_of_fieldId {id : Option (List Char)} {value : Option Int} {expected : Expected}
    (given : Gives (id.mapM int64) before value after) (stands : Stands expected text before) :
    Stands expected text after ∧ (after.invalid = none → before.invalid = none ∧
      value = id.map Text.signedValue ∧ ∀ found ∈ id, admitsInteger found) := by
  cases id with
  | none =>
    obtain ⟨rfl, rfl⟩ := gives_pure.1 given
    exact ⟨stands, fun none => ⟨none, rfl, by simp⟩⟩
  | some found =>
    obtain ⟨number, meaning, rfl⟩ := gives_map.1 given
    obtain ⟨rfl, stands, -, clear⟩ := sound_int64 meaning stands
    refine ⟨stands, fun none => ?_⟩
    obtain ⟨none, fits⟩ := clear none
    exact ⟨none, rfl, by simpa using fits⟩

/-- A field is spelled within every limit that its depth does not exceed. -/
theorem sound_field :
    SoundAs field Follow.field Follow.field fun lexemes value =>
      (∀ limit, value.depth ≤ limit → FieldSpelling false limit lexemes value) ∧
        value.type.Settled := by
  intro before after value text given stands
  simp only [field, gives_bind, gives_pure, gives_place] at given
  obtain ⟨_, _, ⟨rfl, rfl⟩, id, _, numbering, word, _, requiring, type, _, typing, name, _,
    naming, default, _, setting, _, _, separating, id', _, meaning, rfl, rfl⟩ := given
  obtain ⟨ids, _, lexesId, stands, invalidId, spelledId⟩ := spelled_fieldId numbering stands
  obtain ⟨words, types, _, lexesType, spelledWord, ⟨spelledType, settled⟩, stands, invalidType, parted,
    begins⟩ := spelled_requiredness_type requiring typing stands
  simp only [TokenReader.name, gives_bind, gives_pure, gives_take] at naming
  obtain ⟨_, _, ⟨same, naming⟩, rfl, rfl⟩ := naming
  obtain ⟨word, takes, isWord, -, -⟩ := takes_name stands same naming
  obtain ⟨defaults, _, lexesDefault, ⟨_, less, stands⟩, spelledDefault⟩ :=
    spelled_defaultValue setting takes.stands
  obtain ⟨separator, rest, lexesSeparator, spelledSeparator, stands, invalidSeparator, -⟩ :=
    exists_separator Follow.field stands less (by decide) separating
  obtain ⟨stands, clear⟩ := meaning_of_fieldId meaning stands
  obtain ⟨middle, lexesWords, lexesTypes⟩ := lexes_append.1 lexesType
  refine ⟨ids ++ (words ++ (types ++ word :: (defaults ++ separator))), rest, ?_, stands, ?_⟩
  · simp only [lexes_append, lexes_cons]
    exact ⟨_, lexesId, _, lexesWords, _, lexesTypes, _, takes.here, _, lexesDefault, lexesSeparator⟩
  intro none
  obtain ⟨none, rfl, fits⟩ := clear none
  obtain ⟨none, spelledDefault⟩ := spelledDefault (invalidSeparator.symm.trans none)
  have apart : word.apart := takes.apart.trans (parted (by rw [same]; rfl))
  refine ⟨invalidId.symm.trans (invalidType.symm.trans (takes.invalid.symm.trans none)), ?_, settled⟩
  intro limit shallow
  obtain ⟨shallowType, shallowDefault⟩ := Nat.max_le.1 shallow
  refine .field ?_ spelledWord (spelledType limit shallowType) isWord apart
    (spelledDefault limit shallowDefault) spelledSeparator ?_
  · rcases spelledId with ⟨rfl, rfl, -⟩ | ⟨number, colon, rfl, shape, isColon, -, rfl⟩
    · exact .absent
    · exact .present shape (fits _ rfl) isColon
  · rcases spelledId with ⟨-, rfl, -, rfl⟩ | ⟨number, colon, rfl, -, -, left, -⟩
    · exact begins
    · simpa [BeginsAt] using left

/-- Fields between round brackets are spelled. -/
theorem sound_fieldList (follow : Expected) {expected : Expected} {values : List (Field Nat)}
    (given : Gives (fieldList follow) before values after) (stands : Stands expected text before) :
    ∃ lexemes rest, Lexes (fun _ => true) text lexemes rest ∧ Stands follow rest after ∧
      (after.invalid = none → before.invalid = none ∧
        (∀ limit, greatest Field.depth values ≤ limit →
          FieldListSpelling false limit lexemes values) ∧
            ∀ field ∈ values, field.type.Settled) := by
  simp only [fieldList, gives_bind, gives_pure, gives_take, gives_items] at given
  obtain ⟨_, _, ⟨same, starting⟩, values, _, ⟨rounds, -⟩, _, _, ending, rfl, rfl⟩ := given
  obtain ⟨_, _, _, rest, lexes, isOpening, isClosing, stands, spelled⟩ :=
    sound_enclosed sound_field stands same starting (List.subset_cons_self _ _) rounds ending
  refine ⟨_, rest, lexes, stands, fun none => ?_⟩
  obtain ⟨none, spelled⟩ := spelled none
  refine ⟨none, fun limit shallow => ?_, spelled.all fun _ _ one => one.2⟩
  have each := greatest_le_iff.1 shallow
  exact .fields isOpening (spelled.imp fun _ field mem one => one.1 limit (each field mem)) isClosing

end ThriftIdl.TokenReader
