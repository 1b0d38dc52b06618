import ThriftIdl.Proofs.Reader.Lexemes

/-!
# Direct reading of types

Direct reading gives a type exactly where lexemes spell it. One direction holds wherever a type is
read (`spelled_fieldType`). In the other direction what follows the type matters (`EndsType`), since
a list goes on with the name of a type of another language and a container may be confused with the
name of a type: a field may be called `cpp_type`, and its type `map` (`gives_fieldType`).
-/
namespace ThriftIdl.Reader

open Readable Text

variable {text rest : List Char}

section CppTypes

/-- The name of a type of another language is spelled. -/
theorem spelled_cppType {value : String}
    (given : (cppType : Reader (List Char) String).Gives (skip text) value rest) :
    ∃ lexemes, Lexes takesExponent text lexemes rest ∧ CppTypeSpelling lexemes := by
  obtain ⟨word, name, lexes, isWord, shape, apart, -⟩ := (gives_keyword_literal (by decide)).1 given
  exact ⟨[word, name], lexes, .present isWord shape apart⟩

/-- What may stand before the bracket of a container is spelled, and skipped after. -/
theorem spelled_leadingCppType {β : Type} {next : Unit → Reader (List Char) β} {value : β}
    (given : (leadingCppType >>= next).Gives text value rest) :
    ∃ lexemes after, Lexes takesExponent text lexemes after ∧ CppTypeSpelling lexemes ∧
      (next ()).Gives (skip after) value rest := by
  obtain ⟨_, place, leading, given⟩ := gives_bind.1 given
  have leading := gives_skipSeparator_bind.1 leading
  obtain ⟨found, after, tried, leading⟩ := gives_bind.1 leading
  rcases gives_optional.1 tried with ⟨name, reads, rfl⟩ | ⟨-, rfl, rfl⟩
  · obtain ⟨lexemes, lexes, spelling⟩ := spelled_cppType reads
    have skipped := gives_skipSeparator_bind.1 leading
    obtain ⟨-, rfl⟩ := gives_pure.1 skipped
    exact ⟨lexemes, after, lexes, spelling, given⟩
  · obtain ⟨-, rfl⟩ := gives_pure.1 leading
    exact ⟨[], text, rfl, .absent, given⟩

/-- What may stand after the bracket of a list is spelled. -/
theorem spelled_trailingCppType {value : Option String}
    (given : (optional trailingCppType : Reader (List Char) (Option String)).Gives text value rest) :
    ∃ lexemes, Lexes takesExponent text lexemes rest ∧ CppTypeSpelling lexemes := by
  rcases gives_optional.1 given with ⟨name, reads, rfl⟩ | ⟨-, rfl, rfl⟩
  · exact spelled_cppType (gives_skipSeparator_bind.1 reads)
  · exact ⟨[], rfl, .absent⟩

end CppTypes

section Soundness

variable {inner : Option (Reader (List Char) FieldType)}
  {spelling : List Lexeme → FieldType → Prop}

/-- A single inner type between angle brackets is spelled if the type is. -/
theorem spelled_angled (wrap : FieldType → FieldType) {production : String} {value : FieldType}
    (sound : ∀ rule, inner = some rule → Sound rule spelling)
    (given : (character '<' production >>= fun _ => inside production inner fun type =>
      skipSeparator >>= fun _ => type >>= fun element => skipSeparator >>= fun _ =>
        character '>' production >>= fun _ => Reader.pure (wrap element)).Gives (skip text) value rest) :
    ∃ (less more : Lexeme) (elements : List Lexeme) (element : FieldType),
      Lexes takesExponent text (less :: (elements ++ [more])) rest ∧ less.IsMark .lessThan ∧
        spelling elements element ∧ more.IsMark .moreThan ∧ value = wrap element := by
  obtain ⟨less, _, atLess, isLess, given⟩ := (gives_character_bind .lessThan).1 given
  obtain ⟨rule, isInner, given⟩ := gives_inside.1 given
  obtain ⟨elements, element, _, lexesElements, spellsElement, given⟩ :=
    (sound rule isInner).bind (gives_skipSeparator_bind.1 given)
  obtain ⟨more, _, atMore, isMore, given⟩ :=
    (gives_character_bind .moreThan).1 (gives_skipSeparator_bind.1 given)
  obtain ⟨rfl, rfl⟩ := gives_pure.1 given
  exact ⟨less, more, elements, element,
    ⟨_, atLess, lexes_append.2 ⟨_, lexesElements, _, atMore, rfl⟩⟩, isLess, spellsElement, isMore, rfl⟩

/-- A map type is spelled if its inner types are. -/
theorem spelled_mapTypeOf (sound : ∀ rule, inner = some rule → Sound rule spelling) :
    Sound (mapTypeOf inner) (ContainerTypeSpelling spelling) := by
  intro text rest value given
  obtain ⟨word, _, atWord, isWord, given⟩ := (gives_keyword_bind (by decide)).1 given
  obtain ⟨cppType, _, lexesCppType, spellsCppType, given⟩ := spelled_leadingCppType given
  obtain ⟨less, _, atLess, isLess, given⟩ := (gives_character_bind .lessThan).1 given
  obtain ⟨rule, isInner, given⟩ := gives_inside.1 given
  obtain ⟨keys, key, _, lexesKeys, spellsKey, given⟩ :=
    (sound rule isInner).bind (gives_skipSeparator_bind.1 given)
  obtain ⟨comma, _, atComma, isComma, given⟩ :=
    (gives_character_bind .comma).1 (gives_skipSeparator_bind.1 given)
  obtain ⟨contents, content, _, lexesContents, spellsContent, given⟩ :=
    (sound rule isInner).bind (gives_skipSeparator_bind.1 given)
  obtain ⟨more, _, atMore, isMore, given⟩ :=
    (gives_character_bind .moreThan).1 (gives_skipSeparator_bind.1 given)
  obtain ⟨rfl, rfl⟩ := gives_pure.1 given
  refine ⟨_, ?_, .map isWord spellsCppType isLess spellsKey isComma spellsContent isMore⟩
  simp only [lexes_cons, lexes_append, lexes_nil]
  exact ⟨_, atWord, _, lexesCppType, _, atLess, _, lexesKeys, _, atComma, _, lexesContents, _,
    atMore, rfl⟩

/-- A set type is spelled if its inner type is. -/
theorem spelled_setTypeOf (sound : ∀ rule, inner = some rule → Sound rule spelling) :
    Sound (setTypeOf inner) (ContainerTypeSpelling spelling) := by
  intro text rest value given
  obtain ⟨word, _, atWord, isWord, given⟩ := (gives_keyword_bind (by decide)).1 given
  obtain ⟨cppType, _, lexesCppType, spellsCppType, given⟩ := spelled_leadingCppType given
  obtain ⟨less, more, elements, element, lexes, isLess, spellsElement, isMore, rfl⟩ :=
    spelled_angled .set sound given
  refine ⟨_, ?_, .set isWord spellsCppType isLess spellsElement isMore⟩
  exact ⟨_, atWord, lexes_append.2 ⟨_, lexesCppType, lexes⟩⟩

/-- A list type is spelled if its inner type is. -/
theorem spelled_listTypeOf (sound : ∀ rule, inner = some rule → Sound rule spelling) :
    Sound (listTypeOf inner) (ContainerTypeSpelling spelling) := by
  intro text rest value given
  obtain ⟨word, _, atWord, isWord, given⟩ := (gives_keyword_bind (by decide)).1 given
  obtain ⟨element, _, body, given⟩ := gives_bind.1 (gives_skipSeparator_bind.1 given)
  obtain ⟨_, _, trailing, given⟩ := gives_bind.1 given
  obtain ⟨rfl, rfl⟩ := gives_pure.1 given
  obtain ⟨less, more, elements, _, lexes, isLess, spellsElement, isMore, rfl⟩ :=
    spelled_angled id sound body
  obtain ⟨cppType, lexesCppType, spellsCppType⟩ := spelled_trailingCppType trailing
  refine ⟨_, ?_, .list isWord isLess spellsElement isMore spellsCppType⟩
  simp only [lexes_cons, lexes_append, lexes_nil] at lexes ⊢
  obtain ⟨_, atLess, _, lexesElements, _, atMore, rfl⟩ := lexes
  exact ⟨_, atWord, _, atLess, _, lexesElements, _, atMore, lexesCppType⟩

/-- A container type is spelled if its inner types are. -/
theorem spelled_containerTypeOf (sound : ∀ rule, inner = some rule → Sound rule spelling) :
    Sound (containerTypeOf inner) (ContainerTypeSpelling spelling) := by
  intro text rest value given
  obtain map | ⟨-, set | ⟨-, list | ⟨-, impossible⟩⟩⟩ := gives_alternatives.1 given
  · exact spelled_mapTypeOf sound map
  · exact spelled_setTypeOf sound set
  · exact spelled_listTypeOf sound list
  · exact impossible.elim

/-- The keywords of base types are names. -/
theorem isName_baseType (type : BaseType) : IsName type.keyword.toList := by
  cases type <;> decide

/-- The keywords among which a base type is sought are names. -/
theorem isName_baseTypes :
    ∀ word ∈ BaseType.all.map fun type => (type.keyword, type), IsName word.1.toList := by
  intro word mem
  obtain ⟨type, -, rfl⟩ := List.mem_map.1 mem
  exact isName_baseType type

/-- Different base types have different keywords. -/
theorem baseType_keyword_inj {type type' : BaseType} (same : type.keyword = type'.keyword) :
    type = type' := by
  cases type <;> cases type' <;> first | rfl | simp [BaseType.keyword] at same

/-- A base type is spelled. -/
theorem spelled_baseType :
    Sound (FieldType.base <$> (baseType : Reader (List Char) BaseType)) BaseTypeSpelling := by
  intro text rest value given
  obtain ⟨type, reads, rfl⟩ := gives_map.1 given
  obtain ⟨word, mem, lexeme, here, isWord⟩ := exists_of_gives_oneOf isName_baseTypes reads
  obtain ⟨type', -, same⟩ := List.mem_map.1 mem
  simp only [Prod.mk.injEq] at same
  obtain ⟨rfl, rfl⟩ := same
  exact ⟨[lexeme], ⟨rest, here, rfl⟩, .base isWord⟩

/-- Where the keyword of a base type stands, it is read. -/
theorem gives_baseType {lexeme : Lexeme} {type : BaseType} (here : lexeme.At takesExponent text rest)
    (isWord : lexeme.IsWord type.keyword) :
    (baseType : Reader (List Char) BaseType).Gives (skip text) type rest := by
  refine gives_oneOf isName_baseTypes ?_ (List.mem_map.2 ⟨type, type.mem_all, rfl⟩) here isWord
  intro value' mem
  obtain ⟨type', -, same⟩ := List.mem_map.1 mem
  simp only [Prod.mk.injEq] at same
  rw [← same.2]
  exact baseType_keyword_inj same.1

/-- A type is spelled if its inner types are. -/
theorem spelled_fieldTypeOf (sound : ∀ rule, inner = some rule → Sound rule spelling) :
    Sound (fieldTypeOf inner) fun lexemes type => TypeSpelling 0 lexemes type ∨
      ContainerTypeSpelling spelling lexemes type := by
  intro text rest value given
  obtain base | ⟨refused, container | ⟨-, named | ⟨-, impossible⟩⟩⟩ := gives_alternatives.1 given
  · obtain ⟨lexemes, lexes, spelled⟩ := spelled_baseType base
    exact ⟨lexemes, lexes, .inl (.inl spelled)⟩
  · obtain ⟨lexemes, lexes, spelled⟩ := spelled_containerTypeOf sound container
    exact ⟨lexemes, lexes, .inr spelled⟩
  · obtain ⟨name, reads, rfl⟩ := gives_map.1 named
    obtain ⟨lexeme, here, isWord⟩ := gives_name.1 reads
    refine ⟨[lexeme], ⟨rest, here, rfl⟩, .inl (.inr (.named isWord ?_))⟩
    rintro type rfl
    exact (refuses_map.1 refused).not_gives type rest (gives_baseType here isWord)
  · exact impossible.elim

/-- A container type has an inner type. -/
theorem not_containerTypeSpelling {lexemes : List Lexeme} {type : FieldType} :
    ¬ ContainerTypeSpelling (fun _ _ => False) lexemes type := by
  rintro (⟨_, _, _, inside, _⟩ | ⟨_, _, _, inside, _⟩ | ⟨_, _, inside, _⟩) <;> exact inside

/-- Where no level is left, no reader of inner types is there. -/
theorem nothing_sound : ∀ rule : Reader (List Char) FieldType, none = some rule →
    Sound rule fun _ _ => False := by
  rintro _ ⟨⟩

/-- What direct reading gives as a type within some levels is spelled within them. -/
theorem spelled_fieldType (depth : Nat) : Sound (fieldType depth) (TypeSpelling depth) := by
  induction depth with
  | zero =>
    intro text rest value given
    obtain ⟨lexemes, lexes, spelled | container⟩ := spelled_fieldTypeOf nothing_sound given
    · exact ⟨lexemes, lexes, spelled⟩
    · exact absurd container not_containerTypeSpelling
  | succ depth ih =>
    intro text rest value given
    obtain ⟨lexemes, lexes, spelled⟩ := spelled_fieldTypeOf (by rintro _ ⟨⟩; exact ih) given
    exact ⟨lexemes, lexes, typeSpelling_succ.2 spelled⟩

/-- What direct reading gives as a type that may get a second name is spelled. -/
theorem spelled_definitionType (depth : Nat) :
    Sound (definitionType depth) (DefinitionTypeSpelling depth) := by
  intro text rest value given
  obtain base | ⟨-, container | ⟨-, impossible⟩⟩ := gives_alternatives.1 given
  · obtain ⟨lexemes, lexes, spelled⟩ := spelled_baseType base
    refine ⟨lexemes, lexes, ?_, ?_⟩
    · cases depth <;> exact .inl spelled
    · obtain ⟨_⟩ := spelled
      simp
  · cases depth with
    | zero =>
      obtain ⟨lexemes, lexes, spelled⟩ := spelled_containerTypeOf nothing_sound container
      exact absurd spelled not_containerTypeSpelling
    | succ depth =>
      obtain ⟨lexemes, lexes, spelled⟩ :=
        spelled_containerTypeOf (by rintro _ ⟨⟩; exact spelled_fieldType depth) container
      refine ⟨lexemes, lexes, typeSpelling_succ.2 (.inr spelled), ?_⟩
      cases spelled <;> simp
  · exact impossible.elim

end Soundness

section Completeness

/-- What follows a type: a mark inside a container, or a name with no literal after it. -/
inductive EndsType (text : List Char) : Prop where
  /-- The mark after an inner type. -/
  | mark {lexeme : Lexeme} {rest : List Char} : lexeme.At takesExponent text rest →
      lexeme.IsMark .comma ∨ lexeme.IsMark .moreThan → EndsType text
  /-- The name of something of the type. -/
  | name {lexeme : Lexeme} {rest : List Char} : lexeme.At takesExponent text rest →
      lexeme.shape = .word → Faces rest (fun next => next.shape ≠ .literal) → EndsType text

/-- The bracket that opens a container does not follow a type. -/
theorem EndsType.faces (ends : EndsType text) :
    Faces text fun lexeme => ¬ lexeme.IsMark .lessThan := by
  rcases ends with ⟨here, comma | more⟩ | ⟨here, word, -⟩
  · exact here.faces fun less => absurd (comma.unique less) (by simp)
  · exact here.faces fun less => absurd (more.unique less) (by simp)
  · exact here.faces fun less => absurd (word.symm.trans less) (by simp)

/-- No type of another language follows a type. -/
theorem EndsType.refuses_cppType (ends : EndsType text) :
    (cppType : Reader (List Char) String).Refuses (skip text) := by
  refine refuses_keyword_bind (by decide) fun lexeme after here isWord => ?_
  refine refuses_separator_bind fun _ => refuses_literal ?_
  rcases ends with ⟨there, comma | more⟩ | ⟨there, -, faces⟩
  · exact absurd ((there.unique here).1 ▸ comma) isWord.not_isMark
  · exact absurd ((there.unique here).1 ▸ more) isWord.not_isMark
  · rw [← (there.unique here).2]
    exact faces

/-- Where a mark stands, no type of another language is named. -/
theorem refuses_cppType_of_isMark {lexeme : Lexeme} {mark : Mark}
    (here : lexeme.At takesExponent text rest) (isMark : lexeme.IsMark mark) :
    (cppType : Reader (List Char) String).Refuses (skip text) := by
  refine refuses_keyword_bind (by decide) fun lexeme' after here' isWord => ?_
  exact absurd ((here.unique here').1 ▸ isMark) isWord.not_isMark

/-- The name of a type of another language is read where it is spelled. -/
theorem gives_cppType {lexemes : List Lexeme} (lexes : Lexes takesExponent text lexemes rest)
    (spelling : CppTypeSpelling lexemes) (some : lexemes ≠ []) :
    ∃ value, (cppType : Reader (List Char) String).Gives (skip text) value rest := by
  cases spelling with
  | absent => exact absurd rfl some
  | @present word name isWord shape apart =>
    exact ⟨TokenReader.unquoted name.text,
      (gives_keyword_literal (by decide)).2 ⟨word, name, lexes, isWord, shape, apart, rfl⟩⟩

/-- What may stand before the bracket of a container is read to that bracket. -/
theorem gives_leadingCppType_bind {β : Type} {lexemes : List Lexeme} {after : List Char}
    {next : Unit → Reader (List Char) β} {value : β} (lexes : Lexes takesExponent text lexemes after)
    (spelling : CppTypeSpelling lexemes) {opening : Lexeme} {mark : Mark} {place : List Char}
    (here : opening.At takesExponent after place) (isMark : opening.IsMark mark)
    (given : (next ()).Gives (skip after) value rest) :
    (leadingCppType >>= next).Gives text value rest := by
  refine Gives.bind (gives_skipSeparator_bind.2 ?_) given
  by_cases none : lexemes = []
  · subst none
    obtain rfl := lexes
    exact Gives.bind (refuses_cppType_of_isMark here isMark).optional (gives_pure.2 ⟨rfl, rfl⟩)
  · obtain ⟨name, given⟩ := gives_cppType lexes spelling none
    exact Gives.bind given.optional (gives_skipSeparator_bind.2 (gives_pure.2 ⟨rfl, rfl⟩))

/-- What may stand after the bracket of a list is read to its end. -/
theorem gives_trailingCppType {lexemes : List Lexeme} (lexes : Lexes takesExponent text lexemes rest)
    (spelling : CppTypeSpelling lexemes) (ends : EndsType rest) :
    ∃ value, (optional trailingCppType : Reader (List Char) (Option String)).Gives text value
      rest := by
  by_cases none : lexemes = []
  · subst none
    obtain rfl := lexes
    exact ⟨Option.none, (refuses_skipSeparator_bind ends.refuses_cppType).optional⟩
  · obtain ⟨name, given⟩ := gives_cppType lexes spelling none
    exact ⟨some name, (gives_skipSeparator_bind.2 given).optional⟩

/-- A reader gives the types that are spelled where types may stand. -/
def CompleteType (reader : Reader (List Char) FieldType)
    (spelling : List Lexeme → FieldType → Prop) : Prop :=
  ∀ ⦃text rest : List Char⦄ ⦃lexemes : List Lexeme⦄ ⦃type : FieldType⦄,
    Lexes takesExponent text lexemes rest → spelling lexemes type → EndsType rest →
      reader.Gives (skip text) type rest

variable {rule : Reader (List Char) FieldType} {spelling : List Lexeme → FieldType → Prop}

/-- A single inner type between angle brackets is read where it is spelled, if the type is. -/
theorem gives_angled (wrap : FieldType → FieldType) {production : String} {less more : Lexeme}
    {elements : List Lexeme} {element : FieldType} (complete : CompleteType rule spelling)
    (lexes : Lexes takesExponent text (less :: (elements ++ [more])) rest) (isLess : less.IsMark .lessThan)
    (spelled : spelling elements element) (isMore : more.IsMark .moreThan) :
    (character '<' production >>= fun _ => inside production (some rule) fun type =>
      skipSeparator >>= fun _ => type >>= fun element => skipSeparator >>= fun _ =>
        character '>' production >>= fun _ => Reader.pure (wrap element)).Gives (skip text) (wrap element)
          rest := by
  obtain ⟨_, atLess, lexes⟩ := lexes
  obtain ⟨_, lexesElements, _, atMore, rfl⟩ := lexes_append.1 lexes
  refine (gives_character_bind .lessThan).2 ⟨_, _, atLess, isLess, gives_inside.2 ⟨rule, rfl, ?_⟩⟩
  have reads := complete lexesElements spelled (.mark atMore (.inr isMore))
  refine gives_skipSeparator_bind.2 (reads.bind ?_)
  refine gives_skipSeparator_bind.2 ((gives_character_bind .moreThan).2 ⟨_, _, atMore, isMore, ?_⟩)
  exact gives_pure.2 ⟨rfl, rfl⟩

/-- A map type is read where it is spelled, if its inner types are. -/
theorem gives_mapTypeOf (complete : CompleteType rule spelling) {lexemes : List Lexeme}
    {key content : FieldType} (lexes : Lexes takesExponent text lexemes rest)
    (spelled : ContainerTypeSpelling spelling lexemes (.map key content)) :
    (mapTypeOf (some rule)).Gives (skip text) (.map key content) rest := by
  cases spelled with
  | map isWord spellsCppType isLess spellsKey isComma spellsContent isMore =>
    simp only [lexes_cons, lexes_append, lexes_nil] at lexes
    obtain ⟨_, atWord, _, lexesCppType, _, atLess, _, lexesKeys, _, atComma, _, lexesContents, _,
      atMore, rfl⟩ := lexes
    refine (gives_keyword_bind (by decide)).2 ⟨_, _, atWord, isWord, ?_⟩
    refine gives_leadingCppType_bind lexesCppType spellsCppType atLess isLess ?_
    refine (gives_character_bind .lessThan).2 ⟨_, _, atLess, isLess, gives_inside.2 ⟨rule, rfl, ?_⟩⟩
    have readsKey := complete lexesKeys spellsKey (.mark atComma (.inl isComma))
    have readsContent := complete lexesContents spellsContent (.mark atMore (.inr isMore))
    refine gives_skipSeparator_bind.2 (readsKey.bind (gives_skipSeparator_bind.2 ?_))
    refine (gives_character_bind .comma).2 ⟨_, _, atComma, isComma, gives_skipSeparator_bind.2 ?_⟩
    refine readsContent.bind ?_
    refine gives_skipSeparator_bind.2 ((gives_character_bind .moreThan).2 ⟨_, _, atMore, isMore, ?_⟩)
    exact gives_pure.2 ⟨rfl, rfl⟩

/-- A set type is read where it is spelled, if its inner type is. -/
theorem gives_setTypeOf (complete : CompleteType rule spelling) {lexemes : List Lexeme}
    {element : FieldType} (lexes : Lexes takesExponent text lexemes rest)
    (spelled : ContainerTypeSpelling spelling lexemes (.set element)) :
    (setTypeOf (some rule)).Gives (skip text) (.set element) rest := by
  cases spelled with
  | set isWord spellsCppType isLess spellsElement isMore =>
    obtain ⟨_, atWord, lexes⟩ := lexes
    obtain ⟨_, lexesCppType, lexes⟩ := lexes_append.1 lexes
    have opens := lexes
    obtain ⟨_, atLess, -⟩ := opens
    refine (gives_keyword_bind (by decide)).2 ⟨_, _, atWord, isWord, ?_⟩
    refine gives_leadingCppType_bind lexesCppType spellsCppType atLess isLess ?_
    exact gives_angled .set complete lexes isLess spellsElement isMore

/-- A list type is read where it is spelled, if its inner type is. -/
theorem gives_listTypeOf (complete : CompleteType rule spelling) {lexemes : List Lexeme}
    {element : FieldType} (lexes : Lexes takesExponent text lexemes rest)
    (spelled : ContainerTypeSpelling spelling lexemes (.list element)) (ends : EndsType rest) :
    (listTypeOf (some rule)).Gives (skip text) (.list element) rest := by
  cases spelled with
  | list isWord isLess spellsElement isMore spellsCppType =>
    simp only [lexes_cons, lexes_append] at lexes
    obtain ⟨_, atWord, _, atLess, _, lexesElements, _, atMore, lexesCppType⟩ := lexes
    have body : Lexes takesExponent _ (_ :: (_ ++ [_])) _ :=
      ⟨_, atLess, lexes_append.2 ⟨_, lexesElements, _, atMore, rfl⟩⟩
    refine (gives_keyword_bind (by decide)).2 ⟨_, _, atWord, isWord, gives_skipSeparator_bind.2 ?_⟩
    obtain ⟨cppType, trailing⟩ := gives_trailingCppType lexesCppType spellsCppType ends
    refine Gives.bind ?_ (trailing.bind (gives_pure.2 ⟨rfl, rfl⟩))
    exact gives_angled id complete body isLess spellsElement isMore

/-- A container type is read where it is spelled, if its inner types are. -/
theorem gives_containerTypeOf (complete : CompleteType rule spelling) :
    CompleteType (containerTypeOf (some rule)) (ContainerTypeSpelling spelling) := by
  intro text rest lexemes type lexes spelled ends
  -- A container of another kind is refused by its keyword.
  have other : ∀ {β : Type} {word word' production : String} {lexeme : Lexeme} {after : List Char}
      {next : Unit → Reader (List Char) β}, lexeme.At takesExponent text after →
      lexeme.IsWord word → IsName word'.toList → word ≠ word' →
      (keyword word' production >>= next).Refuses (skip text) := by
    intro β word word' production lexeme after next here isWord isName different
    exact (refuses_keyword isName (here.faces fun isOther => different (isWord.unique isOther))).bind
  have whole := spelled
  have starts := lexes
  cases spelled with
  | map => exact gives_alternatives.2 (.inl (gives_mapTypeOf complete lexes whole))
  | set isWord =>
    obtain ⟨_, here, -⟩ := starts
    exact gives_alternatives.2 (.inr ⟨other here isWord (by decide) (by decide),
      .inl (gives_setTypeOf complete lexes whole)⟩)
  | list isWord =>
    obtain ⟨_, here, -⟩ := starts
    exact gives_alternatives.2 (.inr ⟨other here isWord (by decide) (by decide),
      .inr ⟨other here isWord (by decide) (by decide), .inl (gives_listTypeOf complete lexes whole ends)⟩⟩)

/-- No container type is read where the name of a type stands, even if the name is the keyword of a
container. -/
theorem refuses_containerTypeOf {inner : Option (Reader (List Char) FieldType)} {word : Lexeme}
    (here : word.At takesExponent text rest) (ends : EndsType rest) :
    (containerTypeOf inner).Refuses (skip text) := by
  have bracket : ∀ {β : Type} {production : String} {next : Unit → Reader (List Char) β},
      (character '<' production >>= next).Refuses (skip rest) := by
    intro β production next
    refine refuses_character_bind .lessThan fun lexeme after here' isMark => ?_
    exact absurd isMark (ends.faces lexeme after here')
  have leading : (leadingCppType : Reader (List Char) Unit).Gives rest () (skip rest) :=
    gives_skipSeparator_bind.2 (ends.refuses_cppType.optional.bind (gives_pure.2 ⟨rfl, rfl⟩))
  refine refuses_alternatives fun rule mem => ?_
  simp only [List.mem_cons, List.not_mem_nil, or_false] at mem
  rcases mem with rfl | rfl | rfl
  · refine refuses_keyword_bind (by decide) fun lexeme after here' _ => ?_
    rw [← (here.unique here').2]
    exact leading.bind_refuses bracket
  · refine refuses_keyword_bind (by decide) fun lexeme after here' _ => ?_
    rw [← (here.unique here').2]
    exact leading.bind_refuses bracket
  · refine refuses_keyword_bind (by decide) fun lexeme after here' _ => ?_
    rw [← (here.unique here').2]
    exact refuses_skipSeparator_bind (Refuses.bind bracket)

/-- Where another word stands than the keyword of a base type, no base type is read. -/
theorem refuses_baseType {word : Lexeme} {name : String} (here : word.At takesExponent text rest)
    (isWord : word.IsWord name) (other : ∀ type : BaseType, name ≠ type.keyword) :
    (FieldType.base <$> (baseType : Reader (List Char) BaseType)).Refuses (skip text) := by
  refine refuses_map.2 (refuses_oneOf isName_baseTypes (by decide) (here.faces ?_))
  intro keyword mem isKeyword
  obtain ⟨type, -, rfl⟩ := List.mem_map.1 mem
  exact other type (isWord.unique isKeyword)

/-- A container type begins with its keyword. -/
theorem exists_word_of_containerTypeSpelling {lexemes : List Lexeme} {type : FieldType}
    (spelled : ContainerTypeSpelling spelling lexemes type) :
    ∃ (word : Lexeme) (others : List Lexeme) (name : String), lexemes = word :: others ∧
      word.IsWord name ∧ ∀ type : BaseType, name ≠ type.keyword := by
  cases spelled with
  | map isWord => exact ⟨_, _, _, rfl, isWord, fun type => by cases type <;> decide⟩
  | set isWord => exact ⟨_, _, _, rfl, isWord, fun type => by cases type <;> decide⟩
  | list isWord => exact ⟨_, _, _, rfl, isWord, fun type => by cases type <;> decide⟩

/-- Where a container type is spelled, no base type is read. -/
theorem refuses_baseType_of_container {lexemes : List Lexeme} {type : FieldType}
    (lexes : Lexes takesExponent text lexemes rest)
    (spelled : ContainerTypeSpelling spelling lexemes type) :
    (FieldType.base <$> (baseType : Reader (List Char) BaseType)).Refuses (skip text) := by
  obtain ⟨word, others, name, rfl, isWord, other⟩ := exists_word_of_containerTypeSpelling spelled
  obtain ⟨after, here, -⟩ := lexes
  exact refuses_baseType here isWord other

/-- A type of one lexeme is read where it is spelled, however many levels are left. -/
theorem gives_fieldTypeOf_zero {inner : Option (Reader (List Char) FieldType)} :
    CompleteType (fieldTypeOf inner) (TypeSpelling 0) := by
  intro text rest lexemes type lexes spelled ends
  rcases spelled with base | named
  · obtain @⟨word, type, isWord⟩ := base
    obtain ⟨_, here, rfl⟩ := lexes
    exact gives_alternatives.2 (.inl ((gives_baseType here isWord).map _))
  · obtain ⟨isWord, other⟩ := named
    obtain ⟨_, here, rfl⟩ := lexes
    refine gives_alternatives.2 (.inr ⟨refuses_baseType here isWord other,
      .inr ⟨refuses_containerTypeOf here ends, .inl ?_⟩⟩)
    exact (gives_name.2 ⟨_, here, isWord⟩).map _

/-- A type that is spelled within some levels is read within them. -/
theorem gives_fieldType (depth : Nat) : CompleteType (fieldType depth) (TypeSpelling depth) := by
  induction depth with
  | zero => exact gives_fieldTypeOf_zero
  | succ depth ih =>
    intro text rest lexemes type lexes spelled ends
    rcases typeSpelling_succ.1 spelled with simple | container
    · exact gives_fieldTypeOf_zero lexes simple ends
    · exact gives_alternatives.2 (.inr ⟨refuses_baseType_of_container lexes container,
        .inl (gives_containerTypeOf ih lexes container ends)⟩)

/-- A type that may get a second name is read where it is spelled. -/
theorem gives_definitionType (depth : Nat) :
    CompleteType (definitionType depth) (DefinitionTypeSpelling depth) := by
  intro text rest lexemes type lexes spelled ends
  obtain ⟨spelled, unnamed⟩ := spelled
  have simple : ∀ {lexemes : List Lexeme}, Lexes takesExponent text lexemes rest →
      TypeSpelling 0 lexemes type → (definitionType depth).Gives (skip text) type rest := by
    rintro lexemes lexes (base | ⟨-, -⟩)
    · obtain @⟨word, type, isWord⟩ := base
      obtain ⟨_, here, rfl⟩ := lexes
      exact gives_alternatives.2 (.inl ((gives_baseType here isWord).map _))
    · exact absurd rfl (unnamed _)
  cases depth with
  | zero => exact simple lexes spelled
  | succ depth =>
    rcases typeSpelling_succ.1 spelled with single | container
    · exact simple lexes single
    · exact gives_alternatives.2 (.inr ⟨refuses_baseType_of_container lexes container,
        .inl (gives_containerTypeOf (gives_fieldType depth) lexes container ends)⟩)

end Completeness

end ThriftIdl.Reader
