import ThriftIdl.Proofs.Reader.Constants
import ThriftIdl.Proofs.Reader.Items
import ThriftIdl.Proofs.Reader.Types

/-!
# Direct reading of fields

Direct reading gives a field exactly where lexemes spell it (`spelled_field`, `gives_field`), and the
fields between round brackets likewise (`spelled_fieldList`, `gives_fieldList`). A field may be
followed by whatever begins another field or closes the body (`FollowsField`); a literal, for
instance, would make the name `cpp_type` of a field part of its list type.
-/
namespace ThriftIdl.Reader

open Readable Text

variable {depth : Nat} {text rest after : List Char}

section Words

/-- A type that is known by its name is spelled by that name. -/
theorem typeSpelling_named {lexemes : List Lexeme} {name : String}
    (spelled : TypeSpelling depth lexemes (.named name)) :
    ∃ word : Lexeme, lexemes = [word] ∧ word.IsWord name := by
  have named : ∀ {lexemes : List Lexeme}, TypeSpelling 0 lexemes (.named name) →
      ∃ word : Lexeme, lexemes = [word] ∧ word.IsWord name := by
    rintro lexemes (base | named)
    · cases base
    · obtain ⟨isWord, -⟩ := named
      exact ⟨_, rfl, isWord⟩
  cases depth with
  | zero => exact named spelled
  | succ depth =>
    rcases typeSpelling_succ.1 spelled with single | container
    · exact named single
    · cases container

/-- The keywords that begin types. -/
def typeWords : List String := ["map", "set", "list"] ++ BaseType.all.map BaseType.keyword

/-- A type begins with a word: its name, or a keyword that begins types. -/
theorem typeSpelling_begins {lexemes : List Lexeme} {type : FieldType}
    (spelled : TypeSpelling depth lexemes type) :
    ∃ (word : Lexeme) (others : List Lexeme) (name : String), lexemes = word :: others ∧
      word.IsWord name ∧ (type = .named name ∨ name ∈ typeWords) := by
  have single : ∀ {lexemes : List Lexeme}, TypeSpelling 0 lexemes type →
      ∃ (word : Lexeme) (others : List Lexeme) (name : String), lexemes = word :: others ∧
        word.IsWord name ∧ (type = .named name ∨ name ∈ typeWords) := by
    rintro lexemes (base | named)
    · obtain @⟨word, type, isWord⟩ := base
      refine ⟨_, _, _, rfl, isWord, .inr ?_⟩
      exact List.mem_append_right _ (List.mem_map.2 ⟨type, type.mem_all, rfl⟩)
    · obtain ⟨isWord, -⟩ := named
      exact ⟨_, _, _, rfl, isWord, .inl rfl⟩
  cases depth with
  | zero => exact single spelled
  | succ depth =>
    rcases typeSpelling_succ.1 spelled with simple | container
    · exact single simple
    · cases container with
      | map isWord => exact ⟨_, _, _, rfl, isWord, .inr (by decide)⟩
      | set isWord => exact ⟨_, _, _, rfl, isWord, .inr (by decide)⟩
      | list isWord => exact ⟨_, _, _, rfl, isWord, .inr (by decide)⟩

end Words

section Soundness

/-- The number of a field is spelled, if there is one. -/
theorem spelled_optional_fieldId {id : Option Int}
    (given : (optional (fieldId : Reader (List Char) Int)).Gives (skip text) id rest) :
    ∃ lexemes after, Lexes takesExponent text lexemes after ∧ FieldIdSpelling lexemes id ∧
      rest = skip after := by
  rcases gives_optional.1 given with ⟨value, reads, rfl⟩ | ⟨-, rfl, rfl⟩
  · obtain ⟨value, place, number, reads⟩ := gives_bind.1 reads
    obtain ⟨colon, after, atColon, isColon, reads⟩ :=
      (gives_character_bind .colon).1 (gives_skipSeparator_bind.1 reads)
    have skipped := gives_skipSeparator_bind.1 reads
    obtain ⟨rfl, rfl⟩ := gives_pure.1 skipped
    obtain ⟨found, scanned, fits, rfl⟩ := gives_integer.1 number
    obtain ⟨lexeme, here, shape, rfl⟩ :=
      at_of_scanInteger? scanned (numberStop_of_isMark atColon isColon)
    exact ⟨[lexeme, colon], after, ⟨place, here, after, atColon, rfl⟩, .present shape fits isColon,
      rfl⟩
  · exact ⟨[], text, rfl, .absent, rfl⟩

/-- The words that say whether a field must be set are names. -/
theorem isName_requiredness : ∀ word ∈
    [("required", Requiredness.required), ("optional", Requiredness.optional)],
    IsName word.1.toList := by decide

/-- Where one of the words stands before a gap, it is read with the gap. -/
theorem gives_requiredness {lexeme : Lexeme} {word : String} {value : Requiredness}
    (mem : (word, value) ∈
      [("required", Requiredness.required), ("optional", Requiredness.optional)])
    (here : lexeme.At takesExponent text after) (isWord : lexeme.IsWord word) (gap : hasGap after) :
    (requiredness : Reader (List Char) Requiredness).Gives (skip text) value (skip after) := by
  refine (gives_oneOf isName_requiredness ?_ mem here isWord).bind
    (gives_separator_bind.2 ⟨gap, gives_pure.2 ⟨rfl, rfl⟩⟩)
  intro value' mem'
  simp only [List.mem_cons, Prod.mk.injEq, List.not_mem_nil, or_false] at mem mem'
  rcases mem with ⟨rfl, rfl⟩ | ⟨rfl, rfl⟩ <;> simpa using mem'

/-- The word that says whether a field must be set is spelled, if there is one, and the type after
it. -/
theorem spelled_requiredness_type {word : Option Requiredness} {place : List Char}
    (tried : (optional (requiredness : Reader (List Char) Requiredness)).Gives (skip text) word place)
    {type : FieldType} (reads : (fieldType depth).Gives place type rest) (gap : hasGap rest) :
    ∃ words types after, Lexes takesExponent text words after ∧ Lexes takesExponent after types rest ∧
      RequirednessSpelling words (word.getD .unstated) types type ∧
        TypeSpelling depth types type := by
  rcases gives_optional.1 tried with ⟨value, reads', rfl⟩ | ⟨refused, rfl, rfl⟩
  · obtain ⟨_, after, found, reads'⟩ := gives_bind.1 reads'
    obtain ⟨gap', reads'⟩ := gives_separator_bind.1 reads'
    obtain ⟨rfl, rfl⟩ := gives_pure.1 reads'
    obtain ⟨types, lexesTypes, spelledType⟩ := spelled_fieldType depth reads
    obtain ⟨word, mem, lexeme, here, isWord⟩ := exists_of_gives_oneOf isName_requiredness found
    refine ⟨[lexeme], types, after, ⟨after, here, rfl⟩, lexesTypes, ?_, spelledType⟩
    simp only [List.mem_cons, Prod.mk.injEq, List.not_mem_nil, or_false] at mem
    rcases mem with ⟨rfl, rfl⟩ | ⟨rfl, rfl⟩
    · exact .required isWord (lexesTypes.apart gap')
    · exact .optional isWord (lexesTypes.apart gap')
  · obtain ⟨types, lexesTypes, spelledType⟩ := spelled_fieldType depth reads
    -- A type that is such a word would have been read as the word.
    have other : ∀ {name : String} {value : Requiredness}, (name, value) ∈
        [("required", Requiredness.required), ("optional", Requiredness.optional)] →
        type ≠ .named name := by
      rintro name value mem rfl
      obtain ⟨word, rfl, isWord⟩ := typeSpelling_named spelledType
      obtain ⟨_, here, rfl⟩ := lexesTypes
      exact refused.not_gives _ _ (gives_requiredness mem here isWord gap)
    exact ⟨[], types, text, rfl, lexesTypes,
      .unstated (other (.head _)) (other (.tail _ (.head _))), spelledType⟩

/-- The default value of a field is spelled, if there is one. -/
theorem spelled_optional_fieldDefault {value : Option ConstValue}
    (given : (optional (fieldDefault depth)).Gives (skip text) value rest) :
    ∃ lexemes after, Lexes takesExponent text lexemes after ∧ DefaultSpelling true depth lexemes value ∧
      (rest = after ∨ rest = skip after) := by
  rcases gives_optional.1 given with ⟨value, reads, rfl⟩ | ⟨-, rfl, rfl⟩
  · obtain ⟨equal, _, atEqual, isEqual, reads⟩ := (gives_character_bind .equal).1 reads
    obtain ⟨values, lexesValue, spelledValue⟩ :=
      spelled_constValue depth (gives_skipSeparator_bind.1 reads)
    exact ⟨equal :: values, rest, ⟨_, atEqual, lexesValue⟩, .present isEqual spelledValue, .inl rfl⟩
  · exact ⟨[], text, rfl, .absent, .inr rfl⟩

/-- What direct reading gives as a field is spelled. -/
theorem spelled_field (depth : Nat) : SoundItem (field depth) (FieldSpelling true depth) := by
  intro text rest value given
  have given := gives_here_bind.1 given
  obtain ⟨id, _, number, given⟩ := gives_bind.1 given
  obtain ⟨ids, afterId, lexesIds, spelledId, rfl⟩ := spelled_optional_fieldId number
  obtain ⟨word, _, tried, given⟩ := gives_bind.1 given
  obtain ⟨type, _, reads, given⟩ := gives_bind.1 given
  obtain ⟨gap, given⟩ := gives_separator_bind.1 given
  obtain ⟨words, types, _, lexesWords, lexesTypes, spelledWord, spelledType⟩ :=
    spelled_requiredness_type tried reads gap
  obtain ⟨name, found, _, atName, isName, given⟩ := gives_name_bind.1 given
  obtain ⟨value, _, assigned, given⟩ := gives_bind.1 (gives_skipSeparator_bind.1 given)
  obtain ⟨defaults, _, lexesDefault, spelledDefault, same⟩ := spelled_optional_fieldDefault assigned
  have given := gives_skipSeparator_bind.1 given
  rw [skip_eq_of_or same] at given
  obtain ⟨_, _, trailing, given⟩ := gives_bind.1 given
  obtain ⟨rfl, rfl⟩ := gives_pure.1 given
  obtain ⟨separator, after, spelledSeparator, lexesSeparator, same, -⟩ :=
    spelled_optional_listSeparator trailing
  have head : Lexes takesExponent text (ids ++ (words ++ types)) _ :=
    lexes_append.2 ⟨_, lexesIds, lexes_append.2 ⟨_, lexesWords, lexesTypes⟩⟩
  refine ⟨_, after, ?_, .field spelledId spelledWord spelledType isName (atName.apart.trans gap)
    spelledDefault spelledSeparator head.beginsAt, by simp, same⟩
  simp only [lexes_append, lexes_cons]
  exact ⟨_, lexesIds, _, lexesWords, _, lexesTypes, _, atName, _, lexesDefault, lexesSeparator⟩

/-- Fields between round brackets are spelled. -/
theorem spelled_fieldList {production : String} :
    Sound (fieldList production depth) (FieldListSpelling true depth) := by
  intro text rest value given
  obtain ⟨opening, closing, members, fields, after, lexes, isOpening, spelledMembers, isClosing, given⟩ :=
    spelled_bracketed_bind .leftParen .rightParen (spelled_field depth) given
  obtain ⟨rfl, rfl⟩ := gives_pure.1 given
  exact ⟨_, lexes, .fields isOpening spelledMembers isClosing⟩

end Soundness

section Completeness

/-- A lexeme that may follow a field that ends with its name: it begins neither a default value nor
what would be part of a type before, and separates nothing. -/
def FollowsField (lexeme : Lexeme) : Prop :=
  lexeme.shape ≠ .literal ∧ ¬ lexeme.IsMark .equal ∧ ¬ IsSeparator lexeme

/-- A lexeme of a shape that is neither a literal nor a mark may follow a field. -/
theorem followsField_of_shape {lexeme : Lexeme} (literal : lexeme.shape ≠ .literal)
    (mark : ∀ mark, lexeme.shape ≠ .mark mark) : FollowsField lexeme := by
  refine ⟨literal, fun isMark => mark _ isMark, ?_⟩
  rintro (comma | semicolon)
  · exact mark _ comma
  · exact mark _ semicolon

/-- What stands as a list separator, or else what follows a field, begins no default value. -/
theorem faces_of_separator {separator : List Lexeme} (spelled : SeparatorSpelling separator)
    (lexes : Lexes takesExponent text separator after) (follow : Faces after FollowsField) :
    Faces text fun lexeme => lexeme.shape ≠ .literal ∧ ¬ lexeme.IsMark .equal := by
  rcases spelled with _ | comma | semicolon
  · obtain rfl := lexes
    exact follow.imp fun lexeme holds => ⟨holds.1, holds.2.1⟩
  · obtain ⟨_, here, -⟩ := lexes
    refine here.faces ⟨?_, fun equal => absurd (comma.unique equal) (by decide)⟩
    simp [show _ = _ from comma]
  · obtain ⟨_, here, -⟩ := lexes
    refine here.faces ⟨?_, fun equal => absurd (semicolon.unique equal) (by decide)⟩
    simp [show _ = _ from semicolon]

/-- The number of a field is read where it is spelled, and none is read before a word. -/
theorem gives_optional_fieldId {ids : List Lexeme} {id : Option Int}
    (spelled : FieldIdSpelling ids id) (lexes : Lexes takesExponent text ids after)
    (faces : Faces after fun lexeme => lexeme.shape = .word) :
    (optional (fieldId : Reader (List Char) Int)).Gives (skip text) id (skip after) := by
  cases spelled with
  | absent =>
    obtain rfl := lexes
    refine Refuses.optional (Refuses.bind (refuses_integer (faces.imp ?_)))
    intro lexeme word
    simp [word]
  | present shape fits isColon =>
    obtain ⟨_, atNumber, _, atColon, rfl⟩ := lexes
    refine Gives.optional ((gives_integer_of_at atNumber shape fits).bind ?_)
    refine gives_skipSeparator_bind.2 ((gives_character_bind .colon).2 ⟨_, _, atColon, isColon, ?_⟩)
    exact gives_skipSeparator_bind.2 (gives_pure.2 ⟨rfl, rfl⟩)

/-- The word that says whether a field must be set is read where it is spelled. -/
theorem gives_optional_requiredness {words types : List Lexeme} {requiredness' : Requiredness}
    {type : FieldType} (spelled : RequirednessSpelling words requiredness' types type)
    (spelledType : TypeSpelling depth types type) (lexesWords : Lexes takesExponent text words after)
    (lexesTypes : Lexes takesExponent after types rest) :
    ∃ word, (optional (requiredness : Reader (List Char) Requiredness)).Gives (skip text) word
      (skip after) ∧ word.getD .unstated = requiredness' := by
  have some := spelledType.ne_nil
  cases spelled with
  | unstated notRequired notOptional =>
    obtain rfl := lexesWords
    refine ⟨none, Refuses.optional (Refuses.bind (refuses_oneOf isName_requiredness (by decide) ?_)),
      rfl⟩
    obtain ⟨word, others, name, rfl, isWord, named⟩ := typeSpelling_begins spelledType
    obtain ⟨_, here, -⟩ := lexesTypes
    refine here.faces ?_
    intro pair mem isPair
    obtain rfl := isWord.unique isPair
    simp only [List.mem_cons, List.not_mem_nil, or_false] at mem
    rcases mem with rfl | rfl
    · exact named.elim notRequired (by decide)
    · exact named.elim notOptional (by decide)
  | required isWord apart =>
    obtain ⟨_, here, rfl⟩ := lexesWords
    exact ⟨_, (gives_requiredness (.head _) here isWord (lexesTypes.hasGap some apart)).optional, rfl⟩
  | optional isWord apart =>
    obtain ⟨_, here, rfl⟩ := lexesWords
    exact ⟨_, (gives_requiredness (.tail _ (.head _)) here isWord
      (lexesTypes.hasGap some apart)).optional, rfl⟩

/-- The default value of a field is read where it is spelled. -/
theorem gives_optional_fieldDefault {defaults : List Lexeme} {value : Option ConstValue}
    (spelled : DefaultSpelling true depth defaults value)
    (lexes : Lexes takesExponent text defaults after)
    (faces : defaults = [] → Faces text fun lexeme => ¬ lexeme.IsMark .equal) :
    ∃ rest, (optional (fieldDefault depth)).Gives (skip text) value rest ∧
      (rest = after ∨ rest = skip after) := by
  cases spelled with
  | absent =>
    obtain rfl := lexes
    exact ⟨_, Refuses.optional (Refuses.bind (refuses_character .equal (faces rfl))), .inr rfl⟩
  | present isEqual spelledValue =>
    obtain ⟨_, atEqual, lexesValue⟩ := lexes
    refine ⟨after, Gives.optional ((gives_character_bind .equal).2 ⟨_, _, atEqual, isEqual, ?_⟩), .inl rfl⟩
    exact gives_skipSeparator_bind.2 (gives_constValue depth lexesValue spelledValue)

/-- The word and the type of a field begin with a word. -/
theorem faces_word {words types : List Lexeme} {requiredness' : Requiredness} {type : FieldType}
    (spelled : RequirednessSpelling words requiredness' types type)
    (spelledType : TypeSpelling depth types type) {middle : List Char}
    (lexesWords : Lexes takesExponent text words middle)
    (lexesTypes : Lexes takesExponent middle types rest) :
    Faces text fun lexeme => lexeme.shape = .word := by
  cases spelled with
  | unstated =>
    obtain rfl := lexesWords
    obtain ⟨word, others, name, rfl, isWord, -⟩ := typeSpelling_begins spelledType
    obtain ⟨_, here, -⟩ := lexesTypes
    exact here.faces isWord.1
  | required isWord =>
    obtain ⟨_, here, -⟩ := lexesWords
    exact here.faces isWord.1
  | optional isWord =>
    obtain ⟨_, here, -⟩ := lexesWords
    exact here.faces isWord.1

/-- A field that is spelled is read before what may follow it. -/
theorem gives_field {lexemes : List Lexeme} {value : Field Nat}
    (lexes : Lexes takesExponent text lexemes after) (spelled : FieldSpelling true depth lexemes value)
    (follow : Faces after FollowsField) :
    ∃ rest, (field depth).Gives (skip text) value rest ∧ (rest = after ∨ rest = skip after) := by
  cases spelled with
  | field spelledId spelledWord spelledType isName apart spelledDefault spelledSeparator begins =>
    obtain ⟨afterId, lexesIds, lexes⟩ := lexes_append.1 lexes
    obtain ⟨afterWord, lexesWords, lexes⟩ := lexes_append.1 lexes
    obtain ⟨afterType, lexesTypes, afterName, atName, lexes⟩ := lexes_append.1 lexes
    obtain ⟨afterDefault, lexesDefault, lexesSeparator⟩ := lexes_append.1 lexes
    have trailing := faces_of_separator spelledSeparator lexesSeparator follow
    have beyond : Faces afterName fun lexeme => lexeme.shape ≠ .literal := by
      cases spelledDefault with
      | absent =>
        obtain rfl := lexesDefault
        exact trailing.imp fun _ holds => holds.1
      | present isEqual _ =>
        obtain ⟨_, here, -⟩ := lexesDefault
        exact here.faces (by simp [show _ = _ from isEqual])
    have head : Lexes takesExponent text (_ ++ (_ ++ _)) afterType :=
      lexes_append.2 ⟨_, lexesIds, lexes_append.2 ⟨_, lexesWords, lexesTypes⟩⟩
    have some := spelledType.ne_nil
    obtain rfl := head.place_eq (by simp [some]) begins
    obtain ⟨word, readsWord, rfl⟩ :=
      gives_optional_requiredness spelledWord spelledType lexesWords lexesTypes
    obtain ⟨rest, readsDefault, same⟩ := gives_optional_fieldDefault spelledDefault lexesDefault
      fun none => by
        subst none
        obtain rfl := lexesDefault
        exact trailing.imp fun _ holds => holds.2
    obtain ⟨_, rest', readsSeparator, same'⟩ := gives_optional_listSeparator spelledSeparator
      lexesSeparator fun none => by
        subst none
        obtain rfl := lexesSeparator
        exact follow.imp fun _ holds => holds.2.2
    refine ⟨rest', gives_here_bind.2 ?_, same'⟩
    refine (gives_optional_fieldId spelledId lexesIds
      (faces_word spelledWord spelledType lexesWords lexesTypes)).bind (readsWord.bind ?_)
    refine (gives_fieldType depth lexesTypes spelledType (.name atName isName.1 beyond)).bind ?_
    refine gives_apart_name_bind.2 ⟨_, _, _, atName, isName, apart, gives_skipSeparator_bind.2 ?_⟩
    refine readsDefault.bind (gives_skipSeparator_bind.2 ?_)
    rw [skip_eq_of_or same]
    exact readsSeparator.bind (gives_pure.2 ⟨rfl, rfl⟩)

/-- A field begins with a lexeme that may follow another field. -/
theorem faces_field {lexemes : List Lexeme} {value : Field Nat}
    (lexes : Lexes takesExponent text lexemes after) (spelled : FieldSpelling true depth lexemes value) :
    Faces text fun lexeme => lexeme.shape = .word ∨ lexeme.shape = .integer := by
  cases spelled with
  | field spelledId spelledWord spelledType =>
    obtain ⟨afterId, lexesIds, lexes⟩ := lexes_append.1 lexes
    obtain ⟨afterWord, lexesWords, lexes⟩ := lexes_append.1 lexes
    obtain ⟨afterType, lexesTypes, -⟩ := lexes_append.1 lexes
    cases spelledId with
    | absent =>
      obtain rfl := lexesIds
      exact (faces_word spelledWord spelledType lexesWords lexesTypes).imp fun _ word => .inl word
    | present shape =>
      obtain ⟨_, here, -⟩ := lexesIds
      exact here.faces (.inr shape)

/-- Where a mark stands, no type is read. -/
theorem refuses_fieldType {lexeme : Lexeme} {mark : Mark} (here : lexeme.At takesExponent text rest)
    (isMark : lexeme.IsMark mark) : (fieldType depth).Refuses (skip text) := by
  have noWord : ∀ {word : String}, Faces text fun lexeme => ¬ lexeme.IsWord word :=
    here.faces fun isWord => isWord.not_isMark isMark
  rw [fieldType_eq]
  refine refuses_alternatives fun rule mem => ?_
  simp only [List.mem_cons, List.not_mem_nil, or_false] at mem
  rcases mem with rfl | rfl | rfl
  · exact refuses_map.2 (refuses_oneOf isName_baseTypes (by decide)
      (here.faces fun _ _ isWord => isWord.not_isMark isMark))
  · refine refuses_alternatives fun rule mem => ?_
    simp only [List.mem_cons, List.not_mem_nil, or_false] at mem
    rcases mem with rfl | rfl | rfl <;> exact (refuses_keyword (by decide) noWord).bind
  · refine refuses_map.2 (refuses_name (here.faces ?_))
    simp [show _ = _ from isMark]

/-- Where a mark stands, no field is read. -/
theorem refuses_field {lexeme : Lexeme} {mark : Mark} (here : lexeme.At takesExponent text rest)
    (isMark : lexeme.IsMark mark) : (field depth).Refuses (skip text) := by
  have shape : lexeme.shape = .mark mark := isMark
  have noId : (fieldId : Reader (List Char) Int).Refuses (skip text) :=
    (refuses_integer (here.faces (by simp [shape]))).bind
  have noWord : (requiredness : Reader (List Char) Requiredness).Refuses (skip text) :=
    (refuses_oneOf isName_requiredness (by decide)
      (here.faces fun _ _ isWord => isWord.not_isMark isMark)).bind
  refine Gives.bind_refuses (gives_here.2 ⟨rfl, rfl⟩) (noId.optional.bind_refuses ?_)
  exact noWord.optional.bind_refuses (refuses_fieldType here isMark).bind

/-- Fields are items before any mark that closes them. -/
theorem completeItem_field {closing : Mark} (equal : closing ≠ .equal)
    (comma : closing ≠ .comma) (semicolon : closing ≠ .semicolon) :
    CompleteItem (field depth) (FieldSpelling true depth) (Faces · FollowsField) closing where
  gives _ _ _ _ lexes spelled follow := gives_field lexes spelled follow
  next _ _ _ _ lexes spelled := (faces_field lexes spelled).imp fun lexeme shape =>
    followsField_of_shape (by rcases shape with word | integer <;> simp [*])
      (by rcases shape with word | integer <;> simp [*])
  closes _ _ _ here isMark := here.faces ⟨by simp [show _ = _ from isMark],
    fun isEqual => equal (isMark.unique isEqual), fun isSeparator => isSeparator.elim
      (fun isComma => comma (isMark.unique isComma))
      (fun isSemicolon => semicolon (isMark.unique isSemicolon))⟩
  refuses _ _ _ here isMark := refuses_field here isMark
  sound := spelled_field depth

/-- Fields between round brackets are read where they are spelled. -/
theorem gives_fieldList {production : String} {lexemes : List Lexeme} {fields : List (Field Nat)}
    (lexes : Lexes takesExponent text lexemes rest)
    (spelled : FieldListSpelling true depth lexemes fields) :
    (fieldList production depth).Gives (skip text) fields rest := by
  cases spelled with
  | fields isOpening spelledMembers isClosing =>
    exact gives_bracketed_bind .leftParen .rightParen
      (completeItem_field (by decide) (by decide) (by decide)) lexes isOpening spelledMembers isClosing
      (gives_pure.2 ⟨rfl, rfl⟩)

end Completeness

end ThriftIdl.Reader
