import ThriftIdl.Proofs.Reader.Functions

/-!
# Direct reading of definitions

Direct reading gives a definition exactly where lexemes spell it (`spelled_definition`,
`gives_definition`). Each kind of definition has a keyword, so that a definition is refused by all
rules but its own (`definitionRules`).
-/
namespace ThriftIdl.Reader

open Readable Text

variable {depth : Nat} {text rest after : List Char}

section EnumValues

/-- The number of a value of an enumeration is spelled if nothing goes on with it. -/
theorem spelled_enumValue :
    SoundElement (enumValue : Reader (List Char) (EnumValue Nat)) EnumValueSpelling := by
  intro text rest value given stop
  have given := gives_here_bind.1 given
  obtain ⟨word, name, afterName, atName, isName, given⟩ := gives_name_bind.1 given
  obtain ⟨number, _, tried, given⟩ := gives_bind.1 given
  obtain ⟨rfl, rfl⟩ := gives_pure.1 given
  rcases gives_optional.1 tried with ⟨number, reads, rfl⟩ | ⟨-, rfl, rfl⟩
  · obtain ⟨equal, afterEqual, atEqual, isEqual, reads⟩ :=
      (gives_character_bind .equal).1 (gives_skipSeparator_bind.1 reads)
    obtain ⟨found, scanned, fits, rfl⟩ := gives_integer.1 (gives_skipSeparator_bind.1 reads)
    obtain ⟨lexeme, here, shape, rfl⟩ := at_of_scanInteger? scanned stop
    refine ⟨[word, equal, lexeme], ⟨afterName, atName, afterEqual, atEqual, rest, here, rfl⟩, ?_⟩
    rw [← atName.left]
    exact .numbered isName isEqual shape fits
  · refine ⟨[word], ⟨rest, atName, rfl⟩, ?_⟩
    rw [← atName.left]
    exact .plain isName

/-- A value of an enumeration never leaves more than it found. -/
theorem shrinks_enumValue : Shrinks (enumValue : Reader (List Char) (EnumValue Nat)) := by
  intro text rest value given
  have given := gives_here_bind.1 given
  obtain ⟨word, name, afterName, atName, isName, given⟩ := gives_name_bind.1 given
  have less := atName.length_lt
  obtain ⟨number, _, tried, given⟩ := gives_bind.1 given
  obtain ⟨rfl, rfl⟩ := gives_pure.1 given
  rcases gives_optional.1 tried with ⟨number, reads, rfl⟩ | ⟨-, rfl, rfl⟩
  · obtain ⟨equal, afterEqual, atEqual, isEqual, reads⟩ :=
      (gives_character_bind .equal).1 (gives_skipSeparator_bind.1 reads)
    obtain ⟨found, scanned, -, -⟩ := gives_integer.1 (gives_skipSeparator_bind.1 reads)
    have less' := atEqual.length_lt
    have parts := congrArg List.length (scanInteger?_text scanned)
    have skipped := length_skip_le afterEqual
    rw [List.length_append] at parts
    omega
  · omega

/-- A value of an enumeration begins with a word. -/
theorem enumValueSpelling_begins {lexemes : List Lexeme} {value : EnumValue Nat}
    (spelled : EnumValueSpelling lexemes value) :
    ∃ first others, lexemes = first :: others ∧ first.shape = .word := by
  cases spelled with
  | plain isName => exact ⟨_, _, rfl, isName.1⟩
  | numbered isName => exact ⟨_, _, rfl, isName.1⟩

/-- A value of an enumeration is read where it is spelled and no number is assigned after it. -/
theorem gives_enumValue {lexemes : List Lexeme} {value : EnumValue Nat}
    (lexes : Lexes takesExponent text lexemes rest) (spelled : EnumValueSpelling lexemes value)
    (noNumber : Faces rest fun lexeme => ¬ lexeme.IsMark .equal) :
    (enumValue : Reader (List Char) (EnumValue Nat)).Gives (skip text) value rest := by
  cases spelled with
  | plain isName =>
    obtain ⟨_, atName, rfl⟩ := lexes
    rw [atName.left]
    refine gives_here_bind.2 (gives_name_bind.2 ⟨_, _, _, atName, isName, ?_⟩)
    refine Gives.bind (Refuses.optional ?_) (gives_pure.2 ⟨rfl, rfl⟩)
    exact refuses_skipSeparator_bind (Refuses.bind (refuses_character .equal noNumber))
  | numbered isName isEqual shape fits =>
    obtain ⟨_, atName, _, atEqual, _, atNumber, rfl⟩ := lexes
    rw [atName.left]
    refine gives_here_bind.2 (gives_name_bind.2 ⟨_, _, _, atName, isName, ?_⟩)
    refine Gives.bind (Gives.optional ?_) (gives_pure.2 ⟨rfl, rfl⟩)
    refine gives_skipSeparator_bind.2 ((gives_character_bind .equal).2 ⟨_, _, atEqual, isEqual, ?_⟩)
    exact gives_skipSeparator_bind.2 (gives_integer_of_at atNumber shape fits)

/-- Values of an enumeration are elements before a brace. -/
theorem completeElement_enumValue :
    CompleteElement (enumValue : Reader (List Char) (EnumValue Nat)) EnumValueSpelling
      .rightBrace where
  gives text rest lexemes value lexes spelled follow := by
    refine gives_enumValue lexes spelled ?_
    obtain ⟨lexeme, after, here, (comma | semicolon) | closing | ⟨others, next, spelledNext⟩⟩ :=
      follow
    · exact here.faces fun isEqual => absurd (comma.unique isEqual) (by decide)
    · exact here.faces fun isEqual => absurd (semicolon.unique isEqual) (by decide)
    · exact here.faces fun isEqual => absurd (closing.unique isEqual) (by decide)
    · obtain ⟨_, _, same, shape⟩ := enumValueSpelling_begins spelledNext
      obtain ⟨rfl, rfl⟩ := List.cons.inj same
      exact here.faces fun isEqual => absurd (shape.symm.trans isEqual) (by simp)
  begins lexemes value spelled := by
    obtain ⟨first, others, rfl, shape⟩ := enumValueSpelling_begins spelled
    refine ⟨first, others, rfl, ?_⟩
    rintro (comma | semicolon)
    · exact absurd (shape.symm.trans comma) (by simp)
    · exact absurd (shape.symm.trans semicolon) (by simp)
  refuses text rest lexeme here isMark :=
    Gives.bind_refuses (gives_here.2 ⟨rfl, rfl⟩)
      (refuses_name (here.faces (by simp [show _ = _ from isMark]))).bind
  shrinks := shrinks_enumValue
  closes := by decide

end EnumValues

section Soundness

/-- An inclusion of a document is spelled. -/
theorem spelled_inclusion {path : String}
    (given : (inclusion : Reader (List Char) String).Gives (skip text) path rest) :
    ∃ lexemes, Lexes takesExponent text lexemes rest ∧
      DefinitionSpelling true depth lexemes (.inclusion path) := by
  obtain ⟨keyword, path, lexes, isKeyword, shape, apart, rfl⟩ :=
    (gives_keyword_literal (by decide)).1 given
  exact ⟨[keyword, path], lexes, .inclusion isKeyword shape apart⟩

/-- An inclusion of a header is spelled. -/
theorem spelled_cppInclusion {path : String}
    (given : (cppInclusion : Reader (List Char) String).Gives (skip text) path rest) :
    ∃ lexemes, Lexes takesExponent text lexemes rest ∧
      DefinitionSpelling true depth lexemes (.cppInclusion path) := by
  obtain ⟨keyword, path, lexes, isKeyword, shape, apart, rfl⟩ :=
    (gives_keyword_literal (by decide)).1 given
  exact ⟨[keyword, path], lexes, .cppInclusion isKeyword shape apart⟩

/-- A namespace is spelled. -/
theorem spelled_namespaceDecl {decl : Namespace}
    (given : (namespaceDecl : Reader (List Char) Namespace).Gives (skip text) decl rest) :
    ∃ lexemes, Lexes takesExponent text lexemes rest ∧
      DefinitionSpelling true depth lexemes (.space decl) := by
  obtain ⟨keyword, _, here, isKeyword, given⟩ := (gives_keyword_bind (by decide)).1 given
  obtain ⟨gap, given⟩ := gives_separator_bind.1 given
  obtain ⟨scope, _, reads, given⟩ := gives_bind.1 given
  obtain ⟨mem, mark, atScope, isScope⟩ := gives_namespaceScope.1 reads
  obtain ⟨word, name, _, atName, isName, apart, given⟩ := gives_apart_name_bind.1 given
  obtain ⟨rfl, rfl⟩ := gives_pure.1 given
  refine ⟨[keyword, mark, word], ⟨_, here, _, atScope, _, atName, rfl⟩, .space isKeyword ?_ isName
    apart⟩
  rcases isScope with ⟨isStar, rfl⟩ | isWord
  · exact .star isStar fun _ => atScope.apart.trans gap
  · exact .word isWord mem (atScope.apart.trans gap)

/-- The declaration of a second name is spelled. -/
theorem spelled_typedef {decl : Typedef Nat}
    (given : (typedef depth).Gives (skip text) decl rest) :
    ∃ lexemes after, Lexes takesExponent text lexemes after ∧
      DefinitionSpelling true depth lexemes (.typedef decl) ∧ (rest = after ∨ rest = skip after) := by
  have given := gives_here_bind.1 given
  obtain ⟨keyword, _, here, isKeyword, given⟩ := (gives_keyword_bind (by decide)).1 given
  obtain ⟨gap, given⟩ := gives_separator_bind.1 given
  obtain ⟨types, type, _, lexesTypes, spelledType, given⟩ := (spelled_definitionType depth).bind given
  obtain ⟨word, name, _, atName, isName, apart, given⟩ := gives_apart_name_bind.1 given
  obtain ⟨_, _, trailing, given⟩ := gives_bind.1 given
  obtain ⟨rfl, rfl⟩ := gives_pure.1 given
  obtain ⟨separator, after, lexesSeparator, spelledSeparator, same⟩ :=
    spelled_optional_trailingListSeparator trailing (.inl rfl)
  rw [← here.left]
  refine ⟨_, after, ?_, .typedef isKeyword spelledType (lexesTypes.apart gap) isName apart
    spelledSeparator, same⟩
  simp only [lexes_cons, lexes_append]
  exact ⟨_, here, _, lexesTypes, _, atName, lexesSeparator⟩

/-- A constant declaration is spelled. -/
theorem spelled_constDecl {decl : ConstDecl Nat}
    (given : (constDecl depth).Gives (skip text) decl rest) :
    ∃ lexemes after, Lexes takesExponent text lexemes after ∧
      DefinitionSpelling true depth lexemes (.const decl) ∧ (rest = after ∨ rest = skip after) := by
  have given := gives_here_bind.1 given
  obtain ⟨keyword, _, here, isKeyword, given⟩ := (gives_keyword_bind (by decide)).1 given
  obtain ⟨gap, given⟩ := gives_separator_bind.1 given
  obtain ⟨types, type, _, lexesTypes, spelledType, given⟩ := (spelled_fieldType depth).bind given
  obtain ⟨word, name, _, atName, isName, apart, given⟩ := gives_apart_name_bind.1 given
  obtain ⟨equal, _, atEqual, isEqual, given⟩ :=
    (gives_character_bind .equal).1 (gives_skipSeparator_bind.1 given)
  obtain ⟨values, value, _, lexesValue, spelledValue, given⟩ :=
    (spelled_constValue depth).bind (gives_skipSeparator_bind.1 given)
  obtain ⟨_, _, trailing, given⟩ := gives_bind.1 given
  obtain ⟨rfl, rfl⟩ := gives_pure.1 given
  obtain ⟨separator, after, lexesSeparator, spelledSeparator, same⟩ :=
    spelled_optional_trailingListSeparator trailing (.inl rfl)
  rw [← here.left]
  refine ⟨_, after, ?_, .const isKeyword spelledType (lexesTypes.apart gap) isName apart
    isEqual spelledValue spelledSeparator, same⟩
  simp only [lexes_cons, lexes_append]
  exact ⟨_, here, _, lexesTypes, _, atName, _, atEqual, _, lexesValue, lexesSeparator⟩

/-- An enumeration is spelled. -/
theorem spelled_enumDecl {decl : EnumDecl Nat}
    (given : (enumDecl : Reader (List Char) (EnumDecl Nat)).Gives (skip text) decl rest) :
    ∃ lexemes, Lexes takesExponent text lexemes rest ∧
      DefinitionSpelling true depth lexemes (.enum decl) := by
  have given := gives_here_bind.1 given
  obtain ⟨keyword, word, name, _, _, here, isKeyword, atName, isName, apart, given⟩ :=
    (gives_heading_bind (by decide)).1 given
  obtain ⟨opening, _, atOpening, isOpening, given⟩ :=
    (gives_character_bind .leftBrace).1 (gives_skipSeparator_bind.1 given)
  obtain ⟨members, values, closing, _, lexes, spelledMembers, isClosing, given⟩ :=
    spelled_separated_bind .rightBrace spelled_enumValue shrinks_enumValue
      (gives_skipSeparator_bind.1 given)
  obtain ⟨rfl, rfl⟩ := gives_pure.1 given
  rw [← here.left]
  refine ⟨_, ?_, .enum isKeyword isName apart isOpening spelledMembers isClosing⟩
  exact ⟨_, here, _, atName, _, atOpening, lexes⟩

/-- The keyword of a record is a name. -/
theorem isName_recordKind (kind : RecordKind) : IsName kind.keyword.toList := by
  cases kind <;> decide

/-- A record is spelled. -/
theorem spelled_record {kind : RecordKind} {decl : Record Nat}
    (given : (record kind depth).Gives (skip text) decl rest) :
    ∃ lexemes, Lexes takesExponent text lexemes rest ∧
      DefinitionSpelling true depth lexemes (.record kind decl) := by
  have given := gives_here_bind.1 given
  obtain ⟨keyword, word, name, _, _, here, isKeyword, atName, isName, apart, given⟩ :=
    (gives_heading_bind (isName_recordKind kind)).1 given
  obtain ⟨opening, closing, members, fields, _, lexes, isOpening, spelledMembers, isClosing, given⟩ :=
    spelled_bracketed_bind .leftBrace .rightBrace (spelled_field depth)
      (gives_skipSeparator_bind.1 given)
  obtain ⟨rfl, rfl⟩ := gives_pure.1 given
  rw [← here.left]
  refine ⟨_, ?_, .record isKeyword isName apart isOpening spelledMembers isClosing⟩
  exact ⟨_, here, _, atName, lexes⟩

/-- The service that a service extends is spelled, if there is one. -/
theorem spelled_optional_baseService {base : Option String}
    (given : (optional (baseService : Reader (List Char) String)).Gives (skip text) base rest) :
    ∃ lexemes after, Lexes takesExponent text lexemes after ∧ BaseSpelling lexemes base ∧
      rest = skip after := by
  rcases gives_optional.1 given with ⟨name, reads, rfl⟩ | ⟨-, rfl, rfl⟩
  · obtain ⟨keyword, word, name, _, after, here, isKeyword, atName, isName, apart, reads⟩ :=
      (gives_heading_bind (by decide)).1 reads
    have skipped := gives_skipSeparator_bind.1 reads
    obtain ⟨rfl, rfl⟩ := gives_pure.1 skipped
    exact ⟨[keyword, word], after, ⟨_, here, after, atName, rfl⟩, .present isKeyword isName apart, rfl⟩
  · exact ⟨[], text, rfl, .absent, rfl⟩

/-- A service is spelled. -/
theorem spelled_service {decl : Service Nat}
    (given : (service depth).Gives (skip text) decl rest) :
    ∃ lexemes, Lexes takesExponent text lexemes rest ∧
      DefinitionSpelling true depth lexemes (.service decl) := by
  have given := gives_here_bind.1 given
  obtain ⟨keyword, word, name, _, _, here, isKeyword, atName, isName, apart, given⟩ :=
    (gives_heading_bind (by decide)).1 given
  obtain ⟨base, _, tried, given⟩ := gives_bind.1 (gives_skipSeparator_bind.1 given)
  obtain ⟨bases, _, lexesBase, spelledBase, rfl⟩ := spelled_optional_baseService tried
  obtain ⟨opening, closing, members, functions, _, lexes, isOpening, spelledMembers, isClosing, given⟩ :=
    spelled_bracketed_bind .leftBrace .rightBrace (spelled_function depth) given
  obtain ⟨rfl, rfl⟩ := gives_pure.1 given
  rw [← here.left]
  refine ⟨_, ?_, .service isKeyword isName apart spelledBase isOpening spelledMembers isClosing⟩
  exact ⟨_, here, _, atName, lexes_append.2 ⟨_, lexesBase, lexes⟩⟩

/-- A definition is spelled by at least one lexeme. -/
theorem definitionSpelling_begins {parted : Bool} {lexemes : List Lexeme}
    {value : Definition Nat} (spelled : DefinitionSpelling parted depth lexemes value) :
    ∃ first others, lexemes = first :: others ∧ first.shape = .word := by
  cases spelled with
  | inclusion isKeyword | cppInclusion isKeyword | space isKeyword | typedef isKeyword
  | const isKeyword | enum isKeyword | record isKeyword | service isKeyword =>
    exact ⟨_, _, rfl, isKeyword.1⟩

/-- What direct reading gives as a definition is spelled. -/
theorem spelled_definition (depth : Nat) :
    SoundItem (definition depth) (DefinitionSpelling true depth) := by
  intro text rest value given
  suffices spelled : ∃ lexemes after, Lexes takesExponent text lexemes after ∧
      DefinitionSpelling true depth lexemes value ∧ (rest = after ∨ rest = skip after) by
    obtain ⟨lexemes, after, lexes, spelled, same⟩ := spelled
    obtain ⟨first, others, rfl, -⟩ := definitionSpelling_begins spelled
    exact ⟨_, after, lexes, spelled, by simp, same⟩
  have exactly : (∃ lexemes, Lexes takesExponent text lexemes rest ∧
      DefinitionSpelling true depth lexemes value) → ∃ lexemes after,
      Lexes takesExponent text lexemes after ∧ DefinitionSpelling true depth lexemes value ∧
        (rest = after ∨ rest = skip after) := by
    rintro ⟨lexemes, lexes, spelled⟩
    exact ⟨lexemes, rest, lexes, spelled, .inl rfl⟩
  obtain inclusion | ⟨-, cppInclusion | ⟨-, space | ⟨-, typedef | ⟨-, const | ⟨-, enum |
    ⟨-, struct | ⟨-, union | ⟨-, exception | ⟨-, service | ⟨-, impossible⟩⟩⟩⟩⟩⟩⟩⟩⟩⟩ :=
    gives_alternatives.1 given
  · obtain ⟨_, reads, rfl⟩ := gives_map.1 inclusion
    exact exactly (spelled_inclusion reads)
  · obtain ⟨_, reads, rfl⟩ := gives_map.1 cppInclusion
    exact exactly (spelled_cppInclusion reads)
  · obtain ⟨_, reads, rfl⟩ := gives_map.1 space
    exact exactly (spelled_namespaceDecl reads)
  · obtain ⟨_, reads, rfl⟩ := gives_map.1 typedef
    exact spelled_typedef reads
  · obtain ⟨_, reads, rfl⟩ := gives_map.1 const
    exact spelled_constDecl reads
  · obtain ⟨_, reads, rfl⟩ := gives_map.1 enum
    exact exactly (spelled_enumDecl reads)
  · obtain ⟨_, reads, rfl⟩ := gives_map.1 struct
    exact exactly (spelled_record reads)
  · obtain ⟨_, reads, rfl⟩ := gives_map.1 union
    exact exactly (spelled_record reads)
  · obtain ⟨_, reads, rfl⟩ := gives_map.1 exception
    exact exactly (spelled_record reads)
  · obtain ⟨_, reads, rfl⟩ := gives_map.1 service
    exact exactly (spelled_service reads)
  · exact impossible.elim

end Soundness

section Completeness

/-- The rules for definitions, each with its keyword. -/
def definitionRules (depth : Nat) : List (String × Reader (List Char) (Definition Nat)) := [
  ("include", Definition.inclusion <$> inclusion),
  ("cpp_include", Definition.cppInclusion <$> cppInclusion),
  ("namespace", Definition.space <$> namespaceDecl),
  ("typedef", Definition.typedef <$> typedef depth),
  ("const", Definition.const <$> constDecl depth),
  ("enum", Definition.enum <$> enumDecl),
  ("struct", Definition.record .struct <$> record .struct depth),
  ("union", Definition.record .union <$> record .union depth),
  ("exception", Definition.record .exception <$> record .exception depth),
  ("service", Definition.service <$> service depth)]

/-- A rule for definitions refuses a text that does not begin with its keyword. -/
theorem refuses_definitionRule {rule : String × Reader (List Char) (Definition Nat)}
    (mem : rule ∈ definitionRules depth)
    (faces : Faces text fun lexeme => ¬ lexeme.IsWord rule.1) : rule.2.Refuses (skip text) := by
  have here : ∀ {α : Type} {next : Nat → Reader (List Char) α},
      (next (skip text).length).Refuses (skip text) → (here >>= next).Refuses (skip text) :=
    fun refused => Gives.bind_refuses (gives_here.2 ⟨rfl, rfl⟩) refused
  simp only [definitionRules, List.mem_cons, List.not_mem_nil, or_false] at mem
  rcases mem with rfl | rfl | rfl | rfl | rfl | rfl | rfl | rfl | rfl | rfl <;> dsimp only at faces
  · exact refuses_map.2 (refuses_keyword (by decide) faces).bind
  · exact refuses_map.2 (refuses_keyword (by decide) faces).bind
  · exact refuses_map.2 (refuses_keyword (by decide) faces).bind
  · exact refuses_map.2 (here (refuses_keyword (by decide) faces).bind)
  · exact refuses_map.2 (here (refuses_keyword (by decide) faces).bind)
  · exact refuses_map.2 (here (refuses_keyword (by decide) faces).bind)
  · exact refuses_map.2 (here (refuses_keyword (by decide) faces).bind)
  · exact refuses_map.2 (here (refuses_keyword (by decide) faces).bind)
  · exact refuses_map.2 (here (refuses_keyword (by decide) faces).bind)
  · exact refuses_map.2 (here (refuses_keyword (by decide) faces).bind)

/-- A choice among rules with keywords is made by the only rule that does not refuse. -/
theorem firstGives_of_mem {α : Type} {rules : List (String × Reader (List Char) α)}
    {rule : String × Reader (List Char) α} {value : α} (mem : rule ∈ rules)
    (distinct : (rules.map (·.1)).Nodup) (given : rule.2.Gives text value rest)
    (others : ∀ other ∈ rules, other.1 ≠ rule.1 → other.2.Refuses text) :
    FirstGives (rules.map (·.2)) text value rest := by
  induction rules with
  | nil => cases mem
  | cons first rules ih =>
    simp only [List.map_cons, List.nodup_cons] at distinct
    rcases List.mem_cons.1 mem with rfl | mem
    · exact .inl given
    · have different : first.1 ≠ rule.1 := fun same =>
        distinct.1 (same ▸ List.mem_map_of_mem mem)
      exact .inr ⟨others first (by simp) different,
        ih mem distinct.2 fun other mem' => others other (by simp [mem'])⟩

/-- The definition that the rule for its keyword gives is read. -/
theorem gives_definition_of_rule (index : Nat) {word : String}
    {rule : Reader (List Char) (Definition Nat)}
    (found : (definitionRules depth)[index]? = some (word, rule)) {keyword : Lexeme}
    {value : Definition Nat} (here : keyword.At takesExponent text after)
    (isKeyword : keyword.IsWord word) (given : rule.Gives (skip text) value rest) :
    (definition depth).Gives (skip text) value rest := by
  refine gives_alternatives.2
    (firstGives_of_mem (List.mem_of_getElem? found) (by simp [definitionRules]) given ?_)
  intro other mem different
  exact refuses_definitionRule mem (here.faces fun isOther => different (isOther.unique isKeyword))

/-- The scope of a namespace is read where it is spelled. -/
theorem gives_scope {mark : Lexeme} {scope : String} (here : mark.At takesExponent text after)
    (spelled : ScopeSpelling true mark scope) :
    (namespaceScope : Reader (List Char) String).Gives (skip text) scope after ∧ hasGap text := by
  cases spelled with
  | star isStar apart =>
    exact ⟨gives_namespaceScope.2 ⟨by decide, mark, here, .inl ⟨isStar, rfl⟩⟩,
      here.apart.symm.trans (apart rfl)⟩
  | word isWord mem apart =>
    exact ⟨gives_namespaceScope.2 ⟨mem, mark, here, .inr isWord⟩, here.apart.symm.trans apart⟩

/-- The service that a service extends is read where it is spelled. -/
theorem gives_optional_baseService {bases : List Lexeme} {base : Option String}
    (spelled : BaseSpelling bases base) (lexes : Lexes takesExponent text bases after)
    {opening : Lexeme} (here : opening.At takesExponent after rest)
    (isOpening : opening.IsMark .leftBrace) :
    (optional (baseService : Reader (List Char) String)).Gives (skip text) base (skip after) := by
  cases spelled with
  | absent =>
    obtain rfl := lexes
    exact Refuses.optional (Refuses.bind (refuses_keyword (by decide)
      (here.faces fun isWord => isWord.not_isMark isOpening)))
  | present isKeyword isName apart =>
    obtain ⟨_, atKeyword, _, atName, rfl⟩ := lexes
    refine Gives.optional ((gives_heading_bind (by decide)).2
      ⟨_, _, _, _, _, atKeyword, isKeyword, atName, isName, apart, ?_⟩)
    exact gives_skipSeparator_bind.2 (gives_pure.2 ⟨rfl, rfl⟩)

/-- A record is read where it is spelled. -/
theorem gives_record {kind : RecordKind} {decl : Record Nat} {lexemes : List Lexeme}
    (lexes : Lexes takesExponent text lexemes rest)
    (spelled : DefinitionSpelling true depth lexemes (.record kind decl)) :
    (record kind depth).Gives (skip text) decl rest := by
  cases spelled with
  | record isKeyword isName apart isOpening spelledMembers isClosing =>
    obtain ⟨_, here, _, atName, lexes⟩ := lexes
    rw [here.left]
    refine gives_here_bind.2 ((gives_heading_bind (isName_recordKind kind)).2
      ⟨_, _, _, _, _, here, isKeyword, atName, isName, apart, gives_skipSeparator_bind.2 ?_⟩)
    exact gives_bracketed_bind .leftBrace .rightBrace
      (completeItem_field (by decide) (by decide) (by decide)) lexes isOpening spelledMembers isClosing
      (gives_pure.2 ⟨rfl, rfl⟩)

/-- A namespace is read where it is spelled. -/
theorem gives_namespaceDecl {decl : Namespace} {lexemes : List Lexeme}
    (lexes : Lexes takesExponent text lexemes rest)
    (spelled : DefinitionSpelling true depth lexemes (.space decl)) :
    (namespaceDecl : Reader (List Char) Namespace).Gives (skip text) decl rest := by
  cases spelled with
  | space isKeyword spelledScope isName apart =>
    obtain ⟨_, here, _, atScope, _, atName, rfl⟩ := lexes
    obtain ⟨readsScope, gap⟩ := gives_scope atScope spelledScope
    refine (gives_keyword_bind (by decide)).2 ⟨_, _, here, isKeyword, ?_⟩
    refine gives_separator_bind.2 ⟨gap, readsScope.bind (gives_apart_name_bind.2 ?_)⟩
    exact ⟨_, _, _, atName, isName, apart, gives_pure.2 ⟨rfl, rfl⟩⟩

/-- A second name for a type is read where it is spelled, before what may follow a definition. -/
theorem gives_typedef {decl : Typedef Nat} {lexemes : List Lexeme}
    (lexes : Lexes takesExponent text lexemes after)
    (spelled : DefinitionSpelling true depth lexemes (.typedef decl))
    (follow : Faces after FollowsField) :
    ∃ rest, (typedef depth).Gives (skip text) decl rest ∧ (rest = after ∨ rest = skip after) := by
  cases spelled with
  | typedef isKeyword spelledType apart isName apart' spelledSeparator =>
    obtain ⟨_, here, lexes⟩ := lexes
    obtain ⟨_, lexesTypes, afterName, atName, lexesSeparator⟩ := lexes_append.1 lexes
    have trailing := faces_of_separator spelledSeparator lexesSeparator follow
    have ends : EndsType _ := .name atName isName.1 (trailing.imp fun _ holds => holds.1)
    obtain ⟨_, rest, readsSeparator, same⟩ := gives_optional_trailingListSeparator spelledSeparator
      lexesSeparator (follow.imp fun _ holds => holds.2.2) (.inl rfl)
    refine ⟨rest, ?_, same⟩
    rw [here.left]
    refine gives_here_bind.2 ((gives_keyword_bind (by decide)).2 ⟨_, _, here, isKeyword, ?_⟩)
    refine gives_separator_bind.2 ⟨lexesTypes.hasGap spelledType.1.ne_nil apart, ?_⟩
    refine (gives_definitionType depth lexesTypes spelledType ends).bind ?_
    refine gives_apart_name_bind.2 ⟨_, _, _, atName, isName, apart', ?_⟩
    exact readsSeparator.bind (gives_pure.2 ⟨rfl, rfl⟩)

/-- A constant declaration is read where it is spelled, before what may follow a definition. -/
theorem gives_constDecl {decl : ConstDecl Nat} {lexemes : List Lexeme}
    (lexes : Lexes takesExponent text lexemes after)
    (spelled : DefinitionSpelling true depth lexemes (.const decl))
    (follow : Faces after FollowsField) :
    ∃ rest, (constDecl depth).Gives (skip text) decl rest ∧ (rest = after ∨ rest = skip after) := by
  cases spelled with
  | const isKeyword spelledType apart isName apart' isEqual spelledValue spelledSeparator =>
    obtain ⟨_, here, lexes⟩ := lexes
    obtain ⟨_, lexesTypes, _, atName, _, atEqual, lexes⟩ := lexes_append.1 lexes
    obtain ⟨_, lexesValue, lexesSeparator⟩ := lexes_append.1 lexes
    have ends : EndsType _ :=
      .name atName isName.1 (atEqual.faces (by simp [show _ = _ from isEqual]))
    obtain ⟨_, rest, readsSeparator, same⟩ := gives_optional_trailingListSeparator spelledSeparator
      lexesSeparator (follow.imp fun _ holds => holds.2.2) (.inl rfl)
    refine ⟨rest, ?_, same⟩
    rw [here.left]
    refine gives_here_bind.2 ((gives_keyword_bind (by decide)).2 ⟨_, _, here, isKeyword, ?_⟩)
    refine gives_separator_bind.2 ⟨lexesTypes.hasGap spelledType.ne_nil apart, ?_⟩
    refine (gives_fieldType depth lexesTypes spelledType ends).bind ?_
    refine gives_apart_name_bind.2 ⟨_, _, _, atName, isName, apart', gives_skipSeparator_bind.2 ?_⟩
    refine (gives_character_bind .equal).2 ⟨_, _, atEqual, isEqual, gives_skipSeparator_bind.2 ?_⟩
    refine (gives_constValue depth lexesValue spelledValue).bind ?_
    exact readsSeparator.bind (gives_pure.2 ⟨rfl, rfl⟩)

/-- An enumeration is read where it is spelled. -/
theorem gives_enumDecl {decl : EnumDecl Nat} {lexemes : List Lexeme}
    (lexes : Lexes takesExponent text lexemes rest)
    (spelled : DefinitionSpelling true depth lexemes (.enum decl)) :
    enumDecl.Gives (skip text) decl rest := by
  cases spelled with
  | enum isKeyword isName apart isOpening spelledMembers isClosing =>
    obtain ⟨_, here, _, atName, _, atOpening, lexes⟩ := lexes
    rw [here.left]
    refine gives_here_bind.2 ((gives_heading_bind (by decide)).2
      ⟨_, _, _, _, _, here, isKeyword, atName, isName, apart, gives_skipSeparator_bind.2 ?_⟩)
    refine (gives_character_bind .leftBrace).2 ⟨_, _, atOpening, isOpening, ?_⟩
    exact gives_skipSeparator_bind.2 (gives_separated_bind completeElement_enumValue spelledMembers lexes
      isClosing (gives_pure.2 ⟨rfl, rfl⟩))

/-- A service is read where it is spelled. -/
theorem gives_service {decl : Service Nat} {lexemes : List Lexeme}
    (lexes : Lexes takesExponent text lexemes rest)
    (spelled : DefinitionSpelling true depth lexemes (.service decl)) :
    (service depth).Gives (skip text) decl rest := by
  cases spelled with
  | service isKeyword isName apart spelledBase isOpening spelledMembers isClosing =>
    obtain ⟨_, here, _, atName, lexes⟩ := lexes
    obtain ⟨_, lexesBase, lexes⟩ := lexes_append.1 lexes
    have opens := lexes
    obtain ⟨_, atOpening, -⟩ := opens
    rw [here.left]
    refine gives_here_bind.2 ((gives_heading_bind (by decide)).2
      ⟨_, _, _, _, _, here, isKeyword, atName, isName, apart, gives_skipSeparator_bind.2 ?_⟩)
    refine (gives_optional_baseService spelledBase lexesBase atOpening isOpening).bind ?_
    exact gives_bracketed_bind .leftBrace .rightBrace completeItem_function lexes isOpening
      spelledMembers isClosing (gives_pure.2 ⟨rfl, rfl⟩)

/-- A definition that is spelled is read before what may follow it. -/
theorem gives_definition {lexemes : List Lexeme} {value : Definition Nat}
    (lexes : Lexes takesExponent text lexemes after)
    (spelled : DefinitionSpelling true depth lexemes value) (follow : Faces after FollowsField) :
    ∃ rest, (definition depth).Gives (skip text) value rest ∧ (rest = after ∨ rest = skip after) := by
  have whole := spelled
  have starts := lexes
  cases spelled with
  | inclusion isKeyword shape apart =>
    obtain ⟨_, here, -⟩ := starts
    refine ⟨_, gives_definition_of_rule 0 rfl here isKeyword (Gives.map _ ?_), .inl rfl⟩
    exact (gives_keyword_literal (by decide)).2 ⟨_, _, lexes, isKeyword, shape, apart, rfl⟩
  | cppInclusion isKeyword shape apart =>
    obtain ⟨_, here, -⟩ := starts
    refine ⟨_, gives_definition_of_rule 1 rfl here isKeyword (Gives.map _ ?_), .inl rfl⟩
    exact (gives_keyword_literal (by decide)).2 ⟨_, _, lexes, isKeyword, shape, apart, rfl⟩
  | space isKeyword =>
    obtain ⟨_, here, -⟩ := starts
    have reads := gives_namespaceDecl lexes whole
    exact ⟨_, gives_definition_of_rule 2 rfl here isKeyword (reads.map _), .inl rfl⟩
  | typedef isKeyword =>
    obtain ⟨_, here, -⟩ := starts
    obtain ⟨rest, reads, same⟩ := gives_typedef lexes whole follow
    exact ⟨rest, gives_definition_of_rule 3 rfl here isKeyword (reads.map _), same⟩
  | const isKeyword =>
    obtain ⟨_, here, -⟩ := starts
    obtain ⟨rest, reads, same⟩ := gives_constDecl lexes whole follow
    exact ⟨rest, gives_definition_of_rule 4 rfl here isKeyword (reads.map _), same⟩
  | enum isKeyword =>
    obtain ⟨_, here, -⟩ := starts
    have reads := gives_enumDecl lexes whole
    exact ⟨_, gives_definition_of_rule 5 rfl here isKeyword (reads.map _), .inl rfl⟩
  | @record _ _ _ _ _ _ kind _ isKeyword =>
    obtain ⟨_, here, -⟩ := starts
    have reads := gives_record lexes whole
    cases kind with
    | struct => exact ⟨_, gives_definition_of_rule 6 rfl here isKeyword (reads.map _), .inl rfl⟩
    | union => exact ⟨_, gives_definition_of_rule 7 rfl here isKeyword (reads.map _), .inl rfl⟩
    | exception => exact ⟨_, gives_definition_of_rule 8 rfl here isKeyword (reads.map _), .inl rfl⟩
  | service isKeyword =>
    obtain ⟨_, here, -⟩ := starts
    have reads := gives_service lexes whole
    exact ⟨_, gives_definition_of_rule 9 rfl here isKeyword (reads.map _), .inl rfl⟩

end Completeness

end ThriftIdl.Reader
