import ThriftIdl.Proofs.Reader.Fields

/-!
# Direct reading of functions

Direct reading gives a function exactly where lexemes spell it (`spelled_function`,
`gives_function`). A function without exceptions may be followed by one whose result is a type
called `throws`, because then no bracket follows that word (`FollowsFunction`).
-/
namespace ThriftIdl.Reader

open Readable Text

variable {depth : Nat} {text rest after : List Char}

section Soundness

/-- What may stand as a list separator after blanks and comments is spelled, wherever skipping leads
to the same place. -/
theorem spelled_optional_trailingListSeparator {value : Option Char}
    (given : (optional (trailingListSeparator : Reader (List Char) Char)).Gives rest value after)
    (same : rest = text ∨ rest = skip text) :
    ∃ separator place, Lexes takesExponent text separator place ∧ SeparatorSpelling separator ∧
      (after = place ∨ after = skip place) := by
  rcases gives_optional.1 given with ⟨c, reads, rfl⟩ | ⟨-, rfl, rfl⟩
  · have reads := gives_skipSeparator_bind.1 reads
    rw [skip_eq_of_or same] at reads
    obtain ⟨separator, spelled, lexes, -⟩ := gives_listSeparator_iff_spelled.1 ⟨c, reads⟩
    exact ⟨separator, after, lexes, spelled, .inl rfl⟩
  · exact ⟨[], text, rfl, .absent, same⟩

/-- The result of a function is spelled. -/
theorem spelled_functionType : Sound (functionType depth) (ResultSpelling depth) := by
  intro text rest value given
  obtain void | ⟨refused, type | ⟨-, impossible⟩⟩ := gives_alternatives.1 given
  · obtain ⟨_, reads, rfl⟩ := gives_map.1 void
    obtain ⟨lexeme, here, isWord⟩ := (gives_keyword (by decide)).1 reads
    exact ⟨[lexeme], ⟨rest, here, rfl⟩, .void isWord⟩
  · obtain ⟨type, reads, rfl⟩ := gives_map.1 type
    obtain ⟨types, lexesTypes, spelledType⟩ := spelled_fieldType depth reads
    refine ⟨types, lexesTypes, .type spelledType ?_⟩
    rintro rfl
    obtain ⟨word, rfl, isWord⟩ := typeSpelling_named spelledType
    obtain ⟨_, here, rfl⟩ := lexesTypes
    exact (refuses_map.1 refused).not_gives _ _ ((gives_keyword (by decide)).2 ⟨word, here, isWord⟩)
  · exact impossible.elim

/-- Where the word stands before a gap, it is read with the gap. -/
theorem gives_oneway {lexeme : Lexeme} (here : lexeme.At takesExponent text after)
    (isWord : lexeme.IsWord "oneway") (gap : hasGap after) :
    (oneway : Reader (List Char) Unit).Gives (skip text) () (skip after) :=
  Gives.bind ((gives_keyword (by decide)).2 ⟨lexeme, here, isWord⟩) (gives_separator.2 ⟨gap, rfl⟩)

/-- The word for a function whose caller waits for no answer is spelled, if there is one, and the
result after it. -/
theorem spelled_oneway_functionType {word : Option Unit} {place : List Char}
    (tried : (optional (oneway : Reader (List Char) Unit)).Gives (skip text) word place)
    {result : Option FieldType} (reads : (functionType depth).Gives place result rest)
    (gap : hasGap rest) :
    ∃ words results after, Lexes takesExponent text words after ∧
      Lexes takesExponent after results rest ∧ OnewaySpelling words word.isSome results result ∧
        ResultSpelling depth results result := by
  rcases gives_optional.1 tried with ⟨value, reads', rfl⟩ | ⟨refused, rfl, rfl⟩
  · obtain ⟨lexeme, after, here, isWord, separated⟩ := (gives_keyword_bind (by decide)).1 reads'
    obtain ⟨gap', rfl⟩ := gives_separator.1 separated
    obtain ⟨results, lexesResult, spelledResult⟩ := spelled_functionType reads
    exact ⟨[lexeme], results, after, ⟨after, here, rfl⟩, lexesResult,
      .present isWord (lexesResult.apart gap'), spelledResult⟩
  · obtain ⟨results, lexesResult, spelledResult⟩ := spelled_functionType reads
    refine ⟨[], results, text, rfl, lexesResult, .absent ?_, spelledResult⟩
    -- A result that is the word would have been read as the word.
    rintro rfl
    obtain _ | ⟨spelledType, -⟩ := spelledResult
    obtain ⟨word, rfl, isWord⟩ := typeSpelling_named spelledType
    obtain ⟨_, here, rfl⟩ := lexesResult
    exact refused.not_gives _ _ (gives_oneway here isWord gap)

/-- The exceptions of a function are spelled, if there are any. -/
theorem spelled_optional_throws {value : Option (List (Field Nat))}
    (given : (optional (throws depth)).Gives (skip text) value rest) :
    ∃ lexemes after, Lexes takesExponent text lexemes after ∧ ThrowsSpelling true depth lexemes value ∧
      (rest = after ∨ rest = skip after) := by
  rcases gives_optional.1 given with ⟨fields, reads, rfl⟩ | ⟨-, rfl, rfl⟩
  · obtain ⟨word, _, here, isWord, reads⟩ := (gives_keyword_bind (by decide)).1 reads
    obtain ⟨members, lexesMembers, spelledMembers⟩ :=
      spelled_fieldList (gives_skipSeparator_bind.1 reads)
    exact ⟨word :: members, rest, ⟨_, here, lexesMembers⟩, .present isWord spelledMembers, .inl rfl⟩
  · exact ⟨[], text, rfl, .absent, .inr rfl⟩

/-- What direct reading gives as a function is spelled. -/
theorem spelled_function (depth : Nat) :
    SoundItem (function depth) (FunctionSpelling true depth) := by
  intro text rest value given
  have given := gives_here_bind.1 given
  obtain ⟨word, _, tried, given⟩ := gives_bind.1 given
  obtain ⟨result, _, reads, given⟩ := gives_bind.1 given
  obtain ⟨gap, given⟩ := gives_separator_bind.1 given
  obtain ⟨words, results, _, lexesWords, lexesResult, spelledWord, spelledResult⟩ :=
    spelled_oneway_functionType tried reads gap
  obtain ⟨name, found, _, atName, isName, given⟩ := gives_name_bind.1 given
  obtain ⟨members, parameters, _, lexesMembers, spelledMembers, given⟩ :=
    spelled_fieldList.bind (gives_skipSeparator_bind.1 given)
  obtain ⟨exceptions, _, thrown, given⟩ := gives_bind.1 (gives_skipSeparator_bind.1 given)
  obtain ⟨throwing, _, lexesThrows, spelledThrows, same⟩ := spelled_optional_throws thrown
  obtain ⟨_, _, trailing, given⟩ := gives_bind.1 given
  obtain ⟨rfl, rfl⟩ := gives_pure.1 given
  obtain ⟨separator, after, lexesSeparator, spelledSeparator, same⟩ :=
    spelled_optional_trailingListSeparator trailing same
  have head : Lexes takesExponent text (words ++ results) _ :=
    lexes_append.2 ⟨_, lexesWords, lexesResult⟩
  refine ⟨_, after, ?_, .function spelledWord spelledResult isName (atName.apart.trans gap)
    spelledMembers spelledThrows spelledSeparator head.beginsAt, by simp, same⟩
  simp only [lexes_append, lexes_cons]
  exact ⟨_, lexesWords, _, lexesResult, _, atName, _, lexesMembers, _, lexesThrows, lexesSeparator⟩

end Soundness

section Completeness

/-- What may follow a function: no list separator, and no exceptions. -/
def FollowsFunction (text : List Char) : Prop :=
  (Faces text fun lexeme => ¬ IsSeparator lexeme) ∧
    ∀ (lexeme : Lexeme) (after : List Char), lexeme.At takesExponent text after →
      lexeme.IsWord "throws" → Faces after fun next => ¬ next.IsMark .leftParen

/-- A result begins with a word: the word for none, the name of a type or a keyword of one. -/
theorem resultSpelling_begins {lexemes : List Lexeme} {result : Option FieldType}
    (spelled : ResultSpelling depth lexemes result) :
    ∃ (word : Lexeme) (others : List Lexeme) (name : String), lexemes = word :: others ∧
      word.IsWord name ∧ (result = some (.named name) ∧ others = [] ∨
        name ∈ "void" :: typeWords) := by
  cases spelled with
  | void isWord => exact ⟨_, _, _, rfl, isWord, .inr (by simp)⟩
  | type spelledType =>
    obtain ⟨word, others, name, rfl, isWord, rfl | mem⟩ := typeSpelling_begins spelledType
    · obtain ⟨word', same, -⟩ := typeSpelling_named spelledType
      simp only [List.cons.injEq] at same
      exact ⟨_, _, _, rfl, isWord, .inl ⟨rfl, same.2⟩⟩
    · exact ⟨_, _, _, rfl, isWord, .inr (List.mem_cons_of_mem _ mem)⟩

/-- The word for a function whose caller waits for no answer is read where it is spelled. -/
theorem gives_optional_oneway {words results : List Lexeme} {oneway' : Bool}
    {result : Option FieldType} (spelled : OnewaySpelling words oneway' results result)
    (spelledResult : ResultSpelling depth results result)
    (lexesWords : Lexes takesExponent text words after)
    (lexesResult : Lexes takesExponent after results rest) :
    ∃ word, (optional (oneway : Reader (List Char) Unit)).Gives (skip text) word (skip after) ∧
      word.isSome = oneway' := by
  cases spelled with
  | absent different =>
    obtain rfl := lexesWords
    refine ⟨none, Refuses.optional (Refuses.bind (refuses_keyword (by decide) ?_)), rfl⟩
    obtain ⟨word, others, name, rfl, isWord, named⟩ := resultSpelling_begins spelledResult
    obtain ⟨_, here, -⟩ := lexesResult
    refine here.faces fun isOneway => ?_
    obtain rfl := isWord.unique isOneway
    rcases named with ⟨rfl, -⟩ | mem
    · exact different rfl
    · exact absurd mem (by decide)
  | present isWord apart =>
    obtain ⟨_, here, rfl⟩ := lexesWords
    exact ⟨some (), (gives_oneway here isWord
      (lexesResult.hasGap (spelledResult.ne_nil) apart)).optional, rfl⟩

/-- The result of a function is read where it is spelled. -/
theorem gives_functionType {results : List Lexeme} {result : Option FieldType}
    (lexes : Lexes takesExponent text results rest) (spelled : ResultSpelling depth results result)
    (ends : EndsType rest) : (functionType depth).Gives (skip text) result rest := by
  cases spelled with
  | void isWord =>
    obtain ⟨_, here, rfl⟩ := lexes
    exact gives_alternatives.2 (.inl (((gives_keyword (by decide)).2 ⟨_, here, isWord⟩).map _))
  | type spelledType different =>
    refine gives_alternatives.2 (.inr ⟨refuses_map.2 (refuses_keyword (by decide) ?_),
      .inl ((gives_fieldType depth lexes spelledType ends).map _)⟩)
    obtain ⟨word, others, name, rfl, isWord, named⟩ := typeSpelling_begins spelledType
    obtain ⟨_, here, -⟩ := lexes
    refine here.faces fun isVoid => ?_
    obtain rfl := isWord.unique isVoid
    rcases named with rfl | mem
    · exact different rfl
    · exact absurd mem (by decide)

/-- Exceptions are read where they are spelled, and none are read before a list separator or what
may follow a function. -/
theorem gives_optional_throws {lexemes separator : List Lexeme}
    {exceptions : Option (List (Field Nat))} {middle : List Char}
    (spelled : ThrowsSpelling true depth lexemes exceptions)
    (lexes : Lexes takesExponent text lexemes middle) (spelledSeparator : SeparatorSpelling separator)
    (lexesSeparator : Lexes takesExponent middle separator after) (follow : FollowsFunction after) :
    ∃ rest, (optional (throws depth)).Gives (skip text) exceptions rest ∧
      (rest = middle ∨ rest = skip middle) := by
  cases spelled with
  | absent =>
    obtain rfl := lexes
    refine ⟨_, Refuses.optional (refuses_keyword_bind (by decide) fun lexeme place here isWord => ?_),
      .inr rfl⟩
    rcases spelledSeparator with _ | comma | semicolon
    · obtain rfl := lexesSeparator
      refine refuses_skipSeparator_bind (Refuses.bind (refuses_character .leftParen ?_))
      exact follow.2 lexeme place here isWord
    · obtain ⟨_, there, -⟩ := lexesSeparator
      exact absurd ((there.unique here).1 ▸ comma) isWord.not_isMark
    · obtain ⟨_, there, -⟩ := lexesSeparator
      exact absurd ((there.unique here).1 ▸ semicolon) isWord.not_isMark
  | present isWord spelledMembers =>
    obtain ⟨_, here, lexesMembers⟩ := lexes
    refine ⟨middle, Gives.optional ((gives_keyword_bind (by decide)).2 ⟨_, _, here, isWord, ?_⟩),
      .inl rfl⟩
    exact gives_skipSeparator_bind.2 (gives_fieldList lexesMembers spelledMembers)

/-- A list separator that may stand after blanks and comments is read where it is spelled. -/
theorem gives_optional_trailingListSeparator {separator : List Lexeme}
    (spelled : SeparatorSpelling separator) (lexes : Lexes takesExponent text separator after)
    (absent : Faces after fun lexeme => ¬ IsSeparator lexeme)
    (same : rest = text ∨ rest = skip text) :
    ∃ value place, (optional (trailingListSeparator : Reader (List Char) Char)).Gives rest value
      place ∧ (place = after ∨ place = skip after) := by
  by_cases none : separator = []
  · subst none
    obtain rfl := lexes
    refine ⟨Option.none, rest, Refuses.optional (refuses_skipSeparator_bind ?_), same⟩
    rw [skip_eq_of_or same]
    exact refuses_listSeparator absent
  · obtain ⟨c, reads⟩ := gives_listSeparator_iff_spelled.2 ⟨separator, spelled, lexes, none⟩
    refine ⟨some c, after, Gives.optional (gives_skipSeparator_bind.2 ?_), .inl rfl⟩
    rw [skip_eq_of_or same]
    exact reads

/-- A function that is spelled is read before what may follow it. -/
theorem gives_function {lexemes : List Lexeme} {value : FunctionDecl Nat}
    (lexes : Lexes takesExponent text lexemes after)
    (spelled : FunctionSpelling true depth lexemes value) (follow : FollowsFunction after) :
    ∃ rest, (function depth).Gives (skip text) value rest ∧ (rest = after ∨ rest = skip after) := by
  cases spelled with
  | function spelledWord spelledResult isName apart spelledMembers spelledThrows spelledSeparator
      begins =>
    obtain ⟨_, lexesWords, lexes⟩ := lexes_append.1 lexes
    obtain ⟨_, lexesResult, afterName, atName, lexes⟩ := lexes_append.1 lexes
    obtain ⟨_, lexesMembers, lexes⟩ := lexes_append.1 lexes
    obtain ⟨_, lexesThrows, lexesSeparator⟩ := lexes_append.1 lexes
    have head : Lexes takesExponent text (_ ++ _) _ := lexes_append.2 ⟨_, lexesWords, lexesResult⟩
    have some := spelledResult.ne_nil
    obtain rfl := head.place_eq (by simp [some]) begins
    have noLiteral : Faces afterName fun lexeme => lexeme.shape ≠ .literal := by
      obtain @⟨opening, closing, members, fields, isOpening, -, -⟩ := spelledMembers
      obtain ⟨_, here, -⟩ := lexesMembers
      exact here.faces (by simp [show _ = _ from isOpening])
    obtain ⟨word, readsWord, rfl⟩ :=
      gives_optional_oneway spelledWord spelledResult lexesWords lexesResult
    obtain ⟨_, readsThrows, same⟩ :=
      gives_optional_throws spelledThrows lexesThrows spelledSeparator lexesSeparator follow
    obtain ⟨_, rest, readsSeparator, same'⟩ :=
      gives_optional_trailingListSeparator spelledSeparator lexesSeparator follow.1 same
    refine ⟨rest, gives_here_bind.2 (readsWord.bind ?_), same'⟩
    refine (gives_functionType lexesResult spelledResult
      (.name atName isName.1 noLiteral)).bind ?_
    refine gives_apart_name_bind.2 ⟨_, _, _, atName, isName, apart, gives_skipSeparator_bind.2 ?_⟩
    refine (gives_fieldList lexesMembers spelledMembers).bind (gives_skipSeparator_bind.2 ?_)
    exact readsThrows.bind (readsSeparator.bind (gives_pure.2 ⟨rfl, rfl⟩))

/-- A function may follow another one. -/
theorem followsFunction_of_function {lexemes : List Lexeme} {value : FunctionDecl Nat}
    (lexes : Lexes takesExponent text lexemes after)
    (spelled : FunctionSpelling true depth lexemes value) : FollowsFunction text := by
  cases spelled with
  | function spelledWord spelledResult isName _ _ _ _ _ =>
    obtain ⟨_, lexesWords, lexes⟩ := lexes_append.1 lexes
    obtain ⟨_, lexesResult, _, atName, -⟩ := lexes_append.1 lexes
    have noSeparator : ∀ {lexeme : Lexeme}, lexeme.shape = .word → ¬ IsSeparator lexeme := by
      rintro lexeme word (comma | semicolon)
      · exact absurd (word.symm.trans comma) (by simp)
      · exact absurd (word.symm.trans semicolon) (by simp)
    cases spelledWord with
    | present isWord =>
      obtain ⟨_, here, -⟩ := lexesWords
      refine ⟨here.faces (noSeparator isWord.1), fun lexeme place there isThrows => ?_⟩
      exact absurd (isWord.unique ((here.unique there).1 ▸ isThrows)) (by decide)
    | absent =>
      obtain rfl := lexesWords
      obtain ⟨word, others, name, rfl, isWord, named⟩ := resultSpelling_begins spelledResult
      obtain ⟨_, here, lexesOthers⟩ := lexesResult
      refine ⟨here.faces (noSeparator isWord.1), fun lexeme place there isThrows => ?_⟩
      obtain ⟨rfl, rfl⟩ := here.unique there
      obtain rfl := isWord.unique isThrows
      rcases named with ⟨-, rfl⟩ | mem
      · obtain rfl := lexesOthers
        exact atName.faces isName.not_isMark
      · exact absurd mem (by decide)

/-- Where a mark stands, no function is read. -/
theorem refuses_function {lexeme : Lexeme} {mark : Mark} (here : lexeme.At takesExponent text rest)
    (isMark : lexeme.IsMark mark) : (function depth).Refuses (skip text) := by
  have noWord : ∀ {word : String}, Faces text fun lexeme => ¬ lexeme.IsWord word :=
    here.faces fun isWord => isWord.not_isMark isMark
  have noResult : (functionType depth).Refuses (skip text) := by
    refine refuses_alternatives fun rule mem => ?_
    simp only [List.mem_cons, List.not_mem_nil, or_false] at mem
    rcases mem with rfl | rfl
    · exact refuses_map.2 (refuses_keyword (by decide) noWord)
    · exact refuses_map.2 (refuses_fieldType here isMark)
  have noOneway : (oneway : Reader (List Char) Unit).Refuses (skip text) :=
    (refuses_keyword (by decide) noWord).bind
  exact Gives.bind_refuses (gives_here.2 ⟨rfl, rfl⟩) (noOneway.optional.bind_refuses noResult.bind)

/-- Functions are items before the brace that closes a service. -/
theorem completeItem_function :
    CompleteItem (function depth) (FunctionSpelling true depth) FollowsFunction .rightBrace where
  gives _ _ _ _ lexes spelled follow := gives_function lexes spelled follow
  next _ _ _ _ lexes spelled := followsFunction_of_function lexes spelled
  closes _ _ _ here isMark := by
    refine ⟨here.faces ?_, fun lexeme after there isWord => ?_⟩
    · rintro (comma | semicolon)
      · exact absurd (isMark.unique comma) (by decide)
      · exact absurd (isMark.unique semicolon) (by decide)
    · exact absurd ((here.unique there).1 ▸ isMark) isWord.not_isMark
  refuses _ _ _ here isMark := refuses_function here isMark
  sound := spelled_function depth

end Completeness

end ThriftIdl.Reader
