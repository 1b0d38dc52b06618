import ThriftIdl.Proofs.Token.Fields

/-!
# Functions over tokens

A function that is read over tokens is spelled by the lexemes that are passed, unless something is
said of its meaning (`sound_function`). Where a function may begin, the words for no result and for no
answer are keywords, so that a result that is named like the latter stands after it only.
-/
namespace ThriftIdl.TokenReader

variable {text : List Char} {before after : Ahead}

/-- The type of a result or the word for none is passed. -/
theorem spelled_functionType {result : Option FieldType} (given : Gives functionType before result after)
    (stands : Stands Follow.onewayFunction text before) :
    ∃ lexemes rest expected, Lexes (fun _ => true) text lexemes rest ∧
      ((∀ limit, greatest FieldType.depth result.toList ≤ limit →
        ResultSpelling limit lexemes result) ∧ ∀ type ∈ result, type.Settled) ∧
          Stands expected rest after ∧ .identifier ∈ expected ∧ after.invalid = before.invalid ∧
            Parted rest after ∧ before.token.terminal.joins := by
  obtain ⟨taken, _, taking, others⟩ := gives_bind.1 given
  rcases gives_takes.1 taking with ⟨same, rfl, _, taking⟩ | ⟨-, rfl, rfl⟩
  · simp only [↓reduceIte] at others
    obtain ⟨rfl, rfl⟩ := gives_pure.1 others
    obtain ⟨word, takes, isWord, parted⟩ := takes_keyword stands same taking (by decide)
    exact ⟨[word], _, _, ⟨_, takes.here, rfl⟩, ⟨fun _ _ => .void isWord, by simp⟩, takes.stands,
      by decide, takes.invalid, parted, by rw [same]; rfl⟩
  · simp only [Bool.false_eq_true, ↓reduceIte, gives_bind, gives_pure] at others
    obtain ⟨type, _, reading, rfl, rfl⟩ := others
    obtain ⟨types, rest, lexes, ⟨spelled, settled⟩, stands', invalid, parted, joins⟩ :=
      sound_type reading (stands.mono (by decide))
    refine ⟨types, rest, _, lexes, ⟨fun limit shallow => .type (spelled limit ?_) ?_,
      by simpa using settled⟩, stands', by decide, invalid, parted, joins⟩
    · simpa [greatest] using shallow
    · rintro rfl
      exact ne_keyword_of_gives_named .void reading stands (by decide) rfl

/-- A result is not only known by a name that is a keyword where the result begins. -/
theorem ne_keyword_of_gives_result (word : Keyword) {name : String} {expected : Expected}
    (given : Gives functionType before (some (.named name)) after)
    (stands : Stands expected text before) (mem : .keyword word ∈ expected) : name ≠ word.text := by
  obtain ⟨taken, _, taking, others⟩ := gives_bind.1 given
  rcases gives_takes.1 taking with ⟨-, rfl, -⟩ | ⟨-, rfl, rfl⟩
  · simp at others
  · simp only [Bool.false_eq_true, ↓reduceIte, gives_bind, gives_pure, Option.some.injEq] at others
    obtain ⟨_, _, reading, rfl, -⟩ := others
    exact ne_keyword_of_gives_named word reading stands mem

/-- The word for no answer is passed, if it is there, and the result after it. -/
theorem spelled_oneway_functionType {oneway : Bool} {result : Option FieldType} {middle : Ahead}
    (given : Gives (takes (.keyword .oneway) Follow.onewayFunction) before oneway middle)
    (reads : Gives functionType middle result after) (stands : Stands Follow.function text before) :
    ∃ words results rest expected, Lexes (fun _ => true) text (words ++ results) rest ∧
      OnewaySpelling words oneway results result ∧
        ((∀ limit, greatest FieldType.depth result.toList ≤ limit →
          ResultSpelling limit results result) ∧ ∀ type ∈ result, type.Settled) ∧
            Stands expected rest after ∧ .identifier ∈ expected ∧ after.invalid = before.invalid ∧
              Parted rest after ∧ BeginsAt before.token.left (words ++ results) := by
  rcases gives_takes.1 given with ⟨same, rfl, _, taking⟩ | ⟨-, rfl, rfl⟩
  · obtain ⟨word, takes, isWord, parted⟩ := takes_keyword stands same taking (by decide)
    obtain ⟨results, rest, expected, lexes, spelled, stands, mem, invalid, parted', joins⟩ :=
      spelled_functionType reads takes.stands
    exact ⟨[word], results, rest, expected, ⟨_, takes.here, lexes⟩,
      .present isWord (parted.apart lexes joins), spelled, stands, mem, invalid.trans takes.invalid,
      parted', by simpa [BeginsAt] using takes.left⟩
  · obtain ⟨results, rest, expected, lexes, spelled, stands', mem, invalid, parted, joins⟩ :=
      spelled_functionType reads (stands.mono (List.subset_cons_self _ _))
    refine ⟨[], results, rest, expected, lexes, .absent ?_, spelled, stands', mem, invalid, parted, ?_⟩
    · rintro rfl
      exact ne_keyword_of_gives_result .oneway reads stands (by decide) rfl
    · rw [(stands.here fun ending => by rw [ending] at joins; cases joins).2.2]
      exact lexes.beginsAt

/-- The exceptions of a function are passed, if there are any. -/
theorem spelled_throws {exceptions : Option (List (Field Nat))}
    {taken : Bool} {middle : Ahead}
    (taking : Gives (takes (.keyword .throws) [.mark .leftParen]) before taken middle)
    (given : Gives (if taken then some <$> fieldList Follow.afterThrows else pure none) middle
      exceptions after) (stands : Stands Follow.afterParameters text before) :
    ∃ lexemes rest, Lexes (fun _ => true) text lexemes rest ∧ Stands Follow.afterThrows rest after ∧
      (after.invalid = none → before.invalid = none ∧
        (∀ limit, greatest Field.depth (exceptions.getD []) ≤ limit →
          ThrowsSpelling false limit lexemes exceptions) ∧
            ∀ field ∈ exceptions.getD [], field.type.Settled) := by
  rcases gives_takes.1 taking with ⟨same, rfl, _, taking⟩ | ⟨-, rfl, rfl⟩
  · simp only [↓reduceIte, gives_map] at given
    obtain ⟨fields, reading, rfl⟩ := given
    obtain ⟨word, takes, isWord, -⟩ := takes_keyword stands same taking (by decide)
    obtain ⟨members, rest, lexes, stands, spelled⟩ := sound_fieldList _ reading takes.stands
    refine ⟨word :: members, rest, ⟨_, takes.here, lexes⟩, stands, fun none => ?_⟩
    obtain ⟨none, spelled, settled⟩ := spelled none
    exact ⟨takes.invalid.symm.trans none, fun limit shallow =>
      .present isWord (spelled limit shallow), settled⟩
  · simp only [Bool.false_eq_true, ↓reduceIte] at given
    obtain ⟨rfl, rfl⟩ := gives_pure.1 given
    exact ⟨[], text, rfl, stands.mono (List.subset_cons_self _ _), fun none =>
      ⟨none, fun _ _ => .absent, by simp⟩⟩

/-- A function is spelled within every limit that its depth does not exceed. -/
theorem sound_function :
    SoundAs function Follow.function Follow.function fun lexemes value =>
      (∀ limit, value.depth ≤ limit → FunctionSpelling false limit lexemes value) ∧
        value.Settled := by
  intro before after value text given stands
  obtain ⟨_, _, placing, given⟩ := gives_bind.1 given
  obtain ⟨rfl, rfl⟩ := gives_place.1 placing
  obtain ⟨oneway, _, waiting, given⟩ := gives_bind.1 given
  obtain ⟨result, _, typing, given⟩ := gives_bind.1 given
  obtain ⟨name, _, naming, given⟩ := gives_bind.1 given
  obtain ⟨parameters, _, listing, given⟩ := gives_bind.1 given
  obtain ⟨taken, _, taking, given⟩ := gives_bind.1 given
  obtain ⟨exceptions, _, throwing, given⟩ := gives_ite_bind.1 given
  obtain ⟨_, _, separating, given⟩ := gives_bind.1 given
  obtain ⟨rfl, rfl⟩ := gives_pure.1 given
  obtain ⟨words, results, _, expected, lexesResult, spelledWord, ⟨spelledResult, settled⟩, stands,
    -, invalidResult, parted, begins⟩ := spelled_oneway_functionType waiting typing stands
  simp only [TokenReader.name, gives_bind, gives_pure, gives_take] at naming
  obtain ⟨_, _, ⟨same, naming⟩, rfl, rfl⟩ := naming
  obtain ⟨word, takes, isWord, -, -⟩ := takes_name stands same naming
  obtain ⟨members, _, lexesMembers, stands, spelledMembers⟩ := sound_fieldList _ listing takes.stands
  obtain ⟨throws, _, lexesThrows, stands, spelledThrows⟩ := spelled_throws taking throwing stands
  obtain ⟨separator, rest, lexesSeparator, spelledSeparator, stands, invalidSeparator, -⟩ :=
    exists_separator Follow.function stands (by decide) (by decide) separating
  obtain ⟨middle, lexesWords, lexesResults⟩ := lexes_append.1 lexesResult
  refine ⟨words ++ (results ++ word :: (members ++ (throws ++ separator))), rest, ?_, stands, ?_⟩
  · simp only [lexes_append, lexes_cons]
    exact ⟨_, lexesWords, _, lexesResults, _, takes.here, _, lexesMembers, _, lexesThrows,
      lexesSeparator⟩
  intro none
  obtain ⟨none, spelledThrows, settledThrows⟩ := spelledThrows (invalidSeparator.symm.trans none)
  obtain ⟨none, spelledMembers, settledMembers⟩ := spelledMembers none
  have apart : word.apart := takes.apart.trans (parted (by rw [same]; rfl))
  refine ⟨invalidResult.symm.trans (takes.invalid.symm.trans none), fun limit shallow => ?_,
    settled, settledMembers, settledThrows⟩
  obtain ⟨shallowResult, shallow⟩ := Nat.max_le.1 shallow
  obtain ⟨shallowMembers, shallowThrows⟩ := Nat.max_le.1 shallow
  exact .function spelledWord (spelledResult limit shallowResult) isWord apart
    (spelledMembers limit shallowMembers) (spelledThrows limit shallowThrows) spelledSeparator begins

end ThriftIdl.TokenReader
