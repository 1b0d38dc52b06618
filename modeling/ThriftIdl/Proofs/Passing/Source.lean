import ThriftIdl.Proofs.Grammar.Converting
import ThriftIdl.Proofs.Passing.Definitions
import ThriftIdl.Proofs.Reader.Unambiguous
import ThriftIdl.Proofs.Token.Source

/-!
# A whole text is passed

A text whose lexemes spell definitions is read over tokens, if no two of its lexemes are taken for
parts of one word and no name is a keyword where it stands (`readByTokens_of_ended`).
-/
namespace ThriftIdl

section Source

variable {source rest : List Char} {lexemes : List Lexeme} {ended parted : Bool} {depth : Nat}
  {definitions : List (Definition Nat)}

/-- The first token of a text is taken. -/
theorem exists_leads {terminal : Terminal} (lexes : Lexes (fun _ => true) source lexemes rest)
    (ends : skip rest = []) (loose : lexemes.IsChain Loose)
    (opens : Opens Follow.definition terminal lexemes) :
    ∃ token after, nextToken Follow.definition none source.length source = .ok (token, after) ∧
      Leads terminal lexemes ⟨token, after, none⟩ := by
  cases lexemes with
  | nil =>
    obtain rfl : terminal = .ending := opens
    obtain rfl : rest = source := lexes
    exact ⟨_, _, nextToken_eq_ok_iff.2 (.inl ⟨ends, rfl, rfl⟩), .ending rfl rfl⟩
  | cons first others =>
    obtain ⟨rfl, mem⟩ := opens
    obtain ⟨after, here, lexes⟩ := lexes
    let ahead : Ahead := ⟨⟨first.terminal Follow.definition, first.text, first.left⟩, after, none⟩
    have leads : Leads ahead.token.terminal (first :: others) ahead :=
      .token Lexeme.shape_terminal rfl rfl here.before lexes ends loose rfl
    refine ⟨_, after, nextToken_eq_ok_iff.2 (.inr ⟨mem, here.spelled, here.before.terminal,
      here.left, by simp⟩), leads⟩

/-- All tokens of a text are read if its lexemes spell definitions in which no name is a keyword where
it stands. -/
theorem exists_readTokens (lexes : Lexes (fun _ => true) source lexemes rest)
    (ends : skip rest = []) (loose : lexemes.IsChain Loose)
    (spelled : Sequence (EndedSpelling ended parted depth) lexemes definitions)
    (settled : ∀ definition ∈ definitions, definition.Settled)
    (clear : ∀ definition ∈ definitions, definition.Clear)
    (unthrown : ended = false → ∀ definition ∈ definitions, definition.Unthrown) :
    ∃ reads, readTokens source = .ok (reads, none) := by
  have all : ∀ follow ∈ Definition.follows, Follow.definition ⊆ follow := by decide
  let opening (definition : Definition Nat) : Terminal := .keyword definition.word
  have starts : Opens Follow.definition (definitions.head?.elim .ending opening) lexemes := by
    have none : Opens Follow.definition .ending [] := rfl
    have opens : Opens Follow.definition (definitions.head?.elim .ending opening) (lexemes ++ []) :=
      spelled.opens (fun _ _ _ one _ => opens_definition one.spelling (List.Subset.refl _))
        none
    simpa using opens
  obtain ⟨token, after, first, leads⟩ := exists_leads lexes ends loose starts
  have ahead : Leads (definitions.head?.elim .ending opening) (lexemes ++ []) ⟨token, after, none⟩ := by
    simpa using leads
  have passes : Passes TokenReader.definitions ⟨token, after, none⟩ .ending [] := by
    refine passes_items Definition.follows spelled (fun _ _ one => one.spelling.ne_nil) ?_ ?_
      (by simp [opening]) (fun _ _ => rfl) ahead
    · intro part others definition before terminal one mem _ leads opens
      exact passes_definition one (settled definition mem) (clear definition mem)
        (fun unended => unthrown unended definition mem) leads opens
    · intro part others definition one _ follow mem
      exact opens_definition one.spelling (all follow mem)
  obtain ⟨reads, last, given, left⟩ := passes
  exact ⟨reads, readTokens_eq_ok_iff.2 ⟨token, after, last, first, given, left.invalid_eq⟩⟩

/-- A text whose lexemes spell parted definitions in which no name is a keyword where it stands is read
over tokens, and its document is that of the definitions. -/
theorem readByTokens_of_ended {limit : Int} (lexes : AllLexes takesExponent source lexemes rest)
    (ends : skip rest = []) (loose : lexemes.IsChain Loose)
    (spelled : Sequence (EndedSpelling ended true limit.toNat) lexemes definitions)
    (settled : (Document.ofDefinitions definitions).Settled)
    (clear : (Document.ofDefinitions definitions).Clear)
    (unthrown : ended = false → (Document.ofDefinitions definitions).Unthrown) :
    readByTokens limit source = .ok (.ofDefinitions definitions) := by
  have lexes' : Lexes (fun _ => true) source lexemes rest := lexes fun _ _ => rfl
  obtain ⟨reads, read⟩ := exists_readTokens lexes' ends loose spelled
    (Document.settled_ofDefinitions.1 settled) (Document.clear_ofDefinitions.1 clear)
    fun unended => Document.unthrown_ofDefinitions.1 (unthrown unended)
  have spelled : DefinitionsSpelling true limit.toNat lexemes definitions :=
    spelled.imp fun _ _ _ one => one.spelling
  obtain ⟨parts, rest', lexes'', ends', spelled', -⟩ := spelled_readTokens read
  obtain ⟨rfl, rfl⟩ := lexes''.unique ends' lexes' ends
  have same : Document.ofDefinitions reads = Document.ofDefinitions definitions :=
    DefinitionsSpelling.document_unique (lexes fun _ fits => fits) spelled.converts
      (spelled' _ (Nat.le_refl _)) spelled
  have shallow : (Document.ofDefinitions definitions).depth ≤ limit.toNat := spelled.depth_le
  rw [← same, Document.depth_ofDefinitions_le_iff, ← greatest_le_iff] at shallow
  exact readByTokens_eq_ok_iff.2 ⟨reads, read, shallow, same.symm⟩

/-- A text whose lexemes spell parted definitions is read over tokens if no function but the first of its
service begins with the word for exceptions, whether or not list separators stand after functions. -/
theorem readByTokens_of_spelled {limit : Int} (lexes : AllLexes takesExponent source lexemes rest)
    (ends : skip rest = []) (loose : lexemes.IsChain Loose)
    (spelled : DefinitionsSpelling true limit.toNat lexemes definitions)
    (settled : (Document.ofDefinitions definitions).Settled)
    (clear : (Document.ofDefinitions definitions).Clear)
    (unthrown : (Document.ofDefinitions definitions).Unthrown) :
    readByTokens limit source = .ok (.ofDefinitions definitions) :=
  readByTokens_of_ended lexes ends loose (spelled.imp fun _ _ _ => endedSpelling_false_iff.2) settled
    clear fun _ => unthrown

end Source

end ThriftIdl
