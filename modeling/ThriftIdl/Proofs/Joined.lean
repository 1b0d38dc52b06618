import ThriftIdl.Proofs.Grammar.Parting
import ThriftIdl.Proofs.Grammar.Respelling
import ThriftIdl.Proofs.Reader.Source
import ThriftIdl.Proofs.Token.Ending
import ThriftIdl.Proofs.Token.Source

/-!
# Two texts, one on the line after the other

Definitions need nothing between them, and each kind of reader takes from a text what it would take if
more followed on the next line. So the definitions of two texts, one on the line after the other, are
those of the first and those of the second, in both ways of reading (`append_of_joined`).
-/
namespace ThriftIdl

open Text

variable {second : List Char}

section Spelling

variable {lexemes lexemes' : List Lexeme} {parted : Bool} {depth : Nat}
  {definitions definitions' : List (Definition Nat)}

/-- Definitions are spelled by the lexemes of two texts, one on the line after the other, if each text
spells its own. -/
theorem DefinitionsSpelling.append_joined
    (spelled : DefinitionsSpelling parted depth lexemes definitions)
    (spelled' : DefinitionsSpelling parted depth lexemes' definitions') :
    DefinitionsSpelling parted depth (lexemes.map (Lexeme.moved second) ++ freed lexemes')
      (definitions.map (Definition.map (· + (second.length + 1))) ++ definitions') := by
  have respells : Respelling parted parted depth depth (Lexeme.moved second)
      (· + (second.length + 1)) :=
    ⟨fun _ => rfl, fun _ => rfl, fun _ => rfl, fun _ apart => apart, id, Nat.le_refl depth⟩
  have moved := spelled.respelled respells
  cases lexemes' with
  | nil => exact moved.append spelled'
  | cons first others => exact moved.append (spelled'.of_first true)

end Spelling

/-- Places may be changed before or after documents are put one after the other. -/
theorem Document.append_map {π ρ : Type} (move : π → ρ) (first second : Document π) :
    (first.append second).map move = (first.map move).append (second.map move) := by
  simp [append, map]

section Source

open TokenReader

/-- No more characters are left after a token than before it. -/
theorem length_of_nextToken {follow : Expected} {text rest : List Char} {token : Token} {total : Nat}
    {previous : Option Token} (next : nextToken follow previous total text = .ok (token, rest)) :
    rest.length ≤ text.length := by
  rcases nextToken_eq_ok_iff.1 next with ⟨-, -, rfl⟩ | ⟨-, spelled, -⟩
  · exact Nat.zero_le _
  · have shorter := length_skip_le text
    rw [spelled, List.length_append] at shorter
    omega

/-- The tokens of two texts, one on the line after the other, are read as those of the first and then
those of the second. -/
theorem readTokens_joined {first : List Char} {values values' : List (Definition Nat)}
    (read : readTokens first = .ok (values, none)) (read' : readTokens second = .ok (values', none)) :
    readTokens (first ++ '\n' :: second) =
      .ok (values.map (Definition.map (· + (second.length + 1))) ++ values', none) := by
  obtain ⟨token, rest, after, starts, given, invalid⟩ := readTokens_eq_ok_iff.1 read
  obtain ⟨token', rest', last, starts', given', invalid'⟩ := readTokens_eq_ok_iff.1 read'
  obtain ⟨rounds, few⟩ := gives_items.1 given
  obtain ⟨rounds', few'⟩ := gives_items.1 given'
  have shorter := length_of_nextToken starts'
  have begins : Begins second := begins_of_rounds rounds' starts'
  by_cases inside : token.terminal = .ending
  · -- The first text has no tokens, so that those of the second one are read from its first one on.
    have ends := (ending_of_nextToken starts).1 inside
    cases rounds with
    | more other => exact absurd inside other
    | done =>
      by_cases inside' : token'.terminal = .ending
      · have whole := (skip_joined_of_nil ends).trans ((ending_of_nextToken starts').1 inside')
        cases rounds' with
        | more other => exact absurd inside' other
        | done =>
          exact readTokens_eq_ok_iff.2 ⟨_, [], ⟨_, [], none⟩,
            nextToken_eq_ok_iff.2 (.inl ⟨whole, rfl, rfl⟩), gives_items.2 ⟨.done rfl, by simp⟩, rfl⟩
      · obtain ⟨_, _, starts'', closed⟩ := begins
        rw [starts'] at starts''
        cases starts''
        exact readTokens_eq_ok_iff.2 ⟨token', rest', last,
          nextToken_joined_of_nil ends (List.Subset.refl _) starts' closed inside', given', invalid'⟩
  · obtain ⟨last', rounds, same⟩ := rounds_joined begins rounds rounds' invalid.symm starts'
      (sound_of_nextToken starts) inside
    refine readTokens_eq_ok_iff.2 ⟨_, _, last', nextToken_joined starts inside,
      gives_items.2 ⟨rounds, ?_⟩, same.trans invalid'⟩
    simp only [List.length_append, List.length_map, List.length_cons] at few few' ⊢
    omega

end Source

section Reading

variable {limit : Int} {first second : List Char} {document document' : Document Position}

/-- The document of two texts, one on the line after the other, is that of the first followed by that
of the second, if both are read directly. -/
theorem exists_readStrictly_joined (accepted : readStrictly limit first = .ok document)
    (accepted' : readStrictly limit second = .ok document') :
    ∃ whole, readStrictly limit (first ++ '\n' :: second) = .ok whole ∧
      whole.map content = (document.append document').map content := by
  obtain ⟨lexemes, rest, definitions, lexes, ends, spelled, rfl⟩ := readStrictly_eq_ok_iff.1 accepted
  obtain ⟨lexemes', rest', definitions', lexes', ends', spelled', rfl⟩ :=
    readStrictly_eq_ok_iff.1 accepted'
  obtain ⟨left, lexes, ends⟩ := lexes.append_joined ends lexes' ends'
  refine ⟨_, readStrictly_eq_ok_iff.2 ⟨_, left, _, lexes, ends, spelled.append_joined spelled', rfl⟩, ?_⟩
  rw [Document.ofDefinitions_append, Document.ofDefinitions_map]
  simp only [Document.append_map, Document.map_map]
  rfl

/-- The document of two texts, one on the line after the other, is that of the first followed by that
of the second, if both are read over tokens. -/
theorem exists_readGrammatically_joined (accepted : readGrammatically limit first = .ok document)
    (accepted' : readGrammatically limit second = .ok document') :
    ∃ whole, readGrammatically limit (first ++ '\n' :: second) = .ok whole ∧
      whole.map content = (document.append document').map content := by
  obtain ⟨_, read, rfl⟩ := readGrammatically_eq_ok_iff.1 accepted
  obtain ⟨_, read', rfl⟩ := readGrammatically_eq_ok_iff.1 accepted'
  obtain ⟨definitions, tokens, shallow, rfl⟩ := readByTokens_eq_ok_iff.1 read
  obtain ⟨definitions', tokens', shallow', rfl⟩ := readByTokens_eq_ok_iff.1 read'
  refine ⟨_, readGrammatically_eq_ok_iff.2 ⟨_, readByTokens_eq_ok_iff.2
    ⟨_, readTokens_joined tokens tokens', ?_, rfl⟩, rfl⟩, ?_⟩
  · rw [greatest_le_iff] at shallow shallow' ⊢
    intro definition mem
    rcases List.mem_append.1 mem with mem | mem
    · obtain ⟨before, among, rfl⟩ := List.mem_map.1 mem
      rw [Definition.depth_map]
      exact shallow before among
    · exact shallow' definition mem
  · rw [Document.ofDefinitions_append, Document.ofDefinitions_map]
    simp only [Document.append_map, Document.map_map]
    rfl

/-- If two texts are read, then the document of the texts on the line after each other is that of the
first followed by that of the second, directly as well as over tokens. -/
theorem append_of_joined (limit : Int) (first second : List Char) :
    (∀ document document', readStrictly limit first = .ok document →
      readStrictly limit second = .ok document' →
      ∃ whole, readStrictly limit (first ++ '\n' :: second) = .ok whole ∧
        whole.map content = (document.append document').map content) ∧
    ∀ document document', readGrammatically limit first = .ok document →
      readGrammatically limit second = .ok document' →
      ∃ whole, readGrammatically limit (first ++ '\n' :: second) = .ok whole ∧
        whole.map content = (document.append document').map content :=
  ⟨fun _ _ => exists_readStrictly_joined, fun _ _ => exists_readGrammatically_joined⟩

/-- A constant whose list separator is missing, and a comment that ends with its text, are followed by a
struct. -/
theorem append_of_joined_comment :
    ∃ document document' direct whole : Document Position,
      readStrictly 1 "const list<i32> a = [1] // b".toList = .ok document ∧
      readStrictly 1 "struct S { 1: i32 c }".toList = .ok document' ∧
      readStrictly 1 ("const list<i32> a = [1] // b".toList ++ '\n' ::
        "struct S { 1: i32 c }".toList) = .ok direct ∧
      readGrammatically 1 ("const list<i32> a = [1] // b".toList ++ '\n' ::
        "struct S { 1: i32 c }".toList) = .ok whole ∧
      direct.map content = (document.append document').map content := by
  have first : (readStrictly 1 "const list<i32> a = [1] // b".toList).isOk := by decide +kernel
  have second : (readStrictly 1 "struct S { 1: i32 c }".toList).isOk := by decide +kernel
  have first' : (readGrammatically 1 "const list<i32> a = [1] // b".toList).isOk := by decide +kernel
  have second' : (readGrammatically 1 "struct S { 1: i32 c }".toList).isOk := by decide +kernel
  obtain ⟨document, first⟩ := exists_eq_ok_of_isOk first
  obtain ⟨document', second⟩ := exists_eq_ok_of_isOk second
  obtain ⟨read, first'⟩ := exists_eq_ok_of_isOk first'
  obtain ⟨read', second'⟩ := exists_eq_ok_of_isOk second'
  obtain ⟨strictly, grammatically⟩ :=
    append_of_joined 1 "const list<i32> a = [1] // b".toList "struct S { 1: i32 c }".toList
  obtain ⟨direct, reads, same⟩ := strictly document document' first second
  obtain ⟨whole, reads', -⟩ := grammatically read read' first' second'
  exact ⟨document, document', direct, whole, first, second, reads, reads', same⟩

end Reading

end ThriftIdl
