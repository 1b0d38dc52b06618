import ThriftIdl.Proofs.Token.Definitions
import ThriftIdl.Token.Source

/-!
# Reading a whole text over tokens

The document of a text that is accepted over tokens is that of definitions which the lexemes of the
text spell, within the nesting limit, and nothing but blanks and comments follows the lexemes
(`spelled_readByTokens`).
-/
namespace ThriftIdl

open Text

section Source

variable {limit : Int} {source : List Char}

/-- All tokens of a text are read from its first token on. -/
theorem readTokens_eq_ok_iff {definitions : List (Definition Nat)} {invalid : Option Invalid} :
    readTokens source = .ok (definitions, invalid) ↔
      ∃ (token : Token) (rest : List Char) (after : Ahead),
        nextToken Follow.definition none source.length source = .ok (token, rest) ∧
          TokenReader.definitions.Gives ⟨token, rest, none⟩ definitions after ∧
            after.invalid = invalid := by
  cases first : nextToken Follow.definition none source.length source with
  | error rejection =>
    simp [readTokens, first, bind, Except.bind]
  | ok found =>
    obtain ⟨token, rest⟩ := found
    cases others : TokenReader.definitions ⟨token, rest, none⟩ with
    | error rejection =>
      simp [readTokens, first, others, bind, Except.bind, TokenReader.Gives]
    | ok found =>
      obtain ⟨values, after⟩ := found
      simp only [readTokens, first, bind, Except.bind, others, pure, Except.pure, Except.ok.injEq,
        Prod.mk.injEq, TokenReader.Gives]
      constructor
      · rintro ⟨rfl, rfl⟩
        exact ⟨token, rest, after, ⟨rfl, rfl⟩, by rw [others], rfl⟩
      · rintro ⟨_, _, _, ⟨rfl, rfl⟩, given, rfl⟩
        rw [others] at given
        cases given
        exact ⟨rfl, rfl⟩

/-- A text is accepted over tokens exactly if all its tokens are read, nothing is wrong with their
meaning, and no definition is too deep. -/
theorem readByTokens_eq_ok_iff {document : Document Nat} :
    readByTokens limit source = .ok document ↔
      ∃ definitions, readTokens source = .ok (definitions, none) ∧
        greatest Definition.depth definitions ≤ limit.toNat ∧
          document = .ofDefinitions definitions := by
  cases read : readTokens source with
  | error rejection => simp [readByTokens, read, bind, Except.bind]
  | ok found =>
    obtain ⟨definitions, invalid⟩ := found
    have shallow : lastOf (Definition.tooDeep? limit.toNat) definitions = none ↔
        greatest Definition.depth definitions ≤ limit.toNat := by
      simp only [lastOf_eq_none_iff, Definition.tooDeep?_eq_none_iff, greatest_le_iff]
    simp only [readByTokens, read, bind, Except.bind, Except.ok.injEq, Prod.mk.injEq]
    cases deep : lastOf (Definition.tooDeep? limit.toNat) definitions with
    | some production =>
      have deeper : ¬ greatest Definition.depth definitions ≤ limit.toNat := by simp [← shallow, deep]
      simp [throw, throwThe, MonadExceptOf.throw, deeper]
    | none =>
      have within := shallow.1 deep
      cases invalid with
      | some reason => simp [throw, throwThe, MonadExceptOf.throw]
      | none => simp [pure, Except.pure, within, eq_comm]

/-- Definitions that are read over tokens are spelled by the lexemes of the text, within any limit that
is no less than their depth, and no type in them is named like a keyword that begins a type. -/
theorem spelled_readTokens {definitions : List (Definition Nat)}
    (read : readTokens source = .ok (definitions, none)) :
    ∃ lexemes rest, Lexes (fun _ => true) source lexemes rest ∧ skip rest = [] ∧
      (∀ depth, greatest Definition.depth definitions ≤ depth →
        DefinitionsSpelling false depth lexemes definitions) ∧
          ∀ definition ∈ definitions, definition.Settled := by
  obtain ⟨token, rest, after, first, given, invalid⟩ := readTokens_eq_ok_iff.1 read
  have stands : TokenReader.Stands Follow.definition source ⟨token, rest, none⟩ :=
    TokenReader.stands_of_nextToken first
  rw [TokenReader.definitions, TokenReader.gives_items] at given
  obtain ⟨lexemes, rest', lexes, stands, same, spelled⟩ :=
    TokenReader.sound_rounds TokenReader.sound_definition given.1 stands
  refine ⟨lexemes, rest', lexes, stands.ends same, fun depth shallow => ?_,
    (spelled invalid).2.all fun _ _ one => one.2⟩
  have each := greatest_le_iff.1 shallow
  exact (spelled invalid).2.imp fun _ definition mem one => one.1 _ (each definition mem)

/-- What is accepted over tokens is spelled by the lexemes of the text. -/
theorem spelled_readByTokens {document : Document Nat}
    (accepted : readByTokens limit source = .ok document) :
    ∃ lexemes rest definitions, Lexes (fun _ => true) source lexemes rest ∧ skip rest = [] ∧
      DefinitionsSpelling false limit.toNat lexemes definitions ∧
        document = .ofDefinitions definitions ∧ document.Settled := by
  obtain ⟨definitions, read, shallow, rfl⟩ := readByTokens_eq_ok_iff.1 accepted
  obtain ⟨lexemes, rest, lexes, ends, spelled, settled⟩ := spelled_readTokens read
  exact ⟨lexemes, rest, definitions, lexes, ends, spelled _ shallow, rfl,
    Document.settled_ofDefinitions.2 settled⟩

/-- Reading over tokens with positions is reading over tokens and telling the places. -/
theorem readGrammatically_eq_ok_iff {document : Document Position} :
    readGrammatically limit source = .ok document ↔
      ∃ read, readByTokens limit source = .ok read ∧
        document = read.map (positionIn source 0) := by
  cases read : readByTokens limit source <;> simp [readGrammatically, read, eq_comm]

end Source

end ThriftIdl
