import ThriftIdl.Proofs.Grammar.Depth
import ThriftIdl.Proofs.Token.Steps

/-!
# Constants over tokens

A constant that is read over tokens is spelled by the lexemes that are passed, unless something is
said of its meaning (`sound_constant`). The items of lists and maps, and all items that are read in
rounds, are spelled one after the other (`sound_rounds`), also between brackets (`sound_enclosed`).
-/
namespace ThriftIdl.TokenReader

variable {α : Type} {text : List Char} {before after : Ahead}

/-- A reader passes lexemes that spell its values, unless something is said of their meaning. -/
def SoundAs (reader : TokenReader α) (needed follow : Expected)
    (spelling : List Lexeme → α → Prop) : Prop :=
  ∀ ⦃before after value text⦄, Gives reader before value after → Stands needed text before →
    ∃ lexemes rest, Lexes (fun _ => true) text lexemes rest ∧ Stands follow rest after ∧
      (after.invalid = none → before.invalid = none ∧ spelling lexemes value)

section Rounds

variable {closing : Terminal} {item : TokenReader α} {needed : Expected}
  {spelling : List Lexeme → α → Prop} {values : List α}

/-- Items that are read in rounds are spelled one after the other. -/
theorem sound_rounds (sound : SoundAs item needed needed spelling)
    (rounds : Rounds closing item before values after) (stands : Stands needed text before) :
    ∃ lexemes rest, Lexes (fun _ => true) text lexemes rest ∧ Stands needed rest after ∧
      after.token.terminal = closing ∧
        (after.invalid = none → before.invalid = none ∧ Sequence spelling lexemes values) := by
  induction rounds generalizing text with
  | done same => exact ⟨[], text, rfl, stands, same, fun none => ⟨none, .nil⟩⟩
  | more _ first _ ih =>
    obtain ⟨lexemes, rest, lexes, stands, spelled⟩ := sound first stands
    obtain ⟨others, rest', lexes', stands, same, spelled'⟩ := ih stands
    refine ⟨lexemes ++ others, rest', lexes_append.2 ⟨rest, lexes, lexes'⟩, stands, same, ?_⟩
    intro none
    obtain ⟨none, others⟩ := spelled' none
    obtain ⟨none, first⟩ := spelled none
    exact ⟨none, .cons first others⟩

/-- Items with list separators after them are elements that need not be parted. -/
theorem elements_of_sequence {lexemes : List Lexeme}
    (spelled : Sequence (fun lexemes value => ∃ first separator, lexemes = first ++ separator ∧
      spelling first value ∧ SeparatorSpelling separator) lexemes values) :
    Elements false spelling lexemes values := by
  induction spelled with
  | nil => exact .nil
  | cons first _ ih =>
    obtain ⟨first, separator, rfl, spelled, spelledSeparator⟩ := first
    rw [List.append_assoc]
    exact .cons spelled spelledSeparator ih (by simp)

end Rounds

section Brackets

variable {opening closing : Mark} {start follow expected : Expected} {started ended : Ahead}
  {found found' : List Char} {inside : List Lexeme → Prop}

/-- What stands between brackets is passed with them. -/
theorem spelled_enclosed (stands : Stands expected text before)
    (same : before.token.terminal = .mark opening) (starts : Gives (advance start) before found started)
    (spelled : Stands start before.rest started → ∃ lexemes rest,
      Lexes (fun _ => true) before.rest lexemes rest ∧ (∃ expected, Stands expected rest ended) ∧
        ended.token.terminal = .mark closing ∧
          (ended.invalid = none → started.invalid = none ∧ inside lexemes))
    (ends : Gives (advance follow) ended found' after) :
    ∃ first last : Lexeme, ∃ members rest,
      Lexes (fun _ => true) text (first :: (members ++ [last])) rest ∧ first.IsMark opening ∧
        last.IsMark closing ∧ Stands follow rest after ∧
          (after.invalid = none → before.invalid = none ∧ inside members) := by
  obtain ⟨first, takes, isOpening⟩ := takes_mark stands same starts
  obtain ⟨members, rest, lexes, ⟨_, stands⟩, same', spelled⟩ := spelled takes.stands
  obtain ⟨last, takes', isClosing⟩ := takes_mark stands same' ends
  refine ⟨first, last, members, _, ⟨_, takes.here, lexes_append.2 ⟨_, lexes, _, takes'.here, rfl⟩⟩,
    isOpening, isClosing, takes'.stands, fun none => ?_⟩
  obtain ⟨none, spelled⟩ := spelled (takes'.invalid.symm.trans none)
  exact ⟨takes.invalid.symm.trans none, spelled⟩

/-- Items that are read in rounds between brackets are spelled between them. -/
theorem sound_enclosed {item : TokenReader α} {needed : Expected}
    {spelling : List Lexeme → α → Prop} {values : List α} (sound : SoundAs item needed needed spelling)
    (stands : Stands expected text before) (same : before.token.terminal = .mark opening)
    (starts : Gives (advance start) before found started) (within : needed ⊆ start)
    (rounds : Rounds (.mark closing) item started values ended)
    (ends : Gives (advance follow) ended found' after) :
    ∃ first last : Lexeme, ∃ members rest,
      Lexes (fun _ => true) text (first :: (members ++ [last])) rest ∧ first.IsMark opening ∧
        last.IsMark closing ∧ Stands follow rest after ∧
          (after.invalid = none → before.invalid = none ∧ Sequence spelling members values) := by
  refine spelled_enclosed stands same starts (fun stands => ?_) ends
  obtain ⟨lexemes, rest, lexes, stands, others⟩ := sound_rounds sound rounds (stands.mono within)
  exact ⟨lexemes, rest, lexes, ⟨_, stands⟩, others⟩

end Brackets

section Constants

variable {inner : TokenReader ConstValue} {spelling : List Lexeme → ConstValue → Prop}

/-- An element of a list is spelled with the list separator after it. -/
theorem sound_element (sound : SoundAs inner Follow.constant Follow.afterConstant spelling) :
    SoundAs (do
        let value ← inner
        takeSeparator
        return value) Follow.constant Follow.constant
      fun lexemes value => ∃ first separator, lexemes = first ++ separator ∧ spelling first value ∧
        SeparatorSpelling separator := by
  intro before after value text given stands
  simp only [gives_bind, gives_pure] at given
  obtain ⟨value, _, reading, _, _, separating, rfl, rfl⟩ := given
  obtain ⟨first, _, lexes, stands, spelled⟩ := sound reading stands
  obtain ⟨separator, rest, lexes', spelledSeparator, stands, invalid, -⟩ :=
    exists_separator Follow.constant stands (by decide) (by decide) separating
  refine ⟨first ++ separator, rest, lexes_append.2 ⟨_, lexes, lexes'⟩, stands, fun none => ?_⟩
  obtain ⟨none, spelled⟩ := spelled (invalid.symm.trans none)
  exact ⟨none, first, separator, rfl, spelled, spelledSeparator⟩

/-- An entry of a map is spelled with the list separator after it. -/
theorem sound_entry (sound : SoundAs inner Follow.constant Follow.afterConstant spelling) :
    SoundAs (do
        let key ← inner
        let _ ← take (.mark .colon) Follow.constant
        let value ← inner
        takeSeparator
        return (key, value)) Follow.constant Follow.constant
      fun lexemes entry => ∃ first separator, lexemes = first ++ separator ∧
        EntrySpelling spelling first entry ∧ SeparatorSpelling separator := by
  intro before after entry text given stands
  simp only [gives_bind, gives_pure, gives_take] at given
  obtain ⟨key, _, keyReading, _, _, ⟨same, dividing⟩, value, _, reading, _, _, separating, rfl,
    rfl⟩ := given
  obtain ⟨keys, _, lexesKey, stands, spelledKey⟩ := sound keyReading stands
  obtain ⟨colon, takes, isColon⟩ := takes_mark stands same dividing
  obtain ⟨values, _, lexes, stands, spelled⟩ := sound reading takes.stands
  obtain ⟨separator, rest, lexes', spelledSeparator, stands, invalid, -⟩ :=
    exists_separator Follow.constant stands (by decide) (by decide) separating
  refine ⟨keys ++ colon :: values ++ separator, rest, ?_, stands, fun none => ?_⟩
  · simp only [lexes_append, lexes_cons]
    exact ⟨_, ⟨_, lexesKey, _, takes.here, lexes⟩, lexes'⟩
  · obtain ⟨none, spelled⟩ := spelled (invalid.symm.trans none)
    obtain ⟨none, spelledKey⟩ := spelledKey (takes.invalid.symm.trans none)
    exact ⟨none, _, separator, rfl, .entry spelledKey isColon spelled, spelledSeparator⟩

/-- A list or a map is spelled if its inner constants are. -/
theorem sound_constantOf (sound : SoundAs inner Follow.constant Follow.afterConstant spelling) :
    SoundAs (constantOf inner) Follow.constant Follow.afterConstant fun lexemes value =>
      SimpleConstantSpelling false lexemes value ∨
        ContainerConstantSpelling false spelling lexemes value := by
  intro before after value text given stands
  obtain ⟨_, _, ahead, given⟩ := gives_bind.1 given
  obtain ⟨rfl, rfl⟩ := gives_next.1 ahead
  -- The token ahead alone decides the kind: no kind of constant is tried and given up.
  split at given
  next same =>
    simp only [gives_bind, gives_pure] at given
    obtain ⟨_, _, starting, rfl, rfl⟩ := given
    obtain ⟨word, takes, isWord, -⟩ := takes_name stands same starting
    exact ⟨[word], _, ⟨_, takes.here, rfl⟩, takes.stands, fun none =>
      ⟨takes.invalid.symm.trans none, .inl (.name isWord)⟩⟩
  next same =>
    simp only [gives_bind, gives_pure] at given
    obtain ⟨_, _, starting, rfl, rfl⟩ := given
    obtain ⟨literal, takes, shape, rfl, -⟩ := takes_literal stands same starting
    exact ⟨[literal], _, ⟨_, takes.here, rfl⟩, takes.stands, fun none =>
      ⟨takes.invalid.symm.trans none, .inl (.literal shape)⟩⟩
  next same =>
    simp only [gives_bind, gives_pure] at given
    obtain ⟨_, _, starting, rfl, rfl⟩ := given
    obtain ⟨number, takes, shape, rfl⟩ := takes_double stands same starting
    exact ⟨[number], _, ⟨_, takes.here, rfl⟩, takes.stands, fun none =>
      ⟨takes.invalid.symm.trans none, .inl (.double shape fun parted => absurd parted Bool.false_ne_true)⟩⟩
  next same =>
    simp only [gives_bind, gives_pure] at given
    obtain ⟨_, _, starting, _, _, meaning, rfl, rfl⟩ := given
    obtain ⟨number, takes, shape, rfl, -⟩ := takes_integer stands same starting (.inl (by decide))
    obtain ⟨rfl, stands, -, clear⟩ := sound_int64 meaning takes.stands
    refine ⟨[number], _, ⟨_, takes.here, rfl⟩, stands, fun none => ?_⟩
    obtain ⟨none, fits⟩ := clear none
    exact ⟨takes.invalid.symm.trans none, .inl (.int shape fits)⟩
  next same =>
    obtain ⟨_, _, starting, given⟩ := gives_bind.1 given
    simp only [listRest, gives_bind, gives_pure, gives_items] at given
    obtain ⟨values, _, ⟨rounds, -⟩, _, _, ending, rfl, rfl⟩ := given
    obtain ⟨_, _, _, rest, lexes, isOpening, isClosing, stands, spelled⟩ :=
      sound_enclosed (sound_element sound) stands same starting (by decide) rounds ending
    refine ⟨_, rest, lexes, stands, fun none => ?_⟩
    obtain ⟨none, spelled⟩ := spelled none
    exact ⟨none, .inr (.list isOpening (elements_of_sequence spelled) isClosing)⟩
  next same =>
    obtain ⟨_, _, starting, given⟩ := gives_bind.1 given
    simp only [mapRest, gives_bind, gives_pure, gives_items] at given
    obtain ⟨entries, _, ⟨rounds, -⟩, _, _, ending, rfl, rfl⟩ := given
    obtain ⟨_, _, _, rest, lexes, isOpening, isClosing, stands, spelled⟩ :=
      sound_enclosed (sound_entry sound) stands same starting (by decide) rounds ending
    refine ⟨_, rest, lexes, stands, fun none => ?_⟩
    obtain ⟨none, spelled⟩ := spelled none
    exact ⟨none, .inr (.map isOpening (elements_of_sequence spelled) isClosing)⟩
  next => exact absurd given not_gives_reject

/-- What is read as a constant of some levels is spelled within them. -/
theorem sound_constantWithin (levels : Nat) :
    SoundAs (constantWithin levels) Follow.constant Follow.afterConstant
      (ConstantSpelling false levels) := by
  induction levels with
  | zero =>
    intro before after value text given
    exact absurd given not_gives_reject
  | succ levels ih =>
    intro before after value text given stands
    obtain ⟨lexemes, rest, lexes, stands, spelled⟩ := sound_constantOf ih given stands
    exact ⟨lexemes, rest, lexes, stands, fun none =>
      (spelled none).imp_right constantSpelling_succ.2⟩

/-- A constant is spelled within every limit that its depth does not exceed. -/
theorem sound_constant :
    SoundAs constant Follow.constant Follow.afterConstant fun lexemes value =>
      ∀ limit, value.depth ≤ limit → ConstantSpelling false limit lexemes value := by
  intro before after value text given stands
  rw [constant, gives_get_bind] at given
  obtain ⟨lexemes, rest, lexes, stands, spelled⟩ := sound_constantWithin _ given stands
  exact ⟨lexemes, rest, lexes, stands, fun none =>
    (spelled none).imp_right fun spelled limit shallow => spelled.within shallow⟩

end Constants

end ThriftIdl.TokenReader
