import ThriftIdl.Proofs.Reader.Definitions

/-!
# Direct reading of a whole text

A text is accepted exactly if its lexemes spell definitions and nothing but blanks and comments
follows them; the document is then that of the definitions (`readStrictly_eq_ok_iff`).
-/
namespace ThriftIdl

open Text

namespace Reader

open Readable

variable {depth : Nat} {text rest : List Char}

/-- A definition with the blanks around it is read where the definition is. -/
theorem gives_spacedDefinition {value : Definition Nat} :
    (spacedDefinition depth : Reader (List Char) (Definition Nat)).Gives text value rest ↔
      ∃ place, (definition depth).Gives (skip text) value place ∧ rest = skip place := by
  simp only [spacedDefinition]
  rw [gives_skipSeparator_bind, gives_bind]
  constructor
  · rintro ⟨_, place, reads, given⟩
    have pure := gives_skipSeparator_bind.1 given
    obtain ⟨rfl, rfl⟩ := gives_pure.1 pure
    exact ⟨place, reads, rfl⟩
  · rintro ⟨place, reads, rfl⟩
    exact ⟨value, place, reads, gives_skipSeparator_bind.2 (gives_pure.2 ⟨rfl, rfl⟩)⟩

/-- A round that reads a definition leaves less. -/
theorem length_lt_of_spacedDefinition {value : Definition Nat}
    (given : (optional (spacedDefinition depth)).Gives text (some value) rest) :
    rest.length < text.length := by
  rcases gives_optional.1 given with ⟨_, reads, -⟩ | ⟨-, none, -⟩
  · obtain ⟨place, inner, rfl⟩ := gives_spacedDefinition.1 reads
    obtain ⟨lexemes, after, lexes, -, some, same⟩ := spelled_definition depth inner
    have taken := lexes.length_le
    have positive := List.length_pos_iff.2 some
    have less := length_skip_le after
    have least := length_skip_le place
    rcases same with rfl | rfl <;> omega
  · cases none

/-- Definitions that are read are spelled in a row. -/
theorem spelled_definitions {values : List (Definition Nat)}
    (given : (definitions depth).Gives text values rest) :
    ∃ lexemes after, Lexes takesExponent text lexemes after ∧
      DefinitionsSpelling true depth lexemes values ∧ skip rest = skip after := by
  have rounds := (gives_many fun given => length_lt_of_spacedDefinition given).1 given
  suffices from' : ∀ text', skip text' = skip text → ∃ lexemes after,
      Lexes takesExponent text' lexemes after ∧ DefinitionsSpelling true depth lexemes values ∧
        skip rest = skip after from
    from' text rfl
  clear given
  induction rounds with
  | done tried =>
    intro text' same
    rcases gives_optional.1 tried with ⟨_, -, some⟩ | ⟨-, -, rfl⟩
    · cases some
    · exact ⟨[], text', rfl, .nil, same.symm⟩
  | more tried _ ih =>
    intro text' same
    rcases gives_optional.1 tried with ⟨_, reads, value⟩ | ⟨-, none, -⟩
    · obtain rfl := Option.some.inj value
      obtain ⟨place, inner, rfl⟩ := gives_spacedDefinition.1 reads
      rw [← same] at inner
      obtain ⟨first, after, lexesFirst, spelledFirst, -, same'⟩ := spelled_definition depth inner
      obtain ⟨others, end', lexesOthers, spelledOthers, ends⟩ :=
        ih after (by rw [skip_skip]; exact (skip_eq_of_or same').symm)
      exact ⟨first ++ others, end', lexes_append.2 ⟨after, lexesFirst, lexesOthers⟩,
        .cons spelledFirst spelledOthers, ends⟩
    · cases none

/-- At the end of a text no definition is read. -/
theorem refuses_spacedDefinition (ends : skip text = []) :
    (spacedDefinition depth : Reader (List Char) (Definition Nat)).Refuses text := by
  refine refuses_skipSeparator_bind (refuses_alternatives ?_).bind
  intro rule mem
  change rule ∈ (definitionRules depth).map (·.2) at mem
  obtain ⟨_, found, rfl⟩ := List.mem_map.1 mem
  exact refuses_definitionRule found (faces_of_nil ends)

/-- Definitions that are spelled up to the end of a text are read. -/
theorem gives_definitions {lexemes : List Lexeme} {values : List (Definition Nat)}
    (spelled : DefinitionsSpelling true depth lexemes values) {after : List Char}
    (lexes : Lexes takesExponent text lexemes after) (ends : skip after = []) :
    ∃ rest, (definitions depth).Gives text values rest ∧ skip rest = [] := by
  suffices from' : ∀ place, skip place = skip text → ∃ rest,
      Rounds (optional (spacedDefinition depth)) place values rest ∧ skip rest = [] by
    obtain ⟨rest, rounds, empty⟩ := from' text rfl
    exact ⟨rest, (gives_many fun given => length_lt_of_spacedDefinition given).2 rounds, empty⟩
  induction spelled generalizing text with
  | nil =>
    intro place same
    obtain rfl := lexes
    rw [ends] at same
    exact ⟨place, .done (refuses_spacedDefinition same).optional, same⟩
  | cons spelledFirst spelledOthers ih =>
    intro place same
    obtain ⟨middle, lexesFirst, lexesOthers⟩ := lexes_append.1 lexes
    have follow : Faces middle FollowsField := by
      cases spelledOthers with
      | nil =>
        obtain rfl := lexesOthers
        exact faces_of_nil ends
      | cons spelledNext _ =>
        obtain ⟨first, others, rfl, isWord⟩ := definitionSpelling_begins spelledNext
        obtain ⟨_, here, -⟩ := lexesOthers
        exact here.faces (followsField_of_shape (by simp [isWord]) (by simp [isWord]))
    obtain ⟨place', reads, same'⟩ := gives_definition lexesFirst spelledFirst follow
    obtain ⟨rest, rounds, empty⟩ :=
      ih lexesOthers (skip place') (by rw [skip_skip]; exact skip_eq_of_or same')
    rw [← same] at reads
    exact ⟨rest, .more (gives_spacedDefinition.2 ⟨place', reads, rfl⟩).optional rounds, empty⟩

end Reader

/-- After skipping, nothing but blanks is left only at the end of the text. -/
theorem all_isBlank_skip {text : List Char} : (skip text).all isBlank ↔ skip text = [] := by
  constructor
  · intro blank
    cases left : skip text with
    | nil => rfl
    | cons c rest =>
      have stop := afterSeparator?_skip text
      rw [left] at blank stop
      simp only [List.all_cons, Bool.and_eq_true] at blank
      simp [afterSeparator?, blank.1] at stop
  · intro ends
    rw [ends]
    rfl

/-- Strict reading gives a document exactly if a document is read off the text and nothing but
blanks and comments is left. -/
theorem readStrictly_eq_ok_iff_gives {limit : Int} {source : List Char}
    {document : Document Position} :
    readStrictly limit source = .ok document ↔
      ∃ definitions rest,
        (Reader.definitions limit.toNat).Gives source definitions rest ∧ skip rest = [] ∧
          document = (Document.ofDefinitions definitions).map (positionIn source 0) := by
  have sorted : ∀ {value place}, (Reader.document limit.toNat).Gives source value place ↔
      ∃ definitions, (Reader.definitions limit.toNat).Gives source definitions place ∧
        value = Document.ofDefinitions definitions := Reader.gives_map
  have skipped : ∀ text, ∃ flag noted, Lexical.skipSeparator text = .ok flag (skip text) noted := by
    intro text
    obtain ⟨noted, given⟩ := Reader.gives_skipSeparator.2 ⟨rfl, (rfl : skip text = skip text)⟩
    exact ⟨_, noted, given⟩
  simp only [readStrictly, readDefinitions]
  constructor
  · intro read
    cases opening : Reader.document limit.toNat source with
    | fail failure rest noted => simp [opening] at read
    | ok value rest noted =>
      obtain ⟨definitions, given, rfl⟩ := sorted.1 ⟨noted, opening⟩
      obtain ⟨flag, later, skipping⟩ := skipped rest
      simp only [opening, skipping] at read
      split at read
      next blank =>
        exact ⟨definitions, rest, given, all_isBlank_skip.1 blank, (Except.ok.inj read).symm⟩
      next => cases read
  · rintro ⟨definitions, rest, given, ends, rfl⟩
    obtain ⟨noted, opening⟩ := sorted.2 ⟨definitions, given, rfl⟩
    obtain ⟨flag, later, skipping⟩ := skipped rest
    simp [opening, skipping, all_isBlank_skip.2 ends]

/-- Strict reading accepts exactly the texts whose lexemes spell definitions. -/
theorem readStrictly_eq_ok_iff {limit : Int} {source : List Char}
    {document : Document Position} :
    readStrictly limit source = .ok document ↔
      ∃ lexemes rest definitions, Lexes takesExponent source lexemes rest ∧ skip rest = [] ∧
        DefinitionsSpelling true limit.toNat lexemes definitions ∧
          document = (Document.ofDefinitions definitions).map (positionIn source 0) := by
  rw [readStrictly_eq_ok_iff_gives]
  constructor
  · rintro ⟨definitions, rest, given, ends, rfl⟩
    obtain ⟨lexemes, after, lexes, spelled, same⟩ := Reader.spelled_definitions given
    exact ⟨lexemes, after, definitions, lexes, same.symm.trans ends, spelled, rfl⟩
  · rintro ⟨lexemes, after, definitions, lexes, ends, spelled, rfl⟩
    obtain ⟨rest, given, empty⟩ := Reader.gives_definitions spelled lexes ends
    exact ⟨definitions, rest, given, empty, rfl⟩

/-- What is known to give something gives it. -/
theorem exists_eq_ok_of_isOk {α ε : Type} {outcome : Except ε α} (isOk : outcome.isOk) :
    ∃ value, outcome = .ok value := by
  cases outcome with
  | error reason => cases isOk
  | ok value => exact ⟨value, rfl⟩

end ThriftIdl
