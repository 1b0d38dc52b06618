import ThriftIdl.Proofs.Reader.Elements

/-!
# Direct reading of constants

Direct reading gives a constant exactly where lexemes spell it with its elements parted
(`spelled_constValue`, `gives_constValue`). A number is tried as a double before it is read as an
integer, so that an integer is read only where it is a lexeme of its own.
-/
namespace ThriftIdl.Reader

open Readable Text

variable {text rest : List Char}

section Soundness

variable {inner : Option (Reader (List Char) ConstValue)}
  {spelling : List Lexeme → ConstValue → Prop}

/-- An entry of a map is spelled if its key and its value are. -/
theorem spelled_constEntry {rule : Reader (List Char) ConstValue} (sound : Sound rule spelling) :
    Sound (constEntry rule) (EntrySpelling spelling) := by
  intro text rest value given
  obtain ⟨keys, key, _, lexesKeys, spellsKey, given⟩ := sound.bind given
  obtain ⟨colon, _, atColon, isColon, given⟩ :=
    (gives_character_bind .colon).1 (gives_skipSeparator_bind.1 given)
  obtain ⟨contents, content, _, lexesContents, spellsContent, given⟩ :=
    sound.bind (gives_skipSeparator_bind.1 given)
  obtain ⟨rfl, rfl⟩ := gives_pure.1 given
  refine ⟨_, ?_, .entry spellsKey isColon spellsContent⟩
  simp only [lexes_cons, lexes_append]
  exact ⟨_, lexesKeys, _, atColon, lexesContents⟩

/-- A list is spelled if its inner constants are. -/
theorem spelled_constListOf (sound : ∀ rule, inner = some rule → Sound rule spelling) :
    Sound (constListOf inner) fun lexemes value =>
      inner ≠ none ∧ ContainerConstantSpelling true spelling lexemes value := by
  intro text rest value given
  obtain ⟨opening, _, atOpening, isOpening, given⟩ := (gives_character_bind .leftSquare).1 given
  obtain ⟨rule, isInner, given⟩ := gives_inside.1 given
  have sound := sound rule isInner
  obtain ⟨elements, values, closing, _, lexes, spellsElements, isClosing, given⟩ :=
    spelled_separated_bind .rightSquare (fun _ _ _ given _ => sound given)
      (fun _ _ _ => sound.length_le) (gives_skipSeparator_bind.1 given)
  obtain ⟨rfl, rfl⟩ := gives_pure.1 given
  refine ⟨_, ?_, by simp [isInner], .list isOpening spellsElements isClosing⟩
  exact ⟨_, atOpening, lexes⟩

/-- A map is spelled if its inner constants are. -/
theorem spelled_constMapOf (sound : ∀ rule, inner = some rule → Sound rule spelling) :
    Sound (constMapOf inner) fun lexemes value =>
      inner ≠ none ∧ ContainerConstantSpelling true spelling lexemes value := by
  intro text rest value given
  obtain ⟨opening, _, atOpening, isOpening, given⟩ := (gives_character_bind .leftBrace).1 given
  obtain ⟨rule, isInner, given⟩ := gives_inside.1 given
  have sound := spelled_constEntry (sound rule isInner)
  obtain ⟨elements, values, closing, _, lexes, spellsElements, isClosing, given⟩ :=
    spelled_separated_bind .rightBrace (fun _ _ _ given _ => sound given)
      (fun _ _ _ => sound.length_le) (gives_skipSeparator_bind.1 given)
  obtain ⟨rfl, rfl⟩ := gives_pure.1 given
  refine ⟨_, ?_, by simp [isInner], .map isOpening spellsElements isClosing⟩
  exact ⟨_, atOpening, lexes⟩

/-- A constant is spelled if its inner constants are. -/
theorem spelled_constValueOf (sound : ∀ rule, inner = some rule → Sound rule spelling) :
    Sound (constValueOf inner) fun lexemes value => SimpleConstantSpelling true lexemes value ∨
      inner ≠ none ∧ ContainerConstantSpelling true spelling lexemes value := by
  intro text rest value given
  obtain name | ⟨-, literal | ⟨-, double | ⟨refused, int | ⟨-, list | ⟨-, map | ⟨-, impossible⟩⟩⟩⟩⟩⟩ :=
    gives_alternatives.1 given
  · obtain ⟨name, reads, rfl⟩ := gives_map.1 name
    obtain ⟨lexeme, here, isWord⟩ := gives_name.1 reads
    exact ⟨[lexeme], ⟨rest, here, rfl⟩, .inl (.name isWord)⟩
  · obtain ⟨_, reads, rfl⟩ := gives_map.1 literal
    obtain ⟨lexeme, here, shape, rfl⟩ := gives_literal.1 reads
    exact ⟨[lexeme], ⟨rest, here, rfl⟩, .inl (.literal shape)⟩
  · obtain ⟨_, reads, rfl⟩ := gives_map.1 double
    obtain ⟨lexeme, here, shape, converts, rfl⟩ := gives_strictDouble.1 reads
    exact ⟨[lexeme], ⟨rest, here, rfl⟩, .inl (.double shape fun _ => converts)⟩
  · obtain ⟨_, reads, rfl⟩ := gives_map.1 int
    obtain ⟨found, scanned, fits, rfl⟩ := gives_integer.1 reads
    rcases at_or_of_scanInteger? scanned with ⟨lexeme, here, shape, rfl⟩ | ⟨lexeme, after, here, shape⟩
    · exact ⟨[lexeme], ⟨rest, here, rfl⟩, .inl (.int shape fits)⟩
    · exact absurd (refuses_map.1 refused) (not_refuses_strictDouble here shape)
  · obtain ⟨lexemes, lexes, spelled⟩ := spelled_constListOf sound list
    exact ⟨lexemes, lexes, .inr spelled⟩
  · obtain ⟨lexemes, lexes, spelled⟩ := spelled_constMapOf sound map
    exact ⟨lexemes, lexes, .inr spelled⟩
  · exact impossible.elim

/-- What direct reading gives as a constant within some levels is spelled within them. -/
theorem spelled_constValue (depth : Nat) : Sound (constValue depth) (ConstantSpelling true depth) := by
  induction depth with
  | zero =>
    intro text rest value given
    have nothing : ∀ rule : Reader (List Char) ConstValue, none = some rule →
        Sound rule fun _ _ => False := by simp
    obtain ⟨lexemes, lexes, spelled | ⟨some, -⟩⟩ := spelled_constValueOf nothing given
    · exact ⟨lexemes, lexes, spelled⟩
    · exact absurd rfl some
  | succ depth ih =>
    intro text rest value given
    obtain ⟨lexemes, lexes, spelled⟩ := spelled_constValueOf (by rintro _ ⟨⟩; exact ih) given
    exact ⟨lexemes, lexes, spelled.imp_right fun container => container.2⟩

end Soundness

section Completeness

/-- A constant begins with a lexeme that is no list separator. -/
theorem constantSpelling_begins {parted : Bool} {depth : Nat} {lexemes : List Lexeme}
    {value : ConstValue} (spelled : ConstantSpelling parted depth lexemes value) :
    ∃ first others, lexemes = first :: others ∧ ¬ IsSeparator first := by
  have other : ∀ {lexeme : Lexeme}, lexeme.shape ≠ .mark .comma → lexeme.shape ≠ .mark .semicolon →
      ¬ IsSeparator lexeme := by
    rintro lexeme comma semicolon (isComma | isSemicolon)
    · exact comma isComma
    · exact semicolon isSemicolon
  have simple : ∀ {lexemes : List Lexeme}, SimpleConstantSpelling parted lexemes value →
      ∃ first others, lexemes = first :: others ∧ ¬ IsSeparator first := by
    intro lexemes spelled
    cases spelled with
    | name isWord => exact ⟨_, _, rfl, other (by simp [isWord.1]) (by simp [isWord.1])⟩
    | literal shape => exact ⟨_, _, rfl, other (by simp [shape]) (by simp [shape])⟩
    | double shape => exact ⟨_, _, rfl, other (by simp [shape]) (by simp [shape])⟩
    | int shape => exact ⟨_, _, rfl, other (by simp [shape]) (by simp [shape])⟩
  cases depth with
  | zero => exact simple spelled
  | succ depth =>
    rcases constantSpelling_succ.1 spelled with single | container
    · exact simple single
    · cases container with
      | list isOpening =>
        exact ⟨_, _, rfl, other (by simp [show _ = _ from isOpening]) (by simp [show _ = _ from isOpening])⟩
      | map isOpening =>
        exact ⟨_, _, rfl, other (by simp [show _ = _ from isOpening]) (by simp [show _ = _ from isOpening])⟩

variable {inner : Option (Reader (List Char) ConstValue)}

/-- A reader gives the constants that are spelled. -/
def CompleteConstant (reader : Reader (List Char) ConstValue)
    (spelling : List Lexeme → ConstValue → Prop) : Prop :=
  ∀ ⦃text rest : List Char⦄ ⦃lexemes : List Lexeme⦄ ⦃value : ConstValue⦄,
    Lexes takesExponent text lexemes rest → spelling lexemes value →
      reader.Gives (skip text) value rest

/-- A simple constant is read where it is spelled, however many levels are left. -/
theorem gives_simpleConstant : CompleteConstant (constValueOf inner) (SimpleConstantSpelling true) := by
  intro text rest lexemes value lexes spelled
  cases spelled with
  | name isWord =>
    obtain ⟨_, here, rfl⟩ := lexes
    exact gives_alternatives.2 (.inl ((gives_name.2 ⟨_, here, isWord⟩).map _))
  | literal shape =>
    obtain ⟨_, here, rfl⟩ := lexes
    have noName := refuses_name (here.faces (by simp [shape]))
    exact gives_alternatives.2 (.inr ⟨refuses_map.2 noName,
      .inl ((gives_literal.2 ⟨_, here, shape, rfl⟩).map _)⟩)
  | double shape converts =>
    obtain ⟨_, here, rfl⟩ := lexes
    have noName := refuses_name (here.faces (by simp [shape]))
    have noLiteral := refuses_literal (here.faces (by simp [shape]))
    exact gives_alternatives.2 (.inr ⟨refuses_map.2 noName, .inr ⟨refuses_map.2 noLiteral,
      .inl ((gives_strictDouble.2 ⟨_, here, shape, converts rfl, rfl⟩).map _)⟩⟩)
  | int shape fits =>
    obtain ⟨_, here, rfl⟩ := lexes
    have noName := refuses_name (here.faces (by simp [shape]))
    have noLiteral := refuses_literal (here.faces (by simp [shape]))
    have noDouble := refuses_strictDouble here (by simp [shape]) (by simp [shape])
    exact gives_alternatives.2 (.inr ⟨refuses_map.2 noName, .inr ⟨refuses_map.2 noLiteral,
      .inr ⟨refuses_map.2 noDouble, .inl ((gives_integer_of_at here shape fits).map _)⟩⟩⟩)

/-- Where a bracket opens, no simple constant is read. -/
theorem refuses_simpleConstants {lexeme : Lexeme} {mark : Mark}
    (here : lexeme.At takesExponent text rest) (isMark : lexeme.IsMark mark) :
    ∀ rule ∈ (simpleConstants : List (Reader (List Char) ConstValue)), rule.Refuses (skip text) := by
  have shape : lexeme.shape = .mark mark := isMark
  intro rule mem
  simp only [simpleConstants, List.mem_cons, List.not_mem_nil, or_false] at mem
  rcases mem with rfl | rfl | rfl | rfl
  · exact refuses_map.2 (refuses_name (here.faces (by simp [shape])))
  · exact refuses_map.2 (refuses_literal (here.faces (by simp [shape])))
  · exact refuses_map.2 (refuses_strictDouble here (by simp [shape]) (by simp [shape]))
  · exact refuses_map.2 (refuses_integer (here.faces (by simp [shape])))

/-- Where a mark stands that opens nothing, no constant is read. -/
theorem refuses_constValueOf {lexeme : Lexeme} {mark : Mark} (here : lexeme.At takesExponent text rest)
    (isMark : lexeme.IsMark mark) (square : mark ≠ .leftSquare) (brace : mark ≠ .leftBrace) :
    (constValueOf inner).Refuses (skip text) := by
  refine refuses_alternatives fun rule mem => ?_
  simp only [List.mem_append, List.mem_cons, List.not_mem_nil, or_false] at mem
  rcases mem with simple | rfl | rfl
  · exact refuses_simpleConstants here isMark rule simple
  · refine refuses_character_bind .leftSquare fun lexeme' _ here' isOpening => ?_
    exact absurd (isMark.unique ((here.unique here').1 ▸ isOpening)) square
  · refine refuses_character_bind .leftBrace fun lexeme' _ here' isOpening => ?_
    exact absurd (isMark.unique ((here.unique here').1 ▸ isOpening)) brace

section Containers

variable {rule : Reader (List Char) ConstValue} {spelling : List Lexeme → ConstValue → Prop}

/-- An entry of a map constant never leaves more than it found. -/
theorem shrinks_constEntry (shrinks : Shrinks rule) : Shrinks (constEntry rule) := by
  intro text rest value given
  obtain ⟨key, middle, reads, given⟩ := gives_bind.1 given
  have less := shrinks reads
  have given := gives_skipSeparator_bind.1 given
  obtain ⟨colon, after, atColon, -, given⟩ := (gives_character_bind .colon).1 given
  have less' := atColon.length_lt
  obtain ⟨content, _, reads', given⟩ := gives_bind.1 (gives_skipSeparator_bind.1 given)
  have less'' := shrinks reads'
  obtain ⟨-, rfl⟩ := gives_pure.1 given
  omega

/-- What inner constants must be like for lists and maps of them to be read. -/
structure CompleteInner (rule : Reader (List Char) ConstValue)
    (spelling : List Lexeme → ConstValue → Prop) : Prop where
  /-- They are read where they are spelled. -/
  gives : CompleteConstant rule spelling
  /-- They begin with no list separator. -/
  begins : ∀ ⦃lexemes : List Lexeme⦄ ⦃value : ConstValue⦄, spelling lexemes value →
    ∃ first others, lexemes = first :: others ∧ ¬ IsSeparator first
  /-- They are refused where a bracket closes. -/
  refuses : ∀ ⦃text rest : List Char⦄ ⦃lexeme : Lexeme⦄ ⦃mark : Mark⦄,
    lexeme.At takesExponent text rest → lexeme.IsMark mark → mark ≠ .leftSquare →
      mark ≠ .leftBrace → rule.Refuses (skip text)
  /-- They never leave more than they found. -/
  shrinks : Shrinks rule

/-- The values of a list are elements before a square bracket. -/
theorem CompleteInner.value (complete : CompleteInner rule spelling) :
    CompleteElement rule spelling .rightSquare where
  gives _ _ _ _ lexes spelled _ := complete.gives lexes spelled
  begins _ _ spelled := complete.begins spelled
  refuses _ _ _ here isMark := complete.refuses here isMark (by decide) (by decide)
  shrinks := complete.shrinks
  closes := by decide

/-- The entries of a map are elements before a brace. -/
theorem CompleteInner.entry (complete : CompleteInner rule spelling) :
    CompleteElement (constEntry rule) (EntrySpelling spelling) .rightBrace where
  gives text rest lexemes value lexes spelled _ := by
    obtain ⟨spelledKey, isColon, spelledContent⟩ := spelled
    simp only [lexes_cons, lexes_append] at lexes
    obtain ⟨_, lexesKey, _, atColon, lexesContent⟩ := lexes
    refine (complete.gives lexesKey spelledKey).bind (gives_skipSeparator_bind.2 ?_)
    refine (gives_character_bind .colon).2 ⟨_, _, atColon, isColon, gives_skipSeparator_bind.2 ?_⟩
    exact (complete.gives lexesContent spelledContent).bind (gives_pure.2 ⟨rfl, rfl⟩)
  begins lexemes value spelled := by
    obtain ⟨spelledKey, isColon, spelledContent⟩ := spelled
    obtain ⟨first, others, rfl, different⟩ := complete.begins spelledKey
    exact ⟨first, _, rfl, different⟩
  refuses text rest lexeme here isMark :=
    (complete.refuses here isMark (by decide) (by decide)).bind
  shrinks := shrinks_constEntry complete.shrinks
  closes := by decide

/-- A list or a map is read where it is spelled, if its inner constants are. -/
theorem gives_containerConstant (complete : CompleteInner rule spelling) :
    CompleteConstant (constValueOf (some rule)) (ContainerConstantSpelling true spelling) := by
  intro text rest lexemes value lexes spelled
  cases spelled with
  | list isOpening spelledElements isClosing =>
    obtain ⟨_, atOpening, lexes⟩ := lexes
    refine gives_alternatives.2 (.append (refuses_simpleConstants atOpening isOpening) (.inl ?_))
    refine (gives_character_bind .leftSquare).2 ⟨_, _, atOpening, isOpening, ?_⟩
    refine gives_inside.2 ⟨rule, rfl, gives_skipSeparator_bind.2 ?_⟩
    exact gives_separated_bind complete.value spelledElements lexes isClosing (gives_pure.2 ⟨rfl, rfl⟩)
  | map isOpening spelledElements isClosing =>
    obtain ⟨_, atOpening, lexes⟩ := lexes
    have noList : (constListOf (some rule)).Refuses (skip text) := by
      refine refuses_character_bind .leftSquare fun lexeme _ here isSquare => ?_
      exact absurd (isOpening.unique ((atOpening.unique here).1 ▸ isSquare)) (by decide)
    refine gives_alternatives.2 (.append (refuses_simpleConstants atOpening isOpening)
      (.inr ⟨noList, .inl ?_⟩))
    refine (gives_character_bind .leftBrace).2 ⟨_, _, atOpening, isOpening, ?_⟩
    refine gives_inside.2 ⟨rule, rfl, gives_skipSeparator_bind.2 ?_⟩
    exact gives_separated_bind complete.entry spelledElements lexes isClosing (gives_pure.2 ⟨rfl, rfl⟩)

end Containers

/-- A constant that is spelled within some levels is read within them. -/
theorem gives_constValue (depth : Nat) :
    CompleteConstant (constValue depth) (ConstantSpelling true depth) := by
  induction depth with
  | zero => exact gives_simpleConstant
  | succ depth ih =>
    have complete : CompleteInner (constValue depth) (ConstantSpelling true depth) := by
      refine ⟨ih, fun _ _ => constantSpelling_begins, ?_, fun _ _ _ => (spelled_constValue depth).length_le⟩
      intro text rest lexeme mark here isMark square brace
      rw [constValue_eq]
      exact refuses_constValueOf here isMark square brace
    intro text rest lexemes value lexes spelled
    rcases constantSpelling_succ.1 spelled with simple | container
    · exact gives_simpleConstant lexes simple
    · exact gives_containerConstant complete lexes container

end Completeness

end ThriftIdl.Reader
