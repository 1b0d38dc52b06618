import ThriftIdl.Proofs.Grammar.Parting

/-!
# Numbers of a parted document

The exponent of every number of a parted document can be converted (`DefinitionsSpelling.converts`).
Numbers with an exponent stand in constants only, where one that cannot be converted is not spelled,
and the lexemes outside of constants are no such numbers.
-/
namespace ThriftIdl

variable {depth : Nat} {lexemes : List Lexeme}

/-- A lexeme that is no number with a fraction or an exponent has no exponent. -/
theorem Lexeme.Flat.converts {lexeme : Lexeme} (flat : lexeme.Flat) : lexeme.converts := by
  simp [Lexeme.converts, flat.noDouble]

/-- Flat lexemes have no exponents. -/
theorem converts_of_flat (flat : ∀ lexeme ∈ lexemes, lexeme.Flat) :
    ∀ lexeme ∈ lexemes, lexeme.converts :=
  fun lexeme mem => (flat lexeme mem).converts

section Items

variable {α : Type} {parted : Bool} {item : List Lexeme → α → Prop} {values : List α}

/-- The numbers of items can be converted if those of each item can. -/
theorem Sequence.converts (spelled : Sequence item lexemes values)
    (each : ∀ first value, item first value → ∀ lexeme ∈ first, lexeme.converts) :
    ∀ lexeme ∈ lexemes, lexeme.converts := by
  induction spelled with
  | nil => exact List.forall_mem_nil _
  | cons first _ ih => exact List.forall_mem_append.2 ⟨each _ _ first, ih⟩

/-- The numbers of elements can be converted if those of each element can. -/
theorem Elements.converts (spelled : Elements parted item lexemes values)
    (each : ∀ first value, item first value → ∀ lexeme ∈ first, lexeme.converts) :
    ∀ lexeme ∈ lexemes, lexeme.converts := by
  induction spelled with
  | nil => exact List.forall_mem_nil _
  | cons first separator _ _ ih =>
    exact List.forall_mem_append.2 ⟨each _ _ first,
      List.forall_mem_append.2 ⟨converts_of_flat separator.flat, ih⟩⟩

end Items

/-- Brackets have no exponents. -/
theorem converts_of_brackets {opening closing : Lexeme} {symbol symbol' : Mark}
    (isOpening : opening.IsMark symbol) (isClosing : closing.IsMark symbol')
    (inner : ∀ lexeme ∈ lexemes, lexeme.converts) :
    ∀ lexeme ∈ opening :: (lexemes ++ [closing]), lexeme.converts := by
  have mark {lexeme : Lexeme} {symbol : Mark} (isMark : lexeme.IsMark symbol) : lexeme.converts := by
    simp [Lexeme.converts, show lexeme.shape = .mark symbol from isMark]
  exact List.forall_mem_cons.2 ⟨mark isOpening,
    List.forall_mem_append.2 ⟨inner, List.forall_mem_singleton.2 (mark isClosing)⟩⟩

section Constants

/-- The number of a parted simple constant can be converted. -/
theorem SimpleConstantSpelling.converts {value : ConstValue}
    (spelled : SimpleConstantSpelling true lexemes value) : ∀ lexeme ∈ lexemes, lexeme.converts := by
  cases spelled with
  | name isWord => exact List.forall_mem_singleton.2 isWord.flat.converts
  | literal shape => exact List.forall_mem_singleton.2 (by simp [Lexeme.converts, shape])
  | double _ converts => exact List.forall_mem_singleton.2 (converts rfl)
  | int shape => exact List.forall_mem_singleton.2 (by simp [Lexeme.converts, shape])

/-- The numbers of a parted constant can be converted. -/
theorem ConstantSpelling.converts {value : ConstValue}
    (spelled : ConstantSpelling true depth lexemes value) : ∀ lexeme ∈ lexemes, lexeme.converts := by
  induction depth generalizing lexemes value with
  | zero => exact SimpleConstantSpelling.converts spelled
  | succ depth ih =>
    rcases constantSpelling_succ.1 spelled with simple | container
    · exact simple.converts
    cases container with
    | list isOpening elements isClosing =>
      exact converts_of_brackets isOpening isClosing (elements.converts fun _ _ one => ih one)
    | map isOpening elements isClosing =>
      refine converts_of_brackets isOpening isClosing (elements.converts ?_)
      rintro _ _ ⟨key, isColon, value⟩
      exact List.forall_mem_append.2 ⟨ih key,
        List.forall_mem_cons.2 ⟨(isColon.flat (by decide)).converts, ih value⟩⟩

end Constants

section Members

/-- The numbers of a parted default value can be converted. -/
theorem DefaultSpelling.converts {value : Option ConstValue}
    (spelled : DefaultSpelling true depth lexemes value) : ∀ lexeme ∈ lexemes, lexeme.converts := by
  cases spelled with
  | absent => exact List.forall_mem_nil _
  | present isEqual value =>
    exact List.forall_mem_cons.2 ⟨(isEqual.flat (by decide)).converts, value.converts⟩

/-- The numbers of a parted field can be converted. -/
theorem FieldSpelling.converts {field : Field Nat} (spelled : FieldSpelling true depth lexemes field) :
    ∀ lexeme ∈ lexemes, lexeme.converts := by
  cases spelled with
  | field id requiredness type isName _ value separator =>
    simp only [List.forall_mem_append, List.forall_mem_cons]
    exact ⟨converts_of_flat id.flat, converts_of_flat requiredness.flat, converts_of_flat type.flat,
      isName.flat.converts, value.converts, converts_of_flat separator.flat⟩

/-- The numbers of parted fields between brackets can be converted. -/
theorem FieldListSpelling.converts {fields : List (Field Nat)}
    (spelled : FieldListSpelling true depth lexemes fields) :
    ∀ lexeme ∈ lexemes, lexeme.converts := by
  cases spelled with
  | fields isOpening members isClosing =>
    exact converts_of_brackets isOpening isClosing (members.converts fun _ _ one => one.converts)

/-- The numbers of parted exceptions can be converted. -/
theorem ThrowsSpelling.converts {exceptions : Option (List (Field Nat))}
    (spelled : ThrowsSpelling true depth lexemes exceptions) :
    ∀ lexeme ∈ lexemes, lexeme.converts := by
  cases spelled with
  | absent => exact List.forall_mem_nil _
  | present isWord fields => exact List.forall_mem_cons.2 ⟨isWord.flat.converts, fields.converts⟩

/-- The numbers of a parted function can be converted. -/
theorem FunctionSpelling.converts {function : FunctionDecl Nat}
    (spelled : FunctionSpelling true depth lexemes function) :
    ∀ lexeme ∈ lexemes, lexeme.converts := by
  cases spelled with
  | function oneway result isName _ parameters exceptions separator =>
    simp only [List.forall_mem_append, List.forall_mem_cons]
    exact ⟨converts_of_flat oneway.flat, converts_of_flat result.flat, isName.flat.converts,
      parameters.converts, exceptions.converts, converts_of_flat separator.flat⟩

end Members

section Definitions

/-- The numbers of a parted definition can be converted. -/
theorem DefinitionSpelling.converts {definition : Definition Nat}
    (spelled : DefinitionSpelling true depth lexemes definition) :
    ∀ lexeme ∈ lexemes, lexeme.converts := by
  cases spelled with
  | inclusion isKeyword shape | cppInclusion isKeyword shape =>
    exact converts_of_flat (flat_pair isKeyword.flat (Lexeme.flat_of_shape shape nofun nofun))
  | space isKeyword scope isName =>
    refine List.forall_mem_cons.2 ⟨isKeyword.flat.converts, List.forall_mem_cons.2
      ⟨?_, List.forall_mem_singleton.2 isName.flat.converts⟩⟩
    cases scope with
    | star isMark => exact (isMark.flat (by decide)).converts
    | word isWord => exact isWord.flat.converts
  | typedef isKeyword type _ isName _ separator =>
    simp only [List.forall_mem_append, List.forall_mem_cons]
    exact ⟨isKeyword.flat.converts, converts_of_flat type.1.flat, isName.flat.converts,
      converts_of_flat separator.flat⟩
  | const isKeyword type _ isName _ isEqual value separator =>
    simp only [List.forall_mem_append, List.forall_mem_cons]
    exact ⟨isKeyword.flat.converts, converts_of_flat type.flat, isName.flat.converts,
      (isEqual.flat (by decide)).converts, value.converts, converts_of_flat separator.flat⟩
  | enum isKeyword isName _ isOpening values isClosing =>
    refine List.forall_mem_cons.2 ⟨isKeyword.flat.converts,
      List.forall_mem_cons.2 ⟨isName.flat.converts, ?_⟩⟩
    exact converts_of_brackets isOpening isClosing (converts_of_flat (flat_of_enumValues values))
  | record isKeyword isName _ isOpening fields isClosing =>
    refine List.forall_mem_cons.2 ⟨isKeyword.flat.converts,
      List.forall_mem_cons.2 ⟨isName.flat.converts, ?_⟩⟩
    exact converts_of_brackets isOpening isClosing (fields.converts fun _ _ one => one.converts)
  | service isKeyword isName _ base isOpening functions isClosing =>
    refine List.forall_mem_cons.2 ⟨isKeyword.flat.converts, List.forall_mem_cons.2
      ⟨isName.flat.converts, List.forall_mem_append.2 ⟨converts_of_flat base.flat, ?_⟩⟩⟩
    exact converts_of_brackets isOpening isClosing (functions.converts fun _ _ one => one.converts)

/-- The numbers of a parted document can be converted. -/
theorem DefinitionsSpelling.converts {definitions : List (Definition Nat)}
    (spelled : DefinitionsSpelling true depth lexemes definitions) :
    ∀ lexeme ∈ lexemes, lexeme.converts :=
  Sequence.converts spelled fun _ _ one => one.converts

end Definitions

end ThriftIdl
