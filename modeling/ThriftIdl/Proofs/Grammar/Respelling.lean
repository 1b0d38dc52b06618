import ThriftIdl.Proofs.Grammar.Depth

/-!
# The same lexemes elsewhere

What lexemes spell depends on their shapes and characters, and else only on where something must
stand between two of them. Lexemes that are moved, or that are further apart, spell the same with
its places moved (`DefinitionSpelling.respelled`).
-/
namespace ThriftIdl

open TokenReader (unquoted)

/-- A change of lexemes that moves them, keeps their characters, and leaves something between them
where it was asked for. No fewer levels are admitted afterwards. -/
structure Respelling (parted parted' : Bool) (depth depth' : Nat) (change : Lexeme → Lexeme)
    (move : Nat → Nat) : Prop where
  /-- The shape stays. -/
  shape : ∀ lexeme, (change lexeme).shape = lexeme.shape
  /-- The characters stay. -/
  text : ∀ lexeme, (change lexeme).text = lexeme.text
  /-- The place is moved. -/
  left : ∀ lexeme, (change lexeme).left = move lexeme.left
  /-- What was apart is apart. -/
  apart : ∀ lexeme, lexeme.apart → (change lexeme).apart
  /-- If elements must be parted afterwards, they were before. -/
  parted : parted' → parted
  /-- No fewer levels are admitted. -/
  deeper : depth ≤ depth'

section Respelled

variable {parted parted' : Bool} {change : Lexeme → Lexeme} {move : Nat → Nat}
  {depth depth' level : Nat} {lexemes : List Lexeme}
  (respells : Respelling parted parted' depth depth' change move)

include respells

/-- A word is the same word. -/
theorem Respelling.isWord {lexeme : Lexeme} {word : String} (isWord : lexeme.IsWord word) :
    (change lexeme).IsWord word :=
  ⟨(respells.shape lexeme).trans isWord.1, (respells.text lexeme).trans isWord.2⟩

/-- A mark is the same mark. -/
theorem Respelling.isMark {lexeme : Lexeme} {mark : Mark} (isMark : lexeme.IsMark mark) :
    (change lexeme).IsMark mark :=
  (respells.shape lexeme).trans isMark

/-- A lexeme has the same shape. -/
theorem Respelling.hasShape {lexeme : Lexeme} {shape : Shape} (has : lexeme.shape = shape) :
    (change lexeme).shape = shape :=
  (respells.shape lexeme).trans has

/-- A number that can be converted can be converted afterwards. -/
theorem Respelling.converts (lexeme : Lexeme) : (change lexeme).converts = lexeme.converts := by
  rw [Lexeme.converts, Lexeme.converts, respells.shape, respells.text]

/-- Lexemes that are apart stay so. -/
theorem Respelling.isApart (apart : Apart lexemes) : Apart (lexemes.map change) := by
  cases lexemes with
  | nil => simp [Apart]
  | cons lexeme lexemes =>
    have before : lexeme.apart := by simpa [Apart] using apart
    simpa [Apart] using respells.apart lexeme before

/-- Lexemes begin at the moved place. -/
theorem Respelling.beginsAt {place : Nat} (begins : BeginsAt place lexemes) :
    BeginsAt (move place) (lexemes.map change) := by
  cases lexemes with
  | nil => simp [BeginsAt]
  | cons lexeme lexemes =>
    have before : lexeme.left = place := by simpa [BeginsAt] using begins
    simpa [BeginsAt, respells.left] using congrArg move before

section Types

/-- A type of another language is spelled elsewhere. -/
theorem CppTypeSpelling.respelled (spelled : CppTypeSpelling lexemes) :
    CppTypeSpelling (lexemes.map change) := by
  cases spelled with
  | absent => exact .absent
  | present isWord shape apart =>
    exact .present (respells.isWord isWord) (respells.hasShape shape) (respells.apart _ apart)

/-- A type is spelled elsewhere. -/
theorem TypeSpelling.respelled {type : FieldType} (spelled : TypeSpelling level lexemes type) :
    TypeSpelling level (lexemes.map change) type := by
  have short : ∀ {lexemes : List Lexeme} {type : FieldType}, TypeSpelling 0 lexemes type →
      TypeSpelling 0 (lexemes.map change) type := by
    rintro _ _ (base | named)
    · cases base with
      | base isWord => exact .inl (.base (respells.isWord isWord))
    · cases named with
      | named isWord other => exact .inr (.named (respells.isWord isWord) other)
  induction level generalizing lexemes type with
  | zero => exact short spelled
  | succ level ih =>
    rcases typeSpelling_succ.1 spelled with spelled | container
    · exact typeSpelling_succ.2 (.inl (short spelled))
    · refine typeSpelling_succ.2 (.inr ?_)
      cases container with
      | map isWord cppType less keys comma values more =>
        simpa using ContainerTypeSpelling.map (respells.isWord isWord) (cppType.respelled respells)
          (respells.isMark less) (ih keys) (respells.isMark comma) (ih values)
          (respells.isMark more)
      | set isWord cppType less elements more =>
        simpa using ContainerTypeSpelling.set (respells.isWord isWord) (cppType.respelled respells)
          (respells.isMark less) (ih elements) (respells.isMark more)
      | list isWord less elements more cppType =>
        simpa using ContainerTypeSpelling.list (respells.isWord isWord) (respells.isMark less)
          (ih elements) (respells.isMark more) (cppType.respelled respells)

end Types

section Items

variable {α β : Type} {item : List Lexeme → α → Prop} {item' : List Lexeme → β → Prop}
  {values : List α}

/-- A list separator is spelled elsewhere. -/
theorem SeparatorSpelling.respelled (spelled : SeparatorSpelling lexemes) :
    SeparatorSpelling (lexemes.map change) := by
  cases spelled with
  | absent => exact .absent
  | comma isMark => exact .comma (respells.isMark isMark)
  | semicolon isMark => exact .semicolon (respells.isMark isMark)

omit respells in
/-- Items in a row are spelled elsewhere if each of them is. -/
theorem Sequence.respelled (convert : α → β) (spelled : Sequence item lexemes values)
    (each : ∀ {lexemes value}, item lexemes value → item' (lexemes.map change) (convert value)) :
    Sequence item' (lexemes.map change) (values.map convert) := by
  induction spelled with
  | nil => exact .nil
  | cons first _ ih => simpa using Sequence.cons (each first) ih

/-- Elements are spelled elsewhere if each of them is. -/
theorem Elements.respelled (convert : α → β) (spelled : Elements parted item lexemes values)
    (each : ∀ {lexemes value}, item lexemes value → item' (lexemes.map change) (convert value)) :
    Elements parted' item' (lexemes.map change) (values.map convert) := by
  induction spelled with
  | nil => exact .nil
  | @cons first separator others _ _ spelledFirst spelledSeparator _ apart ih =>
    have apart' : parted' → separator.map change = [] → Apart (others.map change) := by
      intro must none
      exact respells.isApart (apart (respells.parted must) (by simpa using none))
    simpa using Elements.cons (each spelledFirst) (spelledSeparator.respelled respells) ih apart'

end Items

section Constants

/-- A simple constant is spelled elsewhere. -/
theorem SimpleConstantSpelling.respelled {value : ConstValue}
    (spelled : SimpleConstantSpelling parted lexemes value) :
    SimpleConstantSpelling parted' (lexemes.map change) value := by
  cases spelled with
  | name isWord => exact .name (respells.isWord isWord)
  | literal shape =>
    rw [← respells.text]
    exact .literal (respells.hasShape shape)
  | double shape converts =>
    rw [← respells.text]
    exact .double (respells.hasShape shape) fun must =>
      (respells.converts _).trans (converts (respells.parted must))
  | int shape fits =>
    rw [← respells.text] at fits ⊢
    exact .int (respells.hasShape shape) fits

/-- A constant is spelled elsewhere. -/
theorem ConstantSpelling.respelled {value : ConstValue}
    (spelled : ConstantSpelling parted level lexemes value) :
    ConstantSpelling parted' level (lexemes.map change) value := by
  induction level generalizing lexemes value with
  | zero => exact SimpleConstantSpelling.respelled respells spelled
  | succ level ih =>
    rcases constantSpelling_succ.1 spelled with simple | container
    · exact constantSpelling_succ.2 (.inl (simple.respelled respells))
    · refine constantSpelling_succ.2 (.inr ?_)
      cases container with
      | list opening elements closing =>
        have inner := elements.respelled respells id fun spelled => ih spelled
        simpa using ContainerConstantSpelling.list (respells.isMark opening) inner
          (respells.isMark closing)
      | map opening elements closing =>
        have entry : ∀ {lexemes entry}, EntrySpelling (ConstantSpelling parted level) lexemes entry →
            EntrySpelling (ConstantSpelling parted' level) (lexemes.map change) (id entry) := by
          rintro _ _ ⟨keys, colon, values⟩
          simpa using EntrySpelling.entry (ih keys) (respells.isMark colon) (ih values)
        have inner := elements.respelled respells id entry
        simpa using ContainerConstantSpelling.map (respells.isMark opening) inner
          (respells.isMark closing)

end Constants

section Members

/-- A field is spelled elsewhere. -/
theorem FieldSpelling.respelled {field : Field Nat} (spelled : FieldSpelling parted depth lexemes field) :
    FieldSpelling parted' depth' (lexemes.map change) (field.map move) := by
  cases spelled with
  | @field ids words types defaults separator word id requiredness type name value place spelledIds
      spelledWords spelledTypes isWord apart spelledDefaults spelledSeparator begins =>
    have ids' : FieldIdSpelling (ids.map change) id := by
      cases spelledIds with
      | absent => exact .absent
      | present shape fits colon =>
        rw [← respells.text] at fits ⊢
        exact .present (respells.hasShape shape) fits (respells.isMark colon)
    have words' : RequirednessSpelling (words.map change) requiredness (types.map change) type := by
      cases spelledWords with
      | unstated other other' => exact .unstated other other'
      | required isWord apart => exact .required (respells.isWord isWord) (respells.isApart apart)
      | optional isWord apart => exact .optional (respells.isWord isWord) (respells.isApart apart)
    have defaults' : DefaultSpelling parted' depth' (defaults.map change) value := by
      cases spelledDefaults with
      | absent => exact .absent
      | present equal value =>
        exact .present (respells.isMark equal) ((value.respelled respells).mono respells.deeper)
    have begins' : BeginsAt (move place) (ids.map change ++ (words.map change ++ types.map change)) := by
      simpa using respells.beginsAt begins
    simpa [Field.map] using FieldSpelling.field ids' words'
      ((spelledTypes.respelled respells).mono respells.deeper)
      (respells.isWord isWord) (respells.apart _ apart) defaults'
      (spelledSeparator.respelled respells) begins'

/-- Fields between brackets are spelled elsewhere. -/
theorem FieldListSpelling.respelled {fields : List (Field Nat)}
    (spelled : FieldListSpelling parted depth lexemes fields) :
    FieldListSpelling parted' depth' (lexemes.map change) (fields.map (Field.map move)) := by
  cases spelled with
  | fields opening members closing =>
    have inner := members.respelled (Field.map move) fun spelled => spelled.respelled respells
    simpa using FieldListSpelling.fields (respells.isMark opening) inner (respells.isMark closing)

/-- A function is spelled elsewhere. -/
theorem FunctionSpelling.respelled {function : FunctionDecl Nat}
    (spelled : FunctionSpelling parted depth lexemes function) :
    FunctionSpelling parted' depth' (lexemes.map change) (function.map move) := by
  cases spelled with
  | @function words results members throwing separator word oneway result name parameters exceptions
      place spelledWords spelledResults isWord apart spelledMembers spelledThrowing spelledSeparator
      begins =>
    have words' : OnewaySpelling (words.map change) oneway (results.map change) result := by
      cases spelledWords with
      | absent other => exact .absent other
      | present isWord apart => exact .present (respells.isWord isWord) (respells.isApart apart)
    have results' : ResultSpelling depth' (results.map change) result := by
      cases spelledResults with
      | void isWord => exact .void (respells.isWord isWord)
      | type spelled other =>
        exact .type ((spelled.respelled respells).mono respells.deeper) other
    have throwing' : ThrowsSpelling parted' depth' (throwing.map change)
        (exceptions.map (List.map (Field.map move))) := by
      cases spelledThrowing with
      | absent => exact .absent
      | present isWord fields =>
        exact .present (respells.isWord isWord) (fields.respelled respells)
    have begins' : BeginsAt (move place) (words.map change ++ results.map change) := by
      simpa using respells.beginsAt begins
    simpa [FunctionDecl.map] using FunctionSpelling.function words' results' (respells.isWord isWord)
      (respells.apart _ apart) (spelledMembers.respelled respells) throwing'
      (spelledSeparator.respelled respells) begins'

/-- A value of an enumeration is spelled elsewhere. -/
theorem EnumValueSpelling.respelled {value : EnumValue Nat} (spelled : EnumValueSpelling lexemes value) :
    EnumValueSpelling (lexemes.map change) (value.map move) := by
  cases spelled with
  | plain isWord =>
    simpa [respells.left, EnumValue.map] using EnumValueSpelling.plain (respells.isWord isWord)
  | @numbered word equal number name isWord isEqual shape fits =>
    rw [← respells.text] at fits
    simpa [respells.left, respells.text, EnumValue.map] using EnumValueSpelling.numbered
      (respells.isWord isWord) (respells.isMark isEqual) (respells.hasShape shape) fits

end Members

section Definitions

/-- The scope of a namespace is spelled elsewhere. -/
theorem ScopeSpelling.respelled {mark : Lexeme} {scope : String}
    (spelled : ScopeSpelling parted mark scope) : ScopeSpelling parted' (change mark) scope := by
  cases spelled with
  | star isMark apart =>
    exact .star (respells.isMark isMark) fun must =>
      respells.apart _ (apart (respells.parted must))
  | word isWord mem apart => exact .word (respells.isWord isWord) mem (respells.apart _ apart)

/-- A definition is spelled elsewhere. -/
theorem DefinitionSpelling.respelled {definition : Definition Nat}
    (spelled : DefinitionSpelling parted depth lexemes definition) :
    DefinitionSpelling parted' depth' (lexemes.map change) (definition.map move) := by
  cases spelled with
  | inclusion isWord shape apart =>
    rw [← respells.text]
    exact .inclusion (respells.isWord isWord) (respells.hasShape shape) (respells.apart _ apart)
  | cppInclusion isWord shape apart =>
    rw [← respells.text]
    exact .cppInclusion (respells.isWord isWord) (respells.hasShape shape) (respells.apart _ apart)
  | space isKeyword scope isWord apart =>
    exact .space (respells.isWord isKeyword) (scope.respelled respells) (respells.isWord isWord)
      (respells.apart _ apart)
  | typedef isKeyword type apart isWord apart' separator =>
    simpa [respells.left, Definition.map, Typedef.map] using DefinitionSpelling.typedef
      (respells.isWord isKeyword) ⟨(type.1.respelled respells).mono respells.deeper, type.2⟩
      (respells.isApart apart) (respells.isWord isWord) (respells.apart _ apart')
      (separator.respelled respells)
  | const isKeyword type apart isWord apart' equal value separator =>
    simpa [respells.left, Definition.map, ConstDecl.map] using DefinitionSpelling.const
      (respells.isWord isKeyword) ((type.respelled respells).mono respells.deeper)
      (respells.isApart apart) (respells.isWord isWord) (respells.apart _ apart')
      (respells.isMark equal) ((value.respelled respells).mono respells.deeper)
      (separator.respelled respells)
  | enum isKeyword isWord apart opening members closing =>
    have always : Respelling true true depth depth' change move :=
      ⟨respells.shape, respells.text, respells.left, respells.apart, id, respells.deeper⟩
    have inner := members.respelled always (EnumValue.map move) fun spelled =>
      spelled.respelled respells
    simpa [respells.left, Definition.map, EnumDecl.map] using DefinitionSpelling.enum
      (respells.isWord isKeyword) (respells.isWord isWord) (respells.apart _ apart)
      (respells.isMark opening) inner (respells.isMark closing)
  | record isKeyword isWord apart opening members closing =>
    have inner := members.respelled (Field.map move) fun spelled => spelled.respelled respells
    simpa [respells.left, Definition.map, Record.map] using DefinitionSpelling.record
      (respells.isWord isKeyword) (respells.isWord isWord) (respells.apart _ apart)
      (respells.isMark opening) inner (respells.isMark closing)
  | @service _ _ _ _ bases _ _ base _ isKeyword isWord apart spelledBases opening members closing =>
    have bases' : BaseSpelling (bases.map change) base := by
      cases spelledBases with
      | absent => exact .absent
      | present isWord isName apart =>
        exact .present (respells.isWord isWord) (respells.isWord isName) (respells.apart _ apart)
    have inner := members.respelled (FunctionDecl.map move) fun spelled => spelled.respelled respells
    simpa [respells.left, Definition.map, Service.map] using DefinitionSpelling.service
      (respells.isWord isKeyword) (respells.isWord isWord) (respells.apart _ apart) bases'
      (respells.isMark opening) inner (respells.isMark closing)

/-- Definitions are spelled elsewhere. -/
theorem DefinitionsSpelling.respelled {definitions : List (Definition Nat)}
    (spelled : DefinitionsSpelling parted depth lexemes definitions) :
    DefinitionsSpelling parted' depth' (lexemes.map change) (definitions.map (Definition.map move)) :=
  Sequence.respelled (Definition.map move) spelled fun spelled => spelled.respelled respells

end Definitions

end Respelled

end ThriftIdl
