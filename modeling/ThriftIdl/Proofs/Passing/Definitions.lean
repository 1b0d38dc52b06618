import ThriftIdl.Proofs.Passing.Members

/-!
# Definitions are passed

A definition that is spelled is passed, if no name in it is a keyword where it stands
(`passes_definition`).
-/
namespace ThriftIdl

open TokenReader

section Conditions

variable {π : Type}

/-- The keyword of a kind of records. -/
def RecordKind.word : RecordKind → Keyword
  | .struct => .struct
  | .union => .union
  | .exception => .exception

/-- The keyword that a definition begins with. -/
def Definition.word : Definition π → Keyword
  | .inclusion _ => .inclusion
  | .cppInclusion _ => .cppInclusion
  | .space _ => .space
  | .typedef _ => .typedef
  | .const _ => .const
  | .enum _ => .enum
  | .record kind _ => kind.word
  | .service _ => .service

end Conditions

section Members

variable {lexemes others : List Lexeme} {terminal : Terminal} {before : Ahead} {parted : Bool}
  {depth : Nat} {last : Lexeme}

/-- Functions are passed up to the bracket that closes them. -/
theorem passes_functions {functions : List (FunctionDecl Nat)} {ended : Bool}
    (spelled : Sequence (EndedFunctionSpelling ended parted depth) lexemes functions)
    (settled : ∀ function ∈ functions, function.Settled)
    (clear : ∀ function ∈ functions, function.Clear)
    (later : ∀ function ∈ functions.tail, function.Later)
    (unthrown : ended = false → ∀ function ∈ functions.tail, function.Unthrown)
    (isLast : last.IsMark .rightBrace)
    (leads : Leads (functions.head?.elim (.mark .rightBrace) FunctionDecl.opening)
      (lexemes ++ last :: others) before) :
    Passes (items (.mark .rightBrace) TokenReader.function) before (.mark .rightBrace)
      (last :: others) := by
  have all : ∀ ended, ∀ follow ∈ FunctionDecl.follows ended,
      Follow.function ⊆ follow ∧ .mark .rightBrace ∈ follow := by decide
  refine passes_items (FunctionDecl.follows ended) spelled (fun _ _ one => one.1.ne_nil)
    ?_ ?_ ?_ ?_ leads
  · intro first others function before terminal one mem _ leads opens
    exact passes_function one (settled function mem) (clear function mem) leads opens
  · intro first others function one mem follow among
    refine opens_function one.1 (all ended follow among).1 fun unsaid name same => ?_
    refine FunctionDecl.free_follows (later function mem unsaid name same) ?_ follow among
    rintro unended rfl
    exact unthrown unended function mem unsaid same
  · intro function _
    exact function.opening_ne_mark .rightBrace
  · intro follow mem
    exact opens_mark isLast (all ended follow mem).2

/-- The name of a value of an enumeration is ahead of it, wherever it is no keyword. -/
theorem EnumValueSpelling.opens {value : EnumValue Nat} {expected : Expected}
    (spelled : EnumValueSpelling lexemes value) (mem : .identifier ∈ expected)
    (free : Free expected value.name) : Opens expected .identifier (lexemes ++ others) := by
  cases spelled with
  | plain isName => exact opens_name isName free mem
  | numbered isName => exact opens_name isName free mem

/-- Values of an enumeration are passed up to the bracket that closes them. -/
theorem passes_enumValues {values : List (EnumValue Nat)}
    (spelled : Elements parted EnumValueSpelling lexemes values)
    (later : ∀ value ∈ values.tail, value.Later) (isLast : last.IsMark .rightBrace)
    (leads : Leads (values.head?.elim (.mark .rightBrace) fun _ => .identifier)
      (lexemes ++ last :: others) before) :
    Passes (items (.mark .rightBrace) enumValue) before (.mark .rightBrace) (last :: others) := by
  have all : ∀ follow ∈ EnumValue.follows, .identifier ∈ follow ∧
      follow.filter Terminal.isKeyword ⊆ Follow.afterSeparator := by decide
  refine passes_items EnumValue.follows spelled.sequence ?_ ?_ ?_ ?_ ?_ leads
  · rintro _ _ ⟨first, separator, rfl, one, -⟩
    simp [one.ne_nil]
  · rintro _ others value before terminal ⟨first, separator, rfl, one, isSeparator⟩ _ _ leads opens
    rw [List.append_assoc] at leads
    exact passes_enumValue one isSeparator leads opens
  · rintro _ others value ⟨first, separator, rfl, one, isSeparator⟩ mem follow among
    have free : Free Follow.afterSeparator value.name := later value mem
    rw [List.append_assoc]
    exact one.opens (all follow among).1 (free.mono (all follow among).2)
  · simp
  · intro follow mem
    exact opens_mark isLast (by revert follow; decide)

/-- A body is passed if its members are. -/
theorem passes_body {α : Type} {item : TokenReader α} {start : Expected} {first : Lexeme}
    {next : Terminal}
    (starts : Opens (.mark .rightBrace :: start) next (lexemes ++ last :: others))
    (passes : ∀ after, Leads next (lexemes ++ last :: others) after →
      Passes (items (.mark .rightBrace) item) after (.mark .rightBrace) (last :: others))
    (leads : Leads (.mark .leftBrace) (first :: (lexemes ++ last :: others)) before)
    (opens : Opens Follow.definition terminal others) :
    Passes (body start item) before terminal others := by
  refine passes_take_bind leads starts fun _ left => ?_
  refine (passes _ left).bind fun _ _ left => ?_
  exact passes_advance_bind left opens fun _ left => passes_pure left

end Members

section Definitions

variable {lexemes others : List Lexeme} {terminal : Terminal} {before : Ahead} {parted : Bool}
  {depth : Nat}

/-- What may follow a definition. -/
def Definition.follows : List Expected :=
  [Follow.definition, Follow.afterAlias, Follow.afterConstant, Follow.afterSeparator]

/-- The keyword of a definition is ahead of it, wherever definitions may begin. -/
theorem opens_definition {definition : Definition Nat} {expected : Expected}
    (spelled : DefinitionSpelling parted depth lexemes definition)
    (less : Follow.definition ⊆ expected) :
    Opens expected (.keyword definition.word) (lexemes ++ others) := by
  cases spelled with
  | inclusion isKeyword => exact opens_keyword .inclusion isKeyword (less (by decide))
  | cppInclusion isKeyword =>
    exact opens_keyword .cppInclusion isKeyword (less (by decide))
  | space isKeyword => exact opens_keyword .space isKeyword (less (by decide))
  | typedef isKeyword => exact opens_keyword .typedef isKeyword (less (by decide))
  | const isKeyword => exact opens_keyword .const isKeyword (less (by decide))
  | enum isKeyword => exact opens_keyword .enum isKeyword (less (by decide))
  | @record _ _ _ _ _ _ kind _ isKeyword =>
    have same : kind.keyword = kind.word.text := by cases kind <;> rfl
    have mem : .keyword kind.word ∈ Follow.definition := by cases kind <;> decide
    rw [same] at isKeyword
    exact opens_keyword kind.word isKeyword (less mem)
  | service isKeyword => exact opens_keyword .service isKeyword (less (by decide))

/-- A record is passed from its keyword on. -/
theorem passes_recordRest {word opening closing : Lexeme} {keyword : Lexeme} {name : String}
    {fields : List (Field Nat)} {place : Nat} {start : Terminal} (isName : word.IsWord name)
    (isOpening : opening.IsMark .leftBrace)
    (spelled : Sequence (FieldSpelling parted depth) lexemes fields)
    (isClosing : closing.IsMark .rightBrace) (settled : ∀ field ∈ fields, field.type.Settled)
    (clear : ClearFields fields)
    (leads : Leads start (keyword :: word :: opening :: (lexemes ++ closing :: others)) before)
    (opens : Opens Follow.definition terminal others) :
    Passes (recordRest place) before terminal others := by
  have named : Opens [.identifier] .identifier
      (word :: opening :: (lexemes ++ closing :: others)) :=
    opens_name isName (free_of_no_keyword name (by decide)) (by decide)
  have starts : Opens (.mark .rightBrace :: Follow.field)
      (fields.head?.elim (.mark .rightBrace) Field.opening) (lexemes ++ closing :: others) :=
    spelled.opens (fun _ _ field one mem => opens_firstField one (settled field mem))
      (opens_mark isClosing (by decide))
  refine passes_advance_bind leads named fun _ left => ?_
  refine (passes_name left (opens_mark isOpening (by decide))).bind fun _ _ left => ?_
  refine (passes_body starts (fun _ left =>
    passes_fields spelled settled clear isClosing (.inr rfl) left) left opens).bind fun _ _ left => ?_
  exact passes_pure left

/-- The name after the first keyword of a definition. -/
theorem opens_onlyName {word : Lexeme} {name : String} (isName : word.IsWord name) :
    Opens [.identifier] .identifier (word :: others) :=
  opens_name isName (free_of_no_keyword name (by decide)) (by decide)

/-- A service is passed from its keyword on. -/
theorem passes_serviceRest {ended : Bool} {word opening closing keyword : Lexeme}
    {bases : List Lexeme} {name : String} {base : Option String} {functions : List (FunctionDecl Nat)} {place : Nat}
    {start : Terminal} (isName : word.IsWord name) (spelledBase : BaseSpelling bases base)
    (isOpening : opening.IsMark .leftBrace)
    (spelled : Sequence (EndedFunctionSpelling ended parted depth) lexemes functions)
    (isClosing : closing.IsMark .rightBrace) (settled : ∀ function ∈ functions, function.Settled)
    (clear : ∀ function ∈ functions, function.Clear)
    (later : ∀ function ∈ functions.tail, function.Later)
    (unthrown : ended = false → ∀ function ∈ functions.tail, function.Unthrown)
    (leads : Leads start
      (keyword :: word :: (bases ++ opening :: (lexemes ++ closing :: others))) before)
    (opens : Opens Follow.definition terminal others) :
    Passes (serviceRest place) before terminal others := by
  have starts : Opens (.mark .rightBrace :: Follow.function)
      (functions.head?.elim (.mark .rightBrace) FunctionDecl.opening)
      (lexemes ++ closing :: others) :=
    spelled.opens (fun _ _ function one mem => opens_firstFunction one.1 (settled function mem))
      (opens_mark isClosing (by decide))
  have bodyPasses : ∀ {after}, Leads (.mark .leftBrace)
      (opening :: (lexemes ++ closing :: others)) after →
      Passes (body Follow.function TokenReader.function) after terminal others := fun left =>
    passes_body starts
      (fun _ left => passes_functions spelled settled clear later unthrown isClosing left) left
      opens
  refine passes_advance_bind leads (opens_onlyName isName) fun _ left => ?_
  cases spelledBase with
  | absent =>
    refine (passes_name left (opens_mark isOpening (by decide))).bind fun _ _ left => ?_
    refine passes_takes_bind_of_ne left (by simp) ?_
    refine (passes_pure left).bind fun _ _ left => ?_
    exact (bodyPasses left).bind fun _ _ left => passes_pure left
  | present isExtends isBase =>
    simp only [List.cons_append, List.nil_append] at left
    refine (passes_name left (opens_keyword .extending isExtends (by decide))).bind
      fun _ _ left => ?_
    refine passes_takes_bind left (opens_onlyName isBase) fun _ left => ?_
    refine ((passes_name left (opens_mark isOpening (by decide))).map some).bind fun _ _ left => ?_
    exact (bodyPasses left).bind fun _ _ left => passes_pure left

/-- The scope of a namespace is passed, and a name is ahead. -/
theorem passes_namespaceScope {mark word : Lexeme} {scope name : String} {start : Terminal}
    (spelled : ScopeSpelling parted mark scope) (isName : word.IsWord name)
    (opened : Opens [.identifier, .mark .star] start (mark :: word :: others))
    (leads : Leads start (mark :: word :: others) before) :
    Passes namespaceScope before .identifier (word :: others) := by
  cases spelled with
  | star isMark =>
    obtain rfl := leads.eq_mark isMark
    exact passes_takes_bind leads (opens_onlyName isName) fun _ left => passes_pure left
  | word isWord mem =>
    have named : Opens [.identifier, .mark .star] .identifier (mark :: word :: others) :=
      opens_name isWord (free_of_no_keyword scope (by decide)) (by decide)
    obtain rfl : start = .identifier := opened.1.symm.trans named.1
    refine passes_takes_bind_of_ne leads (by simp) ?_
    refine passes_name_bind leads (opens_onlyName isName) fun _ left => ?_
    have known : namespaceScopes.contains (String.ofList mark.text) := by
      rw [isWord.2, String.ofList_toList]
      simpa using mem
    rw [if_pos known]
    exact passes_pure left

/-- What may begin a scope is ahead of it. -/
theorem exists_opens_scope {mark : Lexeme} {scope : String} (spelled : ScopeSpelling parted mark scope) :
    ∃ start, Opens [.identifier, .mark .star] start (mark :: others) := by
  cases spelled with
  | star isMark => exact ⟨_, opens_mark isMark (by decide)⟩
  | word isWord => exact ⟨_, opens_name isWord (free_of_no_keyword scope (by decide)) (by decide)⟩

/-- A definition that is no service is passed if it is spelled. -/
theorem passes_plainDefinition {definition : Definition Nat}
    (plain : ∀ decl, definition ≠ .service decl)
    (spelled : DefinitionSpelling parted depth lexemes definition) (settled : definition.Settled)
    (clear : definition.Clear)
    (leads : Leads (.keyword definition.word) (lexemes ++ others) before)
    (opens : ∀ follow ∈ Definition.follows, Opens follow terminal others) :
    Passes TokenReader.definition before terminal others := by
  have ends : Opens Follow.definition terminal others := opens _ (by simp [Definition.follows])
  refine passes_place_bind fun _ => passes_next_bind leads ?_
  -- Only after a second name and a constant a list separator may stand, so that more may follow them.
  cases spelled with
  | inclusion _ shape | cppInclusion _ shape =>
    refine passes_advance_bind leads (opens_literal shape (by decide)) fun _ left => ?_
    exact (passes_literal left ends).bind fun _ _ left => passes_pure left
  | space _ scope isName =>
    simp only [List.cons_append, List.nil_append] at leads
    obtain ⟨start, opened⟩ := exists_opens_scope scope
    refine passes_advance_bind leads opened fun _ left => ?_
    refine (passes_namespaceScope scope isName opened left).bind fun _ _ left => ?_
    exact (passes_name left ends).bind fun _ _ left => passes_pure left
  | @typedef _ word types separator type name _ spelledType _ isName _ isSeparator =>
    obtain ⟨middle, absent, starts⟩ := exists_opens_separator isSeparator terminal
    have afterAlias : Opens Follow.afterAlias middle (separator ++ others) :=
      starts (by decide) fun _ => opens _ (by simp [Definition.follows])
    simp only [List.cons_append, List.append_assoc] at leads
    refine passes_advance_bind leads (opens_definitionType spelledType) fun _ left => ?_
    refine (passes_definitionType spelledType settled left (opens_afterType isName clear)).bind
      fun _ _ left => ?_
    refine (passes_name left afterAlias).bind fun _ _ left => ?_
    exact (passes_takeSeparator isSeparator left absent
      (opens _ (by simp [Definition.follows]))).bind fun _ _ left => passes_pure left
  | @const _ word equal types values separator type name value _ spelledType _ isName _ isEqual
      spelledValue isSeparator =>
    have settledType : type.Settled := settled
    obtain ⟨precedes, clearValue⟩ := clear
    obtain ⟨middle, absent, starts⟩ := exists_opens_separator isSeparator terminal
    have afterValue : Opens Follow.afterConstant middle (separator ++ others) :=
      starts (by decide) fun _ => opens _ (by simp [Definition.follows])
    simp only [List.cons_append, List.append_assoc] at leads
    refine passes_advance_bind leads (settledType.opens spelledType) fun _ left => ?_
    refine (passes_type spelledType settledType left (opens_afterType isName precedes)).bind
      fun _ _ left => ?_
    refine (passes_name left (opens_mark isEqual (by decide))).bind fun _ _ left => ?_
    refine passes_take_bind left
      (opens_constant_of_no_keyword spelledValue (by decide) (by decide)) fun _ left => ?_
    refine (passes_constant spelledValue clearValue left afterValue).bind fun _ _ left => ?_
    exact (passes_takeSeparator isSeparator left absent
      (opens _ (by simp [Definition.follows]))).bind fun _ _ left => passes_pure left
  | @enum _ word opening closing members name values _ isName _ isOpening spelledValues isClosing =>
    simp only [List.cons_append, List.append_assoc, List.nil_append] at leads
    have starts : Opens [.mark .rightBrace, .identifier]
        (values.head?.elim (.mark .rightBrace) fun _ => .identifier)
        (members ++ closing :: others) :=
      spelledValues.opens (fun _ _ value one => one.opens (by decide)
        (free_of_no_keyword value.name (by decide))) (opens_mark isClosing (by decide))
    refine passes_advance_bind leads (opens_onlyName isName) fun _ left => ?_
    refine (passes_name left (opens_mark isOpening (by decide))).bind fun _ _ left => ?_
    exact (passes_body starts (fun _ left => passes_enumValues spelledValues clear isClosing left)
      left ends).bind fun _ _ left => passes_pure left
  | @record _ _ _ _ _ _ kind _ _ isName _ isOpening spelledFields isClosing =>
    simp only [List.cons_append, List.append_assoc, List.nil_append] at leads
    cases kind with
    | struct | union | exception =>
      exact (passes_recordRest isName isOpening spelledFields isClosing settled clear leads
        ends).bind fun _ _ left => passes_pure left
  | service => exact absurd rfl (plain _)

/-- A definition that is spelled is passed. If its functions are not ended, none but the first begins
with the word for exceptions. -/
theorem passes_definition {definition : Definition Nat} {ended : Bool}
    (spelled : EndedSpelling ended parted depth lexemes definition) (settled : definition.Settled)
    (clear : definition.Clear) (unthrown : ended = false → definition.Unthrown)
    (leads : Leads (.keyword definition.word) (lexemes ++ others) before)
    (opens : ∀ follow ∈ Definition.follows, Opens follow terminal others) :
    Passes TokenReader.definition before terminal others := by
  cases spelled with
  | plain plain spelled => exact passes_plainDefinition plain spelled settled clear leads opens
  | service _ isName _ spelledBase isOpening spelledFunctions isClosing =>
    refine passes_place_bind fun _ => passes_next_bind leads ?_
    simp only [List.cons_append, List.append_assoc, List.nil_append] at leads
    exact (passes_serviceRest isName spelledBase isOpening spelledFunctions isClosing settled
      clear.1 clear.2 unthrown leads (opens _ (by simp [Definition.follows]))).bind
      fun _ _ left => passes_pure left

end Definitions

end ThriftIdl
