import ThriftIdl.Proofs.Grammar.Ended
import ThriftIdl.Proofs.Passing.Constants

/-!
# Members are passed

A field, a function or a value of an enumeration that is spelled is passed, and so are the members
of a body, if no member but the first begins with a name that is a keyword after another member
(`passes_fieldList`, `passes_function`, `passes_enumValue`).
-/
namespace ThriftIdl

open TokenReader

section Conditions

variable {π : Type}

/-- The kind of the token that a type with the word before it begins with. -/
def Requiredness.opening (requiredness : Requiredness) (type : FieldType) : Terminal :=
  match requiredness with
  | .required => .keyword .required
  | .optional => .keyword .optional
  | .unstated => type.opening

/-- The kind of the token that a field begins with. -/
def Field.opening (field : Field π) : Terminal :=
  if field.id.isSome then .integer else field.requiredness.opening field.type

/-- A type does not begin with a mark. -/
theorem FieldType.opening_ne_mark (type : FieldType) (symbol : Mark) :
    type.opening ≠ .mark symbol := by
  cases type <;> simp [opening]

/-- A field does not begin with a mark. -/
theorem Field.opening_ne_mark (field : Field π) (symbol : Mark) : field.opening ≠ .mark symbol := by
  obtain ⟨type, name, id, requiredness, value, place⟩ := field
  cases id with
  | some number => simp [opening]
  | none => cases requiredness <;> simp [opening, Requiredness.opening, type.opening_ne_mark]

/-- The kind of the token that the result of a function begins with. -/
def resultOpening (result : Option FieldType) : Terminal :=
  result.elim (.keyword .void) FieldType.opening

/-- The kind of the token that a function begins with. -/
def FunctionDecl.opening (function : FunctionDecl π) : Terminal :=
  if function.oneway then .keyword .oneway else resultOpening function.returns

/-- A function does not begin with a mark. -/
theorem FunctionDecl.opening_ne_mark (function : FunctionDecl π) (symbol : Mark) :
    function.opening ≠ .mark symbol := by
  obtain ⟨name, returns, oneway, parameters, exceptions, place⟩ := function
  cases oneway <;> cases returns <;>
    simp [opening, resultOpening, FieldType.opening_ne_mark]

end Conditions

section Fields

variable {lexemes others : List Lexeme} {terminal : Terminal} {before : Ahead} {parted : Bool}
  {depth : Nat} {type : FieldType} {expected : Expected}

/-- A name may follow a type, if it is not taken for a part of the type. -/
theorem opens_afterType {word : Lexeme} {name : String} (isWord : word.IsWord name)
    (precedes : type.Precedes name) :
    ∀ follow ∈ type.follows, Opens follow .identifier (word :: others) := by
  intro follow mem
  have free : Free follow name := by
    cases type with
    | list element =>
      rcases List.mem_pair.1 mem with rfl | rfl
      · intro keyword mem
        have same : keyword = .cppType := by simpa [Follow.afterListType, Follow.afterType] using mem
        rw [same]
        exact precedes element rfl
      · exact free_of_no_keyword name (by decide)
    | base | map | set | named =>
      obtain rfl := List.mem_singleton.1 mem
      exact free_of_no_keyword name (by decide)
  have all : ∀ follow ∈ [Follow.afterListType, Follow.afterCppType, Follow.afterType],
      .identifier ∈ follow := by decide
  exact opens_name isWord free (all follow (mem_follows mem))

/-- A name that is no keyword of a type, and neither of the words before one, is no keyword where a
field begins. -/
theorem Free.field {name : String} (free : Free Follow.type name) (noRequired : name ≠ "required")
    (noOptional : name ≠ "optional") : Free Follow.field name := by
  intro word mem
  simp only [Follow.field, Follow.numberedField, List.mem_cons, List.cons_append, List.nil_append,
    reduceCtorEq, Terminal.keyword.injEq, false_or] at mem
  rcases mem with rfl | rfl | mem
  · exact noRequired
  · exact noOptional
  · exact free word mem

/-- A type that stands without a word before it is no keyword where a field begins. -/
theorem RequirednessSpelling.free {words types : List Lexeme} {requiredness : Requiredness}
    (spelled : RequirednessSpelling words requiredness types type) (settled : type.Settled)
    (unstated : requiredness = .unstated) : ∀ name, type = .named name → Free Follow.field name := by
  rintro name rfl
  cases spelled with
  | unstated noRequired noOptional =>
    have free : Free Follow.type name := settled
    exact free.field (by simpa using noRequired) (by simpa using noOptional)
  | required | optional => cases unstated

/-- The token that a type begins with, or the word before it, is ahead of both. -/
theorem opens_typed {words types : List Lexeme} {requiredness : Requiredness}
    (spelledWords : RequirednessSpelling words requiredness types type)
    (spelled : TypeSpelling depth types type) (less : Follow.numberedField ⊆ expected)
    (free : requiredness = .unstated → ∀ name, type = .named name → Free expected name) :
    Opens expected (requiredness.opening type) (words ++ (types ++ others)) := by
  cases spelledWords with
  | unstated =>
    rw [List.nil_append]
    exact opens_type spelled (fun _ mem => less (by simp [Follow.numberedField, mem])) (free rfl)
  | required isWord => exact opens_keyword .required isWord (less (by decide))
  | optional isWord => exact opens_keyword .optional isWord (less (by decide))

/-- The word before a type is passed if there is one. -/
theorem passes_requiredness {words types : List Lexeme} {requiredness : Requiredness}
    (spelledWords : RequirednessSpelling words requiredness types type)
    (spelled : TypeSpelling depth types type) (settled : type.Settled)
    (leads : Leads (requiredness.opening type) (words ++ (types ++ others)) before) :
    Passes TokenReader.requiredness before type.opening (types ++ others) := by
  cases spelledWords with
  | unstated =>
    have noRequired : type.opening ≠ .keyword .required := by cases type <;> simp [FieldType.opening]
    have noOptional : type.opening ≠ .keyword .optional := by cases type <;> simp [FieldType.opening]
    refine passes_takes_bind_of_ne leads noRequired ?_
    exact passes_takes_bind_of_ne leads noOptional (passes_pure leads)
  | required =>
    rw [List.singleton_append] at leads
    exact passes_takes_bind leads (settled.opens spelled) fun _ left => passes_pure left
  | optional =>
    rw [List.singleton_append] at leads
    have other : Terminal.keyword .optional ≠ .keyword .required := by decide
    refine passes_takes_bind_of_ne leads other ?_
    exact passes_takes_bind leads (settled.opens spelled) fun _ left => passes_pure left

/-- The number of a field is passed if there is one, and its value is kept. -/
theorem exists_gives_fieldId {ids : List Lexeme} {id : Option Int} {next : Terminal}
    (spelled : FieldIdSpelling ids id)
    (leads : Leads (if id.isSome then .integer else next) (ids ++ others) before)
    (other : next ≠ .integer) (opens : Opens Follow.numberedField next others) :
    ∃ found after, fieldId.Gives before found after ∧ Leads next others after ∧
      ∀ text ∈ found, admitsInteger text := by
  cases spelled with
  | absent =>
    refine ⟨none, before, ?_, leads, by simp⟩
    have same : before.token.terminal ≠ .integer := leads.terminal_eq ▸ other
    simp [fieldId, gives_bind, same]
  | @present number colon shape fits isColon =>
    have isNext : Opens [.mark .colon] (.mark .colon) (colon :: others) :=
      opens_mark isColon (by decide)
    obtain ⟨middle, given, left⟩ := leads.advance isNext
    obtain ⟨after, given', left'⟩ := left.advance opens
    refine ⟨some number.text, after, ?_, left', by simpa using fits⟩
    have same : before.token.terminal = .integer := leads.terminal_eq
    have taken := gives_take.2 ⟨left.terminal_eq, given'⟩
    simp only [fieldId, gives_bind, gives_next]
    refine ⟨_, _, ⟨rfl, rfl⟩, ?_⟩
    rw [if_pos same]
    exact gives_bind.2 ⟨_, _, given, gives_bind.2 ⟨_, _, taken, gives_pure.2 ⟨rfl, rfl⟩⟩⟩

/-- The value of the number of a field is looked at. -/
theorem passes_mapM_int64 {found : Option (List Char)}
    (fits : ∀ text ∈ found, admitsInteger text)
    (leads : Leads terminal others before) :
    Passes (found.mapM int64) before terminal others := by
  cases found with
  | none => exact passes_pure leads
  | some text => exact (passes_int64 (fits text rfl) leads).map _

/-- The default value of a field is passed if there is one. -/
theorem passes_defaultValue {defaults : List Lexeme} {value : Option ConstValue} {next : Terminal}
    (spelled : DefaultSpelling parted depth defaults value)
    (clear : ∀ constant ∈ value, constant.Clear)
    (leads : Leads (if value.isSome then .mark .equal else next) (defaults ++ others) before)
    (opens : Opens Follow.afterConstant next others) :
    Passes defaultValue before next others := by
  cases spelled with
  | absent => exact passes_takes_bind_of_ne leads (opens.ne (by decide) (by simp)) (passes_pure leads)
  | present isEqual spelledValue =>
    refine passes_takes_bind leads
      (opens_constant_of_no_keyword spelledValue (by decide) (by decide)) fun _ left => ?_
    exact (passes_constant spelledValue (clear _ rfl) left opens).bind fun _ _ left =>
      passes_pure left

/-- What may follow a field: a list separator may, and else what may follow its name or its default
value. -/
def Field.follows : List Expected :=
  [Follow.afterFieldName, Follow.afterConstant, Follow.afterSeparator]

/-- A field that is spelled is passed. -/
theorem passes_field {field : Field Nat} (spelled : FieldSpelling parted depth lexemes field)
    (settled : field.type.Settled) (precedes : field.type.Precedes field.name)
    (clear : ∀ value ∈ field.defaultValue, value.Clear)
    (leads : Leads field.opening (lexemes ++ others) before)
    (opens : ∀ follow ∈ Field.follows, Opens follow terminal others) :
    Passes TokenReader.field before terminal others := by
  cases spelled with
  | @field ids words types defaults separator word id requiredness type name value place spelledId
      spelledWords spelledType isName _ spelledDefault spelledSeparator =>
    simp only [List.append_assoc, List.cons_append] at leads
    have openingType : (requiredness.opening type) ≠ .integer := by
      cases requiredness <;> cases type <;> simp [Requiredness.opening, FieldType.opening]
    have opensType : Opens Follow.numberedField (requiredness.opening type)
        (words ++ (types ++ word :: (defaults ++ (separator ++ others)))) := by
      refine opens_typed spelledWords spelledType (List.Subset.refl _) fun unstated name same => ?_
      exact (spelledWords.free settled unstated name same).mono (by decide)
    obtain ⟨middle, absent, starts⟩ := exists_opens_separator spelledSeparator terminal
    have afterValue : Opens Follow.afterConstant middle (separator ++ others) :=
      starts (by decide) fun _ => opens _ (by simp [Field.follows])
    have afterName : Opens Follow.afterFieldName (if value.isSome then .mark .equal else middle)
        (defaults ++ (separator ++ others)) := by
      cases spelledDefault with
      | absent => exact starts (by decide) fun _ => opens _ (by simp [Field.follows])
      | present isEqual => exact opens_mark isEqual (by decide)
    refine passes_place_bind fun _ => ?_
    obtain ⟨found, after, given, left, fits⟩ := exists_gives_fieldId spelledId leads openingType opensType
    refine passes_bind_of_gives given ?_
    refine (passes_requiredness spelledWords spelledType settled left).bind fun _ _ left => ?_
    refine (passes_type spelledType settled left (opens_afterType isName precedes)).bind
      fun _ _ left => ?_
    refine (passes_name left afterName).bind fun _ _ left => ?_
    refine (passes_defaultValue spelledDefault clear left afterValue).bind
      fun _ _ left => ?_
    refine (passes_takeSeparator spelledSeparator left absent
      (opens _ (by simp [Field.follows]))).bind fun _ _ left => ?_
    exact (passes_mapM_int64 fits left).bind fun _ _ left => passes_pure left

/-- The token that a field begins with is ahead of the field, wherever a field is expected and its
type, if it is a name and the first of its parts, is no keyword. -/
theorem opens_field {field : Field Nat} (spelled : FieldSpelling parted depth lexemes field)
    (less : Follow.field ⊆ expected)
    (free : field.id = none → field.requiredness = .unstated → ∀ name, field.type = .named name →
      Free expected name) :
    Opens expected field.opening (lexemes ++ others) := by
  cases spelled with
  | field spelledId spelledWords spelledType =>
    simp only [List.append_assoc]
    cases spelledId with
    | absent =>
      rw [List.nil_append]
      exact opens_typed spelledWords spelledType
        (fun _ mem => less (List.mem_cons_of_mem _ mem)) (free rfl)
    | present shape => exact opens_integer shape (less (by decide))

/-- The first field is ahead where fields begin. -/
theorem opens_firstField {closing : Mark} {field : Field Nat}
    (spelled : FieldSpelling parted depth lexemes field) (settled : field.type.Settled) :
    Opens (.mark closing :: Follow.field) field.opening (lexemes ++ others) := by
  refine opens_field spelled (List.subset_cons_self _ _) fun _ unstated name same => ?_
  cases spelled with
  | field _ spelledWords =>
    exact (spelledWords.free settled unstated name same).mono (by cases closing <;> decide)

/-- A later field is ahead after another, whether there is a list separator or none. -/
theorem Field.Later.opens {field : Field Nat} (later : field.Later)
    (spelled : FieldSpelling parted depth lexemes field) :
    ∀ follow ∈ Field.follows, Opens follow field.opening (lexemes ++ others) := by
  have all : ∀ follow ∈ Field.follows, Follow.field ⊆ follow ∧
      follow.filter Terminal.isKeyword ⊆ Follow.afterSeparator := by decide
  intro follow mem
  refine opens_field spelled (all follow mem).1 fun none unstated name same => ?_
  exact (later none unstated name same).mono (all follow mem).2

/-- Fields are passed up to the bracket that closes them. -/
theorem passes_fields {closing : Mark} {last : Lexeme} {fields : List (Field Nat)}
    (spelled : Sequence (FieldSpelling parted depth) lexemes fields)
    (settled : ∀ field ∈ fields, field.type.Settled) (clear : ClearFields fields)
    (isLast : last.IsMark closing) (closes : closing = .rightParen ∨ closing = .rightBrace)
    (leads : Leads (fields.head?.elim (.mark closing) Field.opening) (lexemes ++ last :: others)
      before) :
    Passes (items (.mark closing) TokenReader.field) before (.mark closing) (last :: others) := by
  refine passes_items Field.follows spelled (fun _ _ one => one.ne_nil) ?_ ?_ ?_ ?_ leads
  · intro first others field before terminal one mem _ leads opens
    exact passes_field one (settled field mem) (clear.names field mem) (clear.values field mem) leads opens
  · intro first others field one mem
    exact (clear.later field mem).opens one
  · intro field _
    exact field.opening_ne_mark closing
  · intro follow mem
    refine opens_mark isLast ?_
    rcases closes with rfl | rfl <;> revert follow <;> decide

/-- Fields between round brackets are passed. -/
theorem passes_fieldList {fields : List (Field Nat)} {follow : Expected}
    (spelled : FieldListSpelling parted depth lexemes fields)
    (settled : ∀ field ∈ fields, field.type.Settled) (clear : ClearFields fields)
    (leads : Leads (.mark .leftParen) (lexemes ++ others) before)
    (opens : Opens follow terminal others) :
    Passes (fieldList follow) before terminal others := by
  cases spelled with
  | @fields first last members _ isFirst spelled isLast =>
    simp only [List.cons_append, List.append_assoc, List.nil_append] at leads
    have starts : Opens (.mark .rightParen :: Follow.field)
        (fields.head?.elim (.mark .rightParen) Field.opening) (members ++ last :: others) :=
      spelled.opens (fun _ _ field one mem => opens_firstField one (settled field mem))
        (opens_mark isLast (by decide))
    refine passes_take_bind leads starts fun _ left => ?_
    refine (passes_fields spelled settled clear isLast (.inl rfl) left).bind fun _ _ left => ?_
    exact passes_advance_bind left opens fun _ left => passes_pure left

end Fields

section Functions

variable {lexemes others : List Lexeme} {terminal : Terminal} {before : Ahead} {parted : Bool}
  {depth : Nat} {expected : Expected}

/-- What may follow a function: a list separator may, and else what may follow its parameters or its
exceptions. If the function is ended, only what may follow a list separator may. -/
def FunctionDecl.follows : Bool → List Expected
  | true => [Follow.afterSeparator]
  | false => [Follow.afterThrows, Follow.afterParameters, Follow.afterSeparator]

/-- A name that may stand after a list separator and is not the word for exceptions may stand after a
function that is not ended. -/
theorem FunctionDecl.free_follows {ended : Bool} {name : String} (free : Free Follow.afterSeparator name)
    (unthrown : ended = false → name ≠ "throws") :
    ∀ follow ∈ FunctionDecl.follows ended, Free follow name := by
  intro follow mem
  cases ended with
  | true =>
    obtain rfl := List.mem_singleton.1 mem
    exact free
  | false =>
    have all : ∀ follow ∈ FunctionDecl.follows false,
        follow.filter Terminal.isKeyword ⊆ .keyword .throws :: Follow.afterSeparator := by decide
    have both : Free (.keyword .throws :: Follow.afterSeparator) name := by
      intro word mem
      obtain same | mem := List.mem_cons.1 mem
      · obtain rfl := Terminal.keyword.inj same
        exact unthrown rfl
      · exact free word mem
    exact both.mono (all follow mem)

/-- The result of a function, or the word for none, is ahead of it. -/
theorem opens_result {result : Option FieldType} (spelled : ResultSpelling depth lexemes result)
    (less : Follow.onewayFunction ⊆ expected)
    (free : ∀ name, result = some (.named name) → Free expected name) :
    Opens expected (resultOpening result) (lexemes ++ others) := by
  cases spelled with
  | void isWord => exact opens_keyword .void isWord (less (by decide))
  | type spelledType =>
    exact opens_type spelledType (fun _ mem => less (List.mem_cons_of_mem _ mem))
      fun name same => free name (by rw [same])

/-- The result of a function is passed, and the name of the function is ahead. -/
theorem passes_functionType {result : Option FieldType} {word : Lexeme} {name : String}
    (spelled : ResultSpelling depth lexemes result) (isName : word.IsWord name)
    (settled : ∀ type ∈ result, type.Settled) (precedes : ∀ type ∈ result, type.Precedes name)
    (leads : Leads (resultOpening result) (lexemes ++ word :: others) before) :
    Passes functionType before .identifier (word :: others) := by
  cases spelled with
  | void =>
    refine passes_takes_bind leads (opens_name isName (free_of_no_keyword name (by decide))
      (by decide)) fun _ left => passes_pure left
  | @type _ type spelledType =>
    have noVoid : type.opening ≠ .keyword .void := by cases type <;> simp [FieldType.opening]
    refine passes_takes_bind_of_ne leads noVoid ?_
    exact (passes_type spelledType (settled type rfl) leads
      (opens_afterType isName (precedes type rfl))).bind
      fun _ _ left => passes_pure left

/-- A result is no keyword after the word for no answer. -/
theorem ResultSpelling.free {results : List Lexeme} {result : Option FieldType}
    (spelled : ResultSpelling depth results result) (settled : ∀ type ∈ result, type.Settled) :
    ∀ name, result = some (.named name) → Free Follow.onewayFunction name := by
  rintro name rfl
  have free : Free Follow.type name := settled _ rfl
  cases spelled with
  | type _ noVoid =>
    intro word mem
    simp only [Follow.onewayFunction, List.mem_cons, Terminal.keyword.injEq] at mem
    rcases mem with rfl | mem
    · simpa [Keyword.text] using noVoid
    · exact free word mem

/-- A result that stands without a word before it is no keyword where a function begins. -/
theorem OnewaySpelling.free {words results : List Lexeme} {oneway : Bool} {result : Option FieldType}
    (spelled : OnewaySpelling words oneway results result)
    (spelledResult : ResultSpelling depth results result) (settled : ∀ type ∈ result, type.Settled)
    (unsaid : oneway = false) :
    ∀ name, result = some (.named name) → Free Follow.function name := by
  rintro name rfl
  have free := spelledResult.free settled name rfl
  cases spelled with
  | absent noOneway =>
    intro word mem
    rcases List.mem_cons.1 mem with same | mem
    · obtain rfl := Terminal.keyword.inj same
      simpa [Keyword.text] using noOneway
    · exact free word mem
  | present => cases unsaid

/-- The token that a function begins with is ahead of the function, wherever a function is expected
and its result, if it is a name and the first of its parts, is no keyword. -/
theorem opens_function {function : FunctionDecl Nat}
    (spelled : FunctionSpelling parted depth lexemes function) (less : Follow.function ⊆ expected)
    (free : function.oneway = false → ∀ name, function.returns = some (.named name) →
      Free expected name) :
    Opens expected function.opening (lexemes ++ others) := by
  cases spelled with
  | function spelledWords spelledResults =>
    simp only [List.append_assoc]
    cases spelledWords with
    | absent =>
      rw [List.nil_append]
      exact opens_result spelledResults (fun _ mem => less (List.mem_cons_of_mem _ mem)) (free rfl)
    | present isWord => exact opens_keyword .oneway isWord (less (by decide))

/-- The first function is ahead where functions begin. -/
theorem opens_firstFunction {function : FunctionDecl Nat}
    (spelled : FunctionSpelling parted depth lexemes function) (settled : function.Settled) :
    Opens (.mark .rightBrace :: Follow.function) function.opening (lexemes ++ others) := by
  refine opens_function spelled (by decide) fun unsaid name same => ?_
  cases spelled with
  | function spelledWords spelledResults =>
    exact (spelledWords.free spelledResults settled.returns unsaid name same).mono (by decide)

/-- The word for no answer is passed if it is there, and the result of the function is ahead. -/
theorem passes_oneway {words results : List Lexeme} {oneway : Bool} {result : Option FieldType}
    (spelled : OnewaySpelling words oneway results result)
    (spelledResult : ResultSpelling depth results result) (settled : ∀ type ∈ result, type.Settled)
    (leads : Leads (if oneway then .keyword .oneway else resultOpening result)
      (words ++ (results ++ others)) before) :
    Passes (takes (.keyword .oneway) Follow.onewayFunction) before (resultOpening result)
      (results ++ others) := by
  cases spelled with
  | absent =>
    have noOneway : resultOpening result ≠ .keyword .oneway := by
      rcases result with _ | type
      · simp [resultOpening]
      · cases type <;> simp [resultOpening, FieldType.opening]
    exact ⟨false, before, gives_takes.2 (.inr ⟨leads.terminal_eq ▸ noOneway, rfl, rfl⟩), leads⟩
  | present =>
    rw [List.singleton_append] at leads
    obtain ⟨after, given, left⟩ := leads.advance
      (opens_result spelledResult (List.Subset.refl _) (spelledResult.free settled))
    exact ⟨true, after, gives_takes.2 (.inl ⟨leads.terminal_eq, rfl, _, given⟩), left⟩

/-- A bracket is ahead of fields between round brackets. -/
theorem FieldListSpelling.opens {fields : List (Field Nat)}
    (spelled : FieldListSpelling parted depth lexemes fields) :
    Opens [.mark .leftParen] (.mark .leftParen) (lexemes ++ others) := by
  cases spelled with
  | fields isOpening => exact opens_mark isOpening (by decide)

/-- A function that is spelled is passed. -/
theorem passes_function {function : FunctionDecl Nat} {ended : Bool}
    (spelled : EndedFunctionSpelling ended parted depth lexemes function)
    (settled : function.Settled) (clear : function.Clear)
    (leads : Leads function.opening (lexemes ++ others) before)
    (opens : ∀ follow ∈ FunctionDecl.follows ended, Opens follow terminal others) :
    Passes TokenReader.function before terminal others := by
  obtain ⟨spelled, isEnded⟩ := spelled
  cases spelled with
  | @function words results members throwing separator word oneway result name parameters exceptions
      place spelledWords spelledResult isName _ spelledMembers spelledThrowing spelledSeparator =>
    simp only [List.append_assoc, List.cons_append] at leads
    obtain ⟨middle, absent, starts⟩ := exists_opens_separator spelledSeparator terminal
    -- A function that is ended has a list separator, so that what may follow without one is not asked.
    have unended : separator = [] → ended = false := by
      rintro rfl
      cases ended with
      | true =>
        refine absurd (isEnded rfl) ?_
        rw [List.append_nil, ← List.singleton_append, ← List.append_assoc, ← List.append_assoc]
        exact ThrowsSpelling.not_ended spelledMembers spelledThrowing
      | false => rfl
    have afterThrows : Opens Follow.afterThrows middle (separator ++ others) :=
      starts (by decide) fun none => opens _ (by simp [FunctionDecl.follows, unended none])
    have noThrows : middle ≠ .keyword .throws := afterThrows.ne (by decide) (by simp)
    have afterParameters : Opens Follow.afterParameters
        (if exceptions.isSome then .keyword .throws else middle)
        (throwing ++ (separator ++ others)) := by
      cases spelledThrowing with
      | absent =>
        exact starts (by decide) fun none => opens _ (by simp [FunctionDecl.follows, unended none])
      | present isWord => exact opens_keyword .throws isWord (by decide)
    have afterSeparator : Opens Follow.afterSeparator terminal others :=
      opens _ (by cases ended <;> simp [FunctionDecl.follows])
    refine passes_place_bind fun _ => ?_
    refine (passes_oneway spelledWords spelledResult settled.returns leads).bind fun _ _ left => ?_
    refine (passes_functionType spelledResult isName settled.returns clear.name left).bind
      fun _ _ left => ?_
    refine (passes_name left spelledMembers.opens).bind fun _ _ left => ?_
    refine (passes_fieldList spelledMembers settled.parameters clear.parameters left
      afterParameters).bind fun _ _ left => ?_
    cases spelledThrowing with
    | absent =>
      refine passes_takes_bind_of_ne left noThrows ?_
      refine (passes_pure left).bind fun _ _ left => ?_
      exact (passes_takeSeparator spelledSeparator left absent afterSeparator).bind
        fun _ _ left => passes_pure left
    | @present _ thrown _ isWord spelledFields =>
      refine passes_takes_bind left spelledFields.opens fun _ left => ?_
      refine ((passes_fieldList spelledFields settled.exceptions clear.exceptions left
        afterThrows).map some).bind fun _ _ left => ?_
      exact (passes_takeSeparator spelledSeparator left absent afterSeparator).bind
        fun _ _ left => passes_pure left

end Functions

section EnumValues

variable {lexemes others : List Lexeme} {terminal : Terminal} {before : Ahead}

/-- What may follow a value of an enumeration: a list separator may, and else what may follow its name
or its number. -/
def EnumValue.follows : List Expected :=
  [Follow.afterEnumName, Follow.afterEnumNumber, Follow.afterSeparator]

/-- A value of an enumeration that is spelled is passed with the list separator after it. -/
theorem passes_enumValue {value : EnumValue Nat} {separator : List Lexeme}
    (spelled : EnumValueSpelling lexemes value) (spelledSeparator : SeparatorSpelling separator)
    (leads : Leads .identifier (lexemes ++ (separator ++ others)) before)
    (opens : ∀ follow ∈ EnumValue.follows, Opens follow terminal others) :
    Passes enumValue before terminal others := by
  obtain ⟨middle, absent, starts⟩ := exists_opens_separator spelledSeparator terminal
  refine passes_place_bind fun _ => ?_
  cases spelled with
  | plain =>
    refine (passes_name leads (starts (by decide)
      fun _ => opens _ (by simp [EnumValue.follows]))).bind fun _ _ left => ?_
    have afterNumber : Opens Follow.afterEnumNumber middle (separator ++ others) :=
      starts (by decide) fun _ => opens _ (by simp [EnumValue.follows])
    refine passes_takes_bind_of_ne left (afterNumber.ne (by decide) (by simp)) ?_
    refine (passes_pure left).bind fun _ _ left => ?_
    exact (passes_takeSeparator spelledSeparator left absent
      (opens _ (by simp [EnumValue.follows]))).bind fun _ _ left => passes_pure left
  | numbered _ isEqual shape fits =>
    have afterNumber : Opens Follow.afterEnumNumber middle (separator ++ others) :=
      starts (by decide) fun _ => opens _ (by simp [EnumValue.follows])
    simp only [List.cons_append, List.nil_append] at leads
    refine (passes_name leads (opens_mark isEqual (by decide))).bind fun _ _ left => ?_
    refine passes_takes_bind left (opens_integer shape (by decide)) fun _ left => ?_
    have number : Passes (take .integer Follow.afterEnumNumber >>= int64) _ middle _ :=
      passes_take_bind left afterNumber fun _ left => passes_int64 fits left
    refine (number.map some).bind fun _ _ left => ?_
    exact (passes_takeSeparator spelledSeparator left absent
      (opens _ (by simp [EnumValue.follows]))).bind fun _ _ left => passes_pure left

end EnumValues

end ThriftIdl
