import ThriftIdl.Proofs.Grammar.Depth

/-!
# Well-formed documents

A document is well-formed if its names are names, its integers have 64 bits, its literals do not
hold both kinds of quotes, its scopes are scopes, and no name of a type would be taken for a word of
the language where it stands: not for a base type, nor for `required` or `optional` before a field,
nor for `void` or `oneway` before a function. A second name is given to no type that is only known by
its name. Which doubles are admitted is left open. Main statement: `DefinitionSpelling.wellFormed`,
what lexemes of a text spell is well-formed.
-/
namespace ThriftIdl

open Text
open TokenReader (unquoted)

/-- Whether a text holds quotes of both kinds. -/
def holdsBothQuotes (text : String) : Bool :=
  text.toList.contains Quote.double.char && text.toList.contains Quote.single.char

/-- The names of a type are names, and a name is no base type. -/
def FieldType.WellFormed : FieldType → Prop
  | .base _ => True
  | .map key value => key.WellFormed ∧ value.WellFormed
  | .set element => element.WellFormed
  | .list element => element.WellFormed
  | .named name => IsName name.toList ∧ ∀ type : BaseType, name ≠ type.keyword

mutual
/-- The names, literals and integers of a constant are some, and its doubles are admitted. -/
def ConstValue.WellFormed (admits : Double → Prop) : ConstValue → Prop
  | .name name => IsName name.toList
  | .literal text => holdsBothQuotes text = false
  | .int value => fitsInteger value
  | .double value => admits value
  | .list values => WellFormedValues admits values
  | .map entries => WellFormedEntries admits entries

/-- All constants are well-formed. -/
def WellFormedValues (admits : Double → Prop) : List ConstValue → Prop
  | [] => True
  | value :: values => value.WellFormed admits ∧ WellFormedValues admits values

/-- All entries of a map are well-formed. -/
def WellFormedEntries (admits : Double → Prop) : List (ConstValue × ConstValue) → Prop
  | [] => True
  | (key, value) :: entries =>
    (key.WellFormed admits ∧ value.WellFormed admits) ∧ WellFormedEntries admits entries
end

variable {π ρ : Type} {admits : Double → Prop}

/-- A field is well-formed. -/
structure Field.WellFormed (admits : Double → Prop) (field : Field π) : Prop where
  /-- Its name is a name. -/
  name : IsName field.name.toList
  /-- Its type is well-formed. -/
  type : field.type.WellFormed
  /-- Its number has 64 bits. -/
  id : ∀ id ∈ field.id, fitsInteger id
  /-- Its default value is well-formed. -/
  defaultValue : ∀ value ∈ field.defaultValue, value.WellFormed admits
  /-- Its type is not taken for the word before it. -/
  requiredness : field.type = .named "required" ∨ field.type = .named "optional" →
    field.requiredness ≠ .unstated

/-- A function is well-formed. -/
structure FunctionDecl.WellFormed (admits : Double → Prop) (function : FunctionDecl π) : Prop where
  /-- Its name is a name. -/
  name : IsName function.name.toList
  /-- The type of its result is well-formed, and is not taken for the word for none. -/
  returns : ∀ type ∈ function.returns, type.WellFormed ∧ type ≠ .named "void"
  /-- The type of its result is not taken for the word before it. -/
  oneway : function.returns = some (.named "oneway") → function.oneway
  /-- Its parameters are well-formed. -/
  parameters : ∀ field ∈ function.parameters, field.WellFormed admits
  /-- Its exceptions are well-formed. -/
  exceptions : ∀ fields ∈ function.exceptions, ∀ field ∈ fields, field.WellFormed admits

/-- A value of an enumeration is well-formed. -/
structure EnumValue.WellFormed (value : EnumValue π) : Prop where
  /-- Its name is a name. -/
  name : IsName value.name.toList
  /-- Its number has 64 bits. -/
  value : ∀ number ∈ value.value, fitsInteger number

/-- A definition is well-formed. -/
def Definition.WellFormed (admits : Double → Prop) : Definition π → Prop
  | .inclusion path => holdsBothQuotes path = false
  | .cppInclusion path => holdsBothQuotes path = false
  | .space decl => decl.scope ∈ namespaceScopes ∧ IsName decl.name.toList
  | .typedef decl =>
    decl.old.WellFormed ∧ (∀ name, decl.old ≠ .named name) ∧ IsName decl.name.toList
  | .const decl =>
    decl.type.WellFormed ∧ IsName decl.name.toList ∧ decl.value.WellFormed admits
  | .enum decl => IsName decl.name.toList ∧ ∀ value ∈ decl.values, value.WellFormed
  | .record _ decl => IsName decl.name.toList ∧ ∀ field ∈ decl.fields, field.WellFormed admits
  | .service decl => IsName decl.name.toList ∧ (∀ base ∈ decl.base, IsName base.toList) ∧
      ∀ function ∈ decl.functions, function.WellFormed admits

/-- A document is well-formed. -/
def Document.WellFormed (admits : Double → Prop) (document : Document π) : Prop :=
  ∀ definition ∈ document.definitions, definition.WellFormed admits

section Lists

/-- Constants are well-formed if each of them is. -/
theorem wellFormedValues_iff {values : List ConstValue} :
    WellFormedValues admits values ↔ ∀ value ∈ values, value.WellFormed admits := by
  induction values with
  | nil => simp [WellFormedValues]
  | cons value values ih => rw [WellFormedValues, ih, List.forall_mem_cons]

/-- Entries are well-formed if the key and the value of each of them are. -/
theorem wellFormedEntries_iff {entries : List (ConstValue × ConstValue)} :
    WellFormedEntries admits entries ↔
      ∀ entry ∈ entries, entry.1.WellFormed admits ∧ entry.2.WellFormed admits := by
  induction entries with
  | nil => simp [WellFormedEntries]
  | cons entry entries ih => rw [WellFormedEntries, ih, List.forall_mem_cons]

end Lists

section Places

/-- A field is well-formed wherever it is. -/
theorem Field.wellFormed_map (move : π → ρ) {field : Field π} :
    (field.map move).WellFormed admits ↔ field.WellFormed admits :=
  ⟨fun ⟨name, type, id, value, word⟩ => ⟨name, type, id, value, word⟩,
    fun ⟨name, type, id, value, word⟩ => ⟨name, type, id, value, word⟩⟩

/-- Fields are well-formed wherever they are. -/
theorem wellFormed_fields_map (move : π → ρ) {fields : List (Field π)} :
    (∀ field ∈ fields.map (Field.map move), field.WellFormed admits) ↔
      ∀ field ∈ fields, field.WellFormed admits := by
  simp [Field.wellFormed_map]

/-- A function is well-formed wherever it is. -/
theorem FunctionDecl.wellFormed_map (move : π → ρ) {function : FunctionDecl π} :
    (function.map move).WellFormed admits ↔ function.WellFormed admits := by
  have exceptions : (∀ fields ∈ (function.map move).exceptions, ∀ field ∈ fields,
      field.WellFormed admits) ↔
      ∀ fields ∈ function.exceptions, ∀ field ∈ fields, field.WellFormed admits := by
    simp [map, Field.wellFormed_map]
  constructor
  · rintro ⟨name, returns, oneway, parameters, thrown⟩
    exact ⟨name, returns, oneway, (wellFormed_fields_map move).1 parameters, exceptions.1 thrown⟩
  · rintro ⟨name, returns, oneway, parameters, thrown⟩
    exact ⟨name, returns, oneway, (wellFormed_fields_map move).2 parameters, exceptions.2 thrown⟩

/-- A definition is well-formed wherever it is. -/
theorem Definition.wellFormed_map (move : π → ρ) {definition : Definition π} :
    (definition.map move).WellFormed admits ↔ definition.WellFormed admits := by
  have value : ∀ value : EnumValue π, (value.map move).WellFormed ↔ value.WellFormed := fun _ =>
    ⟨fun ⟨name, number⟩ => ⟨name, number⟩, fun ⟨name, number⟩ => ⟨name, number⟩⟩
  cases definition with
  | inclusion | cppInclusion | space | typedef | const => exact Iff.rfl
  | enum decl => simp [Definition.WellFormed, map, EnumDecl.map, value]
  | record kind decl => simp [Definition.WellFormed, map, Record.map, Field.wellFormed_map]
  | service decl => simp [Definition.WellFormed, map, Service.map, FunctionDecl.wellFormed_map]

end Places

section Doubles

mutual
/-- The doubles of a constant. -/
def ConstValue.doubles : ConstValue → List Double
  | .name _ | .literal _ | .int _ => []
  | .double value => [value]
  | .list values => doublesOfValues values
  | .map entries => doublesOfEntries entries

/-- The doubles of constants. -/
def doublesOfValues : List ConstValue → List Double
  | [] => []
  | value :: values => value.doubles ++ doublesOfValues values

/-- The doubles of the entries of a map. -/
def doublesOfEntries : List (ConstValue × ConstValue) → List Double
  | [] => []
  | (key, value) :: entries => key.doubles ++ value.doubles ++ doublesOfEntries entries
end

/-- The doubles of a field. -/
def Field.doubles (field : Field π) : List Double :=
  field.defaultValue.toList.flatMap ConstValue.doubles

/-- The doubles of a function. -/
def FunctionDecl.doubles (function : FunctionDecl π) : List Double :=
  (function.parameters ++ function.exceptions.getD []).flatMap Field.doubles

/-- The doubles of a definition. -/
def Definition.doubles : Definition π → List Double
  | .inclusion _ | .cppInclusion _ | .space _ | .typedef _ | .enum _ => []
  | .const decl => decl.value.doubles
  | .record _ decl => decl.fields.flatMap Field.doubles
  | .service decl => decl.functions.flatMap FunctionDecl.doubles

/-- The doubles of a document. -/
def Document.doubles (document : Document π) : List Double :=
  document.definitions.flatMap Definition.doubles

mutual
/-- A constant is well-formed if it is but for its doubles, and they are admitted. -/
theorem ConstValue.wellFormed_iff : ∀ value : ConstValue, value.WellFormed admits ↔
    value.WellFormed (fun _ => True) ∧ ∀ double ∈ value.doubles, admits double
  | .name _ | .literal _ | .int _ | .double _ => by simp [ConstValue.WellFormed, ConstValue.doubles]
  | .list values => wellFormedValues_iff_doubles values
  | .map entries => wellFormedEntries_iff_doubles entries

/-- The same for constants. -/
theorem wellFormedValues_iff_doubles : ∀ values : List ConstValue,
    WellFormedValues admits values ↔ WellFormedValues (fun _ => True) values ∧
      ∀ double ∈ doublesOfValues values, admits double
  | [] => by simp [WellFormedValues, doublesOfValues]
  | value :: values => by
    rw [WellFormedValues, ConstValue.wellFormed_iff value, wellFormedValues_iff_doubles values,
      WellFormedValues, doublesOfValues, List.forall_mem_append]
    exact and_and_and_comm

/-- The same for entries. -/
theorem wellFormedEntries_iff_doubles : ∀ entries : List (ConstValue × ConstValue),
    WellFormedEntries admits entries ↔ WellFormedEntries (fun _ => True) entries ∧
      ∀ double ∈ doublesOfEntries entries, admits double
  | [] => by simp [WellFormedEntries, doublesOfEntries]
  | (key, value) :: entries => by
    rw [WellFormedEntries, ConstValue.wellFormed_iff key, ConstValue.wellFormed_iff value,
      wellFormedEntries_iff_doubles entries, WellFormedEntries, doublesOfEntries,
      List.forall_mem_append, List.forall_mem_append]
    exact (and_congr_left' and_and_and_comm).trans and_and_and_comm
end

/-- The same for the members of a list. -/
theorem forall_wellFormed_iff {α : Type} {formed : (Double → Prop) → α → Prop}
    {doublesOf : α → List Double} (things : List α) (each : ∀ thing ∈ things, formed admits thing ↔
      formed (fun _ => True) thing ∧ ∀ double ∈ doublesOf thing, admits double) :
    (∀ thing ∈ things, formed admits thing) ↔ (∀ thing ∈ things, formed (fun _ => True) thing) ∧
      ∀ double ∈ things.flatMap doublesOf, admits double := by
  simp only [List.mem_flatMap, forall_exists_index, and_imp]
  constructor
  · intro formed
    exact ⟨fun thing mem => ((each thing mem).1 (formed thing mem)).1,
      fun double thing mem => ((each thing mem).1 (formed thing mem)).2 double⟩
  · rintro ⟨formed, small⟩ thing mem
    exact (each thing mem).2 ⟨formed thing mem, fun double => small double thing mem⟩

/-- The same for fields. -/
theorem Field.wellFormed_iff (field : Field π) : field.WellFormed admits ↔
    field.WellFormed (fun _ => True) ∧ ∀ double ∈ field.doubles, admits double := by
  have value : (∀ value ∈ field.defaultValue.toList, value.WellFormed admits) ↔
      (∀ value ∈ field.defaultValue.toList, value.WellFormed fun _ => True) ∧
        ∀ double ∈ field.doubles, admits double :=
    forall_wellFormed_iff _ fun value _ => value.wellFormed_iff
  simp only [Option.mem_toList] at value
  constructor
  · rintro ⟨name, type, id, formed, word⟩
    obtain ⟨formed, small⟩ := value.1 formed
    exact ⟨⟨name, type, id, formed, word⟩, small⟩
  · rintro ⟨⟨name, type, id, formed, word⟩, small⟩
    exact ⟨name, type, id, value.2 ⟨formed, small⟩, word⟩

/-- The same for functions. -/
theorem FunctionDecl.wellFormed_iff (function : FunctionDecl π) : function.WellFormed admits ↔
    function.WellFormed (fun _ => True) ∧ ∀ double ∈ function.doubles, admits double := by
  have fields : (∀ field ∈ function.parameters ++ function.exceptions.getD [],
      field.WellFormed admits) ↔ (∀ field ∈ function.parameters ++ function.exceptions.getD [],
        field.WellFormed fun _ => True) ∧ ∀ double ∈ function.doubles, admits double :=
    forall_wellFormed_iff _ fun field _ => field.wellFormed_iff
  have exceptions : ∀ formed : Field π → Prop,
      (∀ fields ∈ function.exceptions, ∀ field ∈ fields, formed field) ↔
        ∀ field ∈ function.exceptions.getD [], formed field := by
    intro formed
    cases function.exceptions <;> simp
  simp only [List.forall_mem_append] at fields
  constructor
  · rintro ⟨name, returns, oneway, parameters, thrown⟩
    obtain ⟨⟨parameters, thrown⟩, small⟩ := fields.1 ⟨parameters, (exceptions _).1 thrown⟩
    exact ⟨⟨name, returns, oneway, parameters, (exceptions _).2 thrown⟩, small⟩
  · rintro ⟨⟨name, returns, oneway, parameters, thrown⟩, small⟩
    obtain ⟨parameters, thrown⟩ := fields.2 ⟨⟨parameters, (exceptions _).1 thrown⟩, small⟩
    exact ⟨name, returns, oneway, parameters, (exceptions _).2 thrown⟩

/-- The same for definitions. -/
theorem Definition.wellFormed_iff (definition : Definition π) : definition.WellFormed admits ↔
    definition.WellFormed (fun _ => True) ∧ ∀ double ∈ definition.doubles, admits double := by
  cases definition with
  | inclusion | cppInclusion | space | typedef | enum => simp [Definition.WellFormed, doubles]
  | const decl =>
    simp only [Definition.WellFormed, doubles]
    rw [ConstValue.wellFormed_iff, and_assoc, and_assoc]
  | record kind decl =>
    simp only [Definition.WellFormed, doubles]
    rw [forall_wellFormed_iff _ fun field _ => field.wellFormed_iff, and_assoc]
  | service decl =>
    simp only [Definition.WellFormed, doubles]
    rw [forall_wellFormed_iff _ fun function _ => function.wellFormed_iff, and_assoc, and_assoc]

/-- A document is well-formed if it is but for its doubles, and they are admitted. -/
theorem Document.wellFormed_iff (document : Document π) : document.WellFormed admits ↔
    document.WellFormed (fun _ => True) ∧ ∀ double ∈ document.doubles, admits double :=
  forall_wellFormed_iff _ fun definition _ => definition.wellFormed_iff

end Doubles

/-- A word has the characters of a name, and a literal those of a literal. -/
structure Lexeme.Sound (lexeme : Lexeme) : Prop where
  /-- A word is a name. -/
  word : lexeme.shape = .word → IsName lexeme.text
  /-- A literal is one. -/
  literal : lexeme.shape = .literal → IsLiteral lexeme.text

/-- The lexemes of a text have the characters of their shapes. -/
theorem Lexes.sound {admits : List Char → Bool} {text rest : List Char} {parts : List Lexeme}
    (lexes : Lexes admits text parts rest) : ∀ lexeme ∈ parts, lexeme.Sound := by
  induction parts generalizing text with
  | nil => simp
  | cons lexeme parts ih =>
    obtain ⟨after, here, others⟩ := lexes
    refine List.forall_mem_cons.2 ⟨⟨fun shape => ?_, fun shape => ?_⟩, ih others⟩
    all_goals
      have before := here.before
      rw [shape] at before
    · exact before.1
    · exact before

section Spelled

variable {parted : Bool} {depth : Nat} {lexemes : List Lexeme}

/-- What a word spells is a name. -/
theorem Lexeme.IsWord.isName {lexeme : Lexeme} {word : String} (isWord : lexeme.IsWord word)
    (sound : lexeme.Sound) : IsName word.toList :=
  isWord.2 ▸ sound.word isWord.1

/-- What a literal spells does not hold both kinds of quotes. -/
theorem Lexeme.Sound.holdsBothQuotes {lexeme : Lexeme} (sound : lexeme.Sound)
    (shape : lexeme.shape = .literal) : holdsBothQuotes (unquoted lexeme.text) = false := by
  obtain ⟨quote, value, text, clear⟩ := sound.literal shape
  have inner : (unquoted lexeme.text).toList = value := by simp [unquoted, text]
  cases quote <;> simp_all [ThriftIdl.holdsBothQuotes]

/-- A type that is spelled is well-formed. -/
theorem TypeSpelling.wellFormed {type : FieldType} (spelled : TypeSpelling depth lexemes type)
    (sound : ∀ lexeme ∈ lexemes, lexeme.Sound) : type.WellFormed := by
  have short : ∀ {lexemes : List Lexeme} {type : FieldType}, (∀ lexeme ∈ lexemes, lexeme.Sound) →
      TypeSpelling 0 lexemes type → type.WellFormed := by
    rintro _ _ sound (base | named)
    · cases base
      trivial
    · cases named with
      | named isWord other => exact ⟨isWord.isName (sound _ (by simp)), other⟩
  induction depth generalizing lexemes type with
  | zero => exact short sound spelled
  | succ depth ih =>
    rcases typeSpelling_succ.1 spelled with spelled | container
    · exact short sound spelled
    · cases container with
      | map _ _ _ keys _ values _ =>
        exact ⟨ih keys fun lexeme mem => sound lexeme (by simp [mem]),
          ih values fun lexeme mem => sound lexeme (by simp [mem])⟩
      | set _ _ _ elements _ =>
        have inner := ih elements fun lexeme mem => sound lexeme (by simp [mem])
        exact inner
      | list _ _ elements _ _ =>
        have inner := ih elements fun lexeme mem => sound lexeme (by simp [mem])
        exact inner

/-- A constant that is spelled is well-formed, and its doubles are numbers. -/
theorem ConstantSpelling.wellFormed {value : ConstValue}
    (spelled : ConstantSpelling parted depth lexemes value)
    (sound : ∀ lexeme ∈ lexemes, lexeme.Sound) : value.WellFormed (· ≠ .nan) := by
  have simple : ∀ {lexemes : List Lexeme} {value : ConstValue}, (∀ lexeme ∈ lexemes, lexeme.Sound) →
      SimpleConstantSpelling parted lexemes value → value.WellFormed (· ≠ .nan) := by
    rintro _ _ sound (isWord | shape | ⟨shape, -⟩ | ⟨shape, fits⟩)
    · exact isWord.isName (sound _ (by simp))
    · exact (sound _ (by simp)).holdsBothQuotes shape
    · exact Double.noConfusion
    · exact fitsInteger_of_admitsInteger fits
  induction depth generalizing lexemes value with
  | zero => exact simple sound spelled
  | succ depth ih =>
    rcases constantSpelling_succ.1 spelled with spelled | container
    · exact simple sound spelled
    · cases container with
      | list _ elements _ =>
        refine wellFormedValues_iff.2 fun value mem => ?_
        obtain ⟨part, less, inner⟩ := elements.forall value mem
        exact ih inner fun lexeme mem => sound lexeme (by simp [less mem])
      | map _ elements _ =>
        refine wellFormedEntries_iff.2 fun entry mem => ?_
        obtain ⟨part, less, inner⟩ := elements.forall entry mem
        have sound' : ∀ lexeme ∈ part, lexeme.Sound := fun lexeme mem => sound lexeme (by
          simp [less mem])
        cases inner with
        | entry keys _ values =>
          exact ⟨ih keys fun lexeme mem => sound' lexeme (by simp [mem]),
            ih values fun lexeme mem => sound' lexeme (by simp [mem])⟩

/-- A field that is spelled is well-formed. -/
theorem FieldSpelling.wellFormed {field : Field Nat} (spelled : FieldSpelling parted depth lexemes field)
    (sound : ∀ lexeme ∈ lexemes, lexeme.Sound) : field.WellFormed (· ≠ .nan) := by
  cases spelled with
  | field ids words types isWord _ defaults _ _ =>
    refine ⟨isWord.isName (sound _ (by simp)),
      types.wellFormed fun lexeme mem => sound lexeme (by simp [mem]), ?_, ?_, ?_⟩
    · cases ids with
      | absent => rintro _ ⟨⟩
      | present _ fits _ =>
        rintro _ ⟨⟩
        exact fitsInteger_of_admitsInteger fits
    · cases defaults with
      | absent => rintro _ ⟨⟩
      | present _ value =>
        rintro _ ⟨⟩
        exact value.wellFormed fun lexeme mem => sound lexeme (by simp [mem])
    · rintro named
      cases words with
      | unstated other other' => exact absurd named (by simp [other, other'])
      | required | optional => simp

/-- Fields between brackets are well-formed. -/
theorem FieldListSpelling.wellFormed {fields : List (Field Nat)}
    (spelled : FieldListSpelling parted depth lexemes fields)
    (sound : ∀ lexeme ∈ lexemes, lexeme.Sound) : ∀ field ∈ fields, field.WellFormed (· ≠ .nan) := by
  cases spelled with
  | fields _ members _ =>
    intro field mem
    obtain ⟨part, less, inner⟩ := members.forall field mem
    exact inner.wellFormed fun lexeme mem => sound lexeme (by simp [less.subset mem])

/-- A function that is spelled is well-formed. -/
theorem FunctionSpelling.wellFormed {function : FunctionDecl Nat}
    (spelled : FunctionSpelling parted depth lexemes function)
    (sound : ∀ lexeme ∈ lexemes, lexeme.Sound) : function.WellFormed (· ≠ .nan) := by
  cases spelled with
  | function words results isWord _ members throwing _ _ =>
    refine ⟨isWord.isName (sound _ (by simp)), ?_, ?_,
      members.wellFormed fun lexeme mem => sound lexeme (by simp [mem]), ?_⟩
    · cases results with
      | void => rintro _ ⟨⟩
      | type spelled other =>
        rintro _ ⟨⟩
        exact ⟨spelled.wellFormed fun lexeme mem => sound lexeme (by simp [mem]), other⟩
    · intro named
      cases words with
      | absent other => exact absurd named other
      | present => rfl
    · cases throwing with
      | absent => rintro _ ⟨⟩
      | present _ fields =>
        rintro _ ⟨⟩
        exact fields.wellFormed fun lexeme mem => sound lexeme (by simp [mem])

/-- A definition that is spelled is well-formed. -/
theorem DefinitionSpelling.wellFormed {definition : Definition Nat}
    (spelled : DefinitionSpelling parted depth lexemes definition)
    (sound : ∀ lexeme ∈ lexemes, lexeme.Sound) : definition.WellFormed (· ≠ .nan) := by
  cases spelled with
  | inclusion _ path _ => exact (sound _ (by simp)).holdsBothQuotes path
  | cppInclusion _ path _ => exact (sound _ (by simp)).holdsBothQuotes path
  | space _ scope isWord _ =>
    refine ⟨?_, isWord.isName (sound _ (by simp))⟩
    cases scope with
    | star =>
      have mem : "*" ∈ namespaceScopes := by decide
      exact mem
    | word _ mem _ => exact mem
  | typedef _ type _ isWord _ _ =>
    exact ⟨type.1.wellFormed fun lexeme mem => sound lexeme (by simp [mem]), type.2,
      isWord.isName (sound _ (by simp))⟩
  | const _ type _ isWord _ _ value _ =>
    exact ⟨type.wellFormed fun lexeme mem => sound lexeme (by simp [mem]),
      isWord.isName (sound _ (by simp)),
      value.wellFormed fun lexeme mem => sound lexeme (by simp [mem])⟩
  | enum _ isWord _ _ members _ =>
    refine ⟨isWord.isName (sound _ (by simp)), fun value mem => ?_⟩
    obtain ⟨part, less, inner⟩ := members.forall value mem
    have sound' : ∀ lexeme ∈ part, lexeme.Sound := fun lexeme mem => sound lexeme (by
      simp [less mem])
    cases inner with
    | plain isWord => exact ⟨isWord.isName (sound' _ (by simp)), by rintro _ ⟨⟩⟩
    | numbered isWord _ _ fits =>
      refine ⟨isWord.isName (sound' _ (by simp)), ?_⟩
      rintro _ ⟨⟩
      exact fitsInteger_of_admitsInteger fits
  | record _ isWord _ _ members _ =>
    refine ⟨isWord.isName (sound _ (by simp)), fun field mem => ?_⟩
    obtain ⟨part, less, inner⟩ := members.forall field mem
    exact inner.wellFormed fun lexeme mem => sound lexeme (by simp [less.subset mem])
  | service _ isWord _ bases _ members _ =>
    refine ⟨isWord.isName (sound _ (by simp)), ?_, fun function mem => ?_⟩
    · cases bases with
      | absent => rintro _ ⟨⟩
      | present _ isWord _ =>
        rintro _ ⟨⟩
        exact isWord.isName (sound _ (by simp))
    · obtain ⟨part, less, inner⟩ := members.forall function mem
      exact inner.wellFormed fun lexeme mem => sound lexeme (by simp [less.subset mem])

/-- Definitions that are spelled by the lexemes of a text make a well-formed document. -/
theorem DefinitionsSpelling.wellFormed {admits : List Char → Bool} {text rest : List Char}
    {definitions : List (Definition Nat)}
    (spelled : DefinitionsSpelling parted depth lexemes definitions)
    (lexes : Lexes admits text lexemes rest) :
    (Document.ofDefinitions definitions).WellFormed (· ≠ .nan) := by
  intro definition mem
  obtain ⟨part, less, inner⟩ :=
    spelled.forall definition (Document.mem_definitions_ofDefinitions.1 mem)
  exact inner.wellFormed fun lexeme mem => lexes.sound lexeme (less.subset mem)

end Spelled

end ThriftIdl
