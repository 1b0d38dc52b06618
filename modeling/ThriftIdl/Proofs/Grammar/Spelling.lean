import ThriftIdl.Proofs.Text.Lexeme
import ThriftIdl.Token.Reader

/-!
# How lexemes spell a document

The language is given by its grammar, apart from any reader: which lexemes spell a type, a
constant, a field, and so on up to a document. Types and constants are spelled within a number of
levels, and places are told by the number of characters left. Most lexemes that look like parts of
one word are asked to be apart in any case. Only the elements of a list or a map and the star of a
namespace may be asked to be apart (`parted`) or not, because readers differ there. Whether a word is
a keyword is decided by where it stands, and each rule excludes what an earlier rule would spell.
-/
namespace ThriftIdl

open TokenReader (unquoted)

namespace Lexeme

/-- A lexeme is a given word. -/
def IsWord (lexeme : Lexeme) (word : String) : Prop :=
  lexeme.shape = .word ∧ lexeme.text = word.toList

/-- A lexeme is a given mark. -/
def IsMark (lexeme : Lexeme) (mark : Mark) : Prop := lexeme.shape = .mark mark

/-- A lexeme is at most one word. -/
theorem IsWord.unique {lexeme : Lexeme} {word other : String} (isWord : lexeme.IsWord word)
    (isOther : lexeme.IsWord other) : word = other :=
  String.toList_inj.1 (isWord.2.symm.trans isOther.2)

/-- A word is no mark. -/
theorem IsWord.not_isMark {lexeme : Lexeme} {word : String} {mark : Mark}
    (isWord : lexeme.IsWord word) : ¬ lexeme.IsMark mark := by
  intro isMark
  exact absurd (isWord.1.symm.trans isMark) (by simp)

/-- A lexeme is at most one mark. -/
theorem IsMark.unique {lexeme : Lexeme} {mark other : Mark} (isMark : lexeme.IsMark mark)
    (isOther : lexeme.IsMark other) : mark = other := by
  simpa using isMark.symm.trans isOther

end Lexeme

/-- Something stands between some lexemes and what comes before them. -/
def Apart (lexemes : List Lexeme) : Prop := ∀ lexeme ∈ lexemes.head?, lexeme.apart

/-- What is apart begins with lexemes that are. -/
theorem Apart.left {first others : List Lexeme} (apart : Apart (first ++ others)) :
    Apart first := by
  cases first with
  | nil => simp [Apart]
  | cons lexeme first => simpa [Apart] using apart

/-- Some lexemes begin at a place. -/
def BeginsAt (place : Nat) (lexemes : List Lexeme) : Prop :=
  ∀ lexeme ∈ lexemes.head?, lexeme.left = place

/-- A type of another language, which may be missing and means nothing. -/
inductive CppTypeSpelling : List Lexeme → Prop where
  /-- There is none. -/
  | absent : CppTypeSpelling []
  /-- A literal after its keyword. -/
  | present {word name : Lexeme} : word.IsWord "cpp_type" → name.shape = .literal → name.apart →
      CppTypeSpelling [word, name]

/-- A base type. -/
inductive BaseTypeSpelling : List Lexeme → FieldType → Prop where
  /-- The keyword of the base type. -/
  | base {word : Lexeme} {type : BaseType} : word.IsWord type.keyword →
      BaseTypeSpelling [word] (.base type)

/-- A type that is known by its name. -/
inductive NamedTypeSpelling : List Lexeme → FieldType → Prop where
  /-- A name that is no base type. -/
  | named {word : Lexeme} {name : String} : word.IsWord name →
      (∀ type : BaseType, name ≠ type.keyword) → NamedTypeSpelling [word] (.named name)

/-- A container type, whose inner types are spelled in a given way. -/
inductive ContainerTypeSpelling (inner : List Lexeme → FieldType → Prop) :
    List Lexeme → FieldType → Prop where
  /-- A map type. -/
  | map {word less comma more : Lexeme} {cppType keys values : List Lexeme}
      {key value : FieldType} : word.IsWord "map" → CppTypeSpelling cppType →
      less.IsMark .lessThan → inner keys key → comma.IsMark .comma → inner values value →
      more.IsMark .moreThan →
      ContainerTypeSpelling inner
        (word :: (cppType ++ less :: (keys ++ comma :: (values ++ [more])))) (.map key value)
  /-- A set type. -/
  | set {word less more : Lexeme} {cppType elements : List Lexeme} {element : FieldType} :
      word.IsWord "set" → CppTypeSpelling cppType → less.IsMark .lessThan →
      inner elements element → more.IsMark .moreThan →
      ContainerTypeSpelling inner (word :: (cppType ++ less :: (elements ++ [more]))) (.set element)
  /-- A list type. -/
  | list {word less more : Lexeme} {elements cppType : List Lexeme} {element : FieldType} :
      word.IsWord "list" → less.IsMark .lessThan → inner elements element →
      more.IsMark .moreThan → CppTypeSpelling cppType →
      ContainerTypeSpelling inner (word :: less :: (elements ++ more :: cppType)) (.list element)

/-- A type with at most the given number of containers around its innermost type. -/
def TypeSpelling : Nat → List Lexeme → FieldType → Prop
  | 0, lexemes, type => BaseTypeSpelling lexemes type ∨ NamedTypeSpelling lexemes type
  | depth + 1, lexemes, type => BaseTypeSpelling lexemes type ∨ NamedTypeSpelling lexemes type ∨
      ContainerTypeSpelling (TypeSpelling depth) lexemes type

/-- A type that may get a second name. -/
def DefinitionTypeSpelling (depth : Nat) (lexemes : List Lexeme) (type : FieldType) : Prop :=
  TypeSpelling depth lexemes type ∧ ∀ name, type ≠ .named name

/-- A list separator, which may be missing. -/
inductive SeparatorSpelling : List Lexeme → Prop where
  /-- There is none. -/
  | absent : SeparatorSpelling []
  /-- A comma. -/
  | comma {mark : Lexeme} : mark.IsMark .comma → SeparatorSpelling [mark]
  /-- A semicolon. -/
  | semicolon {mark : Lexeme} : mark.IsMark .semicolon → SeparatorSpelling [mark]

/-- Items that follow each other. -/
inductive Sequence {α : Type} (item : List Lexeme → α → Prop) : List Lexeme → List α → Prop where
  /-- There are none. -/
  | nil : Sequence item [] []
  /-- An item and others after it. -/
  | cons {first others : List Lexeme} {value : α} {values : List α} : item first value →
      Sequence item others values → Sequence item (first ++ others) (value :: values)

/-- Items that may have a list separator after them. If they are asked to be parted, an item without
one is apart from the next item. -/
inductive Elements {α : Type} (parted : Bool) (item : List Lexeme → α → Prop) :
    List Lexeme → List α → Prop where
  /-- There are none. -/
  | nil : Elements parted item [] []
  /-- An item and others after it. -/
  | cons {first separator others : List Lexeme} {value : α} {values : List α} : item first value →
      SeparatorSpelling separator → Elements parted item others values →
      (parted → separator = [] → Apart others) →
      Elements parted item (first ++ (separator ++ others)) (value :: values)

/-- A constant that is neither a list nor a map. The exponent of a number is looked at where gaps are
asked for, since both is done in direct reading. -/
inductive SimpleConstantSpelling (parted : Bool) : List Lexeme → ConstValue → Prop where
  /-- A name. -/
  | name {word : Lexeme} {name : String} : word.IsWord name →
      SimpleConstantSpelling parted [word] (.name name)
  /-- A literal. -/
  | literal {text : Lexeme} : text.shape = .literal →
      SimpleConstantSpelling parted [text] (.literal (unquoted text.text))
  /-- A number with a fraction or an exponent. -/
  | double {number : Lexeme} : number.shape = .double → (parted → number.converts) →
      SimpleConstantSpelling parted [number]
        (.double (scanNumber (fun _ => true) number.text).1.toDouble)
  /-- An integer of 64 bits. -/
  | int {number : Lexeme} : number.shape = .integer → admitsInteger number.text →
      SimpleConstantSpelling parted [number] (.int (Text.signedValue number.text))

/-- An entry of a map, whose key and value are spelled in a given way. -/
inductive EntrySpelling (inner : List Lexeme → ConstValue → Prop) :
    List Lexeme → ConstValue × ConstValue → Prop where
  /-- A key and a value with a colon between them. -/
  | entry {keys values : List Lexeme} {colon : Lexeme} {key value : ConstValue} : inner keys key →
      colon.IsMark .colon → inner values value →
      EntrySpelling inner (keys ++ colon :: values) (key, value)

/-- A list or a map, whose inner constants are spelled in a given way. -/
inductive ContainerConstantSpelling (parted : Bool) (inner : List Lexeme → ConstValue → Prop) :
    List Lexeme → ConstValue → Prop where
  /-- A list. -/
  | list {opening closing : Lexeme} {elements : List Lexeme} {values : List ConstValue} :
      opening.IsMark .leftSquare → Elements parted inner elements values →
      closing.IsMark .rightSquare →
      ContainerConstantSpelling parted inner (opening :: (elements ++ [closing])) (.list values)
  /-- A map. -/
  | map {opening closing : Lexeme} {elements : List Lexeme}
      {entries : List (ConstValue × ConstValue)} : opening.IsMark .leftBrace →
      Elements parted (EntrySpelling inner) elements entries → closing.IsMark .rightBrace →
      ContainerConstantSpelling parted inner (opening :: (elements ++ [closing])) (.map entries)

/-- A constant with at most the given number of lists and maps around its innermost value. -/
def ConstantSpelling (parted : Bool) : Nat → List Lexeme → ConstValue → Prop
  | 0, lexemes, value => SimpleConstantSpelling parted lexemes value
  | depth + 1, lexemes, value => SimpleConstantSpelling parted lexemes value ∨
      ContainerConstantSpelling parted (ConstantSpelling parted depth) lexemes value

/-- The number of a field, which may be missing. -/
inductive FieldIdSpelling : List Lexeme → Option Int → Prop where
  /-- There is none. -/
  | absent : FieldIdSpelling [] none
  /-- An integer of 64 bits with a colon after it. -/
  | present {number colon : Lexeme} : number.shape = .integer →
      admitsInteger number.text → colon.IsMark .colon →
      FieldIdSpelling [number, colon] (some (Text.signedValue number.text))

/-- The word that says whether a field must be set, and the lexemes of the type after it. A type
that is named like such a word needs one before it. -/
inductive RequirednessSpelling : List Lexeme → Requiredness → List Lexeme → FieldType → Prop where
  /-- Neither word is written. -/
  | unstated {types : List Lexeme} {type : FieldType} : type ≠ .named "required" →
      type ≠ .named "optional" → RequirednessSpelling [] .unstated types type
  /-- A field that must be set. -/
  | required {word : Lexeme} {types : List Lexeme} {type : FieldType} : word.IsWord "required" →
      Apart types → RequirednessSpelling [word] .required types type
  /-- A field that may be left out. -/
  | optional {word : Lexeme} {types : List Lexeme} {type : FieldType} : word.IsWord "optional" →
      Apart types → RequirednessSpelling [word] .optional types type

/-- The default value of a field, which may be missing. -/
inductive DefaultSpelling (parted : Bool) (depth : Nat) :
    List Lexeme → Option ConstValue → Prop where
  /-- There is none. -/
  | absent : DefaultSpelling parted depth [] none
  /-- A constant after the sign. -/
  | present {equal : Lexeme} {values : List Lexeme} {value : ConstValue} : equal.IsMark .equal →
      ConstantSpelling parted depth values value →
      DefaultSpelling parted depth (equal :: values) (some value)

/-- A field. -/
inductive FieldSpelling (parted : Bool) (depth : Nat) : List Lexeme → Field Nat → Prop where
  /-- The parts of a field, one after the other. -/
  | field {ids words types defaults separator : List Lexeme} {word : Lexeme}
      {id : Option Int} {requiredness : Requiredness} {type : FieldType} {name : String}
      {value : Option ConstValue} {place : Nat} : FieldIdSpelling ids id →
      RequirednessSpelling words requiredness types type → TypeSpelling depth types type →
      word.IsWord name → word.apart → DefaultSpelling parted depth defaults value →
      SeparatorSpelling separator → BeginsAt place (ids ++ (words ++ types)) →
      FieldSpelling parted depth
        (ids ++ (words ++ (types ++ word :: (defaults ++ separator))))
        ⟨type, name, id, requiredness, value, place⟩

/-- Fields between round brackets. -/
inductive FieldListSpelling (parted : Bool) (depth : Nat) :
    List Lexeme → List (Field Nat) → Prop where
  /-- The fields with the brackets around them. -/
  | fields {opening closing : Lexeme} {members : List Lexeme} {fields : List (Field Nat)} :
      opening.IsMark .leftParen → Sequence (FieldSpelling parted depth) members fields →
      closing.IsMark .rightParen →
      FieldListSpelling parted depth (opening :: (members ++ [closing])) fields

/-- The type of the result of a function, or the word for none. -/
inductive ResultSpelling (depth : Nat) : List Lexeme → Option FieldType → Prop where
  /-- There is no result. -/
  | void {word : Lexeme} : word.IsWord "void" → ResultSpelling depth [word] none
  /-- A result. -/
  | type {types : List Lexeme} {type : FieldType} : TypeSpelling depth types type →
      type ≠ .named "void" → ResultSpelling depth types (some type)

/-- The word for a function whose caller waits for no answer, and the lexemes of the result after
it. A result that is named like it needs the word before it. -/
inductive OnewaySpelling : List Lexeme → Bool → List Lexeme → Option FieldType → Prop where
  /-- The word is missing. -/
  | absent {results : List Lexeme} {result : Option FieldType} : result ≠ some (.named "oneway") →
      OnewaySpelling [] false results result
  /-- The word is written. -/
  | present {word : Lexeme} {results : List Lexeme} {result : Option FieldType} :
      word.IsWord "oneway" → Apart results → OnewaySpelling [word] true results result

/-- The exceptions of a function, which may be missing. -/
inductive ThrowsSpelling (parted : Bool) (depth : Nat) :
    List Lexeme → Option (List (Field Nat)) → Prop where
  /-- There are none. -/
  | absent : ThrowsSpelling parted depth [] none
  /-- A list of fields after the keyword. -/
  | present {word : Lexeme} {members : List Lexeme} {fields : List (Field Nat)} :
      word.IsWord "throws" → FieldListSpelling parted depth members fields →
      ThrowsSpelling parted depth (word :: members) (some fields)

/-- A function. -/
inductive FunctionSpelling (parted : Bool) (depth : Nat) :
    List Lexeme → FunctionDecl Nat → Prop where
  /-- The parts of a function, one after the other. -/
  | function {words results members throwing separator : List Lexeme} {word : Lexeme}
      {oneway : Bool} {result : Option FieldType} {name : String}
      {parameters : List (Field Nat)} {exceptions : Option (List (Field Nat))} {place : Nat} :
      OnewaySpelling words oneway results result → ResultSpelling depth results result →
      word.IsWord name → word.apart → FieldListSpelling parted depth members parameters →
      ThrowsSpelling parted depth throwing exceptions → SeparatorSpelling separator →
      BeginsAt place (words ++ results) →
      FunctionSpelling parted depth
        (words ++ (results ++ word :: (members ++ (throwing ++ separator))))
        ⟨name, result, oneway, parameters, exceptions, place⟩

/-- A value of an enumeration. -/
inductive EnumValueSpelling : List Lexeme → EnumValue Nat → Prop where
  /-- A name alone. -/
  | plain {word : Lexeme} {name : String} : word.IsWord name →
      EnumValueSpelling [word] ⟨name, none, word.left⟩
  /-- A name and a number of 64 bits. -/
  | numbered {word equal number : Lexeme} {name : String} : word.IsWord name →
      equal.IsMark .equal → number.shape = .integer →
      admitsInteger number.text →
      EnumValueSpelling [word, equal, number]
        ⟨name, some (Text.signedValue number.text), word.left⟩

/-- The scope of a namespace. -/
inductive ScopeSpelling (parted : Bool) : Lexeme → String → Prop where
  /-- The star. -/
  | star {mark : Lexeme} : mark.IsMark .star → (parted → mark.apart) →
      ScopeSpelling parted mark "*"
  /-- A word that is a scope. -/
  | word {word : Lexeme} {scope : String} : word.IsWord scope → scope ∈ namespaceScopes →
      word.apart → ScopeSpelling parted word scope

/-- The service that a service extends, if there is one. -/
inductive BaseSpelling : List Lexeme → Option String → Prop where
  /-- There is none. -/
  | absent : BaseSpelling [] none
  /-- A name after the keyword. -/
  | present {keyword word : Lexeme} {name : String} : keyword.IsWord "extends" →
      word.IsWord name → word.apart → BaseSpelling [keyword, word] (some name)

/-- A definition. -/
inductive DefinitionSpelling (parted : Bool) (depth : Nat) :
    List Lexeme → Definition Nat → Prop where
  /-- An inclusion of a document. -/
  | inclusion {keyword path : Lexeme} : keyword.IsWord "include" → path.shape = .literal →
      path.apart → DefinitionSpelling parted depth [keyword, path] (.inclusion (unquoted path.text))
  /-- An inclusion of a header. -/
  | cppInclusion {keyword path : Lexeme} : keyword.IsWord "cpp_include" → path.shape = .literal →
      path.apart →
      DefinitionSpelling parted depth [keyword, path] (.cppInclusion (unquoted path.text))
  /-- A namespace. -/
  | space {keyword mark word : Lexeme} {scope name : String} : keyword.IsWord "namespace" →
      ScopeSpelling parted mark scope → word.IsWord name → word.apart →
      DefinitionSpelling parted depth [keyword, mark, word] (.space ⟨scope, name⟩)
  /-- A second name for a type. -/
  | typedef {keyword word : Lexeme} {types separator : List Lexeme} {type : FieldType}
      {name : String} : keyword.IsWord "typedef" → DefinitionTypeSpelling depth types type →
      Apart types → word.IsWord name → word.apart → SeparatorSpelling separator →
      DefinitionSpelling parted depth (keyword :: (types ++ word :: separator))
        (.typedef ⟨type, name, keyword.left⟩)
  /-- A constant. -/
  | const {keyword word equal : Lexeme} {types values separator : List Lexeme}
      {type : FieldType} {name : String} {value : ConstValue} : keyword.IsWord "const" →
      TypeSpelling depth types type → Apart types → word.IsWord name → word.apart →
      equal.IsMark .equal → ConstantSpelling parted depth values value →
      SeparatorSpelling separator →
      DefinitionSpelling parted depth
        (keyword :: (types ++ word :: equal :: (values ++ separator)))
        (.const ⟨name, type, value, keyword.left⟩)
  /-- An enumeration. -/
  | enum {keyword word opening closing : Lexeme} {members : List Lexeme} {name : String}
      {values : List (EnumValue Nat)} : keyword.IsWord "enum" → word.IsWord name → word.apart →
      opening.IsMark .leftBrace → Elements true EnumValueSpelling members values →
      closing.IsMark .rightBrace →
      DefinitionSpelling parted depth (keyword :: word :: opening :: (members ++ [closing]))
        (.enum ⟨name, values, keyword.left⟩)
  /-- A record. -/
  | record {keyword word opening closing : Lexeme} {members : List Lexeme} {name : String}
      {kind : RecordKind} {fields : List (Field Nat)} : keyword.IsWord kind.keyword →
      word.IsWord name → word.apart → opening.IsMark .leftBrace →
      Sequence (FieldSpelling parted depth) members fields → closing.IsMark .rightBrace →
      DefinitionSpelling parted depth (keyword :: word :: opening :: (members ++ [closing]))
        (.record kind ⟨name, fields, keyword.left⟩)
  /-- A service. -/
  | service {keyword word opening closing : Lexeme} {bases members : List Lexeme} {name : String}
      {base : Option String} {functions : List (FunctionDecl Nat)} :
      keyword.IsWord "service" → word.IsWord name → word.apart → BaseSpelling bases base →
      opening.IsMark .leftBrace → Sequence (FunctionSpelling parted depth) members functions →
      closing.IsMark .rightBrace →
      DefinitionSpelling parted depth
        (keyword :: word :: (bases ++ opening :: (members ++ [closing])))
        (.service ⟨name, base, functions, keyword.left⟩)

/-- The definitions of a text. -/
def DefinitionsSpelling (parted : Bool) (depth : Nat) :
    List Lexeme → List (Definition Nat) → Prop :=
  Sequence (DefinitionSpelling parted depth)

/-- A type is spelled with one lexeme or as a container. -/
theorem typeSpelling_succ {depth : Nat} {lexemes : List Lexeme} {type : FieldType} :
    TypeSpelling (depth + 1) lexemes type ↔
      TypeSpelling 0 lexemes type ∨ ContainerTypeSpelling (TypeSpelling depth) lexemes type := by
  simp [TypeSpelling, or_assoc]

/-- A constant is simple or a list or a map. -/
theorem constantSpelling_succ {parted : Bool} {depth : Nat} {lexemes : List Lexeme}
    {value : ConstValue} :
    ConstantSpelling parted (depth + 1) lexemes value ↔
      SimpleConstantSpelling parted lexemes value ∨
        ContainerConstantSpelling parted (ConstantSpelling parted depth) lexemes value :=
  Iff.rfl

section Lengths

variable {parted : Bool} {depth : Nat} {lexemes : List Lexeme}

/-- A type is spelled by at least one lexeme. -/
theorem TypeSpelling.ne_nil {type : FieldType} (spelled : TypeSpelling depth lexemes type) :
    lexemes ≠ [] := by
  cases depth with
  | zero =>
    rcases spelled with base | named
    · cases base; simp
    · cases named; simp
  | succ depth =>
    rcases typeSpelling_succ.1 spelled with (base | named) | container
    · cases base; simp
    · cases named; simp
    · cases container <;> simp

/-- A constant is spelled by at least one lexeme. -/
theorem ConstantSpelling.ne_nil {value : ConstValue}
    (spelled : ConstantSpelling parted depth lexemes value) : lexemes ≠ [] := by
  cases depth with
  | zero =>
    have simple : SimpleConstantSpelling parted lexemes value := spelled
    cases simple <;> simp
  | succ depth =>
    rcases constantSpelling_succ.1 spelled with simple | container
    · cases simple <;> simp
    · cases container <;> simp

/-- A field is spelled by at least one lexeme. -/
theorem FieldSpelling.ne_nil {field : Field Nat}
    (spelled : FieldSpelling parted depth lexemes field) : lexemes ≠ [] := by
  cases spelled
  simp

/-- A result is spelled by at least one lexeme. -/
theorem ResultSpelling.ne_nil {result : Option FieldType}
    (spelled : ResultSpelling depth lexemes result) : lexemes ≠ [] := by
  cases spelled with
  | void => simp
  | type spelledType => exact spelledType.ne_nil

/-- A function is spelled by at least one lexeme. -/
theorem FunctionSpelling.ne_nil {function : FunctionDecl Nat}
    (spelled : FunctionSpelling parted depth lexemes function) : lexemes ≠ [] := by
  cases spelled
  simp

/-- A value of an enumeration is spelled by at least one lexeme. -/
theorem EnumValueSpelling.ne_nil {value : EnumValue Nat} (spelled : EnumValueSpelling lexemes value) :
    lexemes ≠ [] := by
  cases spelled <;> simp

/-- A definition is spelled by at least one lexeme. -/
theorem DefinitionSpelling.ne_nil {definition : Definition Nat}
    (spelled : DefinitionSpelling parted depth lexemes definition) : lexemes ≠ [] := by
  cases spelled <;> simp

end Lengths

/-- Lexemes after a gap are apart. -/
theorem Lexes.apart {admits : List Char → Bool} {text rest : List Char} {parts : List Lexeme}
    (lexes : Lexes admits text parts rest) (gap : hasGap text) : Apart parts := by
  cases parts with
  | nil => simp [Apart]
  | cons lexeme parts =>
    obtain ⟨after, here, -⟩ := lexes
    simpa [Apart, here.apart] using gap

/-- Lexemes that are apart stand after a gap. -/
theorem Lexes.hasGap {admits : List Char → Bool} {text rest : List Char} {parts : List Lexeme}
    (lexes : Lexes admits text parts rest) (some : parts ≠ []) (apart : Apart parts) :
    hasGap text := by
  cases parts with
  | nil => exact absurd rfl some
  | cons lexeme parts =>
    obtain ⟨after, here, -⟩ := lexes
    rw [← here.apart]
    exact apart lexeme (by simp)

/-- Lexemes begin where skipping ends. -/
theorem Lexes.beginsAt {admits : List Char → Bool} {text rest : List Char} {parts : List Lexeme}
    (lexes : Lexes admits text parts rest) : BeginsAt (skip text).length parts := by
  cases parts with
  | nil => simp [BeginsAt]
  | cons lexeme parts =>
    obtain ⟨after, here, -⟩ := lexes
    simpa [BeginsAt] using here.left

/-- The place where some lexemes begin is where skipping ends. -/
theorem Lexes.place_eq {admits : List Char → Bool} {text rest : List Char} {parts : List Lexeme}
    {place : Nat} (lexes : Lexes admits text parts rest) (some : parts ≠ [])
    (begins : BeginsAt place parts) : place = (skip text).length := by
  cases parts with
  | nil => exact absurd rfl some
  | cons lexeme parts =>
    obtain ⟨after, here, -⟩ := lexes
    rw [← here.left]
    exact (begins lexeme (by simp)).symm

end ThriftIdl
