import ThriftIdl.Canonical

/-!
# Sketches of documents

A sketch is a document as it is to be written: it keeps the spelling of numbers and literals, the
separators between elements, and definitions in any order. Its text is put together from its
parts. Types and the words that say whether a field must be set need no sketch, because they have
one spelling here; that of a map has a blank after its comma.
-/
namespace ThriftIdl

/-- The text of a type in a sketch. -/
def FieldType.sketch : FieldType → List Char
  | .base type => type.keyword.toList
  | .map key value => "map<".toList ++ key.sketch ++ ", ".toList ++ value.sketch ++ ['>']
  | .set element => "set<".toList ++ element.sketch ++ ['>']
  | .list element => "list<".toList ++ element.sketch ++ ['>']
  | .named name => name.toList

/-- Whether a type is a container. -/
def FieldType.isContainer : FieldType → Bool
  | .map _ _ | .set _ | .list _ => true
  | .base _ | .named _ => false

namespace Fuzz

/-- Elements with what stands between them. -/
structure Joined (α : Type) where
  /-- What stands between two elements. -/
  separator : String
  /-- The elements. -/
  items : List α

/-- Texts with a separator between them. -/
def joined (separator : String) (texts : List (List Char)) : List Char :=
  separator.toList.intercalate texts

/-- The text of elements. -/
def Joined.text {α : Type} (text : α → List Char) (all : Joined α) : List Char :=
  joined all.separator (all.items.map text)

/-- A constant to be written. -/
inductive ConstSketch where
  /-- A number as it is spelled. -/
  | number (spelling : String)
  /-- A literal with its quotes. -/
  | literal (spelling : String)
  /-- A name. -/
  | name (name : String)
  /-- A list. -/
  | list (separator : String) (values : List ConstSketch)
  /-- A map. -/
  | map (separator : String) (entries : List (ConstSketch × ConstSketch))

mutual
/-- The text of a constant. -/
def ConstSketch.text : ConstSketch → List Char
  | .number spelling | .literal spelling | .name spelling => spelling.toList
  | .list separator values => '[' :: joined separator (textsOfValues values) ++ [']']
  | .map separator entries => '\x7b' :: joined separator (textsOfEntries entries) ++ ['\x7d']

/-- The texts of constants. -/
def textsOfValues : List ConstSketch → List (List Char)
  | [] => []
  | value :: values => value.text :: textsOfValues values

/-- The texts of the entries of a map. -/
def textsOfEntries : List (ConstSketch × ConstSketch) → List (List Char)
  | [] => []
  | (key, value) :: entries => (key.text ++ ": ".toList ++ value.text) :: textsOfEntries entries
end

/-- A field to be written. -/
structure FieldSketch where
  /-- The number as it is spelled, if there is one. -/
  id : Option (List Char)
  /-- Whether it must be set. -/
  requiredness : Requiredness
  /-- The type. -/
  type : FieldType
  /-- The name. -/
  name : String
  /-- The value when it is not set. -/
  defaultValue : Option ConstSketch

/-- The text of a field. -/
def FieldSketch.text (field : FieldSketch) : List Char :=
  spaced <|
    (field.id.elim [] fun id => [id ++ [':']]) ++ field.requiredness.idl ++
      [field.type.sketch, field.name.toList] ++
      field.defaultValue.elim [] fun value => ["= ".toList ++ value.text]

/-- A function to be written. -/
structure FunctionSketch where
  /-- Whether its caller waits for no answer. -/
  oneway : Bool
  /-- The type of the result. -/
  returns : Option FieldType
  /-- The name. -/
  name : String
  /-- The parameters. -/
  parameters : Joined FieldSketch
  /-- The exceptions. -/
  exceptions : Option (Joined FieldSketch)

/-- The text of a function. -/
def FunctionSketch.text (function : FunctionSketch) : List Char :=
  (if function.oneway then "oneway ".toList else []) ++
    function.returns.elim "void".toList FieldType.sketch ++ ' ' :: function.name.toList ++
    '(' :: function.parameters.text FieldSketch.text ++ ')' ::
    function.exceptions.elim [] fun fields =>
      " throws (".toList ++ fields.text FieldSketch.text ++ [')']

/-- A value of an enumeration to be written. -/
structure EnumValueSketch where
  /-- The name. -/
  name : String
  /-- The number as it is spelled. -/
  number : Option String

/-- The text of a value of an enumeration. -/
def EnumValueSketch.text (value : EnumValueSketch) : List Char :=
  value.name.toList ++ value.number.elim [] fun number => " = ".toList ++ number.toList

/-- A definition to be written. -/
inductive DefinitionSketch where
  /-- An inclusion of a document or of a header. -/
  | inclusion (ofHeader : Bool) (path : String)
  /-- A namespace. -/
  | space (scope name : String)
  /-- A second name for a type: for the second one if it is a container, and else for the first. -/
  | typedef (base : BaseType) (type : FieldType) (name : String)
  /-- A constant. -/
  | const (type : FieldType) (name : String) (value : ConstSketch)
  /-- An enumeration. -/
  | enum (name : String) (values : Joined EnumValueSketch)
  /-- A record. -/
  | record (kind : RecordKind) (name : String) (fields : Joined FieldSketch)
  /-- A service. -/
  | service (name : String) (base : Option String) (functions : Joined FunctionSketch)

/-- A body with its header before it, on one line. -/
def body (header : List (List Char)) (members : List Char) : List Char :=
  spaced (header ++ [['\x7b'], members, ['\x7d']])

/-- The text of a definition. -/
def DefinitionSketch.text : DefinitionSketch → List Char
  | .inclusion ofHeader path =>
    spaced [(if ofHeader then "cpp_include" else "include").toList, path.toList]
  | .space scope name => spaced ["namespace".toList, scope.toList, name.toList]
  | .typedef base type name =>
    let old := if type.isContainer then type else .base base
    spaced ["typedef".toList, old.sketch, name.toList]
  | .const type name value =>
    spaced ["const".toList, type.sketch, name.toList, ['='], value.text]
  | .enum name values => body ["enum".toList, name.toList] (values.text EnumValueSketch.text)
  | .record kind name fields =>
    body [kind.keyword.toList, name.toList] (fields.text FieldSketch.text)
  | .service name base functions =>
    let extended := base.elim [] fun base => ["extends".toList, base.toList]
    body (["service".toList, name.toList] ++ extended) (functions.text FunctionSketch.text)

/-- The text of a document, with each definition on a line of its own. -/
def documentText (definitions : List DefinitionSketch) : List Char :=
  joined "\n" (definitions.map DefinitionSketch.text)

end Fuzz
end ThriftIdl
