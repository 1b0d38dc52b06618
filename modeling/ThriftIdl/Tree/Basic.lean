import ThriftIdl.Double.Decimal
import ThriftIdl.Position
import ThriftIdl.Text.Quoted
import ThriftIdl.Vocabulary

/-!
# Labelled trees

Every node of a document can be seen as a labelled tree: its label says which attributes it has,
and each attribute holds a tree. Trees are looser than documents, since any tree may stand
anywhere. They are what nodes of all kinds are shown as (`display`), compared as (`same`) and
exchanged as. Comparison ignores positions and takes doubles approximately.
-/
namespace ThriftIdl

/-- The labels of nodes. -/
inductive Label where
  /-- A literal. -/
  | literal
  /-- A name. -/
  | identifier
  /-- A comment. -/
  | comment
  /-- An integer constant. -/
  | intConstant
  /-- A double constant. -/
  | doubleConstant
  /-- A list constant. -/
  | constList
  /-- A map constant. -/
  | constMap
  /-- A map type. -/
  | mapType
  /-- A set type. -/
  | setType
  /-- A list type. -/
  | listType
  /-- A type of another language. -/
  | cppType
  /-- A field. -/
  | field
  /-- A function. -/
  | functionDecl
  /-- A constant declaration. -/
  | constDecl
  /-- A second name for a type. -/
  | typedefDecl
  /-- A value of an enumeration. -/
  | enumValue
  /-- An enumeration. -/
  | enumDecl
  /-- A struct. -/
  | structDecl
  /-- A union. -/
  | unionDecl
  /-- An exception. -/
  | exceptionDecl
  /-- A service. -/
  | serviceDecl
  /-- An inclusion of a document. -/
  | inclusion
  /-- An inclusion of a header. -/
  | cppInclusion
  /-- A namespace. -/
  | space
  /-- A document. -/
  | document
deriving DecidableEq, Repr

/-- What an attribute is expected to hold, which decides what stands for it when it is left out. -/
inductive Content where
  /-- Anything; nothing when left out. -/
  | any
  /-- An integer; nothing when left out. -/
  | integer
  /-- A double; nothing when left out. -/
  | double
  /-- Yes or no; no when left out. -/
  | flag
  /-- A list; empty when left out. -/
  | list
  /-- A list of pairs; empty when left out. -/
  | entries
deriving DecidableEq, Repr

/-- The attributes of nodes. -/
structure Attribute where
  /-- The name. -/
  name : String
  /-- What it is expected to hold. -/
  content : Content
deriving DecidableEq, Repr

namespace Label

/-- All labels. -/
def all : List Label := [
  literal, identifier, comment, intConstant, doubleConstant, constList, constMap, mapType, setType,
  listType, cppType, field, functionDecl, constDecl, typedefDecl, enumValue, enumDecl, structDecl,
  unionDecl, exceptionDecl, serviceDecl, inclusion, cppInclusion, space, document]

/-- The name of a label. -/
def name : Label → String
  | literal => "Literal"
  | identifier => "Identifier"
  | comment => "Comment"
  | intConstant => "IntConstant"
  | doubleConstant => "DoubleConstant"
  | constList => "ConstList"
  | constMap => "ConstMap"
  | mapType => "MapType"
  | setType => "SetType"
  | listType => "ListType"
  | cppType => "CppType"
  | field => "Field"
  | functionDecl => "FunctionDecl"
  | constDecl => "ConstDecl"
  | typedefDecl => "TypedefDecl"
  | enumValue => "EnumValue"
  | enumDecl => "EnumDecl"
  | structDecl => "StructDecl"
  | unionDecl => "UnionDecl"
  | exceptionDecl => "ExceptionDecl"
  | serviceDecl => "ServiceDecl"
  | inclusion => "Include"
  | cppInclusion => "CppInclude"
  | space => "Namespace"
  | document => "Document"

/-- The label of a name. -/
def ofName? (wanted : String) : Option Label := all.find? fun label => label.name = wanted

/-- The attributes of nodes with a label, in order. -/
def attributes : Label → List Attribute
  | literal => [⟨"value", .any⟩]
  | identifier => [⟨"name", .any⟩]
  | comment => [⟨"text", .any⟩]
  | intConstant => [⟨"value", .integer⟩]
  | doubleConstant => [⟨"value", .double⟩]
  | constList => [⟨"values", .list⟩]
  | constMap => [⟨"entries", .entries⟩]
  | mapType => [⟨"key_type", .any⟩, ⟨"value_type", .any⟩]
  | setType => [⟨"element_type", .any⟩]
  | listType => [⟨"element_type", .any⟩]
  | cppType => [⟨"literal", .any⟩]
  | field =>
    [⟨"type", .any⟩, ⟨"name", .any⟩, ⟨"id", .integer⟩, ⟨"required", .any⟩, ⟨"default", .any⟩]
  | functionDecl =>
    [⟨"name", .any⟩, ⟨"returns", .any⟩, ⟨"oneway", .flag⟩, ⟨"parameters", .list⟩,
      ⟨"exceptions", .any⟩]
  | constDecl => [⟨"name", .any⟩, ⟨"type", .any⟩, ⟨"value", .any⟩]
  | typedefDecl => [⟨"old", .any⟩, ⟨"alias", .any⟩]
  | enumValue => [⟨"name", .any⟩, ⟨"value", .integer⟩]
  | enumDecl => [⟨"name", .any⟩, ⟨"values", .list⟩]
  | structDecl => [⟨"name", .any⟩, ⟨"fields", .list⟩]
  | unionDecl => [⟨"name", .any⟩, ⟨"fields", .list⟩]
  | exceptionDecl => [⟨"name", .any⟩, ⟨"fields", .list⟩]
  | serviceDecl => [⟨"name", .any⟩, ⟨"extends", .any⟩, ⟨"functions", .list⟩]
  | inclusion => [⟨"path", .any⟩]
  | cppInclusion => [⟨"path", .any⟩]
  | space => [⟨"scope", .any⟩, ⟨"name", .any⟩]
  | document =>
    [⟨"includes", .list⟩, ⟨"cpp_includes", .list⟩, ⟨"namespaces", .list⟩, ⟨"typedefs", .list⟩,
      ⟨"consts", .list⟩, ⟨"enums", .list⟩, ⟨"structs", .list⟩, ⟨"unions", .list⟩,
      ⟨"exceptions", .list⟩, ⟨"services", .list⟩]

/-- Whether nodes with a label carry a position. -/
def hasPosition : Label → Bool
  | field | functionDecl | constDecl | typedefDecl | enumValue | enumDecl | structDecl | unionDecl
  | exceptionDecl | serviceDecl => true
  | _ => false

end Label

/-- A labelled tree, or what an attribute may hold instead of one. -/
inductive Tree where
  /-- Nothing. -/
  | absent
  /-- A text. -/
  | text (text : String)
  /-- Yes or no. -/
  | flag (value : Bool)
  /-- An integer. -/
  | int (value : Int)
  /-- A double. -/
  | double (value : Double)
  /-- A base type. -/
  | base (type : BaseType)
  /-- A list. -/
  | list (items : List Tree)
  /-- A pair. -/
  | pair (first second : Tree)
  /-- A node with the values of its attributes in order, and its position. -/
  | node (label : Label) (values : List Tree) (position : Position)

/-- The position of nodes that carry none. -/
def Position.unknown : Position := ⟨0, 0⟩

/-- A node without a position. -/
def Tree.plain (label : Label) (values : List Tree) : Tree := .node label values .unknown

/-- What stands for an attribute that is left out. -/
def Content.default : Content → Tree
  | .any | .integer | .double => .absent
  | .flag => .flag false
  | .list | .entries => .list []

/-- The keyword of a base type in capitals. -/
def BaseType.title (type : BaseType) : List Char := type.keyword.toList.map Char.toUpper

namespace Tree

mutual
/-- Whether two trees are equal but for positions, doubles approximately. -/
def same : Tree → Tree → Bool
  | .absent, .absent => true
  | .text chars, .text chars' => chars = chars'
  | .flag value, .flag value' => value = value'
  | .int value, .int value' => value = value'
  | .double value, .double value' => value.close value'
  | .base type, .base type' => type = type'
  | .list items, .list items' => sameAll items items'
  | .pair first second, .pair first' second' => first.same first' && second.same second'
  | .node label values _, .node label' values' _ => label = label' && sameAll values values'
  | _, _ => false

/-- Whether two lists of trees are equal item by item. -/
def sameAll : List Tree → List Tree → Bool
  | [], [] => true
  | item :: items, item' :: items' => item.same item' && sameAll items items'
  | _, _ => false
end

/-- Texts with a comma and a blank between them. -/
def commaSeparated (texts : List (List Char)) : List Char := [',', ' '].intercalate texts

/-- A base type, shown with its name in capitals and its keyword. -/
def displayBase (type : BaseType) : List Char :=
  "<BaseType.".toList ++ type.title ++ ": ".toList ++ Text.quoted type.keyword.toList ++ ['>']

mutual
/-- A tree with all its attributes, written out on one line. -/
def display : Tree → List Char
  | .absent => "None".toList
  | .text chars => Text.quoted chars.toList
  | .flag value => (if value then "True" else "False").toList
  | .int value => Text.integer value
  | .double value => value.text
  | .base type => displayBase type
  | .list items => '[' :: commaSeparated (displayAll items) ++ [']']
  | .pair first second => '(' :: commaSeparated [first.display, second.display] ++ [')']
  | .node label values _ =>
    label.name.toList ++ '(' :: commaSeparated
      (List.zipWith (fun slot value => slot.name.toList ++ '=' :: value)
        label.attributes (displayAll values)) ++ [')']

/-- Trees, each written out. -/
def displayAll : List Tree → List (List Char)
  | [] => []
  | item :: items => item.display :: displayAll items
end

/-- The name of the class of things that a tree belongs to. -/
def className : Tree → String
  | .absent => "NoneType"
  | .text _ => "str"
  | .flag _ => "bool"
  | .int _ => "int"
  | .double _ => "float"
  | .base _ => "BaseType"
  | .list _ => "list"
  | .pair _ _ => "tuple"
  | .node label _ _ => label.name

/-- The class of things that a tree belongs to, written out. -/
def classText : Tree → String
  | .base _ => "<enum 'BaseType'>"
  | .node label _ _ => "<class 'thrift_ast." ++ label.name ++ "'>"
  | tree => "<class '" ++ tree.className ++ "'>"

end Tree
end ThriftIdl
