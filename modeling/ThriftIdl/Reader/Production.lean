import ThriftIdl.Reader.Source

/-!
# Productions by name

Each production can be read by itself. What it gives is one of the kinds of things that the
language is made of (`Reading`).
-/
namespace ThriftIdl

/-- What a production gives. -/
inductive Reading (π : Type) where
  /-- The text of a literal. -/
  | literal (text : String)
  /-- A name. -/
  | name (name : String)
  /-- A comma or semicolon. -/
  | separator (char : Char)
  /-- The text of a comment. -/
  | comment (text : String)
  /-- Nothing worth keeping. -/
  | nothing
  /-- A constant. -/
  | constant (value : ConstValue)
  /-- A type. -/
  | type (type : FieldType)
  /-- The literal of a type of another language. -/
  | cppType (text : String)
  /-- A field. -/
  | field (field : Field π)
  /-- A function. -/
  | function (function : FunctionDecl π)
  /-- A value of an enumeration. -/
  | enumValue (value : EnumValue π)
  /-- A definition. -/
  | definition (definition : Definition π)
  /-- A document. -/
  | document (document : Document π)

/-- What a production gives, with all places changed. -/
def Reading.map {π ρ : Type} (move : π → ρ) : Reading π → Reading ρ
  | .literal text => .literal text
  | .name word => .name word
  | .separator char => .separator char
  | .comment text => .comment text
  | .nothing => .nothing
  | .constant value => .constant value
  | .type found => .type found
  | .cppType text => .cppType text
  | .field found => .field (found.map move)
  | .function found => .function (found.map move)
  | .enumValue value => .enumValue (value.map move)
  | .definition found => .definition (found.map move)
  | .document found => .document (found.map move)

/-- The productions that can be read by themselves. -/
inductive Production where
  /-- A literal. -/
  | literal
  /-- A name. -/
  | identifier
  /-- A comma or semicolon. -/
  | listSeparator
  /-- A comment. -/
  | comment
  /-- Blanks and comments. -/
  | separator
  /-- An integer. -/
  | intConstant
  /-- A number as a double. -/
  | doubleConstant
  /-- A number with a fraction or an exponent. -/
  | strictDoubleConstant
  /-- A constant. -/
  | constValue
  /-- A list constant. -/
  | constList
  /-- A map constant. -/
  | constMap
  /-- A type. -/
  | fieldType
  /-- A type of another language. -/
  | cppType
  /-- A field. -/
  | field
  /-- A function. -/
  | function
  /-- A constant declaration. -/
  | const
  /-- A second name for a type. -/
  | typedef
  /-- An enumeration. -/
  | enum
  /-- A value of an enumeration. -/
  | enumValue
  /-- A struct. -/
  | struct
  /-- A union. -/
  | union
  /-- An exception. -/
  | exception
  /-- A service. -/
  | service
  /-- An inclusion of a document. -/
  | inclusion
  /-- An inclusion of a header. -/
  | cppInclusion
  /-- A namespace. -/
  | space
  /-- A document. -/
  | document
deriving DecidableEq, Repr

namespace Production

/-- All productions. -/
def all : List Production := [
  literal, identifier, listSeparator, comment, separator, intConstant, doubleConstant,
  strictDoubleConstant, constValue, constList, constMap, fieldType, cppType, field, function,
  const, typedef, enum, enumValue, struct, union, exception, service, inclusion, cppInclusion,
  space, document]

/-- The name of a production. -/
def name : Production → String
  | literal => "literal"
  | identifier => "identifier"
  | listSeparator => "list_separator"
  | comment => "comment"
  | separator => "separator"
  | intConstant => "int_constant"
  | doubleConstant => "double_constant"
  | strictDoubleConstant => "strict_double_constant"
  | constValue => "const_value"
  | constList => "const_list"
  | constMap => "const_map"
  | fieldType => "field_type"
  | cppType => "cpp_type"
  | field => "field"
  | function => "function"
  | const => "const"
  | typedef => "typedef"
  | enum => "enum"
  | enumValue => "enum_value"
  | struct => "struct"
  | union => "union"
  | exception => "exception"
  | service => "service"
  | inclusion => "include"
  | cppInclusion => "cpp_include"
  | space => "namespace"
  | document => "document"

/-- The production of a name. -/
def ofName? (wanted : String) : Option Production :=
  all.find? fun production => production.name = wanted

/-- The reader of a production, with at most the given number of nested containers. -/
def reader {ι : Type} [Readable ι] (depth : Nat) : Production → Reader ι (Reading Nat)
  | literal => Reading.literal <$> Readable.literal
  | identifier => Reading.name <$> Readable.name
  | listSeparator => Reading.separator <$> Readable.listSeparator
  | comment => Reading.comment <$> Readable.comment
  | separator => (fun _ => Reading.nothing) <$> Readable.separator
  | intConstant => (fun value => Reading.constant (.int value)) <$> Readable.integer
  | doubleConstant => (fun value => Reading.constant (.double value)) <$> Readable.double
  | strictDoubleConstant =>
    (fun value => Reading.constant (.double value)) <$> Readable.strictDouble
  | constValue => Reading.constant <$> Reader.constValue depth
  | constList => Reading.constant <$> Reader.constList depth
  | constMap => Reading.constant <$> Reader.constMap depth
  | fieldType => Reading.type <$> Reader.fieldType depth
  | cppType => Reading.cppType <$> Reader.cppType
  | field => Reading.field <$> Reader.field depth
  | function => Reading.function <$> Reader.function depth
  | const => (fun decl => Reading.definition (.const decl)) <$> Reader.constDecl depth
  | typedef => (fun decl => Reading.definition (.typedef decl)) <$> Reader.typedef depth
  | enum => (fun decl => Reading.definition (.enum decl)) <$> Reader.enumDecl
  | enumValue => Reading.enumValue <$> Reader.enumValue
  | struct =>
    (fun decl => Reading.definition (.record .struct decl)) <$> Reader.record .struct depth
  | union => (fun decl => Reading.definition (.record .union decl)) <$> Reader.record .union depth
  | exception =>
    (fun decl => Reading.definition (.record .exception decl)) <$> Reader.record .exception depth
  | service => (fun decl => Reading.definition (.service decl)) <$> Reader.service depth
  | inclusion => (fun path => Reading.definition (.inclusion path)) <$> Reader.inclusion
  | cppInclusion => (fun path => Reading.definition (.cppInclusion path)) <$> Reader.cppInclusion
  | space => (fun decl => Reading.definition (.space decl)) <$> Reader.namespaceDecl
  | document => Reading.document <$> Reader.document depth

end Production

/-- What is said of a production that does not exist. -/
def unknownProductionMessage (name : String) : String := "Unknown production: " ++ name

/-- Read one production off the start of a text. -/
def readProduction (production : Production) (limit : Int) (source : List Char) :
    Except Raised (List Char × Reading Position) :=
  match production.reader limit.toNat source with
  | .ok value rest _ => .ok (rest, value.map (positionIn source 0))
  | .fail failure _ _ => .error (.ofFault source limit 0 failure.head)

end ThriftIdl
