import ThriftIdl.Machine.Nested
import ThriftIdl.Reader.Production

/-!
# Machines for members, definitions and documents

A definition begins with its keyword, and a document is as many definitions as there are. A production
that may be missing is tried, and so is each member of a body.
-/
namespace ThriftIdl
namespace Machine

open Readable

variable {ι : Type} [Readable ι]

/-- The number of a field, with the colon after it. -/
def fieldId : Machine ι Int := do
  let id ← token integer
  let _ ← token skipSeparator
  token (character ':' "field")
  let _ ← token skipSeparator
  return id

/-- The word that says whether a field must be set. -/
def requiredness : Machine ι Requiredness := do
  let word ← token (oneOf .requirednessExpected
    [("required", Requiredness.required), ("optional", Requiredness.optional)])
  token separator
  return word

/-- The default value of a field, with the sign before it. -/
def fieldDefault (levels : Nat) : Machine ι ConstValue := do
  token (character '=' "field")
  let _ ← token skipSeparator
  constValue levels

/-- A field, with a list separator if one follows it. -/
def field (levels : Nat) : Machine ι (Field Nat) := do
  let place ← here
  let id ← optional fieldId
  let word ← optional requiredness
  let type ← fieldType levels
  token separator
  let name ← token name
  let _ ← token skipSeparator
  let value ← optional (fieldDefault levels)
  let _ ← token skipSeparator
  let _ ← optional (token listSeparator)
  return ⟨type, name, id, word.getD .unstated, value, place⟩

/-- Fields, as many as there are. -/
def fields (levels : Nat) : Machine ι (List (Field Nat)) :=
  many (do
    let _ ← token skipSeparator
    optional (field levels))

/-- Fields between round brackets. -/
def fieldList (production : String) (levels : Nat) : Machine ι (List (Field Nat)) := do
  token (character '(' production)
  let members ← fields levels
  token (character ')' production)
  return members

/-- The word for a function whose caller waits for no answer. -/
def oneway : Machine ι Unit := do
  token (keyword "oneway" "function")
  token separator

/-- The type of the result of a function, or the word for none. -/
def functionType (levels : Nat) : Machine ι (Option FieldType) :=
  alternatives "function_type"
    [(fun _ => none) <$> token (keyword "void" "function"), some <$> fieldType levels]

/-- The exceptions of a function. -/
def throws (levels : Nat) : Machine ι (List (Field Nat)) := do
  token (keyword "throws" "throws")
  let _ ← token skipSeparator
  fieldList "throws" levels

/-- A list separator after blanks and comments. -/
def trailingListSeparator : Machine ι Char := do
  let _ ← token skipSeparator
  token listSeparator

/-- A function, with a list separator if one follows it. -/
def function (levels : Nat) : Machine ι (FunctionDecl Nat) := do
  let place ← here
  let word ← optional oneway
  let returns ← functionType levels
  token separator
  let name ← token name
  let _ ← token skipSeparator
  let parameters ← fieldList "function" levels
  let _ ← token skipSeparator
  let exceptions ← optional (throws levels)
  let _ ← optional trailingListSeparator
  return ⟨name, returns, word.isSome, parameters, exceptions, place⟩

/-- A constant declaration. -/
def constDecl (levels : Nat) : Machine ι (ConstDecl Nat) := do
  let place ← here
  token (keyword "const" "const")
  token separator
  let type ← fieldType levels
  token separator
  let name ← token name
  let _ ← token skipSeparator
  token (character '=' "const")
  let _ ← token skipSeparator
  let value ← constValue levels
  let _ ← optional trailingListSeparator
  return ⟨name, type, value, place⟩

/-- The declaration of a second name for a type. -/
def typedef (levels : Nat) : Machine ι (Typedef Nat) := do
  let place ← here
  token (keyword "typedef" "typedef")
  token separator
  let old ← definitionType levels
  token separator
  let newName ← token name
  let _ ← optional trailingListSeparator
  return ⟨old, newName, place⟩

/-- The number of a value of an enumeration, with the sign before it. -/
def enumAssignment : Machine ι Int := do
  let _ ← token skipSeparator
  token (character '=' "enum_value")
  let _ ← token skipSeparator
  token integer

/-- A value of an enumeration. -/
def enumValue : Machine ι (EnumValue Nat) := do
  let place ← here
  let name ← token name
  let value ← optional enumAssignment
  return ⟨name, value, place⟩

/-- An enumeration. -/
def enumDecl : Machine ι (EnumDecl Nat) := do
  let place ← here
  token (keyword "enum" "enum")
  token separator
  let name ← token name
  let _ ← token skipSeparator
  token (character '\x7b' "enum")
  let _ ← token skipSeparator
  let values ← separated enumValue
  token (character '\x7d' "enum")
  return ⟨name, values, place⟩

/-- A record of a given kind. -/
def record (kind : RecordKind) (levels : Nat) : Machine ι (Record Nat) := do
  let place ← here
  token (keyword kind.keyword kind.keyword)
  token separator
  let name ← token name
  let _ ← token skipSeparator
  token (character '\x7b' kind.keyword)
  let members ← fields levels
  token (character '\x7d' kind.keyword)
  return ⟨name, members, place⟩

/-- The name of the service that a service extends. -/
def baseService : Machine ι String := do
  token (keyword "extends" "service")
  token separator
  let name ← token name
  let _ ← token skipSeparator
  return name

/-- Functions, as many as there are. -/
def functions (levels : Nat) : Machine ι (List (FunctionDecl Nat)) :=
  many (do
    let _ ← token skipSeparator
    optional (function levels))

/-- A service. -/
def service (levels : Nat) : Machine ι (Service Nat) := do
  let place ← here
  token (keyword "service" "service")
  token separator
  let name ← token name
  let _ ← token skipSeparator
  let base ← optional baseService
  token (character '\x7b' "service")
  let members ← functions levels
  token (character '\x7d' "service")
  return ⟨name, base, members, place⟩

/-- A literal after a keyword, with blanks or comments between them. -/
def literalAfter (word : String) : Machine ι String := do
  token (keyword word word)
  token separator
  token literal

/-- A namespace. -/
def namespaceDecl : Machine ι Namespace := do
  token (keyword "namespace" "namespace")
  token separator
  let scope ← token namespaceScope
  token separator
  let name ← token name
  return ⟨scope, name⟩

/-- A definition of any kind. -/
def definition (levels : Nat) : Machine ι (Definition Nat) :=
  alternatives "definition" [
    Definition.inclusion <$> literalAfter "include",
    Definition.cppInclusion <$> literalAfter "cpp_include",
    Definition.space <$> namespaceDecl, Definition.typedef <$> typedef levels,
    Definition.const <$> constDecl levels, Definition.enum <$> enumDecl,
    Definition.record .struct <$> record .struct levels,
    Definition.record .union <$> record .union levels,
    Definition.record .exception <$> record .exception levels,
    Definition.service <$> service levels]

/-- A definition with the blanks and comments around it. -/
def spacedDefinition (levels : Nat) : Machine ι (Definition Nat) := do
  let _ ← token skipSeparator
  let definition ← definition levels
  let _ ← token skipSeparator
  return definition

/-- The document of as many definitions as there are. -/
def document (levels : Nat) : Machine ι (Document Nat) :=
  Document.ofDefinitions <$> many (optional (spacedDefinition levels))

end Machine

/-- The machine of a production, with levels for so many containers inside each other. -/
def Production.machine {ι : Type} [Readable ι] (levels : Nat) :
    Production → Machine ι (Reading Nat)
  | literal => Reading.literal <$> Machine.token Readable.literal
  | identifier => Reading.name <$> Machine.token Readable.name
  | listSeparator => Reading.separator <$> Machine.token Readable.listSeparator
  | comment => Reading.comment <$> Machine.token Readable.comment
  | separator => (fun _ => Reading.nothing) <$> Machine.token Readable.separator
  | intConstant => (fun value => Reading.constant (.int value)) <$> Machine.token Readable.integer
  | doubleConstant =>
    (fun value => Reading.constant (.double value)) <$> Machine.token Readable.double
  | strictDoubleConstant =>
    (fun value => Reading.constant (.double value)) <$> Machine.token Readable.strictDouble
  | constValue => Reading.constant <$> Machine.constValue levels
  | constList => Reading.constant <$> Machine.constList levels
  | constMap => Reading.constant <$> Machine.constMap levels
  | fieldType => Reading.type <$> Machine.fieldType levels
  | cppType => Reading.cppType <$> Machine.cppType
  | field => Reading.field <$> Machine.field levels
  | function => Reading.function <$> Machine.function levels
  | const => (fun decl => Reading.definition (.const decl)) <$> Machine.constDecl levels
  | typedef => (fun decl => Reading.definition (.typedef decl)) <$> Machine.typedef levels
  | enum => (fun decl => Reading.definition (.enum decl)) <$> Machine.enumDecl
  | enumValue => Reading.enumValue <$> Machine.enumValue
  | struct =>
    (fun decl => Reading.definition (.record .struct decl)) <$> Machine.record .struct levels
  | union =>
    (fun decl => Reading.definition (.record .union decl)) <$> Machine.record .union levels
  | exception =>
    (fun decl => Reading.definition (.record .exception decl)) <$> Machine.record .exception levels
  | service => (fun decl => Reading.definition (.service decl)) <$> Machine.service levels
  | inclusion =>
    (fun path => Reading.definition (.inclusion path)) <$> Machine.literalAfter "include"
  | cppInclusion =>
    (fun path => Reading.definition (.cppInclusion path)) <$> Machine.literalAfter "cpp_include"
  | space => (fun decl => Reading.definition (.space decl)) <$> Machine.namespaceDecl
  | document => Reading.document <$> Machine.document levels

end ThriftIdl
