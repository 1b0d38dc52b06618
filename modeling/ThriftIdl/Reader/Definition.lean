import ThriftIdl.Document
import ThriftIdl.Reader.Field

/-!
# Reading definitions

A definition begins with its keyword, which decides its kind. A document is as many definitions
as there are; reading one never fails but for nesting, and stops where no definition matches.
-/
namespace ThriftIdl.Reader

open Readable

variable {ι : Type} [Readable ι]

/-- A constant declaration. -/
def constDecl (depth : Nat) : Reader ι (ConstDecl Nat) := do
  let place ← here
  keyword "const" "const"
  separator
  let type ← fieldType depth
  separator
  let name ← name
  let _ ← skipSeparator
  character '=' "const"
  let _ ← skipSeparator
  let value ← constValue depth
  let _ ← optional trailingListSeparator
  Reader.pure ⟨name, type, value, place⟩

/-- The declaration of a second name for a type. -/
def typedef (depth : Nat) : Reader ι (Typedef Nat) := do
  let place ← here
  keyword "typedef" "typedef"
  separator
  let old ← definitionType depth
  separator
  let newName ← name
  let _ ← optional trailingListSeparator
  Reader.pure ⟨old, newName, place⟩

/-- The number of a value of an enumeration, with the sign before it. -/
def enumAssignment : Reader ι Int := do
  let _ ← skipSeparator
  character '=' "enum_value"
  let _ ← skipSeparator
  integer

/-- A value of an enumeration. -/
def enumValue : Reader ι (EnumValue Nat) := do
  let place ← here
  let name ← name
  let value ← optional enumAssignment
  Reader.pure ⟨name, value, place⟩

/-- An enumeration. -/
def enumDecl : Reader ι (EnumDecl Nat) := do
  let place ← here
  keyword "enum" "enum"
  separator
  let name ← name
  let _ ← skipSeparator
  character '\x7b' "enum"
  let _ ← skipSeparator
  let values ← separated enumValue
  character '\x7d' "enum"
  Reader.pure ⟨name, values, place⟩

/-- A record of a given kind. -/
def record (kind : RecordKind) (depth : Nat) : Reader ι (Record Nat) := do
  let place ← here
  keyword kind.keyword kind.keyword
  separator
  let name ← name
  let _ ← skipSeparator
  character '\x7b' kind.keyword
  let members ← fields depth
  character '\x7d' kind.keyword
  Reader.pure ⟨name, members, place⟩

/-- The name of the service that a service extends. -/
def baseService : Reader ι String := do
  keyword "extends" "service"
  separator
  let name ← name
  let _ ← skipSeparator
  Reader.pure name

/-- Functions, as many as there are. -/
def functions (depth : Nat) : Reader ι (List (FunctionDecl Nat)) :=
  many (do
    let _ ← skipSeparator
    optional (function depth))

/-- A service. -/
def service (depth : Nat) : Reader ι (Service Nat) := do
  let place ← here
  keyword "service" "service"
  separator
  let name ← name
  let _ ← skipSeparator
  let base ← optional baseService
  character '\x7b' "service"
  let members ← functions depth
  character '\x7d' "service"
  Reader.pure ⟨name, base, members, place⟩

/-- An inclusion of another document. -/
def inclusion : Reader ι String := do
  keyword "include" "include"
  separator
  literal

/-- An inclusion of a header for one language. -/
def cppInclusion : Reader ι String := do
  keyword "cpp_include" "cpp_include"
  separator
  literal

/-- A namespace. -/
def namespaceDecl : Reader ι Namespace := do
  keyword "namespace" "namespace"
  separator
  let scope ← namespaceScope
  separator
  let name ← name
  Reader.pure ⟨scope, name⟩

/-- A definition of any kind. -/
def definition (depth : Nat) : Reader ι (Definition Nat) :=
  alternatives "definition" [
    Definition.inclusion <$> inclusion, Definition.cppInclusion <$> cppInclusion,
    Definition.space <$> namespaceDecl, Definition.typedef <$> typedef depth,
    Definition.const <$> constDecl depth, Definition.enum <$> enumDecl,
    Definition.record .struct <$> record .struct depth,
    Definition.record .union <$> record .union depth,
    Definition.record .exception <$> record .exception depth,
    Definition.service <$> service depth]

/-- A definition with the blanks and comments around it. -/
def spacedDefinition (depth : Nat) : Reader ι (Definition Nat) := do
  let _ ← skipSeparator
  let definition ← definition depth
  let _ ← skipSeparator
  Reader.pure definition

/-- Definitions, as many as there are. -/
def definitions (depth : Nat) : Reader ι (List (Definition Nat)) :=
  many (optional (spacedDefinition depth))

/-- The document of the definitions at the start of a text. -/
def document (depth : Nat) : Reader ι (Document Nat) :=
  Document.ofDefinitions <$> definitions depth

end ThriftIdl.Reader
