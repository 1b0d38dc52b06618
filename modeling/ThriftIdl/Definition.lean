import ThriftIdl.FieldType
import ThriftIdl.ConstValue

/-!
# Definitions

A document consists of definitions of ten kinds. Declarations, fields, functions and enum values
carry the place where they begin. The type of places is a parameter: the readers record how much
of the text was left, a document for readers holds lines and columns (`map`), and the content of
a document is what remains when every place is replaced by the same one.
-/
namespace ThriftIdl

/-- Whether a field must be set. -/
inductive Requiredness where
  /-- The word `required` was written. -/
  | required
  /-- The word `optional` was written. -/
  | optional
  /-- Neither word was written. -/
  | unstated
deriving DecidableEq, Repr

/-- A member of a record, a parameter of a function, or an exception it throws. -/
structure Field (π : Type) where
  /-- The type. -/
  type : FieldType
  /-- The name. -/
  name : String
  /-- The number, when one was written. -/
  id : Option Int
  /-- Whether it must be set. -/
  requiredness : Requiredness
  /-- The default value, when one was written. -/
  defaultValue : Option ConstValue
  /-- Where the field begins. -/
  place : π

/-- A function of a service. -/
structure FunctionDecl (π : Type) where
  /-- The name. -/
  name : String
  /-- The type of the result, if there is one. -/
  returns : Option FieldType
  /-- Whether the caller waits for no answer. -/
  oneway : Bool
  /-- The parameters. -/
  parameters : List (Field π)
  /-- The exceptions, when there is a list of them. -/
  exceptions : Option (List (Field π))
  /-- Where the function begins. -/
  place : π

/-- The languages a namespace is for, and its name in them. -/
structure Namespace where
  /-- The language, or a star for all. -/
  scope : String
  /-- The name of the namespace. -/
  name : String
deriving DecidableEq, Repr

/-- A second name for a type. -/
structure Typedef (π : Type) where
  /-- The type. -/
  old : FieldType
  /-- Its new name. -/
  name : String
  /-- Where the declaration begins. -/
  place : π

/-- A named constant. -/
structure ConstDecl (π : Type) where
  /-- The name. -/
  name : String
  /-- The type. -/
  type : FieldType
  /-- The value. -/
  value : ConstValue
  /-- Where the declaration begins. -/
  place : π

/-- A value of an enumeration. -/
structure EnumValue (π : Type) where
  /-- The name. -/
  name : String
  /-- The number, when one was written. -/
  value : Option Int
  /-- Where the value begins. -/
  place : π

/-- An enumeration. -/
structure EnumDecl (π : Type) where
  /-- The name. -/
  name : String
  /-- The values. -/
  values : List (EnumValue π)
  /-- Where the declaration begins. -/
  place : π

/-- The kinds of records. -/
inductive RecordKind where
  /-- All fields together. -/
  | struct
  /-- One of the fields. -/
  | union
  /-- Fields that are thrown. -/
  | exception
deriving DecidableEq, Repr

/-- The keyword that begins a record. -/
def RecordKind.keyword : RecordKind → String
  | .struct => "struct"
  | .union => "union"
  | .exception => "exception"

/-- A record of fields. -/
structure Record (π : Type) where
  /-- The name. -/
  name : String
  /-- The fields. -/
  fields : List (Field π)
  /-- Where the declaration begins. -/
  place : π

/-- A service. -/
structure Service (π : Type) where
  /-- The name. -/
  name : String
  /-- The service it extends, if it extends one. -/
  base : Option String
  /-- The functions. -/
  functions : List (FunctionDecl π)
  /-- Where the declaration begins. -/
  place : π

/-- One definition of a document. -/
inductive Definition (π : Type) where
  /-- Another document to be read. -/
  | inclusion (path : String)
  /-- A header for one language. -/
  | cppInclusion (path : String)
  /-- A namespace. -/
  | space (decl : Namespace)
  /-- A second name for a type. -/
  | typedef (decl : Typedef π)
  /-- A named constant. -/
  | const (decl : ConstDecl π)
  /-- An enumeration. -/
  | enum (decl : EnumDecl π)
  /-- A struct, union or exception. -/
  | record (kind : RecordKind) (decl : Record π)
  /-- A service. -/
  | service (decl : Service π)

variable {π ρ : Type}

/-- A field with its place changed. -/
def Field.map (move : π → ρ) (field : Field π) : Field ρ :=
  { field with place := move field.place }

/-- A function with all places changed. -/
def FunctionDecl.map (move : π → ρ) (function : FunctionDecl π) : FunctionDecl ρ :=
  { function with
    parameters := function.parameters.map (Field.map move)
    exceptions := function.exceptions.map (List.map (Field.map move))
    place := move function.place }

/-- An alias with its place changed. -/
def Typedef.map (move : π → ρ) (decl : Typedef π) : Typedef ρ :=
  { decl with place := move decl.place }

/-- A constant with its place changed. -/
def ConstDecl.map (move : π → ρ) (decl : ConstDecl π) : ConstDecl ρ :=
  { decl with place := move decl.place }

/-- A value of an enumeration with its place changed. -/
def EnumValue.map (move : π → ρ) (value : EnumValue π) : EnumValue ρ :=
  { value with place := move value.place }

/-- An enumeration with all places changed. -/
def EnumDecl.map (move : π → ρ) (decl : EnumDecl π) : EnumDecl ρ :=
  { decl with values := decl.values.map (EnumValue.map move), place := move decl.place }

/-- A record with all places changed. -/
def Record.map (move : π → ρ) (decl : Record π) : Record ρ :=
  { decl with fields := decl.fields.map (Field.map move), place := move decl.place }

/-- A service with all places changed. -/
def Service.map (move : π → ρ) (decl : Service π) : Service ρ :=
  { decl with functions := decl.functions.map (FunctionDecl.map move), place := move decl.place }

/-- A definition with all places changed. -/
def Definition.map (move : π → ρ) : Definition π → Definition ρ
  | .inclusion path => .inclusion path
  | .cppInclusion path => .cppInclusion path
  | .space decl => .space decl
  | .typedef decl => .typedef (decl.map move)
  | .const decl => .const (decl.map move)
  | .enum decl => .enum (decl.map move)
  | .record kind decl => .record kind (decl.map move)
  | .service decl => .service (decl.map move)

end ThriftIdl
