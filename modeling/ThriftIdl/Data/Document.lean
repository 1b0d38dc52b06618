import ThriftIdl.Canonical
import ThriftIdl.Data.Basic

/-!
# Documents as plain data

A document is a record of ten lists. Types are given by their text.
-/
namespace ThriftIdl

variable {π : Type}

/-- A type as data: its text. -/
def FieldType.data (type : FieldType) : Data := .text (String.ofList type.idl)

/-- The word for whether a field must be set. -/
def Requiredness.data : Requiredness → Data
  | .required => .text "required"
  | .optional => .text "optional"
  | .unstated => .text "default"

/-- A field as data; an absent default value is left out. -/
def Field.data (field : Field π) : Data :=
  .record ([("id", .ofOption (field.id.map .int)), ("name", .text field.name),
    ("type", field.type.data), ("required", field.requiredness.data)] ++
    field.defaultValue.elim [] fun value => [("default", value.data)])

/-- A function as data. -/
def FunctionDecl.data (function : FunctionDecl π) : Data :=
  .record [("name", .text function.name), ("oneway", .flag function.oneway),
    ("returns", .ofOption (function.returns.map FieldType.data)),
    ("parameters", .list (function.parameters.map Field.data)),
    ("throws", .ofOption (function.exceptions.map fun fields => .list (fields.map Field.data)))]

/-- A namespace as data. -/
def Namespace.data (decl : Namespace) : Data :=
  .record [("scope", .text decl.scope), ("name", .text decl.name)]

/-- A second name for a type as data. -/
def Typedef.data (decl : Typedef π) : Data :=
  .record [("alias", .text decl.name), ("type", decl.old.data)]

/-- A constant declaration as data. -/
def ConstDecl.data (decl : ConstDecl π) : Data :=
  .record [("name", .text decl.name), ("type", decl.type.data), ("value", decl.value.data)]

/-- A value of an enumeration as data. -/
def EnumValue.data (value : EnumValue π) : Data :=
  .record [("name", .text value.name), ("value", .ofOption (value.value.map .int))]

/-- An enumeration as data. -/
def EnumDecl.data (decl : EnumDecl π) : Data :=
  .record [("name", .text decl.name), ("values", .list (decl.values.map EnumValue.data))]

/-- A record as data. -/
def Record.data (decl : Record π) : Data :=
  .record [("name", .text decl.name), ("fields", .list (decl.fields.map Field.data))]

/-- A service as data. -/
def Service.data (decl : Service π) : Data :=
  .record [("name", .text decl.name), ("extends", .ofOption (decl.base.map .text)),
    ("functions", .list (decl.functions.map FunctionDecl.data))]

/-- A document as data. -/
def Document.data (document : Document π) : Data :=
  .record [
    ("includes", .list (document.includes.map .text)),
    ("cpp_includes", .list (document.cppIncludes.map .text)),
    ("namespaces", .list (document.namespaces.map Namespace.data)),
    ("typedefs", .list (document.typedefs.map Typedef.data)),
    ("consts", .list (document.consts.map ConstDecl.data)),
    ("enums", .list (document.enums.map EnumDecl.data)),
    ("structs", .list (document.structs.map Record.data)),
    ("unions", .list (document.unions.map Record.data)),
    ("exceptions", .list (document.exceptions.map Record.data)),
    ("services", .list (document.services.map Service.data))]

end ThriftIdl
