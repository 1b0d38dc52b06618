import ThriftIdl.Definition

/-!
# Documents

A document keeps its definitions in ten lists, one for each kind, each in the order of the text.
Main statement: `ofDefinitions_append`, sorting definitions into the lists is done for each
definition on its own, so that the lists of two texts follow each other in those of both.
-/
namespace ThriftIdl

/-- The definitions of a text, sorted by kind. -/
structure Document (π : Type) where
  /-- The documents to be read. -/
  includes : List String
  /-- The headers for one language. -/
  cppIncludes : List String
  /-- The namespaces. -/
  namespaces : List Namespace
  /-- The second names of types. -/
  typedefs : List (Typedef π)
  /-- The constants. -/
  consts : List (ConstDecl π)
  /-- The enumerations. -/
  enums : List (EnumDecl π)
  /-- The structs. -/
  structs : List (Record π)
  /-- The unions. -/
  unions : List (Record π)
  /-- The exceptions. -/
  exceptions : List (Record π)
  /-- The services. -/
  services : List (Service π)

namespace Definition

variable {π : Type}

/-- The path of an inclusion. -/
def inclusion? : Definition π → Option String
  | .inclusion path => some path
  | _ => none

/-- The path of a header for one language. -/
def cppInclusion? : Definition π → Option String
  | .cppInclusion path => some path
  | _ => none

/-- The namespace of a definition of one. -/
def space? : Definition π → Option Namespace
  | .space decl => some decl
  | _ => none

/-- The declaration of a second name for a type. -/
def typedef? : Definition π → Option (Typedef π)
  | .typedef decl => some decl
  | _ => none

/-- The declaration of a constant. -/
def const? : Definition π → Option (ConstDecl π)
  | .const decl => some decl
  | _ => none

/-- The declaration of an enumeration. -/
def enum? : Definition π → Option (EnumDecl π)
  | .enum decl => some decl
  | _ => none

/-- The declaration of a record of a given kind. -/
def record? (wanted : RecordKind) : Definition π → Option (Record π)
  | .record kind decl => if kind = wanted then some decl else none
  | _ => none

/-- The declaration of a service. -/
def service? : Definition π → Option (Service π)
  | .service decl => some decl
  | _ => none

end Definition

namespace Document

variable {π ρ : Type}

/-- Definitions sorted into a document, in their order within each kind. -/
def ofDefinitions (definitions : List (Definition π)) : Document π where
  includes := definitions.filterMap Definition.inclusion?
  cppIncludes := definitions.filterMap Definition.cppInclusion?
  namespaces := definitions.filterMap Definition.space?
  typedefs := definitions.filterMap Definition.typedef?
  consts := definitions.filterMap Definition.const?
  enums := definitions.filterMap Definition.enum?
  structs := definitions.filterMap (Definition.record? .struct)
  unions := definitions.filterMap (Definition.record? .union)
  exceptions := definitions.filterMap (Definition.record? .exception)
  services := definitions.filterMap Definition.service?

/-- All definitions of a document, kind by kind. -/
def definitions (document : Document π) : List (Definition π) :=
  document.includes.map .inclusion ++ document.cppIncludes.map .cppInclusion ++
    document.namespaces.map .space ++ document.typedefs.map .typedef ++
    document.consts.map .const ++ document.enums.map .enum ++
    document.structs.map (.record .struct) ++ document.unions.map (.record .union) ++
    document.exceptions.map (.record .exception) ++ document.services.map .service

/-- Two documents, one after the other, kind by kind. -/
def append (first second : Document π) : Document π where
  includes := first.includes ++ second.includes
  cppIncludes := first.cppIncludes ++ second.cppIncludes
  namespaces := first.namespaces ++ second.namespaces
  typedefs := first.typedefs ++ second.typedefs
  consts := first.consts ++ second.consts
  enums := first.enums ++ second.enums
  structs := first.structs ++ second.structs
  unions := first.unions ++ second.unions
  exceptions := first.exceptions ++ second.exceptions
  services := first.services ++ second.services

/-- The definitions of two texts are sorted into the document of the first followed by that of
the second. -/
theorem ofDefinitions_append (first second : List (Definition π)) :
    ofDefinitions (first ++ second) = (ofDefinitions first).append (ofDefinitions second) := by
  simp [ofDefinitions, append]

/-- A document with all places changed. -/
def map (move : π → ρ) (document : Document π) : Document ρ where
  includes := document.includes
  cppIncludes := document.cppIncludes
  namespaces := document.namespaces
  typedefs := document.typedefs.map (Typedef.map move)
  consts := document.consts.map (ConstDecl.map move)
  enums := document.enums.map (EnumDecl.map move)
  structs := document.structs.map (Record.map move)
  unions := document.unions.map (Record.map move)
  exceptions := document.exceptions.map (Record.map move)
  services := document.services.map (Service.map move)

end Document
end ThriftIdl
