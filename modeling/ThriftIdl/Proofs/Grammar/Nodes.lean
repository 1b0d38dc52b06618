import ThriftIdl.Proofs.Grammar.Placed
import ThriftIdl.Reader.Production

/-!
# The nodes of a document

A node is a part of a document that has a place and that a production reads by itself: a declaration, a
function, a field, or a value of an enumeration (`Node`). The nodes of a document are all of its
declarations with all of their members (`Document.nodes`); its rows are the places of the members of
each of its lists, and of each list of a declaration (`Document.rows`). Each row of a document that
lexemes spell is among the places of the lexemes, in their order (`DefinitionsSpelling.rows`).
-/
namespace ThriftIdl

/-- A part of a document that has a place and a production of its own. -/
inductive Node (π : Type) where
  /-- A field of a record, a parameter or an exception. -/
  | field (field : Field π)
  /-- A function. -/
  | function (function : FunctionDecl π)
  /-- A value of an enumeration. -/
  | enumValue (value : EnumValue π)
  /-- A second name for a type. -/
  | typedef (decl : Typedef π)
  /-- A constant. -/
  | const (decl : ConstDecl π)
  /-- An enumeration. -/
  | enum (decl : EnumDecl π)
  /-- A struct, union or exception. -/
  | record (kind : RecordKind) (decl : Record π)
  /-- A service. -/
  | service (decl : Service π)

variable {π ρ σ : Type}

namespace Node

/-- Where a node begins. -/
def place : Node π → π
  | .field found => found.place
  | .function found => found.place
  | .enumValue value => value.place
  | .typedef decl => decl.place
  | .const decl => decl.place
  | .enum decl => decl.place
  | .record _ decl => decl.place
  | .service decl => decl.place

/-- The production that reads a node. -/
def production : Node π → Production
  | .field _ => .field
  | .function _ => .function
  | .enumValue _ => .enumValue
  | .typedef _ => .typedef
  | .const _ => .const
  | .enum _ => .enum
  | .record .struct _ => .struct
  | .record .union _ => .union
  | .record .exception _ => .exception
  | .service _ => .service

/-- A node as what its production gives. -/
def reading : Node π → Reading π
  | .field found => .field found
  | .function found => .function found
  | .enumValue value => .enumValue value
  | .typedef decl => .definition (.typedef decl)
  | .const decl => .definition (.const decl)
  | .enum decl => .definition (.enum decl)
  | .record kind decl => .definition (.record kind decl)
  | .service decl => .definition (.service decl)

/-- A node with all places changed. -/
def map (move : π → ρ) : Node π → Node ρ
  | .field found => .field (found.map move)
  | .function found => .function (found.map move)
  | .enumValue value => .enumValue (value.map move)
  | .typedef decl => .typedef (decl.map move)
  | .const decl => .const (decl.map move)
  | .enum decl => .enum (decl.map move)
  | .record kind decl => .record kind (decl.map move)
  | .service decl => .service (decl.map move)

/-- A node is moved with its place. -/
@[simp] theorem place_map (move : π → ρ) (node : Node π) : (node.map move).place = move node.place := by
  cases node <;> rfl

/-- A node that is moved is one of the same production. -/
@[simp] theorem production_map (move : π → ρ) (node : Node π) :
    (node.map move).production = node.production := by
  cases node with
  | record kind decl => cases kind <;> rfl
  | _ => rfl

/-- What is read as a node is moved with it. -/
@[simp] theorem reading_map (move : π → ρ) (node : Node π) :
    (node.map move).reading = node.reading.map move := by
  cases node <;> rfl

end Node

/-- What a production gives, with its places changed twice. -/
theorem Reading.map_map (move : π → ρ) (next : ρ → σ) (reading : Reading π) :
    (reading.map move).map next = reading.map (next ∘ move) := by
  cases reading with
  | function function => exact congrArg Reading.function (function.map_map move next)
  | definition definition =>
    have once : (definition.map move).map next = definition.map (next ∘ move) := by
      cases definition <;> simp [Definition.map, Typedef.map, ConstDecl.map, EnumDecl.map,
        EnumValue.map, Record.map, Field.map, Service.map, FunctionDecl.map_map]
    exact congrArg Reading.definition once
  | document document => exact congrArg Reading.document (document.map_map move next)
  | _ => rfl

section Nodes

/-- The nodes of a function: itself and its fields. -/
def FunctionDecl.nodes (function : FunctionDecl π) : List (Node π) :=
  .function function ::
    (function.parameters.map Node.field ++ (function.exceptions.getD []).map Node.field)

/-- The nodes of a definition: itself, if it has a place, and its members. -/
def Definition.nodes : Definition π → List (Node π)
  | .inclusion _ | .cppInclusion _ | .space _ => []
  | .typedef decl => [.typedef decl]
  | .const decl => [.const decl]
  | .enum decl => .enum decl :: decl.values.map Node.enumValue
  | .record kind decl => .record kind decl :: decl.fields.map Node.field
  | .service decl => .service decl :: decl.functions.flatMap FunctionDecl.nodes

/-- The nodes of a document. -/
def Document.nodes (document : Document π) : List (Node π) :=
  document.definitions.flatMap Definition.nodes

/-- The rows of a function: the places of its parameters and those of its exceptions. -/
def FunctionDecl.rows (function : FunctionDecl π) : List (List π) :=
  [function.parameters.map Field.place, (function.exceptions.getD []).map Field.place]

/-- The rows of a definition: the places of its members, and the rows of each of them. -/
def Definition.rows : Definition π → List (List π)
  | .inclusion _ | .cppInclusion _ | .space _ | .typedef _ | .const _ => []
  | .enum decl => [decl.values.map EnumValue.place]
  | .record _ decl => [decl.fields.map Field.place]
  | .service decl =>
    decl.functions.map FunctionDecl.place :: decl.functions.flatMap FunctionDecl.rows

/-- The rows of a document: the places of the declarations of each kind, and the rows of each
declaration. -/
def Document.rows (document : Document π) : List (List π) :=
  [document.typedefs.map Typedef.place, document.consts.map ConstDecl.place,
    document.enums.map EnumDecl.place, document.structs.map Record.place,
    document.unions.map Record.place, document.exceptions.map Record.place,
    document.services.map Service.place] ++ document.definitions.flatMap Definition.rows

variable {holds : π → Prop}

/-- A predicate holds of the places of a function if it holds of the place of each node. -/
theorem FunctionDecl.placed_iff {function : FunctionDecl π} :
    function.Placed holds ↔ ∀ node ∈ function.nodes, holds node.place := by
  simp only [nodes, List.forall_mem_cons, List.forall_mem_append, List.forall_mem_map, Node.place]
  constructor
  · intro placed
    refine ⟨placed.place, placed.parameters, fun field mem => ?_⟩
    cases thrown : function.exceptions with
    | none => simp [thrown] at mem
    | some fields => exact placed.exceptions fields thrown field (by simpa [thrown] using mem)
  · rintro ⟨place, parameters, exceptions⟩
    refine ⟨place, parameters, fun fields thrown field mem => exceptions field ?_⟩
    rw [Option.mem_def.1 thrown]
    exact mem

/-- A predicate holds of the places of a definition if it holds of the place of each node. -/
theorem Definition.placed_iff {definition : Definition π} :
    definition.Placed holds ↔ ∀ node ∈ definition.nodes, holds node.place := by
  cases definition with
  | inclusion | cppInclusion | space => simp [Placed, nodes]
  | typedef | const => simp [Placed, nodes, Node.place]
  | enum | record => simp [Placed, nodes, Node.place]
  | service decl =>
    simp only [Placed, nodes, List.forall_mem_cons, List.forall_mem_flatMap, FunctionDecl.placed_iff,
      Node.place]

/-- A predicate holds of the places of a document if it holds of the place of each node. -/
theorem Document.placed_iff {document : Document π} :
    document.Placed holds ↔ ∀ node ∈ document.nodes, holds node.place := by
  simp only [Placed, nodes, List.forall_mem_flatMap, Definition.placed_iff]

/-- The nodes of a function with all places changed. -/
theorem FunctionDecl.nodes_map (move : π → ρ) (function : FunctionDecl π) :
    (function.map move).nodes = function.nodes.map (Node.map move) := by
  obtain ⟨name, returns, oneway, parameters, exceptions, place⟩ := function
  cases exceptions <;> simp [nodes, map, Node.map, Function.comp_def]

/-- The nodes of a definition with all places changed. -/
theorem Definition.nodes_map (move : π → ρ) (definition : Definition π) :
    (definition.map move).nodes = definition.nodes.map (Node.map move) := by
  cases definition with
  | inclusion | cppInclusion | space | typedef | const => rfl
  | enum decl => simp [nodes, map, EnumDecl.map, Node.map, Function.comp_def]
  | record kind decl => simp [nodes, map, Record.map, Node.map, Function.comp_def]
  | service decl =>
    simp [nodes, map, Service.map, Node.map, List.flatMap_map, List.map_flatMap,
      FunctionDecl.nodes_map]

/-- The nodes of a document with all places changed. -/
theorem Document.nodes_map (move : π → ρ) (document : Document π) :
    (document.map move).nodes = document.nodes.map (Node.map move) := by
  simp [nodes, definitions_map, List.flatMap_map, List.map_flatMap, Definition.nodes_map]

/-- The rows of a function with all places changed. -/
theorem FunctionDecl.rows_map (move : π → ρ) (function : FunctionDecl π) :
    (function.map move).rows = function.rows.map (List.map move) := by
  obtain ⟨name, returns, oneway, parameters, exceptions, place⟩ := function
  cases exceptions <;> simp [rows, map, Field.map, Function.comp_def]

/-- The rows of a definition with all places changed. -/
theorem Definition.rows_map (move : π → ρ) (definition : Definition π) :
    (definition.map move).rows = definition.rows.map (List.map move) := by
  cases definition with
  | inclusion | cppInclusion | space | typedef | const => rfl
  | enum decl => simp [rows, map, EnumDecl.map, EnumValue.map, Function.comp_def]
  | record kind decl => simp [rows, map, Record.map, Field.map, Function.comp_def]
  | service decl =>
    have place : ∀ function : FunctionDecl π, (function.map move).place = move function.place :=
      fun _ => rfl
    simp [rows, map, Service.map, Function.comp_def, List.flatMap_map, List.map_flatMap,
      FunctionDecl.rows_map, place]

/-- The rows of a document with all places changed. -/
theorem Document.rows_map (move : π → ρ) (document : Document π) :
    (document.map move).rows = document.rows.map (List.map move) := by
  have definitions : (document.map move).definitions.flatMap Definition.rows =
      (document.definitions.flatMap Definition.rows).map (List.map move) := by
    simp [definitions_map, List.flatMap_map, List.map_flatMap, Definition.rows_map]
  rw [rows, rows, definitions, List.map_append]
  simp [map, Function.comp_def, Typedef.map, ConstDecl.map, EnumDecl.map, Record.map, Service.map]

end Nodes

section Spelling

variable {parted : Bool} {depth : Nat} {lexemes : List Lexeme}

/-- What stands between two lexemes stands there in its order. -/
theorem sublist_enclosed (opening : Lexeme) (members : List Lexeme) (closing : Lexeme) :
    members.Sublist (opening :: (members ++ [closing])) :=
  (List.sublist_append_left members [closing]).cons opening

/-- Of items in a row, those that are kept have places among those of the lexemes, in their order. -/
theorem Sequence.places_kept {α β : Type} {item : List Lexeme → α → Prop} {values : List α}
    {keep : α → Option β} {place : β → Nat} (spelled : Sequence item lexemes values)
    (begins : ∀ part value kept, item part value → keep value = some kept →
      place kept ∈ part.map Lexeme.left) :
    ((values.filterMap keep).map place).Sublist (lexemes.map Lexeme.left) := by
  induction spelled with
  | nil => exact .slnil
  | @cons first others value values one _ ih =>
    rw [List.map_append]
    cases kept : keep value with
    | none =>
      rw [List.filterMap_cons_none kept]
      exact ih.trans (List.sublist_append_right _ _)
    | some found =>
      rw [List.filterMap_cons_some kept]
      exact (List.singleton_sublist.2 (begins first value found one kept)).append ih

/-- Items in a row have places among those of the lexemes, in their order. -/
theorem Sequence.places {α : Type} {item : List Lexeme → α → Prop} {values : List α}
    {place : α → Nat} (spelled : Sequence item lexemes values)
    (begins : ∀ part value, item part value → place value ∈ part.map Lexeme.left) :
    (values.map place).Sublist (lexemes.map Lexeme.left) := by
  have all : ((values.filterMap some).map place).Sublist (lexemes.map Lexeme.left) :=
    spelled.places_kept fun part value kept one same => Option.some.inj same ▸ begins part value one
  rwa [List.filterMap_some] at all

/-- A field begins at one of its lexemes. -/
theorem FieldSpelling.begins {field : Field Nat} (spelled : FieldSpelling parted depth lexemes field) :
    field.place ∈ lexemes.map Lexeme.left := spelled.placed fun _ mem => List.mem_map_of_mem mem

/-- Fields between brackets are placed among their lexemes, in their order. -/
theorem FieldListSpelling.places {fields : List (Field Nat)}
    (spelled : FieldListSpelling parted depth lexemes fields) :
    (fields.map Field.place).Sublist (lexemes.map Lexeme.left) := by
  cases spelled with
  | fields opening members closing =>
    exact (members.places fun _ _ one => one.begins).trans ((sublist_enclosed _ _ _).map _)

/-- The rows of a function are placed among its lexemes, in their order. -/
theorem FunctionSpelling.rows {function : FunctionDecl Nat}
    (spelled : FunctionSpelling parted depth lexemes function) :
    ∀ row ∈ function.rows, row.Sublist (lexemes.map Lexeme.left) := by
  cases spelled with
  | @function words results members throwing separator word _ _ _ _ _ _ _ _ _ _ parameters thrown =>
    have rest : (members ++ (throwing ++ separator)).Sublist
        (words ++ (results ++ word :: (members ++ (throwing ++ separator)))) :=
      ((List.sublist_cons_self _ _).trans (List.sublist_append_right _ _)).trans
        (List.sublist_append_right _ _)
    have inner := ((List.sublist_append_left throwing separator).trans
      (List.sublist_append_right members _)).trans rest
    refine List.forall_mem_cons.2 ⟨?_, List.forall_mem_singleton.2 ?_⟩
    · exact parameters.places.trans (((List.sublist_append_left _ _).trans rest).map _)
    · cases thrown with
      | absent => exact List.nil_sublist _
      | present isThrows fields =>
        exact fields.places.trans (((List.sublist_cons_self _ _).trans inner).map _)

/-- The rows of a definition are placed among its lexemes, in their order. -/
theorem DefinitionSpelling.rows {definition : Definition Nat}
    (spelled : DefinitionSpelling parted depth lexemes definition) :
    ∀ row ∈ definition.rows, row.Sublist (lexemes.map Lexeme.left) := by
  cases spelled with
  | inclusion | cppInclusion | space | typedef | const => simp [Definition.rows]
  | @enum keyword word opening closing members _ _ _ _ _ _ values _ =>
    have inner := ((sublist_enclosed opening members closing).cons word).cons keyword
    refine List.forall_mem_singleton.2 ((values.sequence.places ?_).trans (inner.map _))
    rintro _ value ⟨first, separator, rfl, one, -⟩
    exact one.placed fun lexeme mem => List.mem_map_of_mem (List.mem_append_left _ mem)
  | @record keyword word opening closing members _ _ _ _ _ _ _ fields _ =>
    have inner := ((sublist_enclosed opening members closing).cons word).cons keyword
    exact List.forall_mem_singleton.2 ((fields.places fun _ _ one => one.begins).trans (inner.map _))
  | @service keyword word opening closing bases members _ _ _ _ _ _ _ _ functions _ =>
    have inner := (((sublist_enclosed opening members closing).trans
      (List.sublist_append_right bases _)).cons word).cons keyword
    refine List.forall_mem_cons.2 ⟨?_, List.forall_mem_flatMap.2 fun function mem row among => ?_⟩
    · refine (functions.places fun part function one => ?_).trans (inner.map _)
      exact (one.placed fun _ mem => List.mem_map_of_mem mem).place
    · obtain ⟨part, less, one⟩ := functions.forall function mem
      exact (one.rows row among).trans ((less.trans inner).map _)

/-- Definitions that are kept are placed among their lexemes, in their order. -/
theorem DefinitionsSpelling.places_kept {α : Type} {definitions : List (Definition Nat)}
    (spelled : DefinitionsSpelling parted depth lexemes definitions)
    {keep : Definition Nat → Option α} {place : α → Nat}
    (kept : ∀ definition found, keep definition = some found → ∀ holds, definition.Placed holds →
      holds (place found)) :
    ((definitions.filterMap keep).map place).Sublist (lexemes.map Lexeme.left) :=
  Sequence.places_kept spelled fun part definition found one same =>
    kept definition found same (· ∈ part.map Lexeme.left)
      (one.placed fun _ mem => List.mem_map_of_mem mem)

/-- The rows of a document are placed among its lexemes, in their order. -/
theorem DefinitionsSpelling.rows {definitions : List (Definition Nat)}
    (spelled : DefinitionsSpelling parted depth lexemes definitions) :
    ∀ row ∈ (Document.ofDefinitions definitions).rows, row.Sublist (lexemes.map Lexeme.left) := by
  have record (wanted : RecordKind) : ((definitions.filterMap (Definition.record? wanted)).map
      Record.place).Sublist (lexemes.map Lexeme.left) := by
    refine spelled.places_kept fun definition found kept holds placed => ?_
    cases definition with
    | record kind decl =>
      obtain ⟨-, same⟩ := Option.ite_none_right_eq_some.1 kept
      obtain rfl := Option.some.inj same
      exact placed.1
    | _ => cases kept
  refine List.forall_mem_append.2 ⟨?_, List.forall_mem_flatMap.2 fun definition mem row among => ?_⟩
  · simp only [List.forall_mem_cons, Document.ofDefinitions]
    refine ⟨?_, ?_, ?_, record .struct, record .union, record .exception, ?_, by simp⟩
    all_goals
      refine spelled.places_kept fun definition found kept holds placed => ?_
      cases definition <;> cases kept
    exacts [placed, placed, placed.1, placed.1]
  · obtain ⟨part, less, one⟩ :=
      Sequence.forall spelled definition (Document.mem_definitions_ofDefinitions.1 mem)
    exact (one.rows row among).trans (less.map _)

end Spelling

end ThriftIdl
