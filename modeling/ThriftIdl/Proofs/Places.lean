import Mathlib.Data.List.Basic
import ThriftIdl.Document

/-!
# Documents and their places

The places of a document may be changed without its definitions changing otherwise. Definitions that
are sorted into a document are its definitions (`Document.mem_definitions_ofDefinitions`).
-/
namespace ThriftIdl

variable {π ρ σ : Type}

/-- Everything but places. -/
def content (_ : π) : Unit := ()

section Sorting

/-- The definitions of a document are sorted into it. -/
theorem Document.ofDefinitions_definitions (document : Document π) :
    ofDefinitions document.definitions = document := by
  simp [ofDefinitions, definitions, List.filterMap_map, Function.comp_def, Definition.inclusion?,
    Definition.cppInclusion?, Definition.space?, Definition.typedef?, Definition.const?,
    Definition.enum?, Definition.record?, Definition.service?]

/-- The definitions of two documents are those of one or of the other. -/
theorem Document.mem_definitions_append {first second : Document π} {definition : Definition π} :
    definition ∈ (first.append second).definitions ↔
      definition ∈ first.definitions ∨ definition ∈ second.definitions := by
  cases definition with
  | record kind decl => cases kind <;> simp [append, Document.definitions]
  | inclusion | cppInclusion | space | typedef | const | enum | service =>
    simp [append, Document.definitions]

/-- The definitions of a document are those that were sorted into it. -/
theorem Document.mem_definitions_ofDefinitions {definitions : List (Definition π)}
    {definition : Definition π} :
    definition ∈ (ofDefinitions definitions).definitions ↔ definition ∈ definitions := by
  induction definitions with
  | nil => simp [ofDefinitions, Document.definitions]
  | cons first others ih =>
    have sorted := ofDefinitions_append [first] others
    have single : definition ∈ (ofDefinitions [first]).definitions ↔ definition = first := by
      cases first with
      | record kind decl =>
        cases kind <;> simp [ofDefinitions, Document.definitions, Definition.inclusion?,
          Definition.cppInclusion?, Definition.space?, Definition.typedef?, Definition.const?,
          Definition.enum?, Definition.record?, Definition.service?]
      | inclusion | cppInclusion | space | typedef | const | enum | service =>
        simp [ofDefinitions, Document.definitions, Definition.inclusion?,
          Definition.cppInclusion?, Definition.space?, Definition.typedef?, Definition.const?,
          Definition.enum?, Definition.record?, Definition.service?]
    rw [List.singleton_append] at sorted
    rw [sorted, mem_definitions_append, single, ih, List.mem_cons]

end Sorting

section Places

/-- The definitions of a document with all places changed. -/
theorem Document.definitions_map (move : π → ρ) (document : Document π) :
    (document.map move).definitions = document.definitions.map (Definition.map move) := by
  simp [Document.definitions, Document.map, Function.comp_def, Definition.map]

/-- Places may be changed before or after definitions are sorted. -/
theorem Document.ofDefinitions_map (move : π → ρ) (definitions : List (Definition π)) :
    ofDefinitions (definitions.map (Definition.map move)) = (ofDefinitions definitions).map move := by
  induction definitions with
  | nil => rfl
  | cons definition definitions ih =>
    have single : ofDefinitions [definition.map move] = (ofDefinitions [definition]).map move := by
      cases definition with
      | record kind decl => cases kind <;> rfl
      | _ => rfl
    have both := ofDefinitions_append [definition.map move] (definitions.map (Definition.map move))
    have sorted := ofDefinitions_append [definition] definitions
    rw [List.singleton_append] at both sorted
    rw [List.map_cons, both, sorted, ih, single]
    simp [append, Document.map]

/-- Changing the places of a function twice changes them once. -/
theorem FunctionDecl.map_map (move : π → ρ) (next : ρ → σ) (function : FunctionDecl π) :
    (function.map move).map next = function.map (next ∘ move) := by
  obtain ⟨name, returns, oneway, parameters, exceptions, place⟩ := function
  cases exceptions <;> simp [map, Field.map]

/-- Changing places twice changes them once. -/
theorem Document.map_map (move : π → ρ) (next : ρ → σ) (document : Document π) :
    (document.map move).map next = document.map (next ∘ move) := by
  simp [map, Typedef.map, ConstDecl.map, EnumDecl.map, EnumValue.map, Record.map, Field.map,
    Service.map, FunctionDecl.map_map]

/-- A definition whose places are not changed stays. -/
theorem Definition.map_id (definition : Definition π) : definition.map id = definition := by
  have fields : Field.map id = (id : Field π → Field π) := rfl
  have functions : FunctionDecl.map id = (id : FunctionDecl π → FunctionDecl π) := by
    funext ⟨name, returns, oneway, parameters, exceptions, place⟩
    cases exceptions <;> simp [FunctionDecl.map, fields]
  have values : EnumValue.map id = (id : EnumValue π → EnumValue π) := rfl
  cases definition with
  | inclusion | cppInclusion | space | typedef | const => rfl
  | enum decl => simp [map, EnumDecl.map, values]
  | record kind decl => simp [map, Record.map, fields]
  | service decl => simp [map, Service.map, functions]

/-- A document whose places are not changed stays. -/
theorem Document.map_id (document : Document π) : document.map id = document := by
  have same : Definition.map id = (id : Definition π → Definition π) := funext Definition.map_id
  rw [← ofDefinitions_definitions document, ← ofDefinitions_map, same, List.map_id]

end Places

end ThriftIdl
