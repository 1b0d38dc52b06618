import ThriftIdl.Proofs.Grammar.Depth
import ThriftIdl.Proofs.Places

/-!
# The places of a document

A predicate holds of the places of a part of a document (`Definition.Placed`) if it holds of the place
of each declaration, field, function and value in it. Two ways of changing places that agree on the
places of a document give the same document (`Document.map_congr`), and the places are among those of
the lexemes that spell it (`DefinitionsSpelling.placed`).
-/
namespace ThriftIdl

variable {π ρ : Type} {holds : π → Prop} {move move' : π → ρ}

section Predicates

/-- A predicate holds of the places of a function: its own and those of its fields. -/
structure FunctionDecl.Placed (holds : π → Prop) (function : FunctionDecl π) : Prop where
  /-- It holds of the place of the function. -/
  place : holds function.place
  /-- It holds of the places of the parameters. -/
  parameters : ∀ field ∈ function.parameters, holds field.place
  /-- It holds of the places of the exceptions. -/
  exceptions : ∀ fields ∈ function.exceptions, ∀ field ∈ fields, holds field.place

/-- A predicate holds of the places of a definition: its own, if it has one, and those of its
members. -/
def Definition.Placed (holds : π → Prop) : Definition π → Prop
  | .inclusion _ | .cppInclusion _ | .space _ => True
  | .typedef decl => holds decl.place
  | .const decl => holds decl.place
  | .enum decl => holds decl.place ∧ ∀ value ∈ decl.values, holds value.place
  | .record _ decl => holds decl.place ∧ ∀ field ∈ decl.fields, holds field.place
  | .service decl => holds decl.place ∧ ∀ function ∈ decl.functions, function.Placed holds

/-- A predicate holds of the places of a document. -/
def Document.Placed (holds : π → Prop) (document : Document π) : Prop :=
  ∀ definition ∈ document.definitions, definition.Placed holds

/-- A predicate holds of the places of a document if it holds of those of its definitions. -/
theorem Document.placed_ofDefinitions {definitions : List (Definition π)} :
    (ofDefinitions definitions).Placed holds ↔
      ∀ definition ∈ definitions, definition.Placed holds := by
  simp only [Placed, mem_definitions_ofDefinitions]

/-- What holds of the places of a function holds of them if it says less. -/
theorem FunctionDecl.Placed.mono {holds' : π → Prop} {function : FunctionDecl π}
    (placed : function.Placed holds) (less : ∀ place, holds place → holds' place) :
    function.Placed holds' where
  place := less _ placed.place
  parameters field mem := less _ (placed.parameters field mem)
  exceptions fields thrown field mem := less _ (placed.exceptions fields thrown field mem)

/-- What holds of the places of a definition holds of them if it says less. -/
theorem Definition.Placed.mono {holds' : π → Prop} {definition : Definition π}
    (placed : definition.Placed holds) (less : ∀ place, holds place → holds' place) :
    definition.Placed holds' := by
  cases definition with
  | inclusion | cppInclusion | space => trivial
  | typedef | const => exact less _ placed
  | enum | record => exact ⟨less _ placed.1, fun member mem => less _ (placed.2 member mem)⟩
  | service => exact ⟨less _ placed.1, fun function mem => (placed.2 function mem).mono less⟩

/-- What holds of the places of a document holds of them if it says less. -/
theorem Document.Placed.mono {holds' : π → Prop} {document : Document π}
    (placed : document.Placed holds) (less : ∀ place, holds place → holds' place) :
    document.Placed holds' := fun definition mem => (placed definition mem).mono less

end Predicates

section Congruence

/-- Changes that agree on the place of a field change it alike. -/
theorem Field.map_congr {field : Field π} (same : move field.place = move' field.place) :
    field.map move = field.map move' := by
  rw [map, map, same]

/-- Changes that agree on the places of fields change them alike. -/
theorem map_fields_congr {fields : List (Field π)}
    (same : ∀ field ∈ fields, move field.place = move' field.place) :
    fields.map (Field.map move) = fields.map (Field.map move') :=
  List.map_congr_left fun field mem => Field.map_congr (same field mem)

/-- Changes that agree on the places of a function change it alike. -/
theorem FunctionDecl.map_congr {function : FunctionDecl π}
    (same : function.Placed fun place => move place = move' place) :
    function.map move = function.map move' := by
  have exceptions : function.exceptions.map (List.map (Field.map move)) =
      function.exceptions.map (List.map (Field.map move')) :=
    Option.map_congr fun fields mem => map_fields_congr (same.exceptions fields mem)
  rw [map, map, same.place, map_fields_congr same.parameters, exceptions]

/-- Changes that agree on the places of a definition change it alike. -/
theorem Definition.map_congr {definition : Definition π}
    (same : definition.Placed fun place => move place = move' place) :
    definition.map move = definition.map move' := by
  cases definition with
  | inclusion | cppInclusion | space => rfl
  | typedef decl =>
    have place : move decl.place = move' decl.place := same
    rw [map, map, Typedef.map, Typedef.map, place]
  | const decl =>
    have place : move decl.place = move' decl.place := same
    rw [map, map, ConstDecl.map, ConstDecl.map, place]
  | enum decl =>
    have values : decl.values.map (EnumValue.map move) = decl.values.map (EnumValue.map move') := by
      refine List.map_congr_left fun value mem => ?_
      rw [EnumValue.map, EnumValue.map, same.2 value mem]
    rw [map, map, EnumDecl.map, EnumDecl.map, same.1, values]
  | record kind decl =>
    rw [map, map, Record.map, Record.map, same.1, map_fields_congr same.2]
  | service decl =>
    have functions : decl.functions.map (FunctionDecl.map move) =
        decl.functions.map (FunctionDecl.map move') :=
      List.map_congr_left fun function mem => FunctionDecl.map_congr (same.2 function mem)
    rw [map, map, Service.map, Service.map, same.1, functions]

/-- Changes that agree on the places of a document change it alike. -/
theorem Document.map_congr {document : Document π}
    (same : document.Placed fun place => move place = move' place) :
    document.map move = document.map move' := by
  have definitions : document.definitions.map (Definition.map move) =
      document.definitions.map (Definition.map move') :=
    List.map_congr_left fun definition mem => Definition.map_congr (same definition mem)
  rw [← ofDefinitions_definitions document, ← ofDefinitions_map, ← ofDefinitions_map, definitions]

end Congruence

section Spelling

variable {holds : Nat → Prop} {parted : Bool} {depth : Nat} {lexemes : List Lexeme}

/-- What holds of the places of lexemes holds of the place where they begin. -/
theorem holds_of_beginsAt {place : Nat} (begins : BeginsAt place lexemes) (some : lexemes ≠ [])
    (each : ∀ lexeme ∈ lexemes, holds lexeme.left) : holds place := by
  obtain ⟨first, others, rfl⟩ := List.exists_cons_of_ne_nil some
  have left : first.left = place := begins first rfl
  exact left ▸ each first List.mem_cons_self

/-- Items in a row are placed where their lexemes are, if each of them is. -/
theorem Sequence.placed {α : Type} {item : List Lexeme → α → Prop} {values : List α}
    {placed : α → Prop} (spelled : Sequence item lexemes values)
    (each : ∀ lexeme ∈ lexemes, holds lexeme.left)
    (one : ∀ part value, item part value → (∀ lexeme ∈ part, holds lexeme.left) → placed value) :
    ∀ value ∈ values, placed value := by
  intro value mem
  obtain ⟨part, among, inner⟩ := spelled.forall value mem
  exact one part value inner fun lexeme within => each lexeme (among.subset within)

/-- A field is placed where its lexemes are. -/
theorem FieldSpelling.placed {field : Field Nat} (spelled : FieldSpelling parted depth lexemes field)
    (each : ∀ lexeme ∈ lexemes, holds lexeme.left) : holds field.place := by
  cases spelled with
  | field ids words types isWord apart defaults separator begins =>
    refine holds_of_beginsAt begins ?_ fun lexeme mem => each lexeme ?_
    · simp [types.ne_nil]
    · simp only [List.mem_append] at mem ⊢
      tauto

/-- Fields between brackets are placed where their lexemes are. -/
theorem FieldListSpelling.placed {fields : List (Field Nat)}
    (spelled : FieldListSpelling parted depth lexemes fields)
    (each : ∀ lexeme ∈ lexemes, holds lexeme.left) : ∀ field ∈ fields, holds field.place := by
  cases spelled with
  | fields opening members closing =>
    exact members.placed (fun lexeme mem => each lexeme (by simp [mem])) fun _ _ one => one.placed

/-- A function is placed where its lexemes are. -/
theorem FunctionSpelling.placed {function : FunctionDecl Nat}
    (spelled : FunctionSpelling parted depth lexemes function)
    (each : ∀ lexeme ∈ lexemes, holds lexeme.left) : function.Placed holds := by
  cases spelled with
  | function words results isWord apart members throwing separator begins =>
    refine ⟨holds_of_beginsAt begins ?_ fun lexeme mem => each lexeme ?_,
      members.placed fun lexeme mem => each lexeme (by simp [mem]), ?_⟩
    · simp [results.ne_nil]
    · simp only [List.mem_append] at mem ⊢
      tauto
    · cases throwing with
      | absent => exact fun _ none => by cases none
      | present isThrows fields =>
        intro thrown mem
        obtain rfl := Option.some.inj mem
        exact fields.placed fun lexeme mem => each lexeme (by simp [mem])

/-- A value of an enumeration is placed where its lexemes are. -/
theorem EnumValueSpelling.placed {value : EnumValue Nat} (spelled : EnumValueSpelling lexemes value)
    (each : ∀ lexeme ∈ lexemes, holds lexeme.left) : holds value.place := by
  cases spelled <;> exact each _ List.mem_cons_self

/-- A definition is placed where its lexemes are. -/
theorem DefinitionSpelling.placed {definition : Definition Nat}
    (spelled : DefinitionSpelling parted depth lexemes definition)
    (each : ∀ lexeme ∈ lexemes, holds lexeme.left) : definition.Placed holds := by
  cases spelled with
  | inclusion | cppInclusion | space => trivial
  | typedef | const => exact each _ List.mem_cons_self
  | enum _ _ _ _ members _ =>
    refine ⟨each _ List.mem_cons_self, fun value mem => ?_⟩
    obtain ⟨part, among, one⟩ := members.forall value mem
    exact one.placed fun lexeme within => each lexeme (by simp [among within])
  | record _ _ _ _ members _ =>
    exact ⟨each _ List.mem_cons_self,
      members.placed (fun lexeme mem => each lexeme (by simp [mem])) fun _ _ one => one.placed⟩
  | service _ _ _ _ _ members _ =>
    exact ⟨each _ List.mem_cons_self,
      members.placed (fun lexeme mem => each lexeme (by simp [mem])) fun _ _ one => one.placed⟩

/-- Definitions are placed where their lexemes are. -/
theorem DefinitionsSpelling.placed {definitions : List (Definition Nat)}
    (spelled : DefinitionsSpelling parted depth lexemes definitions)
    (each : ∀ lexeme ∈ lexemes, holds lexeme.left) :
    (Document.ofDefinitions definitions).Placed holds :=
  Document.placed_ofDefinitions.2 (Sequence.placed spelled each fun _ _ one => one.placed)

end Spelling

end ThriftIdl
