import ThriftIdl.Proofs.Places
import ThriftIdl.Token.Follow

/-!
# Names that are keywords elsewhere

A name may be a word that is a keyword in other places, if it is none where it stands (`Free`). In a
type no name is a keyword that begins a type (`Document.Settled`). A name that stands after a list
type, or that a member begins with which comes after a list separator, is none of the keywords that
may stand there (`Document.Clear`). Where a function may come after another without a list separator,
it does not begin with the word for exceptions (`Document.Unthrown`). All of this is so where no name
is a keyword of the language (`Document.clear_of_names`).
-/
namespace ThriftIdl

variable {π ρ : Type}

/-- Keywords, among the kinds of tokens. -/
def Terminal.isKeyword : Terminal → Bool
  | keyword _ => true
  | _ => false

/-- A name is no keyword that is expected. -/
def Free (expected : Expected) (name : String) : Prop :=
  ∀ word : Keyword, .keyword word ∈ expected → name ≠ word.text

section Free

variable {expected : Expected}

/-- Fewer words are keywords where fewer are expected. -/
theorem Free.mono {expected' : Expected} {name : String} (free : Free expected name)
    (less : expected'.filter Terminal.isKeyword ⊆ expected) : Free expected' name :=
  fun _ mem => free _ (less (List.mem_filter.2 ⟨mem, rfl⟩))

/-- A name is no keyword where no keywords are expected. -/
theorem free_of_no_keyword (name : String) (none : expected.filter Terminal.isKeyword = []) :
    Free expected name :=
  have free : Free [] name := by simp [Free]
  free.mono (by simp [none])

end Free

section Settled

/-- No name in a type is a keyword that begins a type. -/
def FieldType.Settled : FieldType → Prop
  | .base _ => True
  | .map key value => key.Settled ∧ value.Settled
  | .set element => element.Settled
  | .list element => element.Settled
  | .named name => Free Follow.type name

/-- The types in a function are settled. -/
structure FunctionDecl.Settled (function : FunctionDecl π) : Prop where
  /-- The type of the result is. -/
  returns : ∀ type ∈ function.returns, type.Settled
  /-- The types of the parameters are. -/
  parameters : ∀ field ∈ function.parameters, field.type.Settled
  /-- The types of the exceptions are. -/
  exceptions : ∀ field ∈ function.exceptions.getD [], field.type.Settled

/-- The types in a definition are settled. -/
def Definition.Settled : Definition π → Prop
  | .inclusion _ | .cppInclusion _ | .space _ | .enum _ => True
  | .typedef decl => decl.old.Settled
  | .const decl => decl.type.Settled
  | .record _ decl => ∀ field ∈ decl.fields, field.type.Settled
  | .service decl => ∀ function ∈ decl.functions, function.Settled

/-- The types in a document are settled. -/
def Document.Settled (document : Document π) : Prop :=
  ∀ definition ∈ document.definitions, definition.Settled

/-- A document is settled if its definitions are. -/
theorem Document.settled_ofDefinitions {definitions : List (Definition π)} :
    (ofDefinitions definitions).Settled ↔ ∀ definition ∈ definitions, definition.Settled := by
  simp only [Settled, mem_definitions_ofDefinitions]

end Settled

section Clear

/-- A name may follow a type: after a list type it is not the keyword of a type of another language. -/
def FieldType.Precedes (type : FieldType) (name : String) : Prop :=
  ∀ element, type = .list element → name ≠ "cpp_type"

/-- A constant is no name that is a keyword after a list separator. -/
def ConstValue.Later : ConstValue → Prop
  | .name word => Free Follow.afterSeparator word
  | .literal _ | .int _ | .double _ | .list _ | .map _ => True

mutual
/-- No element of a list and no key of a map in a constant, but for the first, is a keyword after a
list separator. -/
def ConstValue.Clear : ConstValue → Prop
  | .list values => (∀ value ∈ values.tail, value.Later) ∧ ClearValues values
  | .map entries => (∀ entry ∈ entries.tail, entry.1.Later) ∧ ClearEntries entries
  | .name _ | .literal _ | .int _ | .double _ => True

/-- The same in each of some constants. -/
def ClearValues : List ConstValue → Prop
  | [] => True
  | value :: values => value.Clear ∧ ClearValues values

/-- The same in each of some entries of a map. -/
def ClearEntries : List (ConstValue × ConstValue) → Prop
  | [] => True
  | (key, value) :: entries => (key.Clear ∧ value.Clear) ∧ ClearEntries entries
end

/-- Constants are clear if each of them is. -/
theorem clearValues_iff {values : List ConstValue} :
    ClearValues values ↔ ∀ value ∈ values, value.Clear := by
  induction values with
  | nil => simp [ClearValues]
  | cons value values ih => rw [ClearValues, ih, List.forall_mem_cons]

/-- Entries of a map are clear if the key and the value of each of them is. -/
theorem clearEntries_iff {entries : List (ConstValue × ConstValue)} :
    ClearEntries entries ↔ ∀ entry ∈ entries, entry.1.Clear ∧ entry.2.Clear := by
  induction entries with
  | nil => simp [ClearEntries]
  | cons entry entries ih => rw [ClearEntries, ih, List.forall_mem_cons]

/-- A field does not begin with a name that is a keyword after a list separator. -/
def Field.Later (field : Field π) : Prop :=
  field.id = none → field.requiredness = .unstated → ∀ name, field.type = .named name →
    Free Follow.afterSeparator name

/-- Fields in a row are not mistaken for others. -/
structure ClearFields (fields : List (Field π)) : Prop where
  /-- The names may follow the types. -/
  names : ∀ field ∈ fields, field.type.Precedes field.name
  /-- The default values are clear. -/
  values : ∀ field ∈ fields, ∀ value ∈ field.defaultValue, value.Clear
  /-- Fields but the first stand after others. -/
  later : ∀ field ∈ fields.tail, field.Later

/-- The parts of a function are not mistaken for others. -/
structure FunctionDecl.Clear (function : FunctionDecl π) : Prop where
  /-- The name may follow the result. -/
  name : ∀ type ∈ function.returns, type.Precedes function.name
  /-- The parameters are clear. -/
  parameters : ClearFields function.parameters
  /-- The exceptions are clear. -/
  exceptions : ClearFields (function.exceptions.getD [])

/-- A function does not begin with a name that is a keyword after a list separator. -/
def FunctionDecl.Later (function : FunctionDecl π) : Prop :=
  function.oneway = false → ∀ name, function.returns = some (.named name) →
    Free Follow.afterSeparator name

/-- A function does not begin with the word for exceptions, which is a keyword after the parameters of
another function. -/
def FunctionDecl.Unthrown (function : FunctionDecl π) : Prop :=
  function.oneway = false → function.returns ≠ some (.named "throws")

/-- A value of an enumeration does not begin with a keyword after a list separator. -/
def EnumValue.Later (value : EnumValue π) : Prop := Free Follow.afterSeparator value.name

/-- Names in a definition are no keywords where they stand after a list type, or first in a member that
comes after another. -/
def Definition.Clear : Definition π → Prop
  | .inclusion _ | .cppInclusion _ | .space _ => True
  | .typedef decl => decl.old.Precedes decl.name
  | .const decl => decl.type.Precedes decl.name ∧ decl.value.Clear
  | .enum decl => ∀ value ∈ decl.values.tail, value.Later
  | .record _ decl => ClearFields decl.fields
  | .service decl => (∀ function ∈ decl.functions, function.Clear) ∧
      ∀ function ∈ decl.functions.tail, function.Later

/-- Names in a document are no keywords where they stand after a list type, or first in a member that
comes after another. -/
def Document.Clear (document : Document π) : Prop :=
  ∀ definition ∈ document.definitions, definition.Clear

/-- A document is clear if its definitions are. -/
theorem Document.clear_ofDefinitions {definitions : List (Definition π)} :
    (ofDefinitions definitions).Clear ↔ ∀ definition ∈ definitions, definition.Clear := by
  simp only [Clear, mem_definitions_ofDefinitions]

/-- No function of a service, but for the first, begins with the word for exceptions. -/
def Definition.Unthrown : Definition π → Prop
  | .service decl => ∀ function ∈ decl.functions.tail, function.Unthrown
  | _ => True

/-- The same in each service of a document. -/
def Document.Unthrown (document : Document π) : Prop :=
  ∀ definition ∈ document.definitions, definition.Unthrown

/-- The same in each of some definitions. -/
theorem Document.unthrown_ofDefinitions {definitions : List (Definition π)} :
    (ofDefinitions definitions).Unthrown ↔ ∀ definition ∈ definitions, definition.Unthrown := by
  simp only [Unthrown, mem_definitions_ofDefinitions]

end Clear

section Names

/-- The names of types in a type. -/
def FieldType.names : FieldType → List String
  | .base _ => []
  | .map key value => key.names ++ value.names
  | .set element => element.names
  | .list element => element.names
  | .named name => [name]

mutual
/-- The names that a constant refers to. -/
def ConstValue.names : ConstValue → List String
  | .name name => [name]
  | .literal _ | .int _ | .double _ => []
  | .list values => namesOfValues values
  | .map entries => namesOfEntries entries

/-- The names that some constants refer to. -/
def namesOfValues : List ConstValue → List String
  | [] => []
  | value :: values => value.names ++ namesOfValues values

/-- The names that the entries of a map refer to. -/
def namesOfEntries : List (ConstValue × ConstValue) → List String
  | [] => []
  | (key, value) :: entries => key.names ++ value.names ++ namesOfEntries entries
end

/-- The name of a field, and the names in its type and its default value. -/
def Field.names (field : Field π) : List String :=
  field.name :: (field.type.names ++ field.defaultValue.toList.flatMap ConstValue.names)

/-- The name of a function, and the names in its parts. -/
def FunctionDecl.names (function : FunctionDecl π) : List String :=
  function.name :: (function.returns.toList.flatMap FieldType.names ++
    function.parameters.flatMap Field.names ++
    (function.exceptions.getD []).flatMap Field.names)

/-- The name that a definition declares, and the names in its parts. The name of a namespace and that
of an extended service are left out, because they are never taken for keywords. -/
def Definition.names : Definition π → List String
  | .inclusion _ | .cppInclusion _ | .space _ => []
  | .typedef decl => decl.name :: decl.old.names
  | .const decl => decl.name :: (decl.type.names ++ decl.value.names)
  | .enum decl => decl.name :: decl.values.map (·.name)
  | .record _ decl => decl.name :: decl.fields.flatMap Field.names
  | .service decl => decl.name :: decl.functions.flatMap FunctionDecl.names

/-- The names of a document: those of its declarations and their members, those of types, and those
that constants refer to. -/
def Document.names (document : Document π) : List String :=
  document.definitions.flatMap Definition.names

/-- A name is no keyword. -/
def IsFree (name : String) : Prop := ∀ word : Keyword, name ≠ word.text

/-- A name that is no keyword is none wherever it stands. -/
theorem IsFree.free {name : String} (isFree : IsFree name) (expected : Expected) :
    Free expected name :=
  fun word _ => isFree word

/-- A type without keywords for names is settled. -/
theorem FieldType.settled_of_names {type : FieldType} (free : ∀ name ∈ type.names, IsFree name) :
    type.Settled := by
  induction type with
  | base => trivial
  | named name => exact (free name (by simp [names])).free _
  | set element ih | list element ih => exact ih free
  | map key value key_ih value_ih =>
    exact ⟨key_ih fun name mem => free name (List.mem_append_left _ mem),
      value_ih fun name mem => free name (List.mem_append_right _ mem)⟩

/-- A constant that is no keyword may stand after another. -/
theorem ConstValue.later_of_names {value : ConstValue} (free : ∀ name ∈ value.names, IsFree name) :
    value.Later := by
  cases value with
  | name name => exact (free name (by simp [names])).free _
  | literal | int | double | list | map => trivial

mutual
/-- A constant without keywords for names is clear. -/
theorem ConstValue.clear_of_names :
    ∀ value : ConstValue, (∀ name ∈ value.names, IsFree name) → value.Clear
  | .name _, _ | .literal _, _ | .int _, _ | .double _, _ => trivial
  | .list values, free => by
    have each := clearValues_of_names values free
    exact ⟨fun value mem => (each value (List.mem_of_mem_tail mem)).1,
      clearValues_iff.2 fun value mem => (each value mem).2⟩
  | .map entries, free => by
    have each := clearEntries_of_names entries free
    exact ⟨fun entry mem => (each entry (List.mem_of_mem_tail mem)).1,
      clearEntries_iff.2 fun entry mem => (each entry mem).2⟩

/-- The same of each of some constants. -/
theorem clearValues_of_names : ∀ values : List ConstValue,
    (∀ name ∈ namesOfValues values, IsFree name) →
      ∀ value ∈ values, value.Later ∧ value.Clear
  | [], _ => by simp
  | value :: values, free => by
    have first : ∀ name ∈ value.names, IsFree name :=
      fun name mem => free name (List.mem_append_left _ mem)
    exact List.forall_mem_cons.2 ⟨⟨ConstValue.later_of_names first, value.clear_of_names first⟩,
      clearValues_of_names values fun name mem => free name (List.mem_append_right _ mem)⟩

/-- The same of each of some entries of a map. -/
theorem clearEntries_of_names : ∀ entries : List (ConstValue × ConstValue),
    (∀ name ∈ namesOfEntries entries, IsFree name) →
      ∀ entry ∈ entries, entry.1.Later ∧ entry.1.Clear ∧ entry.2.Clear
  | [], _ => by simp
  | (key, value) :: entries, free => by
    have first : ∀ name ∈ key.names, IsFree name := fun name mem =>
      free name (List.mem_append_left _ (List.mem_append_left _ mem))
    have second : ∀ name ∈ value.names, IsFree name := fun name mem =>
      free name (List.mem_append_left _ (List.mem_append_right _ mem))
    exact List.forall_mem_cons.2 ⟨⟨ConstValue.later_of_names first, key.clear_of_names first,
      value.clear_of_names second⟩,
      clearEntries_of_names entries fun name mem => free name (List.mem_append_right _ mem)⟩
end

/-- Fields without keywords for names are settled and clear. -/
theorem clearFields_of_names {fields : List (Field π)}
    (free : ∀ name ∈ fields.flatMap Field.names, IsFree name) :
    (∀ field ∈ fields, field.type.Settled) ∧ ClearFields fields := by
  have each : ∀ field ∈ fields, IsFree field.name ∧ (∀ name ∈ field.type.names, IsFree name) ∧
      ∀ value ∈ field.defaultValue, ∀ name ∈ value.names, IsFree name := by
    intro field mem
    have all := fun name among => free name (List.mem_flatMap.2 ⟨field, mem, among⟩)
    obtain ⟨name, parts⟩ := List.forall_mem_cons.1 all
    obtain ⟨types, values⟩ := List.forall_mem_append.1 parts
    refine ⟨name, types, fun value mem name among => values name ?_⟩
    exact List.mem_flatMap.2 ⟨value, Option.mem_toList.2 mem, among⟩
  refine ⟨fun field mem => FieldType.settled_of_names (each field mem).2.1,
    fun field mem _ _ => (each field mem).1 .cppType,
    fun field mem value among => value.clear_of_names ((each field mem).2.2 value among), ?_⟩
  intro field mem _ _ name same
  have types := (each field (List.mem_of_mem_tail mem)).2.1
  exact (types name (by simp [same, FieldType.names])).free _

/-- A function without keywords for names is settled and clear, and may stand after another. -/
theorem FunctionDecl.clear_of_names {function : FunctionDecl π}
    (free : ∀ name ∈ function.names, IsFree name) :
    function.Settled ∧ function.Clear ∧ function.Later ∧ function.Unthrown := by
  obtain ⟨name, parts⟩ := List.forall_mem_cons.1 free
  obtain ⟨others, exceptions⟩ := List.forall_mem_append.1 parts
  obtain ⟨results, parameters⟩ := List.forall_mem_append.1 others
  have types : ∀ type ∈ function.returns, ∀ name ∈ type.names, IsFree name :=
    fun type mem name among => results name
      (List.mem_flatMap.2 ⟨type, Option.mem_toList.2 mem, among⟩)
  have first := clearFields_of_names parameters
  have second := clearFields_of_names exceptions
  refine ⟨⟨fun type mem => FieldType.settled_of_names (types type mem), first.1, second.1⟩,
    ⟨fun _ _ _ _ => name .cppType, first.2, second.2⟩, ?_, ?_⟩
  · intro _ name same
    exact (types _ same name (by simp [FieldType.names])).free _
  · intro _ same
    exact types _ same "throws" (by simp [FieldType.names]) .throws rfl

/-- A definition without keywords for names is settled and clear, and none of its functions begins with
the word for exceptions. -/
theorem Definition.clear_of_names {definition : Definition π}
    (free : ∀ name ∈ definition.names, IsFree name) :
    definition.Settled ∧ definition.Clear ∧ definition.Unthrown := by
  cases definition with
  | inclusion | cppInclusion | space => exact ⟨trivial, trivial, trivial⟩
  | typedef decl =>
    obtain ⟨name, types⟩ := List.forall_mem_cons.1 free
    exact ⟨FieldType.settled_of_names types, fun _ _ => name .cppType, trivial⟩
  | const decl =>
    obtain ⟨name, parts⟩ := List.forall_mem_cons.1 free
    obtain ⟨types, values⟩ := List.forall_mem_append.1 parts
    exact ⟨FieldType.settled_of_names types, ⟨fun _ _ => name .cppType,
      decl.value.clear_of_names values⟩, trivial⟩
  | enum decl =>
    obtain ⟨-, values⟩ := List.forall_mem_cons.1 free
    exact ⟨trivial, fun value mem =>
      (values value.name (List.mem_map.2 ⟨value, List.mem_of_mem_tail mem, rfl⟩)).free _, trivial⟩
  | record kind decl =>
    obtain ⟨-, fields⟩ := List.forall_mem_cons.1 free
    obtain ⟨settled, clear⟩ := clearFields_of_names fields
    exact ⟨settled, clear, trivial⟩
  | service decl =>
    obtain ⟨-, functions⟩ := List.forall_mem_cons.1 free
    have each : ∀ function ∈ decl.functions,
        function.Settled ∧ function.Clear ∧ function.Later ∧ function.Unthrown :=
      fun function mem => FunctionDecl.clear_of_names fun name among =>
        functions name (List.mem_flatMap.2 ⟨function, mem, among⟩)
    exact ⟨fun function mem => (each function mem).1,
      ⟨fun function mem => (each function mem).2.1,
        fun function mem => (each function (List.mem_of_mem_tail mem)).2.2.1⟩,
      fun function mem => (each function (List.mem_of_mem_tail mem)).2.2.2⟩

/-- A document without keywords for names is settled and clear, and none of its functions begins with
the word for exceptions. -/
theorem Document.clear_of_names {document : Document π}
    (free : ∀ name ∈ document.names, IsFree name) :
    document.Settled ∧ document.Clear ∧ document.Unthrown :=
  have each := fun definition mem => Definition.clear_of_names fun name among =>
    free name (List.mem_flatMap.2 ⟨definition, mem, among⟩)
  ⟨fun definition mem => (each definition mem).1, fun definition mem => (each definition mem).2.1,
    fun definition mem => (each definition mem).2.2⟩

end Names

section Places

/-- A definition has the same names wherever its parts are. -/
theorem Definition.names_map (move : π → ρ) (definition : Definition π) :
    (definition.map move).names = definition.names := by
  have fields : ∀ fields : List (Field π),
      (fields.map (Field.map move)).flatMap Field.names = fields.flatMap Field.names := by
    intro fields
    rw [List.flatMap_map]
    rfl
  cases definition with
  | inclusion | cppInclusion | space | typedef | const => rfl
  | enum decl => simp [names, map, EnumDecl.map, EnumValue.map]
  | record kind decl => simp [names, map, Record.map, fields]
  | service decl =>
    have functions : ∀ function : FunctionDecl π,
        (function.map move).names = function.names := by
      rintro ⟨name, returns, oneway, parameters, exceptions, place⟩
      cases exceptions <;> simp [FunctionDecl.names, FunctionDecl.map, fields]
    simp [names, map, Service.map, List.flatMap_map, functions]

/-- A document has the same names wherever its parts are. -/
theorem Document.names_map (move : π → ρ) (document : Document π) :
    (document.map move).names = document.names := by
  simp [names, definitions_map, List.flatMap_map, Definition.names_map]

/-- The exceptions of a function, if there are any, are at other places where its parts are. -/
theorem FunctionDecl.exceptions_map (move : π → ρ) (function : FunctionDecl π) :
    (function.map move).exceptions.getD [] =
      (function.exceptions.getD []).map (Field.map move) := by
  obtain ⟨name, returns, oneway, parameters, exceptions, place⟩ := function
  cases exceptions <;> rfl

/-- The types of fields are settled wherever the fields are. -/
theorem settled_fields_map (move : π → ρ) {fields : List (Field π)} :
    (∀ field ∈ fields.map (Field.map move), field.type.Settled) ↔
      ∀ field ∈ fields, field.type.Settled :=
  List.forall_mem_map

/-- The types of a function are settled wherever its parts are. -/
theorem FunctionDecl.settled_map (move : π → ρ) {function : FunctionDecl π} :
    (function.map move).Settled ↔ function.Settled := by
  constructor
  · rintro ⟨returns, parameters, throws⟩
    rw [exceptions_map] at throws
    exact ⟨returns, (settled_fields_map move).1 parameters, (settled_fields_map move).1 throws⟩
  · rintro ⟨returns, parameters, throws⟩
    refine ⟨returns, (settled_fields_map move).2 parameters, ?_⟩
    rw [exceptions_map]
    exact (settled_fields_map move).2 throws

/-- The types of a document are settled wherever its parts are. -/
theorem Document.settled_map (move : π → ρ) {document : Document π} :
    (document.map move).Settled ↔ document.Settled := by
  have each : ∀ definition : Definition π, (definition.map move).Settled ↔ definition.Settled := by
    intro definition
    cases definition with
    | inclusion | cppInclusion | space | typedef | const | enum => rfl
    | record kind decl => exact List.forall_mem_map
    | service decl =>
      simp only [Definition.map, Definition.Settled, Service.map, List.forall_mem_map,
        FunctionDecl.settled_map]
  simp only [Settled, definitions_map, List.forall_mem_map, each]

/-- Fields are clear wherever they are. -/
theorem clearFields_map (move : π → ρ) {fields : List (Field π)} :
    ClearFields (fields.map (Field.map move)) ↔ ClearFields fields := by
  have later : (∀ field ∈ (fields.map (Field.map move)).tail, field.Later) ↔
      ∀ field ∈ fields.tail, field.Later := by
    rw [← List.map_tail]
    exact List.forall_mem_map
  have names : (∀ field ∈ fields.map (Field.map move), field.type.Precedes field.name) ↔
      ∀ field ∈ fields, field.type.Precedes field.name := List.forall_mem_map
  have values : (∀ field ∈ fields.map (Field.map move), ∀ value ∈ field.defaultValue, value.Clear) ↔
      ∀ field ∈ fields, ∀ value ∈ field.defaultValue, value.Clear := List.forall_mem_map
  exact ⟨fun clear => ⟨names.1 clear.names, values.1 clear.values, later.1 clear.later⟩,
    fun clear => ⟨names.2 clear.names, values.2 clear.values, later.2 clear.later⟩⟩

/-- A function is clear wherever its parts are. -/
theorem FunctionDecl.clear_map (move : π → ρ) {function : FunctionDecl π} :
    (function.map move).Clear ↔ function.Clear := by
  constructor
  · rintro ⟨name, parameters, throws⟩
    rw [exceptions_map] at throws
    exact ⟨name, (clearFields_map move).1 parameters, (clearFields_map move).1 throws⟩
  · rintro ⟨name, parameters, throws⟩
    refine ⟨name, (clearFields_map move).2 parameters, ?_⟩
    rw [exceptions_map]
    exact (clearFields_map move).2 throws

/-- A document is clear wherever its parts are. -/
theorem Document.clear_map (move : π → ρ) {document : Document π} :
    (document.map move).Clear ↔ document.Clear := by
  have each : ∀ definition : Definition π, (definition.map move).Clear ↔ definition.Clear := by
    intro definition
    cases definition with
    | inclusion | cppInclusion | space | typedef | const => rfl
    | enum decl =>
      simp only [Definition.map, Definition.Clear, EnumDecl.map, ← List.map_tail,
        List.forall_mem_map]
      rfl
    | record kind decl => exact clearFields_map move
    | service decl =>
      simp only [Definition.map, Definition.Clear, Service.map, ← List.map_tail,
        List.forall_mem_map, FunctionDecl.clear_map]
      rfl
  simp only [Clear, definitions_map, List.forall_mem_map, each]

end Places

end ThriftIdl
