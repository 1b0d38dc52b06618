import ThriftIdl.Proofs.Grammar.Nodes
import ThriftIdl.Proofs.Reader.Confined
import ThriftIdl.Proofs.Reader.Elements

/-!
# Productions stay in their text

Every production leaves an end of its text, and the places in what it gives are places in the text
(`Production.confined`). There is one lemma for each reader, made of those of its parts: constants and
types have no nodes, and declarations are nodes with those of their members inside. Each node is what
its own production gives on the end of the text that begins at its place (`Node.ReadIn`).
-/
namespace ThriftIdl

/-- A node is what its production gives on an end of a text, and placed where that end begins. -/
def Node.ReadIn (depth : Nat) (source : List Char) (node : Node Nat) : Prop :=
  ∃ text rest, text <:+ source ∧ text.length = node.place ∧
    (node.production.reader depth).Gives text node.reading rest

/-- A node is placed in the text in which it is read. -/
theorem Node.ReadIn.place_le {depth : Nat} {source : List Char} {node : Node Nat}
    (read : node.ReadIn depth source) : node.place ≤ source.length := by
  obtain ⟨text, _, suffix, place, -⟩ := read
  exact place ▸ suffix.length_le

namespace Reader

section Containers

variable {α : Type} {eats : Bool} {rule : Reader (List Char) α} {depth : Nat}

/-- What separates elements has at least one character. -/
theorem bare_elementSeparator : (elementSeparator : Reader (List Char) Unit).Bare eats := by
  have bare : (elementSeparator : Reader (List Char) Unit).Bare false := by
    apply bare_skipSeparator.bind
    intro some
    cases some with
    | true =>
      apply bare_listSeparator.optional.bind
      intro _
      exact bare_skipSeparator.bind fun _ => bare_pure
    | false =>
      apply bare_listSeparator.bind
      intro _
      exact bare_skipSeparator.bind fun _ => bare_pure
  -- Where there are no blanks it is the list separator that is read.
  exact fun source => (bare source).eating length_lt_of_elementSeparator

/-- Elements have their places where each of them has. -/
theorem Confined.separated {source : List Char} {holds : α → Prop}
    (confined : Confined false source holds rule) :
    Confined false source (fun values => ∀ value ∈ values, holds value) (separated rule) := by
  apply confined.optional.bind
  intro first here
  cases first with
  | none => exact confined_pure (by simp)
  | some first =>
    have element : Confined false source holds (elementSeparator >>= fun _ => rule) :=
      (bare_elementSeparator source).bind fun _ _ => confined
    apply element.optional.many.bind
    intro others there
    apply (bare_skipSeparator source).bind
    intro _ _
    apply (bare_listSeparator.optional source).bind
    intro _ _
    apply (bare_skipSeparator source).bind
    intro _ _
    exact confined_pure (List.forall_mem_cons.2 ⟨here first rfl, there⟩)

/-- The elements of a body may be missing. -/
theorem Bare.separated (bare : rule.Bare false) : (separated rule).Bare false := fun source =>
  (bare source).separated.mono fun _ _ => trivial

/-- A list has at least its brackets. -/
theorem bare_constListOf {inner : Option (Reader (List Char) ConstValue)}
    (each : ∀ rule ∈ inner, rule.Bare false) : (constListOf inner).Bare eats := by
  refine (bare_character (by decide)).bind fun _ => ?_
  refine bare_inside (by decide) fun value mem => ?_
  apply bare_skipSeparator.bind
  intro _
  apply (each value mem).separated.bind
  intro values
  exact (bare_character (by decide)).bind fun _ => bare_pure

/-- An entry of a map is read in its text. -/
theorem bare_constEntry {value : Reader (List Char) ConstValue} (bare : value.Bare false) :
    (constEntry value).Bare false := by
  apply bare.bind
  intro key
  apply bare_skipSeparator.bind
  intro _
  refine (bare_character (by decide)).bind fun _ => ?_
  apply bare_skipSeparator.bind
  intro _
  exact bare.bind fun content => bare_pure

/-- A map has at least its brackets. -/
theorem bare_constMapOf {inner : Option (Reader (List Char) ConstValue)}
    (each : ∀ rule ∈ inner, rule.Bare false) : (constMapOf inner).Bare eats := by
  refine (bare_character (by decide)).bind fun _ => ?_
  refine bare_inside (by decide) fun value mem => ?_
  apply bare_skipSeparator.bind
  intro _
  apply (bare_constEntry (each value mem)).separated.bind
  intro entries
  exact (bare_character (by decide)).bind fun _ => bare_pure

/-- A constant has at least one character if it stays in its text inside. -/
theorem bare_constValueOf {inner : Option (Reader (List Char) ConstValue)}
    (each : ∀ rule ∈ inner, rule.Bare false) : (constValueOf inner).Bare eats := by
  refine bare_alternatives (by decide) ?_
  simp only [simpleConstants, List.cons_append, List.nil_append, List.forall_mem_cons]
  exact ⟨bare_name.map, bare_literal.map, bare_strictDouble.map, bare_integer.map,
    bare_constListOf each, bare_constMapOf each, by simp⟩

/-- A constant has at least one character. -/
theorem bare_constValue (depth : Nat) : (constValue depth : Reader (List Char) ConstValue).Bare eats := by
  induction depth generalizing eats with
  | zero => exact bare_constValueOf (by simp)
  | succ depth ih => exact bare_constValueOf (by simpa using ih)

/-- What stands inside a constant has at least one character. -/
theorem bare_innerConstant :
    ∀ rule ∈ (innerConstant depth : Option (Reader (List Char) ConstValue)), rule.Bare eats := by
  cases depth with
  | zero => exact fun _ none => by cases none
  | succ depth =>
    intro rule mem
    obtain rfl := Option.some.inj mem
    exact bare_constValue depth

/-- A type of another language has at least its keyword. -/
theorem bare_cppType : (cppType : Reader (List Char) String).Bare eats := by
  refine (bare_keyword (by decide)).bind fun _ => ?_
  exact bare_separator.bind fun _ => bare_literal

/-- The type of another language in front of a bracket may be missing. -/
theorem bare_leadingCppType : (leadingCppType : Reader (List Char) Unit).Bare false := by
  apply bare_skipSeparator.bind
  intro _
  apply bare_cppType.optional.bind
  intro found
  cases found with
  | none => exact bare_pure
  | some => exact bare_skipSeparator.bind fun _ => bare_pure

/-- A map type has at least its keyword. -/
theorem bare_mapTypeOf {inner : Option (Reader (List Char) FieldType)}
    (each : ∀ rule ∈ inner, rule.Bare false) : (mapTypeOf inner).Bare eats := by
  refine (bare_keyword (by decide)).bind fun _ => ?_
  apply bare_leadingCppType.bind
  intro _
  refine (bare_character (by decide)).bind fun _ => ?_
  refine bare_inside (by decide) fun type mem => ?_
  apply bare_skipSeparator.bind
  intro _
  apply (each type mem).bind
  intro key
  apply bare_skipSeparator.bind
  intro _
  refine (bare_character (by decide)).bind fun _ => ?_
  apply bare_skipSeparator.bind
  intro _
  apply (each type mem).bind
  intro value
  apply bare_skipSeparator.bind
  intro _
  exact (bare_character (by decide)).bind fun _ => bare_pure

/-- A set type has at least its keyword. -/
theorem bare_setTypeOf {inner : Option (Reader (List Char) FieldType)}
    (each : ∀ rule ∈ inner, rule.Bare false) : (setTypeOf inner).Bare eats := by
  refine (bare_keyword (by decide)).bind fun _ => ?_
  apply bare_leadingCppType.bind
  intro _
  refine (bare_character (by decide)).bind fun _ => ?_
  refine bare_inside (by decide) fun type mem => ?_
  apply bare_skipSeparator.bind
  intro _
  apply (each type mem).bind
  intro element
  apply bare_skipSeparator.bind
  intro _
  exact (bare_character (by decide)).bind fun _ => bare_pure

/-- The inside of a list type has at least its brackets. -/
theorem bare_listTypeBody {inner : Option (Reader (List Char) FieldType)}
    (each : ∀ rule ∈ inner, rule.Bare false) : (listTypeBody inner).Bare eats := by
  refine (bare_character (by decide)).bind fun _ => ?_
  refine bare_inside (by decide) fun type mem => ?_
  apply bare_skipSeparator.bind
  intro _
  apply (each type mem).bind
  intro element
  apply bare_skipSeparator.bind
  intro _
  exact (bare_character (by decide)).bind fun _ => bare_pure

/-- A list type has at least its keyword. -/
theorem bare_listTypeOf {inner : Option (Reader (List Char) FieldType)}
    (each : ∀ rule ∈ inner, rule.Bare false) : (listTypeOf inner).Bare eats := by
  have trailing : (trailingCppType : Reader (List Char) String).Bare false :=
    bare_skipSeparator.andThen fun _ => bare_cppType
  refine (bare_keyword (by decide)).bind fun _ => ?_
  apply bare_skipSeparator.bind
  intro _
  apply (bare_listTypeBody each).bind
  intro element
  exact trailing.optional.bind fun _ => bare_pure

/-- A base type has at least one character. -/
theorem bare_baseType : (baseType : Reader (List Char) BaseType).Bare eats :=
  bare_oneOf trivial (by decide)

/-- A container type has at least its keyword. -/
theorem bare_containerTypeOf {inner : Option (Reader (List Char) FieldType)}
    (each : ∀ rule ∈ inner, rule.Bare false) : (containerTypeOf inner).Bare eats := by
  refine bare_alternatives (by decide) ?_
  simp only [List.forall_mem_cons]
  exact ⟨bare_mapTypeOf each, bare_setTypeOf each, bare_listTypeOf each, by simp⟩

/-- A type has at least one character if it stays in its text inside. -/
theorem bare_fieldTypeOf {inner : Option (Reader (List Char) FieldType)}
    (each : ∀ rule ∈ inner, rule.Bare false) : (fieldTypeOf inner).Bare eats := by
  refine bare_alternatives (by decide) ?_
  simp only [List.forall_mem_cons]
  exact ⟨bare_baseType.map, bare_containerTypeOf each, bare_name.map, by simp⟩

/-- A type has at least one character. -/
theorem bare_fieldType (depth : Nat) : (fieldType depth : Reader (List Char) FieldType).Bare eats := by
  induction depth generalizing eats with
  | zero => exact bare_fieldTypeOf (by simp)
  | succ depth ih => exact bare_fieldTypeOf (by simpa using ih)

/-- A type that may get a second name has at least one character. -/
theorem bare_definitionType (depth : Nat) :
    (definitionType depth : Reader (List Char) FieldType).Bare eats := by
  have each : ∀ rule ∈ (innerType depth : Option (Reader (List Char) FieldType)), rule.Bare false := by
    cases depth with
    | zero => exact fun _ none => by cases none
    | succ depth =>
      intro rule mem
      obtain rfl := Option.some.inj mem
      exact bare_fieldType depth
  refine bare_alternatives (by decide) ?_
  simp only [List.forall_mem_cons]
  exact ⟨bare_baseType.map, bare_containerTypeOf each, by simp⟩

end Containers

/-- What begins with its place and is given by a production is a node that is read in the text, besides
those inside. -/
theorem confined_node {α : Type} {eats : Bool} {depth : Nat} {source : List Char}
    {next : Nat → Reader (List Char) α} (node : α → Node Nat) (inner : α → List (Node Nat))
    (produced : ∀ {text value rest}, (here >>= next).Gives text value rest →
      ((node value).production.reader depth).Gives text (node value).reading rest)
    (confined : ∀ place, Confined eats source (fun value => (node value).place = place ∧
      ∀ part ∈ inner value, part.ReadIn depth source) (next place)) :
    Confined eats source (fun value => ∀ part ∈ node value :: inner value, part.ReadIn depth source)
      (here >>= next) := by
  intro text within
  have inside : ((here >>= next) text).Inside eats text fun value =>
      (node value).place = text.length ∧ ∀ part ∈ inner value, part.ReadIn depth source :=
    (confined text.length within).after Fault.notedPlain_none
  cases reading : (here >>= next) text with
  | fail failure rest noted =>
    rw [reading] at inside
    cases inside with
    | fail suffix faults plain => exact .fail suffix faults plain
  | ok value rest noted =>
    rw [reading] at inside
    cases inside with
    | ok suffix less given plain =>
      have read : (node value).ReadIn depth source :=
        ⟨text, rest, within, given.1.symm, produced ⟨noted, reading⟩⟩
      exact .ok suffix less (List.forall_mem_cons.2 ⟨read, given.2⟩) plain

section Members

variable {eats : Bool} {source : List Char} (depth : Nat)

/-- The number of a field has at least one digit. -/
theorem bare_fieldId : (fieldId : Reader (List Char) Int).Bare eats := by
  apply bare_integer.bind
  intro id
  apply bare_skipSeparator.bind
  intro _
  refine (bare_character (by decide)).bind fun _ => ?_
  exact bare_skipSeparator.bind fun _ => bare_pure

/-- The word that says whether a field must be set has at least one character. -/
theorem bare_requiredness : (requiredness : Reader (List Char) Requiredness).Bare eats := by
  have plain : Reason.Plain .requirednessExpected := trivial
  refine (bare_oneOf plain (by decide)).bind fun word => ?_
  exact bare_separator.bind fun _ => bare_pure

/-- A default value has at least its sign. -/
theorem bare_fieldDefault : (fieldDefault depth : Reader (List Char) ConstValue).Bare eats := by
  refine (bare_character (by decide)).bind fun _ => ?_
  exact bare_skipSeparator.bind fun _ => bare_constValue depth

/-- A list separator is read behind blanks and comments. -/
theorem bare_trailingListSeparator : (trailingListSeparator : Reader (List Char) Char).Bare eats :=
  bare_skipSeparator.andThen fun _ => bare_listSeparator

/-- A field is read in its text. -/
theorem confined_field : Confined eats source (fun field => (Node.field field).ReadIn depth source)
    (field depth : Reader (List Char) (Field Nat)) := by
  refine (confined_node Node.field (fun _ => []) (fun given => given.map Reading.field)
    fun place => ?_).mono fun _ => List.forall_mem_singleton.1
  apply (bare_fieldId.optional source).andThen
  intro id _
  apply (bare_requiredness.optional source).andThen
  intro word _
  apply (bare_fieldType depth source).bind
  intro type _
  apply (bare_separator source).bind
  intro _ _
  apply (bare_name source).bind
  intro name _
  apply (bare_skipSeparator source).bind
  intro _ _
  apply ((bare_fieldDefault depth).optional source).bind
  intro value _
  apply (bare_skipSeparator source).bind
  intro _ _
  apply (bare_listSeparator.optional source).bind
  intro _ _
  exact confined_pure ⟨rfl, by simp⟩

/-- Fields are read in their text. -/
theorem confined_fields :
    Confined false source (fun fields => ∀ field ∈ fields, (Node.field field).ReadIn depth source)
      (fields depth : Reader (List Char) (List (Field Nat))) := by
  apply Confined.many
  apply (bare_skipSeparator source).bind
  intro _ _
  exact (confined_field depth).optional

/-- Fields between brackets are nodes in the text. -/
theorem confined_fieldList {production : String} (oneLine : OneLine production) :
    Confined eats source (fun fields => ∀ field ∈ fields, (Node.field field).ReadIn depth source)
      (fieldList production depth : Reader (List Char) (List (Field Nat))) := by
  refine (bare_character oneLine source).bind fun _ _ => ?_
  apply (confined_fields depth).bind
  intro members inside
  exact (bare_character oneLine source).bind fun _ _ => confined_pure inside

/-- The word for no answer has at least one character. -/
theorem bare_oneway : (oneway : Reader (List Char) Unit).Bare eats :=
  (bare_keyword (by decide)).bind fun _ => bare_separator

/-- The type of a result has at least one character. -/
theorem bare_functionType : (functionType depth : Reader (List Char) (Option FieldType)).Bare eats := by
  refine bare_alternatives (by decide) ?_
  simp only [List.forall_mem_cons]
  exact ⟨(bare_keyword (by decide)).map, (bare_fieldType depth).map, by simp⟩

/-- Exceptions are nodes in the text. -/
theorem confined_throws :
    Confined eats source (fun fields => ∀ field ∈ fields, (Node.field field).ReadIn depth source)
      (throws depth : Reader (List Char) (List (Field Nat))) := by
  refine (bare_keyword (by decide) source).bind fun _ _ => ?_
  exact (bare_skipSeparator source).bind fun _ _ => confined_fieldList depth (by decide)

/-- A function is read in its text, and so are its fields. -/
theorem confined_function :
    Confined eats source (fun function => ∀ node ∈ function.nodes, node.ReadIn depth source)
      (function depth : Reader (List Char) (FunctionDecl Nat)) := by
  apply confined_node Node.function (fun function => function.parameters.map Node.field ++
    (function.exceptions.getD []).map Node.field) fun given => given.map Reading.function
  intro place
  apply (bare_oneway.optional source).andThen
  intro word _
  apply (bare_functionType depth source).bind
  intro returns _
  apply (bare_separator source).bind
  intro _ _
  apply (bare_name source).bind
  intro name _
  apply (bare_skipSeparator source).bind
  intro _ _
  apply (confined_fieldList depth (by decide)).bind
  intro parameters fields
  apply (bare_skipSeparator source).bind
  intro _ _
  apply (confined_throws depth).optional.bind
  intro exceptions thrown
  apply (bare_trailingListSeparator.optional source).bind
  intro _ _
  refine confined_pure ⟨rfl, List.forall_mem_append.2 ⟨List.forall_mem_map.2 fields, ?_⟩⟩
  cases exceptions with
  | none => simp
  | some exceptions => exact List.forall_mem_map.2 (thrown exceptions rfl)

/-- A value of an enumeration is read in its text. -/
theorem confined_enumValue :
    Confined eats source (fun value => (Node.enumValue value).ReadIn depth source)
      (enumValue : Reader (List Char) (EnumValue Nat)) := by
  have assignment : (enumAssignment : Reader (List Char) Int).Bare false := by
    apply bare_skipSeparator.bind
    intro _
    refine (bare_character (by decide)).bind fun _ => ?_
    exact bare_skipSeparator.bind fun _ => bare_integer
  refine (confined_node Node.enumValue (fun _ => []) (fun given => given.map Reading.enumValue)
    fun place => ?_).mono fun _ => List.forall_mem_singleton.1
  apply (bare_name source).bind
  intro name _
  exact (assignment.optional source).bind fun _ _ => confined_pure ⟨rfl, by simp⟩

end Members

section Definitions

variable {eats : Bool} {source : List Char} (depth : Nat)

/-- A constant declaration is a node in the text. -/
theorem confined_constDecl :
    Confined eats source (fun decl => ∀ node ∈ (Definition.const decl).nodes, node.ReadIn depth source)
      (constDecl depth : Reader (List Char) (ConstDecl Nat)) := by
  apply confined_node Node.const (fun _ => []) fun given =>
    given.map fun decl => Reading.definition (.const decl)
  intro place
  refine (bare_keyword (by decide) source).bind fun _ _ => ?_
  apply (bare_separator source).bind
  intro _ _
  apply (bare_fieldType depth source).bind
  intro type _
  apply (bare_separator source).bind
  intro _ _
  apply (bare_name source).bind
  intro name _
  apply (bare_skipSeparator source).bind
  intro _ _
  refine (bare_character (by decide) source).bind fun _ _ => ?_
  apply (bare_skipSeparator source).bind
  intro _ _
  apply (bare_constValue depth source).bind
  intro value _
  exact (bare_trailingListSeparator.optional source).bind fun _ _ => confined_pure ⟨rfl, by simp⟩

/-- A second name for a type is a node in the text. -/
theorem confined_typedef :
    Confined eats source (fun decl => ∀ node ∈ (Definition.typedef decl).nodes, node.ReadIn depth source)
      (typedef depth : Reader (List Char) (Typedef Nat)) := by
  apply confined_node Node.typedef (fun _ => []) fun given =>
    given.map fun decl => Reading.definition (.typedef decl)
  intro place
  refine (bare_keyword (by decide) source).bind fun _ _ => ?_
  apply (bare_separator source).bind
  intro _ _
  apply (bare_definitionType depth source).bind
  intro old _
  apply (bare_separator source).bind
  intro _ _
  apply (bare_name source).bind
  intro newName _
  exact (bare_trailingListSeparator.optional source).bind fun _ _ => confined_pure ⟨rfl, by simp⟩

/-- An enumeration is a node in the text, and so are its values. -/
theorem confined_enumDecl :
    Confined eats source (fun decl => ∀ node ∈ (Definition.enum decl).nodes, node.ReadIn depth source)
      (enumDecl : Reader (List Char) (EnumDecl Nat)) := by
  apply confined_node Node.enum (fun decl => decl.values.map Node.enumValue) fun given =>
    given.map fun decl => Reading.definition (.enum decl)
  intro place
  refine (bare_keyword (by decide) source).bind fun _ _ => ?_
  apply (bare_separator source).bind
  intro _ _
  apply (bare_name source).bind
  intro name _
  apply (bare_skipSeparator source).bind
  intro _ _
  refine (bare_character (by decide) source).bind fun _ _ => ?_
  apply (bare_skipSeparator source).bind
  intro _ _
  apply (confined_enumValue depth).separated.bind
  intro values members
  exact (bare_character (by decide) source).bind fun _ _ =>
    confined_pure ⟨rfl, List.forall_mem_map.2 members⟩

/-- A record is a node in the text, and so are its fields. -/
theorem confined_record (kind : RecordKind) :
    Confined eats source (fun decl => ∀ node ∈ (Definition.record kind decl).nodes, node.ReadIn depth source)
      (record kind depth : Reader (List Char) (Record Nat)) := by
  have produced : ∀ {text : List Char} {value rest}, (record kind depth).Gives text value rest →
      ((Node.record kind value).production.reader depth).Gives text (Node.record kind value).reading
        rest := by
    intro text value rest given
    cases kind <;> exact given.map _
  have oneLine : OneLine kind.keyword := by cases kind <;> decide
  apply confined_node (Node.record kind) (fun decl => decl.fields.map Node.field) produced
  intro place
  refine (bare_keyword ⟨by cases kind <;> decide, oneLine, oneLine⟩ source).bind fun _ _ => ?_
  apply (bare_separator source).bind
  intro _ _
  apply (bare_name source).bind
  intro name _
  apply (bare_skipSeparator source).bind
  intro _ _
  refine (bare_character oneLine source).bind fun _ _ => ?_
  apply (confined_fields depth).bind
  intro fields members
  exact (bare_character oneLine source).bind fun _ _ =>
    confined_pure ⟨rfl, List.forall_mem_map.2 members⟩

/-- A service is a node in the text, and so is all that it has. -/
theorem confined_service :
    Confined eats source (fun decl => ∀ node ∈ (Definition.service decl).nodes, node.ReadIn depth source)
      (service depth : Reader (List Char) (Service Nat)) := by
  have base : (baseService : Reader (List Char) String).Bare false := by
    refine (bare_keyword (by decide)).bind fun _ => ?_
    apply bare_separator.bind
    intro _
    apply bare_name.bind
    intro name
    exact bare_skipSeparator.bind fun _ => bare_pure
  have functions : Confined false source (fun functions => ∀ function ∈ functions, ∀ node ∈ function.nodes,
      node.ReadIn depth source) (functions depth : Reader (List Char) (List (FunctionDecl Nat))) := by
    apply Confined.many
    exact (bare_skipSeparator source).bind fun _ _ => (confined_function depth).optional
  apply confined_node Node.service (fun decl => decl.functions.flatMap FunctionDecl.nodes) fun given =>
    given.map fun decl => Reading.definition (.service decl)
  intro place
  refine (bare_keyword (by decide) source).bind fun _ _ => ?_
  apply (bare_separator source).bind
  intro _ _
  apply (bare_name source).bind
  intro name _
  apply (bare_skipSeparator source).bind
  intro _ _
  apply (base.optional source).bind
  intro base _
  refine (bare_character (by decide) source).bind fun _ _ => ?_
  apply functions.bind
  intro functions members
  exact (bare_character (by decide) source).bind fun _ _ =>
    confined_pure ⟨rfl, List.forall_mem_flatMap.2 members⟩

/-- An inclusion of a document has at least its keyword. -/
theorem bare_inclusion : (inclusion : Reader (List Char) String).Bare eats := by
  refine (bare_keyword (by decide)).bind fun _ => ?_
  exact bare_separator.bind fun _ => bare_literal

/-- An inclusion of a header has at least its keyword. -/
theorem bare_cppInclusion : (cppInclusion : Reader (List Char) String).Bare eats := by
  refine (bare_keyword (by decide)).bind fun _ => ?_
  exact bare_separator.bind fun _ => bare_literal

/-- A namespace has at least its keyword. -/
theorem bare_namespaceDecl : (namespaceDecl : Reader (List Char) Namespace).Bare eats := by
  refine (bare_keyword (by decide)).bind fun _ => ?_
  apply bare_separator.bind
  intro _
  apply bare_namespaceScope.bind
  intro scope
  apply bare_separator.bind
  intro _
  exact bare_name.bind fun name => bare_pure

/-- A definition is read in its text, and so are its members. -/
theorem confined_definition :
    Confined eats source (fun definition => ∀ node ∈ definition.nodes, node.ReadIn depth source)
      (definition depth : Reader (List Char) (Definition Nat)) := by
  have none : ∀ {holds : Node Nat → Prop}, ∀ node ∈ ([] : List (Node Nat)), holds node := by simp
  refine confined_alternatives (by decide) ?_
  simp only [List.forall_mem_cons]
  refine ⟨?_, ?_, ?_, ?_, ?_, ?_, ?_, ?_, ?_, ?_, by simp⟩
  · exact (bare_inclusion source).map fun _ _ => none
  · exact (bare_cppInclusion source).map fun _ _ => none
  · exact (bare_namespaceDecl source).map fun _ _ => none
  · exact (confined_typedef depth).map fun _ read => read
  · exact (confined_constDecl depth).map fun _ read => read
  · exact (confined_enumDecl depth).map fun _ read => read
  · exact (confined_record depth .struct).map fun _ read => read
  · exact (confined_record depth .union).map fun _ read => read
  · exact (confined_record depth .exception).map fun _ read => read
  · exact (confined_service depth).map fun _ read => read

/-- A definition with what surrounds it is read in its text. -/
theorem confined_spacedDefinition :
    Confined eats source (fun definition => ∀ node ∈ definition.nodes, node.ReadIn depth source)
      (spacedDefinition depth : Reader (List Char) (Definition Nat)) := by
  apply (bare_skipSeparator source).andThen
  intro _ _
  apply (confined_definition depth).bind
  intro definition read
  exact (bare_skipSeparator source).bind fun _ _ => confined_pure read

/-- A document is read in its text. -/
theorem confined_document :
    Confined false source (fun document => ∀ node ∈ document.nodes, node.ReadIn depth source)
      (document depth : Reader (List Char) (Document Nat)) := by
  apply (confined_spacedDefinition depth).optional.many.map
  intro definitions each
  refine List.forall_mem_flatMap.2 fun definition mem => each definition ?_
  exact Document.mem_definitions_ofDefinitions.1 mem

end Definitions

end Reader

section Readings

open Reader

variable {π ρ : Type} {holds : π → Prop} {move move' : π → ρ}

/-- A predicate holds of the places in what a production gives. -/
def Reading.Placed (holds : π → Prop) : Reading π → Prop
  | .field found => holds found.place
  | .function found => found.Placed holds
  | .enumValue found => holds found.place
  | .definition found => found.Placed holds
  | .document found => found.Placed holds
  | _ => True

/-- What holds of the places in what a production gives holds of them if it says less. -/
theorem Reading.Placed.mono {holds' : π → Prop} {reading : Reading π} (placed : reading.Placed holds)
    (less : ∀ place, holds place → holds' place) : reading.Placed holds' := by
  cases reading with
  | field | enumValue => exact less _ placed
  | function => exact FunctionDecl.Placed.mono placed less
  | definition => exact Definition.Placed.mono placed less
  | document => exact Document.Placed.mono placed less
  | _ => trivial

/-- Changes that agree on the places in what a production gives change it alike. -/
theorem Reading.map_congr {reading : Reading π}
    (same : reading.Placed fun place => move place = move' place) :
    reading.map move = reading.map move' := by
  cases reading with
  | field field => exact congrArg Reading.field (Field.map_congr same)
  | function function => exact congrArg Reading.function (FunctionDecl.map_congr same)
  | enumValue value =>
    have place : move value.place = move' value.place := same
    rw [map, map, EnumValue.map, EnumValue.map, place]
  | definition definition => exact congrArg Reading.definition (Definition.map_congr same)
  | document document => exact congrArg Reading.document (Document.map_congr same)
  | _ => rfl

/-- Whether a production reads something wherever it succeeds. All do, besides that of a document. -/
def Production.eats : Production → Bool
  | .document => false
  | _ => true

/-- Every production leaves an end of its text and gives places in the text. If it is not that of a
document, it does not succeed without reading something. -/
theorem Production.confined (production : Production) (depth : Nat) (source : List Char) :
    Reader.Confined production.eats source (Reading.Placed (· ≤ source.length))
      (production.reader depth : Reader (List Char) (Reading Nat)) := by
  have bare {α : Type} {reader : Reader (List Char) α} {wrap : α → Reading Nat}
      (bare : reader.Bare true) (none : ∀ value, (wrap value).Placed (· ≤ source.length)) :
      Reader.Confined true source (Reading.Placed (· ≤ source.length)) (wrap <$> reader) :=
    (bare source).map fun value _ => none value
  have placed {definition : Definition Nat} (read : ∀ node ∈ definition.nodes, node.ReadIn depth source) :
      definition.Placed (· ≤ source.length) :=
    Definition.placed_iff.2 fun node mem => (read node mem).place_le
  cases production with
  | literal => exact bare bare_literal fun _ => trivial
  | identifier => exact bare bare_name fun _ => trivial
  | listSeparator => exact bare bare_listSeparator fun _ => trivial
  | comment => exact bare bare_comment fun _ => trivial
  | separator => exact bare bare_separator fun _ => trivial
  | intConstant => exact bare bare_integer fun _ => trivial
  | doubleConstant => exact bare bare_double fun _ => trivial
  | strictDoubleConstant => exact bare bare_strictDouble fun _ => trivial
  | constValue => exact bare (bare_constValue depth) fun _ => trivial
  | constList => exact bare (bare_constListOf bare_innerConstant) fun _ => trivial
  | constMap => exact bare (bare_constMapOf bare_innerConstant) fun _ => trivial
  | fieldType => exact bare (bare_fieldType depth) fun _ => trivial
  | cppType => exact bare bare_cppType fun _ => trivial
  | field => exact (confined_field depth).map fun _ read => read.place_le
  | function =>
    exact (confined_function depth).map fun _ read =>
      FunctionDecl.placed_iff.2 fun node mem => (read node mem).place_le
  | const => exact (confined_constDecl depth).map fun _ read => placed read
  | typedef => exact (confined_typedef depth).map fun _ read => placed read
  | enum => exact (confined_enumDecl depth).map fun _ read => placed read
  | enumValue => exact (confined_enumValue depth).map fun _ read => read.place_le
  | struct =>
    exact (confined_record depth .struct).map fun _ read => placed read
  | union =>
    exact (confined_record depth .union).map fun _ read => placed read
  | exception =>
    exact (confined_record depth .exception).map fun _ read => placed read
  | service => exact (confined_service depth).map fun _ read => placed read
  | inclusion => exact bare bare_inclusion fun _ => trivial
  | cppInclusion => exact bare bare_cppInclusion fun _ => trivial
  | space => exact bare bare_namespaceDecl fun _ => trivial
  | document =>
    exact (confined_document depth).map fun _ read =>
      Document.placed_iff.2 fun node mem => (read node mem).place_le

end Readings

end ThriftIdl
