import ThriftIdl.Machine.Definition
import ThriftIdl.Proofs.Machine.Basic

/-!
# Every machine of a production follows its reader

The machine of a production and the reader of the production are put together in the same way. They
differ in how containers inside each other are bounded: by a counter in the state of the machine, and
by the levels that are left to the reader. As long as the counter and the levels add up to the limit,
the machine follows the reader (`FollowsInside`, `follows_production`).
-/
namespace ThriftIdl
namespace Machine

open Readable

variable {ι α β : Type} {setting : Setting} {depth : Int}

section Inside

/-- What a machine reads inside a container follows: there is nothing if as many containers are open as
are allowed, and else it follows with one more open. -/
def FollowsInside (ι : Type) {α : Type} (setting : Setting) (depth : Int) (machine : Machine ι α) :
    Option (Reader ι α) → Prop
  | none => setting.limit ≤ depth
  | some reader => depth < setting.limit ∧ Follows ι setting (depth + 1) machine reader

/-- A container follows if its inside does. -/
theorem FollowsInside.nested [Readable ι] {machine : Machine ι α} {inner : Option (Reader ι α)}
    {production : String} {body : Machine ι β} {body' : Reader ι α → Reader ι β}
    (inside : FollowsInside ι setting depth machine inner)
    (each : ∀ reader, Follows ι setting (depth + 1) machine reader →
      Follows ι setting (depth + 1) body (body' reader)) :
    Follows ι setting depth (Machine.nested production body)
      (Reader.inside production inner body') := by
  cases inner with
  | none => exact Follows.nested_of_le inside
  | some reader => exact Follows.nested inside.1 (each reader inside.2)

/-- What stands inside containers follows if it does where one more is open, and if nothing is given where
no more may be opened. -/
theorem followsInside_levels {inside : Nat → Machine ι α} {inside' : Nat → Option (Reader ι α)}
    (none : inside' 0 = none)
    (more : ∀ levels depth, FollowsInside ι setting depth (inside levels) (inside' levels) →
      ∃ reader, inside' (levels + 1) = some reader ∧
        Follows ι setting depth (inside (levels + 1)) reader) (depth : Int) :
    FollowsInside ι setting depth (inside (setting.levels depth)) (inside' (setting.levels depth)) := by
  generalize counted : setting.levels depth = levels
  unfold Setting.levels at counted
  induction levels generalizing depth with
  | zero =>
    rw [none]
    show setting.limit ≤ depth
    omega
  | succ levels ih =>
    obtain ⟨reader, same, follows⟩ := more levels (depth + 1) (ih (depth + 1) (by omega))
    rw [same]
    exact ⟨by omega, follows⟩

end Inside

variable [Readable ι]

section Separators

/-- What separates elements follows. -/
theorem follows_elementSeparator :
    Follows ι setting depth elementSeparator Reader.elementSeparator := by
  apply Follows.token_bind
  intro gap
  cases gap with
  | false => exact .token_bind fun _ => .token_bind fun _ => follows_pure ()
  | true => exact (follows_token _).optional.bind fun _ => .token_bind fun _ => follows_pure ()

/-- Elements follow if each of them does. -/
theorem Follows.separated {rule : Machine ι α} {rule' : Reader ι α}
    (rules : Follows ι setting depth rule rule') :
    Follows ι setting depth (Machine.separated rule) (Reader.separated rule') := by
  apply rules.optional.bind
  intro first
  cases first with
  | none => exact follows_pure []
  | some first =>
    have element : Follows ι setting depth (elementSeparator >>= fun _ => rule)
        (Reader.elementSeparator >>= fun _ => rule') := follows_elementSeparator.bind fun _ => rules
    apply element.optional.many.bind
    intro others
    exact .token_bind fun _ => (follows_token _).optional.bind fun _ => .token_bind fun _ =>
      follows_pure _

/-- A list separator after blanks and comments follows. -/
theorem follows_trailingListSeparator :
    Follows ι setting depth trailingListSeparator Reader.trailingListSeparator :=
  .token_bind fun _ => follows_token _

end Separators

section Constants

variable {value : Machine ι ConstValue} {inner : Option (Reader ι ConstValue)}

/-- A list constant follows. -/
theorem follows_constListOf (inside : FollowsInside ι setting depth value inner) :
    Follows ι setting depth (constListOf value) (Reader.constListOf inner) := by
  apply Follows.token_bind
  intro _
  apply inside.nested
  intro reader values
  exact .token_bind fun _ => values.separated.bind fun _ => .token_bind fun _ => follows_pure _

/-- An entry of a map constant follows. -/
theorem Follows.constEntry {reader : Reader ι ConstValue}
    (values : Follows ι setting depth value reader) :
    Follows ι setting depth (Machine.constEntry value) (Reader.constEntry reader) := by
  apply values.bind
  intro key
  exact .token_bind fun _ => .token_bind fun _ => .token_bind fun _ => values.bind fun _ =>
    follows_pure _

/-- A map constant follows. -/
theorem follows_constMapOf (inside : FollowsInside ι setting depth value inner) :
    Follows ι setting depth (constMapOf value) (Reader.constMapOf inner) := by
  apply Follows.token_bind
  intro _
  apply inside.nested
  intro reader values
  exact .token_bind fun _ => values.constEntry.separated.bind fun _ => .token_bind fun _ =>
    follows_pure _

/-- A constant follows. -/
theorem follows_constValueOf (inside : FollowsInside ι setting depth value inner) :
    Follows ι setting depth (constValueOf value) (Reader.constValueOf inner) := by
  apply Follows.alternatives
  exact .cons ((follows_token _).map _) (.cons ((follows_token _).map _)
    (.cons ((follows_token _).map _) (.cons ((follows_token _).map _)
      (.cons (follows_constListOf inside) (.cons (follows_constMapOf inside) .nil)))))

/-- What stands inside list and map constants follows. -/
theorem followsInside_constant (depth : Int) :
    FollowsInside ι setting depth (innerConstant (setting.levels depth))
      (Reader.innerConstant (setting.levels depth)) := by
  refine followsInside_levels rfl (fun levels depth inside => ?_) depth
  refine ⟨Reader.constValue levels, rfl, ?_⟩
  rw [Reader.constValue_eq]
  exact follows_constValueOf inside

/-- A constant follows. -/
theorem follows_constValue : Follows ι setting depth (constValue (setting.levels depth))
    (Reader.constValue (setting.levels depth)) := by
  rw [Reader.constValue_eq]
  exact follows_constValueOf (followsInside_constant depth)

end Constants

section Types

variable {type : Machine ι FieldType} {inner : Option (Reader ι FieldType)}

/-- A type of another language follows. -/
theorem follows_cppType : Follows ι setting depth cppType Reader.cppType :=
  .token_bind fun _ => .token_bind fun _ => follows_token _

/-- What may stand between the keyword of a container and its bracket follows. -/
theorem follows_leadingCppType :
    Follows ι setting depth leadingCppType Reader.leadingCppType := by
  apply Follows.token_bind
  intro _
  apply follows_cppType.optional.bind
  intro found
  cases found with
  | none => exact follows_pure ()
  | some => exact .token_bind fun _ => follows_pure ()

/-- A map type follows. -/
theorem follows_mapTypeOf (inside : FollowsInside ι setting depth type inner) :
    Follows ι setting depth (mapTypeOf type) (Reader.mapTypeOf inner) := by
  refine .token_bind fun _ => follows_leadingCppType.bind fun _ => .token_bind fun _ => ?_
  apply inside.nested
  intro reader types
  refine .token_bind fun _ => types.bind fun key => ?_
  refine .token_bind fun _ => .token_bind fun _ => .token_bind fun _ => types.bind fun value => ?_
  exact .token_bind fun _ => .token_bind fun _ => follows_pure _

/-- A set type follows. -/
theorem follows_setTypeOf (inside : FollowsInside ι setting depth type inner) :
    Follows ι setting depth (setTypeOf type) (Reader.setTypeOf inner) := by
  refine .token_bind fun _ => follows_leadingCppType.bind fun _ => .token_bind fun _ => ?_
  apply inside.nested
  intro reader types
  exact .token_bind fun _ => types.bind fun _ => .token_bind fun _ => .token_bind fun _ =>
    follows_pure _

/-- A list type follows. -/
theorem follows_listTypeOf (inside : FollowsInside ι setting depth type inner) :
    Follows ι setting depth (listTypeOf type) (Reader.listTypeOf inner) := by
  have body : Follows ι setting depth (listTypeBody type) (Reader.listTypeBody inner) := by
    apply Follows.token_bind
    intro _
    apply inside.nested
    intro reader types
    exact .token_bind fun _ => types.bind fun _ => .token_bind fun _ => .token_bind fun _ =>
      follows_pure _
  have trailing : Follows ι setting depth trailingCppType Reader.trailingCppType :=
    .token_bind fun _ => follows_cppType
  refine .token_bind fun _ => .token_bind fun _ => body.bind fun _ => ?_
  exact trailing.optional.bind fun _ => follows_pure _

/-- A container type follows. -/
theorem follows_containerTypeOf (inside : FollowsInside ι setting depth type inner) :
    Follows ι setting depth (containerTypeOf type) (Reader.containerTypeOf inner) := by
  apply Follows.alternatives
  exact .cons (follows_mapTypeOf inside) (.cons (follows_setTypeOf inside)
    (.cons (follows_listTypeOf inside) .nil))

/-- A type follows. -/
theorem follows_fieldTypeOf (inside : FollowsInside ι setting depth type inner) :
    Follows ι setting depth (fieldTypeOf type) (Reader.fieldTypeOf inner) := by
  apply Follows.alternatives
  exact .cons ((follows_token _).map _) (.cons (follows_containerTypeOf inside)
    (.cons ((follows_token _).map _) .nil))

/-- What stands inside container types follows. -/
theorem followsInside_type (depth : Int) :
    FollowsInside ι setting depth (innerType (setting.levels depth))
      (Reader.innerType (setting.levels depth)) := by
  refine followsInside_levels rfl (fun levels depth inside => ?_) depth
  refine ⟨Reader.fieldType levels, rfl, ?_⟩
  rw [Reader.fieldType_eq]
  exact follows_fieldTypeOf inside

/-- A type follows. -/
theorem follows_fieldType : Follows ι setting depth (fieldType (setting.levels depth))
    (Reader.fieldType (setting.levels depth)) := by
  rw [Reader.fieldType_eq]
  exact follows_fieldTypeOf (followsInside_type depth)

/-- A type that may get a second name follows. -/
theorem follows_definitionType :
    Follows ι setting depth (definitionType (setting.levels depth))
      (Reader.definitionType (setting.levels depth)) := by
  apply Follows.alternatives
  exact .cons ((follows_token _).map _)
    (.cons (follows_containerTypeOf (followsInside_type depth)) .nil)

end Types

section Members

/-- A field follows. -/
theorem follows_field : Follows ι setting depth (field (setting.levels depth))
    (Reader.field (setting.levels depth)) := by
  have id : Follows ι setting depth fieldId Reader.fieldId :=
    .token_bind fun _ => .token_bind fun _ => .token_bind fun _ => .token_bind fun _ => follows_pure _
  have word : Follows ι setting depth requiredness Reader.requiredness :=
    .token_bind fun _ => .token_bind fun _ => follows_pure _
  have value : Follows ι setting depth (fieldDefault (setting.levels depth))
      (Reader.fieldDefault (setting.levels depth)) :=
    .token_bind fun _ => .token_bind fun _ => follows_constValue
  refine follows_here.bind fun _ => id.optional.bind fun _ => word.optional.bind fun _ => ?_
  refine follows_fieldType.bind fun _ => .token_bind fun _ => .token_bind fun _ => ?_
  refine .token_bind fun _ => value.optional.bind fun _ => .token_bind fun _ => ?_
  exact (follows_token _).optional.bind fun _ => follows_pure _

/-- Fields follow. -/
theorem follows_fields : Follows ι setting depth (fields (setting.levels depth))
    (Reader.fields (setting.levels depth)) :=
  Follows.many (.token_bind fun _ => follows_field.optional)

/-- Fields between round brackets follow. -/
theorem follows_fieldList (production : String) :
    Follows ι setting depth (fieldList production (setting.levels depth))
      (Reader.fieldList production (setting.levels depth)) :=
  .token_bind fun _ => follows_fields.bind fun _ => .token_bind fun _ => follows_pure _

/-- A function follows. -/
theorem follows_function : Follows ι setting depth (function (setting.levels depth))
    (Reader.function (setting.levels depth)) := by
  have word : Follows ι setting depth oneway Reader.oneway :=
    .token_bind fun _ => follows_token _
  have result : Follows ι setting depth (functionType (setting.levels depth))
      (Reader.functionType (setting.levels depth)) :=
    .alternatives (.cons ((follows_token _).map _) (.cons (follows_fieldType.map _) .nil))
  have thrown : Follows ι setting depth (throws (setting.levels depth))
      (Reader.throws (setting.levels depth)) :=
    .token_bind fun _ => .token_bind fun _ => follows_fieldList "throws"
  refine follows_here.bind fun _ => word.optional.bind fun _ => result.bind fun _ => ?_
  refine .token_bind fun _ => .token_bind fun _ => .token_bind fun _ => ?_
  refine (follows_fieldList "function").bind fun _ => .token_bind fun _ => ?_
  exact thrown.optional.bind fun _ => follows_trailingListSeparator.optional.bind fun _ =>
    follows_pure _

/-- Functions follow. -/
theorem follows_functions : Follows ι setting depth (functions (setting.levels depth))
    (Reader.functions (setting.levels depth)) :=
  Follows.many (.token_bind fun _ => follows_function.optional)

/-- A value of an enumeration follows. -/
theorem follows_enumValue : Follows ι setting depth enumValue Reader.enumValue := by
  have number : Follows ι setting depth enumAssignment Reader.enumAssignment :=
    .token_bind fun _ => .token_bind fun _ => .token_bind fun _ => follows_token _
  exact follows_here.bind fun _ => .token_bind fun _ => number.optional.bind fun _ => follows_pure _

end Members

section Definitions

/-- A constant declaration follows. -/
theorem follows_constDecl : Follows ι setting depth (constDecl (setting.levels depth))
    (Reader.constDecl (setting.levels depth)) := by
  refine follows_here.bind fun _ => .token_bind fun _ => .token_bind fun _ => ?_
  refine follows_fieldType.bind fun _ => .token_bind fun _ => .token_bind fun _ => ?_
  refine .token_bind fun _ => .token_bind fun _ => .token_bind fun _ => ?_
  exact follows_constValue.bind fun _ => follows_trailingListSeparator.optional.bind fun _ =>
    follows_pure _

/-- The declaration of a second name for a type follows. -/
theorem follows_typedef : Follows ι setting depth (typedef (setting.levels depth))
    (Reader.typedef (setting.levels depth)) := by
  refine follows_here.bind fun _ => .token_bind fun _ => .token_bind fun _ => ?_
  refine follows_definitionType.bind fun _ => .token_bind fun _ => .token_bind fun _ => ?_
  exact follows_trailingListSeparator.optional.bind fun _ => follows_pure _

/-- An enumeration follows. -/
theorem follows_enumDecl : Follows ι setting depth enumDecl Reader.enumDecl := by
  refine follows_here.bind fun _ => .token_bind fun _ => .token_bind fun _ => ?_
  refine .token_bind fun _ => .token_bind fun _ => .token_bind fun _ => .token_bind fun _ => ?_
  exact follows_enumValue.separated.bind fun _ => .token_bind fun _ => follows_pure _

/-- A record follows. -/
theorem follows_record (kind : RecordKind) :
    Follows ι setting depth (record kind (setting.levels depth))
      (Reader.record kind (setting.levels depth)) := by
  refine follows_here.bind fun _ => .token_bind fun _ => .token_bind fun _ => ?_
  refine .token_bind fun _ => .token_bind fun _ => .token_bind fun _ => ?_
  exact follows_fields.bind fun _ => .token_bind fun _ => follows_pure _

/-- A service follows. -/
theorem follows_service : Follows ι setting depth (service (setting.levels depth))
    (Reader.service (setting.levels depth)) := by
  have base : Follows ι setting depth baseService Reader.baseService :=
    .token_bind fun _ => .token_bind fun _ => .token_bind fun _ => .token_bind fun _ => follows_pure _
  refine follows_here.bind fun _ => .token_bind fun _ => .token_bind fun _ => ?_
  refine .token_bind fun _ => .token_bind fun _ => base.optional.bind fun _ => ?_
  refine .token_bind fun _ => follows_functions.bind fun _ => ?_
  exact .token_bind fun _ => follows_pure _

/-- An inclusion of a document follows. -/
theorem follows_inclusion :
    Follows ι setting depth (literalAfter "include") Reader.inclusion :=
  .token_bind fun _ => .token_bind fun _ => follows_token _

/-- An inclusion of a header follows. -/
theorem follows_cppInclusion :
    Follows ι setting depth (literalAfter "cpp_include") Reader.cppInclusion :=
  .token_bind fun _ => .token_bind fun _ => follows_token _

/-- A namespace follows. -/
theorem follows_namespaceDecl :
    Follows ι setting depth namespaceDecl Reader.namespaceDecl :=
  .token_bind fun _ => .token_bind fun _ => .token_bind fun _ => .token_bind fun _ =>
    .token_bind fun _ => follows_pure _

/-- A definition of any kind follows. -/
theorem follows_definition : Follows ι setting depth (definition (setting.levels depth))
    (Reader.definition (setting.levels depth)) := by
  apply Follows.alternatives
  exact .cons (follows_inclusion.map _) (.cons (follows_cppInclusion.map _)
    (.cons (follows_namespaceDecl.map _) (.cons (follows_typedef.map _)
      (.cons (follows_constDecl.map _) (.cons (follows_enumDecl.map _)
        (.cons ((follows_record .struct).map _) (.cons ((follows_record .union).map _)
          (.cons ((follows_record .exception).map _) (.cons (follows_service.map _) .nil)))))))))

/-- A document follows. -/
theorem follows_document : Follows ι setting depth (document (setting.levels depth))
    (Reader.document (setting.levels depth)) := by
  have spaced : Follows ι setting depth (spacedDefinition (setting.levels depth))
      (Reader.spacedDefinition (setting.levels depth)) :=
    .token_bind fun _ => follows_definition.bind fun _ => .token_bind fun _ => follows_pure _
  exact spaced.optional.many.map _

/-- The machine of a production that is started with a count follows the reader of the production that has
the levels that the count leaves: it gives the same value or fails alike, it leaves as much, its counter
is what it was, and its best diagnosis is that of the best fault that the reader notes. -/
theorem follows_production (production : Production) :
    Follows ι setting depth (production.machine (setting.levels depth))
      (production.reader (setting.levels depth)) := by
  cases production with
  | literal | identifier | listSeparator | comment | separator | intConstant | doubleConstant
  | strictDoubleConstant => exact (follows_token _).map _
  | constValue => exact follows_constValue.map _
  | constList => exact (follows_constListOf (followsInside_constant depth)).map _
  | constMap => exact (follows_constMapOf (followsInside_constant depth)).map _
  | fieldType => exact follows_fieldType.map _
  | cppType => exact follows_cppType.map _
  | field => exact follows_field.map _
  | function => exact follows_function.map _
  | const => exact follows_constDecl.map _
  | typedef => exact follows_typedef.map _
  | enum => exact follows_enumDecl.map _
  | enumValue => exact follows_enumValue.map _
  | struct | union | exception => exact (follows_record _).map _
  | service => exact follows_service.map _
  | inclusion => exact follows_inclusion.map _
  | cppInclusion => exact follows_cppInclusion.map _
  | space => exact follows_namespaceDecl.map _
  | document => exact follows_document.map _

end Definitions

end Machine
end ThriftIdl
