import ThriftIdl.Proofs.Reader.Congruence
import ThriftIdl.Proofs.Reader.Productions

/-!
# Reading under a lower limit

Under a lower nesting limit a reader does all that it does under a higher one, down to what it notes, or
it gives up for nesting (`Reader.Curtails`). No way in which readers are put together swallows that it
gives up (`Reader.congruence_curtails`). Whatever production is read, its outcome under a lower limit is
that under the higher one, unless it is that containers are nested too deeply
(`readProduction_curtailed`).
-/
namespace ThriftIdl

/-- A failure of nesting beyond the limit. -/
def Failure.IsDeep (failure : Failure) : Prop :=
  ∃ production, failure.head.reason = .tooDeep production

/-- Nothing swallows that the limit is exceeded. -/
theorem Failure.IsDeep.isFinal {failure : Failure} (deep : failure.IsDeep) : failure.isFinal := by
  obtain ⟨production, reason⟩ := deep
  rw [Failure.isFinal, reason]
  rfl

section Laws

variable {ι α β : Type}

/-- An outcome is that of nesting beyond the limit, or else the same as another. -/
inductive Outcome.Curtails : Outcome ι α → Outcome ι α → Prop where
  /-- Nesting beyond the limit, which nothing swallows. -/
  | nesting {failure : Failure} {rest : ι} {noted : Option Fault} {other : Outcome ι α} :
      failure.IsDeep → Curtails (.fail failure rest noted) other
  /-- The same outcome. -/
  | same {outcome : Outcome ι α} : Curtails outcome outcome

/-- A reader gives up for nesting wherever it does not do the same as another. -/
def Reader.Curtails (reader reader' : Reader ι α) : Prop :=
  ∀ input, (reader input).Curtails (reader' input)

/-- What was noted before is noted in both cases. -/
theorem Outcome.Curtails.after {outcome outcome' : Outcome ι α} (curtails : outcome.Curtails outcome')
    (earlier : Option Fault) : (outcome.after earlier).Curtails (outcome'.after earlier) := by
  cases curtails with
  | nesting nested => exact .nesting nested
  | same => exact .same

namespace Reader

variable {reader reader' : Reader ι α}

/-- A reader does the same as itself. -/
theorem Curtails.refl : reader.Curtails reader := fun _ => .same

/-- Readers in a row give up for nesting or do the same if their parts do. -/
theorem Curtails.bind {next next' : α → Reader ι β} (first : reader.Curtails reader')
    (second : ∀ value, (next value).Curtails (next' value)) :
    (reader >>= next).Curtails (reader' >>= next') := by
  intro input
  have opening := first input
  show (Reader.bind reader next input).Curtails (Reader.bind reader' next' input)
  simp only [Reader.bind]
  generalize reader input = outcome at opening
  generalize reader' input = outcome' at opening
  cases opening with
  | nesting nested => exact .nesting nested
  | same =>
    cases outcome with
    | ok value rest noted => exact (second value rest).after noted
    | fail => exact .same

/-- What is read first may be the same under both limits. -/
theorem Curtails.then {next next' : α → Reader ι β} (second : ∀ value, (next value).Curtails (next' value)) :
    (reader >>= next).Curtails (reader >>= next') :=
  Curtails.refl.bind second

/-- Values may be wrapped alike. -/
theorem Curtails.map {wrap : α → β} (curtails : reader.Curtails reader') :
    (wrap <$> reader).Curtails (wrap <$> reader') :=
  curtails.bind fun _ => .refl

/-- What may stand inside a container is read under a lower limit, if a level is left for it. -/
def InnerCurtails (inner inner' : Option (Reader ι α)) : Prop :=
  ∀ rule ∈ inner, ∃ rule' ∈ inner', rule.Curtails rule'

/-- Trying does not swallow nesting beyond the limit. -/
theorem Curtails.optional (curtails : reader.Curtails reader') :
    (optional reader).Curtails (optional reader') := by
  intro input
  have tried := curtails input
  simp only [Reader.optional]
  generalize reader input = outcome at tried
  cases tried with
  | nesting nested =>
    simp only [nested.isFinal, ↓reduceIte]
    exact .nesting nested
  | same => exact .same

variable [Input ι]

/-- What is left of a choice does not swallow nesting beyond the limit. -/
theorem curtails_choose {production : String} {rules rules' : List (Reader ι α)}
    (each : List.Forall₂ Curtails rules rules') (input : ι) (failures : List Failure) :
    (choose production input failures rules).Curtails (choose production input failures rules') := by
  induction each generalizing failures with
  | nil => exact .same
  | @cons rule rule' rules rules' first others ih =>
    have tried := first input
    simp only [choose]
    generalize rule input = outcome at tried
    generalize rule' input = outcome' at tried
    cases tried with
    | nesting nested =>
      simp only [nested.isFinal, ↓reduceIte]
      exact .nesting nested
    | same =>
      cases outcome with
      | ok => exact .same
      | fail failure rest noted =>
        dsimp only
        split
        · exact .same
        · exact (ih _).after noted

/-- A choice does not swallow nesting beyond the limit. -/
theorem curtails_alternatives {production : String} {rules rules' : List (Reader ι α)}
    (each : List.Forall₂ Curtails rules rules') :
    (alternatives production rules).Curtails (alternatives production rules') := fun input =>
  curtails_choose each input []

/-- A loop ends for nesting or does the same in each of its rounds. -/
theorem curtails_manyWithin {round round' : Reader ι (Option α)} (curtails : round.Curtails round')
    (rounds : Nat) : (manyWithin round rounds).Curtails (manyWithin round' rounds) := by
  induction rounds with
  | zero => exact .refl
  | succ rounds ih =>
    intro input
    have tried := curtails input
    simp only [manyWithin]
    generalize round input = outcome at tried
    generalize round' input = outcome' at tried
    cases tried with
    | nesting nested => exact .nesting nested
    | same =>
      cases outcome with
      | fail => exact .same
      | ok found rest noted =>
        cases found with
        | none => exact .same
        | some value =>
          dsimp only
          split
          · have others := ih rest
            generalize manyWithin round rounds rest = more at others
            generalize manyWithin round' rounds rest = more' at others
            cases others with
            | nesting nested => exact .nesting nested
            | same => exact .same
          · exact .same

/-- A loop gives up for nesting or does the same if its rounds do. -/
theorem Curtails.many {round round' : Reader ι (Option α)} (curtails : round.Curtails round') :
    (many round).Curtails (many round') := fun input =>
  curtails_manyWithin curtails _ input

end Reader

end Laws

namespace Reader

section Containers

variable {ι α β : Type} [Readable ι] {lower higher : Nat}

/-- No way in which readers are put together swallows that reading gives up. -/
theorem congruence_curtails :
    Congruence fun α (reader reader' : Reader ι α) => reader.Curtails reader' where
  refl _ := .refl
  bind := Curtails.bind
  optional := Curtails.optional
  alternatives := curtails_alternatives
  many := Curtails.many

/-- Where no level is left, the container is nested too deeply. -/
theorem InnerCurtails.exchanges {inner inner' : Option (Reader ι α)}
    (curtails : InnerCurtails inner inner') :
    Exchanges (fun α (reader reader' : Reader ι α) => reader.Curtails reader') inner inner' := by
  intro β production body body' each
  cases inner with
  | none => exact fun _ => .nesting ⟨production, rfl⟩
  | some rule =>
    obtain ⟨rule', rfl, lower⟩ := curtails rule rfl
    exact each rule rule' lower

omit [Readable ι] in
/-- What stands inside containers is read with as many levels less, if each level is read with the one
below it. -/
theorem innerCurtails_of_levels {inner : Nat → Option (Reader ι α)} {reader : Nat → Reader ι α}
    {readerOf : Option (Reader ι α) → Reader ι α} (zero : inner 0 = none)
    (succ : ∀ level, inner (level + 1) = some (reader level))
    (reads : ∀ level, reader level = readerOf (inner level))
    (each : ∀ {first second : Option (Reader ι α)}, InnerCurtails first second →
      (readerOf first).Curtails (readerOf second)) (le : lower ≤ higher) :
    InnerCurtails (inner lower) (inner higher) := by
  induction lower generalizing higher with
  | zero =>
    rw [zero]
    exact fun _ none => by cases none
  | succ lower ih =>
    obtain ⟨higher, rfl⟩ : ∃ more, higher = more + 1 := ⟨higher - 1, by omega⟩
    rw [succ, succ]
    rintro _ ⟨⟩
    refine ⟨reader higher, rfl, ?_⟩
    rw [reads lower, reads higher]
    exact each (ih (by omega))

/-- What stands inside constants is read with as many levels less. -/
theorem innerCurtails_innerConstant (le : lower ≤ higher) :
    InnerCurtails (innerConstant lower : Option (Reader ι ConstValue)) (innerConstant higher) :=
  innerCurtails_of_levels rfl (fun _ => rfl) constValue_eq
    (fun inner => congruence_curtails.constValueOf inner.exchanges) le

/-- Constants are read with as many levels less. -/
theorem curtails_constValue (le : lower ≤ higher) :
    (constValue lower : Reader ι ConstValue).Curtails (constValue higher) := by
  rw [constValue_eq lower, constValue_eq higher]
  exact congruence_curtails.constValueOf (innerCurtails_innerConstant le).exchanges

/-- What stands inside types is read with as many levels less. -/
theorem innerCurtails_innerType (le : lower ≤ higher) :
    InnerCurtails (innerType lower : Option (Reader ι FieldType)) (innerType higher) :=
  innerCurtails_of_levels rfl (fun _ => rfl) fieldType_eq
    (fun inner => congruence_curtails.fieldTypeOf inner.exchanges) le

/-- Types are read with as many levels less. -/
theorem curtails_fieldType (le : lower ≤ higher) :
    (fieldType lower : Reader ι FieldType).Curtails (fieldType higher) := by
  rw [fieldType_eq lower, fieldType_eq higher]
  exact congruence_curtails.fieldTypeOf (innerCurtails_innerType le).exchanges

end Containers

section Definitions

variable {ι : Type} [Readable ι] {lower higher : Nat} (le : lower ≤ higher)

include le

/-- Default values are read with as many levels less. -/
theorem curtails_fieldDefault :
    (fieldDefault lower : Reader ι ConstValue).Curtails (fieldDefault higher) := by
  apply Curtails.then
  intro _
  apply Curtails.then
  intro _
  exact curtails_constValue le

/-- Fields are read with as many levels less. -/
theorem curtails_field : (field lower : Reader ι (Field Nat)).Curtails (field higher) := by
  apply Curtails.then
  intro place
  apply Curtails.then
  intro id
  apply Curtails.then
  intro word
  apply (curtails_fieldType le).bind
  intro type
  apply Curtails.then
  intro _
  apply Curtails.then
  intro name
  apply Curtails.then
  intro _
  exact (curtails_fieldDefault le).optional.bind fun _ => .refl

/-- Fields in a row are read with as many levels less. -/
theorem curtails_fields : (fields lower : Reader ι (List (Field Nat))).Curtails (fields higher) :=
  (Curtails.then fun _ => (curtails_field le).optional).many

/-- Fields between brackets are read with as many levels less. -/
theorem curtails_fieldList (production : String) :
    (fieldList production lower : Reader ι (List (Field Nat))).Curtails
      (fieldList production higher) := by
  apply Curtails.then
  intro _
  exact (curtails_fields le).bind fun _ => .refl

/-- The types of results are read with as many levels less. -/
theorem curtails_functionType :
    (functionType lower : Reader ι (Option FieldType)).Curtails (functionType higher) := by
  apply curtails_alternatives
  exact .cons .refl (.cons (curtails_fieldType le).map .nil)

/-- The exceptions of functions are read with as many levels less. -/
theorem curtails_throws : (throws lower : Reader ι (List (Field Nat))).Curtails (throws higher) := by
  apply Curtails.then
  intro _
  apply Curtails.then
  intro _
  exact curtails_fieldList le "throws"

/-- Functions are read with as many levels less. -/
theorem curtails_function :
    (function lower : Reader ι (FunctionDecl Nat)).Curtails (function higher) := by
  apply Curtails.then
  intro place
  apply Curtails.then
  intro word
  apply (curtails_functionType le).bind
  intro returns
  apply Curtails.then
  intro _
  apply Curtails.then
  intro name
  apply Curtails.then
  intro _
  apply (curtails_fieldList le "function").bind
  intro parameters
  apply Curtails.then
  intro _
  exact (curtails_throws le).optional.bind fun _ => .refl

/-- Constant declarations are read with as many levels less. -/
theorem curtails_constDecl : (constDecl lower : Reader ι (ConstDecl Nat)).Curtails (constDecl higher) := by
  apply Curtails.then
  intro place
  apply Curtails.then
  intro _
  apply Curtails.then
  intro _
  apply (curtails_fieldType le).bind
  intro type
  apply Curtails.then
  intro _
  apply Curtails.then
  intro name
  apply Curtails.then
  intro _
  apply Curtails.then
  intro _
  apply Curtails.then
  intro _
  exact (curtails_constValue le).bind fun _ => .refl

/-- Second names for types are read with as many levels less. -/
theorem curtails_typedef : (typedef lower : Reader ι (Typedef Nat)).Curtails (typedef higher) := by
  have old : (definitionType lower : Reader ι FieldType).Curtails (definitionType higher) :=
    curtails_alternatives (.cons .refl
      (.cons (congruence_curtails.containerTypeOf (innerCurtails_innerType le).exchanges) .nil))
  apply Curtails.then
  intro place
  apply Curtails.then
  intro _
  apply Curtails.then
  intro _
  exact old.bind fun _ => .refl

/-- Records are read with as many levels less. -/
theorem curtails_record (kind : RecordKind) :
    (record kind lower : Reader ι (Record Nat)).Curtails (record kind higher) := by
  apply Curtails.then
  intro place
  apply Curtails.then
  intro _
  apply Curtails.then
  intro _
  apply Curtails.then
  intro name
  apply Curtails.then
  intro _
  apply Curtails.then
  intro _
  exact (curtails_fields le).bind fun _ => .refl

/-- Services are read with as many levels less. -/
theorem curtails_service : (service lower : Reader ι (Service Nat)).Curtails (service higher) := by
  have members : (functions lower : Reader ι (List (FunctionDecl Nat))).Curtails (functions higher) :=
    (Curtails.then fun _ => (curtails_function le).optional).many
  apply Curtails.then
  intro place
  apply Curtails.then
  intro _
  apply Curtails.then
  intro _
  apply Curtails.then
  intro name
  apply Curtails.then
  intro _
  apply Curtails.then
  intro base
  apply Curtails.then
  intro _
  exact members.bind fun _ => .refl

/-- Definitions are read with as many levels less. -/
theorem curtails_definition :
    (definition lower : Reader ι (Definition Nat)).Curtails (definition higher) := by
  apply curtails_alternatives
  exact .cons .refl (.cons .refl (.cons .refl (.cons (curtails_typedef le).map
    (.cons (curtails_constDecl le).map (.cons .refl (.cons (curtails_record le .struct).map
      (.cons (curtails_record le .union).map (.cons (curtails_record le .exception).map
        (.cons (curtails_service le).map .nil)))))))))

/-- Documents are read with as many levels less. -/
theorem curtails_document : (document lower : Reader ι (Document Nat)).Curtails (document higher) := by
  have spaced : (spacedDefinition lower : Reader ι (Definition Nat)).Curtails (spacedDefinition higher) :=
    .then fun _ => (curtails_definition le).bind fun _ => .refl
  exact spaced.optional.many.map

end Definitions

end Reader

section Productions

open Reader

variable {production : Production} {source : List Char} {limit lower higher : Int}

/-- Whatever production is read, the limit decides nothing but whether reading gives up. -/
theorem Production.curtails {ι : Type} [Readable ι] (production : Production) {lower higher : Nat}
    (le : lower ≤ higher) :
    (production.reader lower : Reader ι (Reading Nat)).Curtails (production.reader higher) := by
  cases production with
  | literal | identifier | listSeparator | comment | separator | intConstant | doubleConstant
  | strictDoubleConstant | cppType | enum | enumValue | inclusion | cppInclusion | space =>
    exact .refl
  | constValue => exact (curtails_constValue le).map
  | constList => exact (congruence_curtails.constListOf (innerCurtails_innerConstant le).exchanges).map
  | constMap => exact (congruence_curtails.constMapOf (innerCurtails_innerConstant le).exchanges).map
  | fieldType => exact (curtails_fieldType le).map
  | field => exact (curtails_field le).map
  | function => exact (curtails_function le).map
  | const => exact (curtails_constDecl le).map
  | typedef => exact (curtails_typedef le).map
  | struct => exact (curtails_record le .struct).map
  | union => exact (curtails_record le .union).map
  | exception => exact (curtails_record le .exception).map
  | service => exact (curtails_service le).map
  | document => exact (curtails_document le).map

end Productions

end ThriftIdl
