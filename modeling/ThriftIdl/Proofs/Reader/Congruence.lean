import Mathlib.Data.List.Forall2
import ThriftIdl.Reader.Nested

/-!
# Relations that reading keeps

Some relations of readers are kept in each way in which readers are put together (`Congruence`). Such a
relation of what may stand inside containers is one of the containers: of constants
(`Congruence.constValueOf`) as well as of types (`Congruence.fieldTypeOf`).
-/
namespace ThriftIdl.Reader

open Readable

variable {ι α β : Type} [Readable ι]

/-- A relation of readers that every way of putting readers together keeps. -/
structure Congruence (related : (α : Type) → Reader ι α → Reader ι α → Prop) : Prop where
  /-- Each reader is related to itself. -/
  refl : ∀ {α : Type} (reader : Reader ι α), related α reader reader
  /-- Reading in a row keeps the relation. -/
  bind : ∀ {α β : Type} {reader reader' : Reader ι α} {next next' : α → Reader ι β},
    related α reader reader' → (∀ value, related β (next value) (next' value)) →
      related β (reader >>= next) (reader' >>= next')
  /-- Trying keeps the relation. -/
  optional : ∀ {α : Type} {rule rule' : Reader ι α},
    related α rule rule' → related (Option α) (Reader.optional rule) (Reader.optional rule')
  /-- Choosing keeps the relation. -/
  alternatives : ∀ {α : Type} {production : String} {rules rules' : List (Reader ι α)},
    List.Forall₂ (related α) rules rules' →
      related α (Reader.alternatives production rules) (Reader.alternatives production rules')
  /-- Repeating keeps the relation. -/
  many : ∀ {α : Type} {round round' : Reader ι (Option α)},
    related (Option α) round round' → related (List α) (Reader.many round) (Reader.many round')

/-- What may stand inside containers may be exchanged in all of them. -/
def Exchanges (related : (α : Type) → Reader ι α → Reader ι α → Prop)
    (inner inner' : Option (Reader ι α)) : Prop :=
  ∀ {β : Type} (production : String) {body body' : Reader ι α → Reader ι β},
    (∀ rule rule', related α rule rule' → related β (body rule) (body' rule')) →
      related β (inside production inner body) (inside production inner' body')

namespace Congruence

variable {related : (α : Type) → Reader ι α → Reader ι α → Prop} (congruence : Congruence related)

include congruence

/-- What is read first may be the same. -/
theorem andThen {reader : Reader ι α} {next next' : α → Reader ι β}
    (second : ∀ value, related β (next value) (next' value)) :
    related β (reader >>= next) (reader >>= next') :=
  congruence.bind (congruence.refl reader) second

/-- Branches that are related one by one may be exchanged in any order. -/
theorem alternatives_map {κ : Type} {branch branch' : κ → Reader ι α}
    (each : ∀ label, related α (branch label) (branch' label)) (production : String) (order : List κ) :
    related α (Reader.alternatives production (order.map branch))
      (Reader.alternatives production (order.map branch')) := by
  apply congruence.alternatives
  induction order with
  | nil => exact .nil
  | cons label order ih => exact .cons (each label) ih

/-- The elements of a body may be exchanged. -/
theorem separated {rule rule' : Reader ι α} (rules : related α rule rule') :
    related (List α) (Reader.separated rule) (Reader.separated rule') := by
  apply congruence.bind (congruence.optional rules)
  intro first
  cases first with
  | none => exact congruence.refl _
  | some first =>
    have element : related α (elementSeparator >>= fun _ => rule) (elementSeparator >>= fun _ => rule') :=
      congruence.andThen fun _ => rules
    exact congruence.bind (congruence.many (congruence.optional element)) fun _ => congruence.refl _

section Constants

variable {inner inner' : Option (Reader ι ConstValue)}

/-- The constants in a list may be exchanged. -/
theorem constListOf (exchanges : Exchanges related inner inner') :
    related ConstValue (Reader.constListOf inner) (Reader.constListOf inner') := by
  apply congruence.andThen
  intro _
  apply exchanges
  intro value value' values
  apply congruence.andThen
  intro _
  exact congruence.bind (congruence.separated values) fun _ => congruence.refl _

/-- The key and the value of an entry may be exchanged. -/
theorem constEntry {value value' : Reader ι ConstValue} (values : related ConstValue value value') :
    related (ConstValue × ConstValue) (Reader.constEntry value) (Reader.constEntry value') := by
  apply congruence.bind values
  intro key
  apply congruence.andThen
  intro _
  apply congruence.andThen
  intro _
  apply congruence.andThen
  intro _
  exact congruence.bind values fun _ => congruence.refl _

/-- The constants in a map may be exchanged. -/
theorem constMapOf (exchanges : Exchanges related inner inner') :
    related ConstValue (Reader.constMapOf inner) (Reader.constMapOf inner') := by
  apply congruence.andThen
  intro _
  apply exchanges
  intro value value' values
  apply congruence.andThen
  intro _
  exact congruence.bind (congruence.separated (congruence.constEntry values)) fun _ =>
    congruence.refl _

/-- The constants in a constant may be exchanged. -/
theorem constValueOf (exchanges : Exchanges related inner inner') :
    related ConstValue (Reader.constValueOf inner) (Reader.constValueOf inner') := by
  apply congruence.alternatives
  simp only [simpleConstants, List.cons_append, List.nil_append]
  exact .cons (congruence.refl _) (.cons (congruence.refl _) (.cons (congruence.refl _)
    (.cons (congruence.refl _) (.cons (congruence.constListOf exchanges)
      (.cons (congruence.constMapOf exchanges) .nil)))))

end Constants

section Types

variable {inner inner' : Option (Reader ι FieldType)}

/-- The types in a map type may be exchanged. -/
theorem mapTypeOf (exchanges : Exchanges related inner inner') :
    related FieldType (Reader.mapTypeOf inner) (Reader.mapTypeOf inner') := by
  apply congruence.andThen
  intro _
  apply congruence.andThen
  intro _
  apply congruence.andThen
  intro _
  apply exchanges
  intro type type' types
  apply congruence.andThen
  intro _
  apply congruence.bind types
  intro key
  apply congruence.andThen
  intro _
  apply congruence.andThen
  intro _
  apply congruence.andThen
  intro _
  exact congruence.bind types fun _ => congruence.refl _

/-- The type in a set type may be exchanged. -/
theorem setTypeOf (exchanges : Exchanges related inner inner') :
    related FieldType (Reader.setTypeOf inner) (Reader.setTypeOf inner') := by
  apply congruence.andThen
  intro _
  apply congruence.andThen
  intro _
  apply congruence.andThen
  intro _
  apply exchanges
  intro type type' types
  apply congruence.andThen
  intro _
  exact congruence.bind types fun _ => congruence.refl _

/-- The type in a list type may be exchanged. -/
theorem listTypeOf (exchanges : Exchanges related inner inner') :
    related FieldType (Reader.listTypeOf inner) (Reader.listTypeOf inner') := by
  have body : related FieldType (listTypeBody inner) (listTypeBody inner') := by
    apply congruence.andThen
    intro _
    apply exchanges
    intro type type' types
    apply congruence.andThen
    intro _
    exact congruence.bind types fun _ => congruence.refl _
  apply congruence.andThen
  intro _
  apply congruence.andThen
  intro _
  exact congruence.bind body fun _ => congruence.refl _

/-- The types in a container type may be exchanged. -/
theorem containerTypeOf (exchanges : Exchanges related inner inner') :
    related FieldType (Reader.containerTypeOf inner) (Reader.containerTypeOf inner') := by
  apply congruence.alternatives
  exact .cons (congruence.mapTypeOf exchanges) (.cons (congruence.setTypeOf exchanges)
    (.cons (congruence.listTypeOf exchanges) .nil))

/-- The types in a type may be exchanged. -/
theorem fieldTypeOf (exchanges : Exchanges related inner inner') :
    related FieldType (Reader.fieldTypeOf inner) (Reader.fieldTypeOf inner') := by
  apply congruence.alternatives
  exact .cons (congruence.refl _) (.cons (congruence.containerTypeOf exchanges)
    (.cons (congruence.refl _) .nil))

end Types

end Congruence

end ThriftIdl.Reader
