import ThriftIdl.Fuzz.Sketch
import ThriftIdl.Proofs.Agreement
import ThriftIdl.Proofs.Canonical.Document

/-!
# What sketches stand for

A sketch stands for a constant, a field, a function or a definition without places (`meaning`). It is
formed if its spellings are spellings, its names are names, and its separators divide elements. The
text of a formed sketch spells what the sketch stands for, if no name of it is a keyword
(`DefinitionSketch.Formed.spells`). So a document of such texts is read in both ways
(`exists_reads_documentText`).
-/
namespace ThriftIdl

open TokenReader (unquoted)

section Types

/-- The names of a type are names, and its containers are nested within a limit. -/
structure FieldType.Formed (limit : Nat) (type : FieldType) : Prop where
  /-- The names are names. -/
  named : ∀ name ∈ type.names, IsName name.toList
  /-- The containers are nested within the limit. -/
  shallow : type.depth ≤ limit

namespace FieldType

variable {limit limit' : Nat} {type key value : FieldType}

/-- A base type is formed. -/
theorem formed_base (limit : Nat) (type : BaseType) : (base type).Formed limit :=
  ⟨fun _ none => (by cases none), Nat.zero_le _⟩

/-- A type that is known by a name is formed. -/
theorem formed_named (limit : Nat) {name : String} (isName : IsName name.toList) :
    (named name).Formed limit :=
  ⟨List.forall_mem_singleton.2 isName, Nat.zero_le _⟩

/-- A list type is formed within one level more than its element. -/
theorem Formed.list (formed : type.Formed limit) : (list type).Formed (limit + 1) :=
  ⟨formed.named, Nat.succ_le_succ formed.shallow⟩

/-- A set type is formed within one level more than its element. -/
theorem Formed.set (formed : type.Formed limit) : (set type).Formed (limit + 1) :=
  ⟨formed.named, Nat.succ_le_succ formed.shallow⟩

/-- A map type is formed within one level more than its key and its value. -/
theorem Formed.map (formed : key.Formed limit) (formed' : value.Formed limit) :
    (map key value).Formed (limit + 1) :=
  ⟨List.forall_mem_append.2 ⟨formed.named, formed'.named⟩,
    Nat.succ_le_succ (Nat.max_le.2 ⟨formed.shallow, formed'.shallow⟩)⟩

/-- A type is formed within more levels, too. -/
theorem Formed.mono (formed : type.Formed limit) (deeper : limit ≤ limit') :
    type.Formed limit' :=
  ⟨formed.named, formed.shallow.trans deeper⟩

end FieldType

/-- The text of a type in a sketch spells the type, if no name of it is a keyword. -/
theorem FieldType.spells_sketch {type : FieldType} (named : ∀ name ∈ type.names, IsName name.toList)
    (free : ∀ name ∈ type.names, IsFree name) :
    Spells Closed type.sketch (TypeSpelling type.depth · type) := by
  induction type with
  | base type => exact spells_baseType type
  | named name =>
    have isName : IsName name.toList := named name (by simp [names])
    have isFree : IsFree name := free name (by simp [names])
    exact spells_namedType isName fun type => isFree (.base type)
  | map key value key_ih value_ih =>
    have row : (FieldType.map key value).sketch = "map".toList ++ ([Mark.lessThan.char] ++
        ((key.sketch ++ ([Mark.comma.char] ++ ([' '] ++ value.sketch))) ++
          [Mark.moreThan.char])) := by
      change "map<".toList ++ key.sketch ++ ", ".toList ++ value.sketch ++ ['>'] = _
      simp only [List.append_assoc]
      rfl
    rw [row]
    have keys := key_ih (fun name mem => named name (List.mem_append_left _ mem))
      fun name mem => free name (List.mem_append_left _ mem)
    have values := value_ih (fun name mem => named name (List.mem_append_right _ mem))
      fun name mem => free name (List.mem_append_right _ mem)
    exact spells_mapType (.blank rfl .nil) keys values
  | set element ih =>
    have row : (FieldType.set element).sketch =
        "set".toList ++ ([Mark.lessThan.char] ++ (element.sketch ++ [Mark.moreThan.char])) := by
      change "set<".toList ++ element.sketch ++ ['>'] = _
      simp only [List.append_assoc]
      rfl
    rw [row]
    exact spells_setType (ih named free)
  | list element ih =>
    have row : (FieldType.list element).sketch =
        "list".toList ++ ([Mark.lessThan.char] ++ (element.sketch ++ [Mark.moreThan.char])) := by
      change "list<".toList ++ element.sketch ++ ['>'] = _
      simp only [List.append_assoc]
      rfl
    rw [row]
    exact spells_listType (ih named free)

/-- The text of a type in a sketch spells the type within a limit. -/
theorem FieldType.Formed.spells {limit : Nat} {type : FieldType} (formed : type.Formed limit)
    (free : ∀ name ∈ type.names, IsFree name) :
    Spells Closed type.sketch (TypeSpelling limit · type) :=
  (FieldType.spells_sketch formed.named free).imp fun _ spelled => spelled.within formed.shallow

end Types

namespace Fuzz

section Constants

/-- A text is a number: an integer of 64 bits, or a double whose exponent has 64 bits. -/
def IsNumeral (text : List Char) : Prop :=
  IsInteger text ∧ admitsInteger text ∨ Shape.double.Whole admitsInteger text

/-- The constant that a number is. -/
def numeralMeaning (text : List Char) : ConstValue :=
  let number := (scanNumber (fun _ => true) text).1
  if number.isIntegral then .int (Text.signedValue text) else .double number.toDouble

/-- A number spells the constant that it is. -/
theorem IsNumeral.spells {text : List Char} (isNumeral : IsNumeral text) :
    Spells Closed text
      (ConstantSpelling true (numeralMeaning text).depth · (numeralMeaning text)) := by
  rcases isNumeral with ⟨isInteger, fits⟩ | whole
  · have integral : (scanNumber (fun _ => true) text).1.isIntegral := by
      have alone : (scanNumber (fun _ => true) (text ++ [])).1.isIntegral :=
        isIntegral_scanNumber_append isInteger numberStop_nil
      rwa [List.append_nil] at alone
    rw [numeralMeaning, if_pos integral]
    exact spells_intConstant ⟨isInteger, rfl, fits⟩
  · have fractional : ¬ (scanNumber (fun _ => true) text).1.isIntegral := by
      obtain ⟨number, formed, digits, fractional, admitted, rfl⟩ := whole
      have alone := scanNumber_append (fun _ => true) formed digits (fun _ _ => rfl) numberStop_nil
      rw [List.append_nil] at alone
      simp [alone, fractional]
    rw [numeralMeaning, if_neg fractional]
    exact spells_doubleConstant ⟨whole, rfl⟩

mutual
/-- The constant that a sketch stands for. -/
def ConstSketch.meaning : ConstSketch → ConstValue
  | .number spelling => numeralMeaning spelling.toList
  | .literal spelling => .literal (unquoted spelling.toList)
  | .name name => .name name
  | .list _ values => .list (meaningsOfValues values)
  | .map _ entries => .map (meaningsOfEntries entries)

/-- The constants that sketches stand for. -/
def meaningsOfValues : List ConstSketch → List ConstValue
  | [] => []
  | value :: values => value.meaning :: meaningsOfValues values

/-- The entries that pairs of sketches stand for. -/
def meaningsOfEntries : List (ConstSketch × ConstSketch) → List (ConstValue × ConstValue)
  | [] => []
  | (key, value) :: entries => (key.meaning, value.meaning) :: meaningsOfEntries entries
end

/-- The numbers, literals and names of a constant to be written are some, and its separators divide
elements. -/
inductive ConstSketch.Formed : ConstSketch → Prop where
  /-- A number. -/
  | number {spelling : String} : IsNumeral spelling.toList → Formed (.number spelling)
  /-- A literal. -/
  | literal {spelling : String} : IsLiteral spelling.toList → Formed (.literal spelling)
  /-- A name. -/
  | name {name : String} : IsName name.toList → Formed (.name name)
  /-- A list. -/
  | list {separator : String} {values : List ConstSketch} : Divider separator.toList →
      (∀ value ∈ values, Formed value) → Formed (.list separator values)
  /-- A map. -/
  | map {separator : String} {entries : List (ConstSketch × ConstSketch)} :
      Divider separator.toList → (∀ entry ∈ entries, Formed entry.1) →
      (∀ entry ∈ entries, Formed entry.2) → Formed (.map separator entries)

/-- Texts of things that each spell what the thing stands for. -/
theorem forall₂_spells {α β : Type} {item : List Lexeme → β → Prop} {text : α → List Char}
    {meaning : α → β} {things : List α}
    (each : ∀ thing ∈ things, Spells Closed (text thing) (item · (meaning thing))) :
    List.Forall₂ (fun text value => Spells Closed text (item · value)) (things.map text)
      (things.map meaning) :=
  List.forall₂_map_left_iff.2 (List.forall₂_map_right_iff.2 (List.forall₂_same.2 each))

/-- The texts of constants are those of each. -/
theorem textsOfValues_eq (values : List ConstSketch) :
    textsOfValues values = values.map ConstSketch.text := by
  induction values with
  | nil => rfl
  | cons value values ih => rw [textsOfValues, ih, List.map_cons]

/-- The constants that sketches stand for are those of each. -/
theorem meaningsOfValues_eq (values : List ConstSketch) :
    meaningsOfValues values = values.map ConstSketch.meaning := by
  induction values with
  | nil => rfl
  | cons value values ih => rw [meaningsOfValues, ih, List.map_cons]

/-- The texts of entries are those of each. -/
theorem textsOfEntries_eq (entries : List (ConstSketch × ConstSketch)) :
    textsOfEntries entries = entries.map fun entry =>
      entry.1.text ++ ':' :: ' ' :: entry.2.text := by
  induction entries with
  | nil => rfl
  | cons entry entries ih =>
    rw [textsOfEntries, ih, List.map_cons, List.append_assoc]
    rfl

/-- The entries that pairs of sketches stand for are those of each. -/
theorem meaningsOfEntries_eq (entries : List (ConstSketch × ConstSketch)) :
    meaningsOfEntries entries = entries.map fun entry => (entry.1.meaning, entry.2.meaning) := by
  induction entries with
  | nil => rfl
  | cons entry entries ih => rw [meaningsOfEntries, ih, List.map_cons]

/-- The text of a formed constant spells what it stands for. -/
theorem ConstSketch.Formed.spells {sketch : ConstSketch} (formed : sketch.Formed) :
    Spells Closed sketch.text (ConstantSpelling true sketch.meaning.depth · sketch.meaning) := by
  induction formed with
  | number isNumeral => exact isNumeral.spells
  | literal isLiteral => exact spells_literalConstant isLiteral
  | name isName => exact spells_nameConstant isName
  | list divides _ ih =>
    rw [text, meaning, textsOfValues_eq, meaningsOfValues_eq]
    exact spells_constList divides (forall₂_spells ih)
  | map divides _ _ key_ih value_ih =>
    rw [text, meaning, textsOfEntries_eq, meaningsOfEntries_eq]
    exact spells_constMap divides
      (forall₂_spells fun entry mem => spells_entry (key_ih entry mem) (value_ih entry mem))

end Constants

section Members

variable {α : Type} {limit : Nat}

/-- Elements are formed if what stands between them divides them and each is formed. -/
structure Joined.Formed (all : Joined α) (formed : α → Prop) : Prop where
  /-- What stands between two elements divides them. -/
  divides : Divider all.separator.toList
  /-- Each element is formed. -/
  each : ∀ item ∈ all.items, formed item

/-- What may be missing is related to what is made of it. -/
theorem rel_map {β γ : Type} {relates : β → γ → Prop} {text : α → β} {meaning : α → γ}
    {thing : Option α} (each : ∀ one ∈ thing, relates (text one) (meaning one)) :
    Option.Rel relates (thing.map text) (thing.map meaning) := by
  cases thing with
  | none => exact .none
  | some one => exact .some (each one rfl)

/-- The field that a sketch stands for. -/
def FieldSketch.meaning (field : FieldSketch) : Field Unit where
  type := field.type
  name := field.name
  id := field.id.map Text.signedValue
  requiredness := field.requiredness
  defaultValue := field.defaultValue.map ConstSketch.meaning
  place := ()

/-- The parts of a field to be written are formed, with its containers nested within a limit. -/
structure FieldSketch.Formed (limit : Nat) (field : FieldSketch) : Prop where
  /-- The number is an integer of 64 bits. -/
  id : ∀ id ∈ field.id, IsInteger id ∧ admitsInteger id
  /-- The type is formed. -/
  type : field.type.Formed limit
  /-- The name is a name. -/
  name : IsName field.name.toList
  /-- The value is formed. -/
  value : ∀ value ∈ field.defaultValue, value.Formed ∧ value.meaning.depth ≤ limit

/-- The text of a formed field spells what it stands for, if no name of it is a keyword. -/
theorem FieldSketch.Formed.spells {field : FieldSketch} (formed : field.Formed limit)
    (free : ∀ name ∈ field.meaning.names, IsFree name) :
    Spells Closed field.text (FieldWriting limit · field.meaning) := by
  have freeType : ∀ name ∈ field.type.names, IsFree name := fun name mem =>
    free name (List.mem_cons_of_mem _ (List.mem_append_left _ mem))
  have ids : Option.Rel DenotesInteger field.id field.meaning.id := by
    have numbers := rel_map fun number mem =>
      DenotesInteger.mk (formed.id number mem).1 rfl (formed.id number mem).2
    rwa [Option.map_id'] at numbers
  have unlike : field.type = .named "required" ∨ field.type = .named "optional" →
      field.requiredness ≠ .unstated := by
    rintro (type | type)
    · exact absurd rfl (freeType "required" (by simp [type, FieldType.names]) .required)
    · exact absurd rfl (freeType "optional" (by simp [type, FieldType.names]) .optional)
  have values : Option.Rel
      (fun text value => Spells Closed text (ConstantSpelling true limit · value))
      (field.defaultValue.map ConstSketch.text) field.meaning.defaultValue :=
    rel_map fun value mem => (formed.value value mem).1.spells.imp fun _ spelled =>
      spelled.within (formed.value value mem).2
  have text : field.text = spaced ((field.id.elim [] fun text => [text ++ [':']]) ++
      field.requiredness.idl ++ [field.type.sketch, field.name.toList] ++
        (field.defaultValue.map ConstSketch.text).elim [] fun text => ['=' :: ' ' :: text]) := by
    rw [FieldSketch.text, Option.elim_map]
    rfl
  rw [text]
  exact spells_field ids unlike (formed.type.spells freeType) formed.name values

/-- The text of formed fields spells them between round brackets. -/
theorem Joined.Formed.spells_fields {fields : Joined FieldSketch}
    (formed : fields.Formed (FieldSketch.Formed limit))
    (free : ∀ field ∈ fields.items, ∀ name ∈ field.meaning.names, IsFree name) :
    Spells Anywhere ('(' :: (fields.text FieldSketch.text ++ [')']))
      (FieldsWriting limit · (fields.items.map FieldSketch.meaning)) :=
  spells_fieldList formed.divides
    (forall₂_spells fun field mem => (formed.each field mem).spells (free field mem))

/-- The function that a sketch stands for. -/
def FunctionSketch.meaning (function : FunctionSketch) : FunctionDecl Unit where
  name := function.name
  returns := function.returns
  oneway := function.oneway
  parameters := function.parameters.items.map FieldSketch.meaning
  exceptions := function.exceptions.map fun fields => fields.items.map FieldSketch.meaning
  place := ()

/-- The parts of a function to be written are formed, with its containers nested within a limit. -/
structure FunctionSketch.Formed (limit : Nat) (function : FunctionSketch) : Prop where
  /-- The type of the result is formed. -/
  returns : ∀ type ∈ function.returns, type.Formed limit
  /-- The name is a name. -/
  name : IsName function.name.toList
  /-- The parameters are formed. -/
  parameters : function.parameters.Formed (FieldSketch.Formed limit)
  /-- The exceptions are formed. -/
  exceptions : ∀ fields ∈ function.exceptions, fields.Formed (FieldSketch.Formed limit)

/-- The text of a formed function spells what it stands for, if no name of it is a keyword. -/
theorem FunctionSketch.Formed.spells {function : FunctionSketch} (formed : function.Formed limit)
    (free : ∀ name ∈ function.meaning.names, IsFree name) :
    Spells Closed function.text (FunctionWriting limit · function.meaning) := by
  obtain ⟨-, parts⟩ := List.forall_mem_cons.1 free
  obtain ⟨others, freeExceptions⟩ := List.forall_mem_append.1 parts
  obtain ⟨freeReturns, freeParameters⟩ := List.forall_mem_append.1 others
  have freeResult : ∀ type ∈ function.returns, ∀ name ∈ type.names, IsFree name :=
    fun type mem name among => freeReturns name
      (List.mem_flatMap.2 ⟨type, Option.mem_toList.2 mem, among⟩)
  have noVoid : function.returns ≠ some (.named "void") := fun named =>
    absurd rfl (freeResult _ named "void" (by simp [FieldType.names]) .void)
  have noOneway : function.returns ≠ some (.named "oneway") := fun named =>
    absurd rfl (freeResult _ named "oneway" (by simp [FieldType.names]) .oneway)
  have result := spells_result noVoid fun type mem =>
    (formed.returns type mem).spells (freeResult type mem)
  have parameters := formed.parameters.spells_fields fun field mem name among =>
    freeParameters name (List.mem_flatMap.2 ⟨_, List.mem_map_of_mem mem, among⟩)
  have throws : Option.Rel
      (fun text fields => Spells Anywhere ('(' :: (text ++ [')'])) (FieldsWriting limit · fields))
      (function.exceptions.map fun fields => fields.text FieldSketch.text)
      function.meaning.exceptions := by
    refine rel_map fun fields mem => (formed.exceptions fields mem).spells_fields ?_
    intro field among name named
    refine freeExceptions name (List.mem_flatMap.2 ⟨field.meaning, ?_, named⟩)
    rw [meaning, Option.mem_def.1 mem]
    exact List.mem_map_of_mem among
  have text : function.text = (if function.meaning.oneway then "oneway ".toList else []) ++
      function.returns.elim "void".toList FieldType.sketch ++
        ' ' :: function.meaning.name.toList ++ '(' :: function.parameters.text FieldSketch.text ++
          ')' :: (function.exceptions.map fun fields => fields.text FieldSketch.text).elim []
            fun text => " throws (".toList ++ text ++ [')'] := by
    simp only [FunctionSketch.text, Option.elim_map, Function.comp_def, meaning]
    rfl
  rw [text]
  exact spells_function result (fun named => absurd named noOneway) formed.name parameters throws

/-- The value of an enumeration that a sketch stands for. -/
def EnumValueSketch.meaning (value : EnumValueSketch) : EnumValue Unit where
  name := value.name
  value := value.number.map fun number => Text.signedValue number.toList
  place := ()

/-- The parts of a value of an enumeration to be written are formed. -/
structure EnumValueSketch.Formed (value : EnumValueSketch) : Prop where
  /-- The name is a name. -/
  name : IsName value.name.toList
  /-- The number is an integer of 64 bits. -/
  number : ∀ number ∈ value.number,
    IsInteger number.toList ∧ admitsInteger number.toList

/-- The text of a formed value of an enumeration spells what it stands for. -/
theorem EnumValueSketch.Formed.spells {value : EnumValueSketch} (formed : value.Formed) :
    Spells Closed value.text (EnumValueWriting · value.meaning) := by
  have numbers : Option.Rel DenotesInteger (value.number.map String.toList) value.meaning.value :=
    rel_map fun number mem => ⟨(formed.number number mem).1, rfl, (formed.number number mem).2⟩
  have text : value.text = value.meaning.name.toList ++
      (value.number.map String.toList).elim [] fun text => " = ".toList ++ text := by
    simp only [EnumValueSketch.text, Option.elim_map, Function.comp_def, meaning]
  rw [text]
  exact spells_enumValue formed.name numbers

end Members

section Definitions

variable {α β : Type} {limit : Nat}

/-- The type that gets a second name: one type if it is a container, and else a base type. -/
def oldType (base : BaseType) (type : FieldType) : FieldType :=
  if type.isContainer then type else .base base

/-- A type that gets a second name is not known by a name only. -/
theorem oldType_ne_named (base : BaseType) (type : FieldType) :
    ∀ name, oldType base type ≠ .named name := by
  intro name
  cases type <;> simp [oldType, FieldType.isContainer]

/-- A type that gets a second name is spelled by its text. -/
theorem spells_oldType (base : BaseType) {type : FieldType} (formed : type.Formed limit)
    (free : ∀ name ∈ (oldType base type).names, IsFree name) :
    Spells Closed (oldType base type).sketch (TypeSpelling limit · (oldType base type)) := by
  by_cases container : type.isContainer
  · have same : oldType base type = type := if_pos container
    rw [same] at free ⊢
    exact formed.spells free
  · have same : oldType base type = .base base := if_neg container
    rw [same]
    exact (spells_baseType base).imp fun _ spelled => spelled.within (Nat.zero_le _)

/-- The definition that a sketch stands for. -/
def DefinitionSketch.meaning : DefinitionSketch → Definition Unit
  | .inclusion ofHeader path =>
    if ofHeader then .cppInclusion (unquoted path.toList) else .inclusion (unquoted path.toList)
  | .space scope name => .space ⟨scope, name⟩
  | .typedef base type name => .typedef ⟨oldType base type, name, ()⟩
  | .const type name value => .const ⟨name, type, value.meaning, ()⟩
  | .enum name values => .enum ⟨name, values.items.map EnumValueSketch.meaning, ()⟩
  | .record kind name fields => .record kind ⟨name, fields.items.map FieldSketch.meaning, ()⟩
  | .service name base functions =>
    .service ⟨name, base, functions.items.map FunctionSketch.meaning, ()⟩

/-- The parts of a definition to be written are formed, with its containers nested within a limit. -/
inductive DefinitionSketch.Formed (limit : Nat) : DefinitionSketch → Prop where
  /-- An inclusion. -/
  | inclusion {ofHeader : Bool} {path : String} : IsLiteral path.toList →
      Formed limit (.inclusion ofHeader path)
  /-- A namespace. -/
  | space {scope name : String} : scope ∈ namespaceScopes → IsName name.toList →
      Formed limit (.space scope name)
  /-- A second name for a type. -/
  | typedef {base : BaseType} {type : FieldType} {name : String} : type.Formed limit →
      IsName name.toList → Formed limit (.typedef base type name)
  /-- A constant. -/
  | const {type : FieldType} {name : String} {value : ConstSketch} : type.Formed limit →
      IsName name.toList → value.Formed → value.meaning.depth ≤ limit →
      Formed limit (.const type name value)
  /-- An enumeration. -/
  | enum {name : String} {values : Joined EnumValueSketch} : IsName name.toList →
      values.Formed EnumValueSketch.Formed → Formed limit (.enum name values)
  /-- A record. -/
  | record {kind : RecordKind} {name : String} {fields : Joined FieldSketch} :
      IsName name.toList → fields.Formed (FieldSketch.Formed limit) →
      Formed limit (.record kind name fields)
  /-- A service. -/
  | service {name : String} {base : Option String} {functions : Joined FunctionSketch} :
      IsName name.toList → (∀ other ∈ base, IsName other.toList) →
      functions.Formed (FunctionSketch.Formed limit) → Formed limit (.service name base functions)

/-- Texts with others after them are spaced as both are, with a blank between them. -/
theorem spaced_append {texts others : List (List Char)} (some : texts ≠ []) (more : others ≠ []) :
    spaced (texts ++ others) = spaced texts ++ ([' '] ++ spaced others) := by
  have cons : ∀ text : List Char, ∀ rest : List (List Char), rest ≠ [] →
      spaced (text :: rest) = text ++ ([' '] ++ spaced rest) := by
    intro text rest rest_ne
    obtain ⟨next, rest, rfl⟩ := List.exists_cons_of_ne_nil rest_ne
    simp [spaced, List.intercalate]
  induction texts with
  | nil => exact absurd rfl some
  | cons text texts ih =>
    rw [List.cons_append, cons text (texts ++ others) (by simp [more])]
    by_cases none : texts = []
    · rw [none, List.nil_append, spaced_singleton]
    · rw [ih none, cons text texts none]
      simp only [List.append_assoc]

/-- A header with divided members between braces, all on one line. -/
theorem spells_body {header : List (List Char)} {spelling : List Lexeme → Prop}
    {item : List Lexeme → β → Prop} {members : Joined α} {text : α → List Char} {meaning : α → β}
    (head : Spells Closed (spaced header) spelling) (some : header ≠ [])
    (divides : Divider members.separator.toList)
    (each : ∀ member ∈ members.items, Spells Closed (text member) (item · (meaning member))) :
    Spells Closed (body header (members.text text))
      (BodyWriting spelling (Elements true item) · (members.items.map meaning)) := by
  have blank : Filler [' '] := .blank rfl .nil
  have enclosed := spells_enclosed .leftBrace .rightBrace (by decide) (by decide) divides blank
    (forall₂_spells each)
  have row : body header (members.text text) = spaced header ++ ([' '] ++ ([Mark.leftBrace.char] ++
      ([' '] ++ (members.separator.toList.intercalate (members.items.map text) ++
        ([' '] ++ [Mark.rightBrace.char]))))) := by
    rw [body, spaced_append some (by simp)]
    simp [spaced, List.intercalate, Joined.text, joined, Mark.char]
  rw [row]
  refine (head.spaced enclosed).closed.imp ?_
  rintro _ ⟨first, _, rfl, spelled, ⟨opening, closing, elements, rfl, isOpening, isClosing,
    spelled'⟩, -⟩
  exact ⟨first, opening, elements, closing, rfl, spelled, isOpening, spelled', isClosing⟩

/-- The text of a formed definition spells what it stands for, if no name of it is a keyword. -/
theorem DefinitionSketch.Formed.spells {definition : DefinitionSketch}
    (formed : definition.Formed limit) (free : ∀ name ∈ definition.meaning.names, IsFree name) :
    Spells Closed definition.text (DefinitionWriting limit · definition.meaning) := by
  cases formed with
  | @inclusion ofHeader path isLiteral =>
    cases ofHeader with
    | false =>
      have row : (DefinitionSketch.inclusion false path).text =
          "include".toList ++ ([' '] ++ path.toList) := by
        simp [text, spaced, List.intercalate]
      rw [row]
      exact spells_inclusion isLiteral
    | true =>
      have row : (DefinitionSketch.inclusion true path).text =
          "cpp_include".toList ++ ([' '] ++ path.toList) := by
        simp [text, spaced, List.intercalate]
      rw [row]
      exact spells_cppInclusion isLiteral
  | @space scope name mem isName => exact spells_space ⟨scope, name⟩ mem isName
  | @typedef base type name typeFormed isName =>
    have freeType := (List.forall_mem_cons.1 free).2
    have types := spells_oldType base typeFormed freeType
    exact spells_typedef ⟨_, name, ()⟩ types (oldType_ne_named base type) isName
  | @const type name value typeFormed isName valueFormed shallow =>
    obtain ⟨freeType, -⟩ := List.forall_mem_append.1 (List.forall_mem_cons.1 free).2
    have values := valueFormed.spells.imp fun _ spelled => spelled.within shallow
    exact spells_const ⟨name, type, value.meaning, ()⟩ (typeFormed.spells freeType) isName values
  | enum isName values =>
    have header := spells_header "enum" (by decide) isName
    exact (spells_body header (by simp) values.divides fun value mem =>
      (values.each value mem).spells).imp fun _ writing => writing.enum
  | @record kind name fields isName formed =>
    have header := spells_header kind.keyword kind.isName_keyword isName
    have freeFields := (List.forall_mem_cons.1 free).2
    exact (spells_body header (by simp) formed.divides fun field mem =>
      (formed.each field mem).spells fun name among =>
        freeFields name (List.mem_flatMap.2 ⟨_, List.mem_map_of_mem mem, among⟩)).imp
          fun _ writing => writing.record
  | service isName isBase functions =>
    have header := spells_service_header isName isBase
    have freeFunctions := (List.forall_mem_cons.1 free).2
    exact (spells_body header (by simp) functions.divides fun function mem =>
      (functions.each function mem).spells fun name among =>
        freeFunctions name (List.mem_flatMap.2 ⟨_, List.mem_map_of_mem mem, among⟩)).imp
          fun _ writing => writing.service

end Definitions

section Documents

variable {limit : Int} {definitions : List DefinitionSketch}

/-- The document that sketches of definitions stand for. -/
def documentMeaning (definitions : List DefinitionSketch) : Document Unit :=
  .ofDefinitions (definitions.map DefinitionSketch.meaning)

/-- The text of formed definitions has lexemes that spell definitions which are those that the
sketches stand for but for the places. -/
theorem exists_lexes_documentText {limit : Nat}
    (formed : ∀ definition ∈ definitions, definition.Formed limit)
    (free : ∀ name ∈ (documentMeaning definitions).names, IsFree name) :
    ∃ lexemes rest reads, AllLexes takesExponent (documentText definitions) lexemes rest ∧
      skip rest = [] ∧ lexemes.IsChain Loose ∧ DefinitionsSpelling true limit lexemes reads ∧
        (Document.ofDefinitions reads).map content = documentMeaning definitions := by
  by_cases none : definitions = []
  · subst none
    exact ⟨[], [], [], fun _ _ => rfl, rfl, .nil, .nil, rfl⟩
  · have singles := forall₂_spells fun definition mem => spells_single
      ((formed definition mem).spells fun name among => free name (List.mem_flatMap.2
        ⟨_, Document.mem_definitions_ofDefinitions.2 (List.mem_map_of_mem mem), among⟩))
    have lineEnd : Filler ['\n'] := .blank rfl .nil
    have spells := spells_intercalate lineEnd (by simp) (fun rest => closed_lineEnd _) singles
      (by simpa using none)
    obtain ⟨lexemes, lexes, spelled, -, loose⟩ := spells .nil closed_nil
    have parts : (definitions.map fun definition => [definition.meaning]).flatten =
        definitions.map DefinitionSketch.meaning := by
      have each := flatten_singletons (definitions.map DefinitionSketch.meaning)
      rwa [List.map_map] at each
    rw [parts] at spelled
    rw [List.nil_append, List.append_nil] at lexes
    obtain ⟨reads, same, spelled⟩ := spelled.exists_reads
    refine ⟨lexemes, [], reads, lexes, rfl, loose, spelled, ?_⟩
    calc (Document.ofDefinitions reads).map content
      _ = .ofDefinitions ((definitions.map DefinitionSketch.meaning).map (Definition.map content)) := by
        rw [← Document.ofDefinitions_map, same]
      _ = (documentMeaning definitions).map content := Document.ofDefinitions_map content _
      _ = documentMeaning definitions := Document.map_id _

/-- The document of formed definitions is read in both ways, if no name of it is a keyword. Both ways
give the document that the sketches stand for, with the same positions. -/
theorem exists_reads_documentText
    (formed : ∀ definition ∈ definitions, definition.Formed limit.toNat)
    (free : ∀ name ∈ (documentMeaning definitions).names, IsFree name) :
    ∃ read, readStrictly limit (documentText definitions) = .ok read ∧
      readGrammatically limit (documentText definitions) = .ok read ∧
        read.map content = documentMeaning definitions := by
  obtain ⟨lexemes, rest, reads, lexes, ends, loose, spelled, same⟩ :=
    exists_lexes_documentText formed free
  have names : (Document.ofDefinitions reads).names = (documentMeaning definitions).names := by
    rw [← same, Document.names_map]
  rw [← names] at free
  obtain ⟨settled, clear, unthrown⟩ := Document.clear_of_names free
  have direct := readStrictly_eq_ok_iff.2
    ⟨lexemes, rest, reads, lexes fun _ fits => fits, ends, spelled, rfl⟩
  have overTokens := readByTokens_of_spelled lexes ends loose spelled settled clear unthrown
  refine ⟨_, direct, readGrammatically_eq_ok_iff.2 ⟨_, overTokens, rfl⟩, ?_⟩
  rw [Document.map_map]
  exact same

end Documents

end Fuzz
end ThriftIdl
