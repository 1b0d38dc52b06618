import ThriftIdl.Proofs.Grammar.Spelling
import ThriftIdl.Proofs.Places
import ThriftIdl.Token.Source

/-!
# Nesting

The depth of a part of a document is the greatest number of containers around anything in it. No
container is found to be nested beyond a limit exactly if the depth is within the limit
(`Definition.tooDeep?_eq_none_iff`), and what is spelled is spelled within exactly the levels that its
depth needs (`TypeSpelling.within`, `ConstantSpelling.within`).
-/
namespace ThriftIdl

/-- The greatest measure of some things. -/
def greatest {α : Type} (measure : α → Nat) (things : List α) : Nat :=
  things.foldr (fun thing rest => max (measure thing) rest) 0

/-- The greatest measure is within a limit if all measures are. -/
theorem greatest_le_iff {α : Type} {measure : α → Nat} {things : List α} {limit : Nat} :
    greatest measure things ≤ limit ↔ ∀ thing ∈ things, measure thing ≤ limit := by
  induction things with
  | nil => simp [greatest]
  | cons thing things ih =>
    rw [List.forall_mem_cons, ← ih]
    exact Nat.max_le

/-- The greatest measure of changed things is that of the things after the change. -/
theorem greatest_map {α β : Type} {measure : β → Nat} {change : α → β} {things : List α} :
    greatest measure (things.map change) = greatest (measure ∘ change) things := by
  rw [greatest, List.foldr_map]
  rfl

section Depths

variable {π : Type}

/-- The depth of a field. -/
def Field.depth (field : Field π) : Nat :=
  max field.type.depth (greatest ConstValue.depth field.defaultValue.toList)

/-- The depth of a function. -/
def FunctionDecl.depth (function : FunctionDecl π) : Nat :=
  max (greatest FieldType.depth function.returns.toList)
    (max (greatest Field.depth function.parameters)
      (greatest Field.depth (function.exceptions.getD [])))

/-- The depth of a definition. -/
def Definition.depth : Definition π → Nat
  | .inclusion _ | .cppInclusion _ | .space _ | .enum _ => 0
  | .typedef decl => decl.old.depth
  | .const decl => max decl.type.depth decl.value.depth
  | .record _ decl => greatest Field.depth decl.fields
  | .service decl => greatest FunctionDecl.depth decl.functions

/-- The depth of a document. -/
def Document.depth (document : Document π) : Nat := greatest Definition.depth document.definitions

/-- Sorted definitions are as deep as the deepest of them. -/
theorem Document.depth_ofDefinitions_le_iff {definitions : List (Definition π)} {limit : Nat} :
    (ofDefinitions definitions).depth ≤ limit ↔
      ∀ definition ∈ definitions, definition.depth ≤ limit := by
  simp only [depth, greatest_le_iff, mem_definitions_ofDefinitions]

/-- A definition is nested as deeply wherever its parts are. -/
theorem Definition.depth_map {ρ : Type} (move : π → ρ) (definition : Definition π) :
    (definition.map move).depth = definition.depth := by
  have fields : Field.depth ∘ Field.map move = Field.depth := funext fun _ => rfl
  have functions : FunctionDecl.depth ∘ FunctionDecl.map move = FunctionDecl.depth := by
    funext function
    obtain ⟨name, returns, oneway, parameters, exceptions, place⟩ := function
    cases exceptions with
    | none =>
      simp only [Function.comp_apply, FunctionDecl.depth, FunctionDecl.map, greatest_map, fields]
      rfl
    | some thrown => simp [FunctionDecl.depth, FunctionDecl.map, greatest_map, fields]
  cases definition with
  | inclusion | cppInclusion | space | typedef | const | enum => rfl
  | record kind decl => simp [depth, map, Record.map, greatest_map, fields]
  | service decl => simp [depth, map, Service.map, greatest_map, functions]

/-- A document is nested as deeply wherever its parts are. -/
theorem Document.depth_map {ρ : Type} (move : π → ρ) (document : Document π) :
    (document.map move).depth = document.depth := by
  have definitions : Definition.depth ∘ Definition.map move = Definition.depth :=
    funext (Definition.depth_map move)
  rw [depth, definitions_map, greatest_map, definitions, depth]

end Depths

section TooDeep

variable {π : Type} {limit : Nat}

mutual
/-- No container of a constant is nested too deeply exactly if the depth is within the limit. -/
theorem ConstValue.tooDeep?_eq_none_iff (limit : Nat) :
    ∀ value : ConstValue, value.tooDeep? limit = none ↔ value.depth ≤ limit
  | .name _ | .literal _ | .int _ | .double _ => by simp [ConstValue.tooDeep?, ConstValue.depth]
  | .list values => by
    simp only [ConstValue.tooDeep?, ConstValue.depth]
    split
    · simp_all
    · rw [tooDeepValues?_eq_none_iff (limit - 1) values]
      omega
  | .map entries => by
    simp only [ConstValue.tooDeep?, ConstValue.depth]
    split
    · simp_all
    · rw [tooDeepEntries?_eq_none_iff (limit - 1) entries]
      omega

/-- The same for the values of a list. -/
theorem tooDeepValues?_eq_none_iff (limit : Nat) :
    ∀ values : List ConstValue, tooDeepValues? limit values = none ↔ depthOfValues values ≤ limit
  | [] => by simp [tooDeepValues?, depthOfValues]
  | value :: values => by
    rw [tooDeepValues?, depthOfValues, Option.or_eq_none_iff,
      tooDeepValues?_eq_none_iff limit values, ConstValue.tooDeep?_eq_none_iff limit value]
    omega

/-- The same for the entries of a map. -/
theorem tooDeepEntries?_eq_none_iff (limit : Nat) :
    ∀ entries : List (ConstValue × ConstValue),
      tooDeepEntries? limit entries = none ↔ depthOfEntries entries ≤ limit
  | [] => by simp [tooDeepEntries?, depthOfEntries]
  | (key, value) :: entries => by
    rw [tooDeepEntries?, depthOfEntries, Option.or_eq_none_iff, Option.or_eq_none_iff,
      tooDeepEntries?_eq_none_iff limit entries, ConstValue.tooDeep?_eq_none_iff limit key,
      ConstValue.tooDeep?_eq_none_iff limit value]
    omega
end

/-- A list gives no last answer if nothing in it gives one. -/
theorem lastOf_eq_none_iff {α β : Type} {ask : α → Option β} {things : List α} :
    lastOf ask things = none ↔ ∀ thing ∈ things, ask thing = none := by
  simp [lastOf, List.findSome?_eq_none_iff]

/-- No container of a field is nested too deeply exactly if its depth is within the limit. -/
theorem Field.tooDeep?_eq_none_iff {field : Field π} :
    field.tooDeep? limit = none ↔ field.depth ≤ limit := by
  simp only [Field.tooDeep?, Field.depth, Option.or_eq_none_iff, FieldType.tooDeep?_eq_none_iff,
    Nat.max_le, greatest_le_iff]
  cases field.defaultValue <;> simp [ConstValue.tooDeep?_eq_none_iff, and_comm]

/-- The same for the last field of a list. -/
theorem lastOf_field_eq_none_iff {fields : List (Field π)} :
    lastOf (Field.tooDeep? limit) fields = none ↔ greatest Field.depth fields ≤ limit := by
  simp only [lastOf_eq_none_iff, greatest_le_iff, Field.tooDeep?_eq_none_iff]

/-- No container of a function is nested too deeply exactly if its depth is within the limit. -/
theorem FunctionDecl.tooDeep?_eq_none_iff {function : FunctionDecl π} :
    function.tooDeep? limit = none ↔ function.depth ≤ limit := by
  have result : function.returns.bind (·.tooDeep? limit) = none ↔
      greatest FieldType.depth function.returns.toList ≤ limit := by
    cases function.returns <;> simp [greatest, FieldType.tooDeep?_eq_none_iff]
  simp only [FunctionDecl.tooDeep?, FunctionDecl.depth, Option.or_eq_none_iff, Nat.max_le,
    lastOf_field_eq_none_iff, result]
  tauto

/-- No container of a definition is nested too deeply exactly if its depth is within the limit. -/
theorem Definition.tooDeep?_eq_none_iff {definition : Definition π} :
    definition.tooDeep? limit = none ↔ definition.depth ≤ limit := by
  cases definition with
  | inclusion | cppInclusion | space | enum => simp [Definition.tooDeep?, Definition.depth]
  | typedef decl => exact FieldType.tooDeep?_eq_none_iff
  | const decl =>
    simp only [Definition.tooDeep?, Definition.depth, Option.or_eq_none_iff, Nat.max_le,
      FieldType.tooDeep?_eq_none_iff, ConstValue.tooDeep?_eq_none_iff, and_comm]
  | record kind decl => exact lastOf_field_eq_none_iff
  | service decl =>
    simp only [Definition.tooDeep?, Definition.depth, lastOf_eq_none_iff, greatest_le_iff,
      FunctionDecl.tooDeep?_eq_none_iff]

end TooDeep

section Within

variable {parted : Bool} {depth limit : Nat} {lexemes : List Lexeme}

/-- A type that is spelled is spelled within as many levels as it is deep. -/
theorem TypeSpelling.within {type : FieldType} (spelled : TypeSpelling depth lexemes type)
    (shallow : type.depth ≤ limit) : TypeSpelling limit lexemes type := by
  induction depth generalizing limit lexemes type with
  | zero =>
    cases limit with
    | zero => exact spelled
    | succ limit => exact typeSpelling_succ.2 (.inl spelled)
  | succ depth ih =>
    rcases typeSpelling_succ.1 spelled with simple | container
    · cases limit with
      | zero => exact simple
      | succ limit => exact typeSpelling_succ.2 (.inl simple)
    · cases limit with
      | zero =>
        cases container <;> simp [FieldType.depth] at shallow
      | succ limit =>
        refine typeSpelling_succ.2 (.inr ?_)
        cases container with
        | map isWord cppType less keys comma values more =>
          simp only [FieldType.depth] at shallow
          exact .map isWord cppType less (ih keys (by omega)) comma (ih values (by omega)) more
        | set isWord cppType less elements more =>
          simp only [FieldType.depth] at shallow
          exact .set isWord cppType less (ih elements (by omega)) more
        | list isWord less elements more cppType =>
          simp only [FieldType.depth] at shallow
          exact .list isWord less (ih elements (by omega)) more cppType

/-- A type is at most as deep as the levels within which it is spelled. -/
theorem TypeSpelling.depth_le {type : FieldType} (spelled : TypeSpelling depth lexemes type) :
    type.depth ≤ depth := by
  have simple : ∀ {lexemes : List Lexeme} {type : FieldType},
      TypeSpelling 0 lexemes type → type.depth = 0 := by
    rintro _ _ (base | named)
    · cases base
      rfl
    · cases named
      rfl
  induction depth generalizing lexemes type with
  | zero => exact (simple spelled).le
  | succ depth ih =>
    rcases typeSpelling_succ.1 spelled with single | container
    · rw [simple single]
      exact Nat.zero_le _
    · cases container with
      | map _ _ _ keys _ values _ =>
        have key := ih keys
        have value := ih values
        simp only [FieldType.depth]
        omega
      | set _ _ _ elements _ => exact Nat.succ_le_succ (ih elements)
      | list _ _ elements _ _ => exact Nat.succ_le_succ (ih elements)

/-- A type is spelled within more levels, too. -/
theorem TypeSpelling.mono {type : FieldType} (spelled : TypeSpelling depth lexemes type)
    (deeper : depth ≤ limit) : TypeSpelling limit lexemes type :=
  spelled.within (spelled.depth_le.trans deeper)

/-- Elements are spelled in another way if each of them is. -/
theorem Elements.imp {α : Type} {item item' : List Lexeme → α → Prop} {values : List α}
    (spelled : Elements parted item lexemes values)
    (each : ∀ lexemes, ∀ value ∈ values, item lexemes value → item' lexemes value) :
    Elements parted item' lexemes values := by
  induction spelled with
  | nil => exact .nil
  | cons first separator _ apart ih =>
    exact .cons (each _ _ (by simp) first) separator
      (ih fun lexemes value mem => each lexemes value (by simp [mem])) apart

/-- Items in a row are spelled in another way if each of them is. -/
theorem Sequence.imp {α : Type} {item item' : List Lexeme → α → Prop} {values : List α}
    (spelled : Sequence item lexemes values)
    (each : ∀ lexemes, ∀ value ∈ values, item lexemes value → item' lexemes value) :
    Sequence item' lexemes values := by
  induction spelled with
  | nil => exact .nil
  | cons first _ ih =>
    exact .cons (each _ _ (by simp) first) (ih fun lexemes value mem => each lexemes value (by simp [mem]))

/-- Elements follow each other with the list separators after them. -/
theorem Elements.sequence {α : Type} {item : List Lexeme → α → Prop} {values : List α}
    (spelled : Elements parted item lexemes values) :
    Sequence (fun lexemes value => ∃ first separator, lexemes = first ++ separator ∧
      item first value ∧ SeparatorSpelling separator) lexemes values := by
  induction spelled with
  | nil => exact .nil
  | @cons first separator others value values one isSeparator _ _ ih =>
    rw [← List.append_assoc]
    exact .cons ⟨first, separator, rfl, one, isSeparator⟩ ih

/-- Elements are items in a row, if each may end with a list separator. -/
theorem Elements.ended {α : Type} {item item' : List Lexeme → α → Prop} {values : List α}
    (spelled : Elements parted item lexemes values)
    (ends : ∀ lexemes separator value, item lexemes value → SeparatorSpelling separator →
      item' (lexemes ++ separator) value) : Sequence item' lexemes values := by
  refine spelled.sequence.imp fun _ value _ ended => ?_
  obtain ⟨first, separator, rfl, one, isSeparator⟩ := ended
  exact ends first separator value one isSeparator

/-- Two sequences, one after the other, are a sequence. -/
theorem Sequence.append {α : Type} {item : List Lexeme → α → Prop} {first others : List Lexeme}
    {values values' : List α}
    (spelled : Sequence item first values) (spelled' : Sequence item others values') :
    Sequence item (first ++ others) (values ++ values') := by
  induction spelled with
  | nil => exact spelled'
  | cons head _ ih =>
    rw [List.append_assoc]
    exact .cons head ih

/-- Each of some items in a row is spelled by some of the lexemes, in their order. -/
theorem Sequence.forall {α : Type} {item : List Lexeme → α → Prop} {values : List α}
    (spelled : Sequence item lexemes values) :
    ∀ value ∈ values, ∃ part, part.Sublist lexemes ∧ item part value := by
  induction spelled with
  | nil => simp
  | cons first _ ih =>
    refine List.forall_mem_cons.2 ⟨⟨_, List.sublist_append_left _ _, first⟩, fun value mem => ?_⟩
    obtain ⟨part, less, spelled⟩ := ih value mem
    exact ⟨part, less.trans (List.sublist_append_right _ _), spelled⟩

/-- What each spelling says of an item holds of all items. -/
theorem Sequence.all {α : Type} {item : List Lexeme → α → Prop} {lexemes : List Lexeme}
    {values : List α} {holds : α → Prop} (spelled : Sequence item lexemes values)
    (each : ∀ part value, item part value → holds value) : ∀ value ∈ values, holds value := by
  intro value mem
  obtain ⟨part, -, one⟩ := spelled.forall value mem
  exact each part value one

/-- Each of some elements is spelled by some of the lexemes. -/
theorem Elements.forall {α : Type} {item : List Lexeme → α → Prop} {values : List α}
    (spelled : Elements parted item lexemes values) :
    ∀ value ∈ values, ∃ part, part ⊆ lexemes ∧ item part value := by
  induction spelled with
  | nil => simp
  | cons first _ _ _ ih =>
    refine List.forall_mem_cons.2 ⟨⟨_, List.subset_append_left _ _, first⟩, fun value mem => ?_⟩
    obtain ⟨part, less, spelled⟩ := ih value mem
    exact ⟨part, List.subset_append_of_subset_right _ (List.subset_append_of_subset_right _ less),
      spelled⟩

/-- The values of a list are within a limit if the greatest depth is. -/
theorem depthOfValues_le_iff {values : List ConstValue} :
    depthOfValues values ≤ limit ↔ ∀ value ∈ values, value.depth ≤ limit := by
  induction values with
  | nil => simp [depthOfValues]
  | cons value values ih =>
    rw [List.forall_mem_cons, ← ih, depthOfValues]
    exact Nat.max_le

/-- The entries of a map are within a limit if the greatest depth is. -/
theorem depthOfEntries_le_iff {entries : List (ConstValue × ConstValue)} :
    depthOfEntries entries ≤ limit ↔
      ∀ entry ∈ entries, entry.1.depth ≤ limit ∧ entry.2.depth ≤ limit := by
  induction entries with
  | nil => simp [depthOfEntries]
  | cons entry entries ih =>
    rw [List.forall_mem_cons, ← ih, depthOfEntries, Nat.max_le, Nat.max_le]

/-- A constant that is spelled is spelled within as many levels as it is deep. -/
theorem ConstantSpelling.within {value : ConstValue}
    (spelled : ConstantSpelling parted depth lexemes value) (shallow : value.depth ≤ limit) :
    ConstantSpelling parted limit lexemes value := by
  induction depth generalizing limit lexemes value with
  | zero =>
    cases limit with
    | zero => exact spelled
    | succ limit => exact constantSpelling_succ.2 (.inl spelled)
  | succ depth ih =>
    rcases constantSpelling_succ.1 spelled with simple | container
    · cases limit with
      | zero => exact simple
      | succ limit => exact constantSpelling_succ.2 (.inl simple)
    · cases limit with
      | zero => cases container <;> simp [ConstValue.depth] at shallow
      | succ limit =>
        refine constantSpelling_succ.2 (.inr ?_)
        cases container with
        | list opening elements closing =>
          have each := depthOfValues_le_iff.1 (Nat.le_of_succ_le_succ shallow)
          exact .list opening (elements.imp fun _ value mem inner => ih inner (each value mem)) closing
        | map opening elements closing =>
          have each := depthOfEntries_le_iff.1 (Nat.le_of_succ_le_succ shallow)
          refine .map opening (elements.imp fun _ entry mem inner => ?_) closing
          cases inner with
          | entry keys colon values =>
            exact .entry (ih keys (each _ mem).1) colon (ih values (each _ mem).2)

/-- A constant is at most as deep as the levels within which it is spelled. -/
theorem ConstantSpelling.depth_le {value : ConstValue}
    (spelled : ConstantSpelling parted depth lexemes value) : value.depth ≤ depth := by
  induction depth generalizing lexemes value with
  | zero => cases spelled <;> simp [ConstValue.depth]
  | succ depth ih =>
    rcases constantSpelling_succ.1 spelled with simple | container
    · cases simple <;> simp [ConstValue.depth]
    · cases container with
      | list _ elements _ =>
        refine Nat.succ_le_succ (depthOfValues_le_iff.2 fun value mem => ?_)
        obtain ⟨part, -, inner⟩ := elements.forall value mem
        exact ih inner
      | map _ elements _ =>
        refine Nat.succ_le_succ (depthOfEntries_le_iff.2 fun entry mem => ?_)
        obtain ⟨part, -, inner⟩ := elements.forall entry mem
        cases inner with
        | entry keys _ values => exact ⟨ih keys, ih values⟩

/-- A constant is spelled within more levels, too. -/
theorem ConstantSpelling.mono {value : ConstValue}
    (spelled : ConstantSpelling parted depth lexemes value) (deeper : depth ≤ limit) :
    ConstantSpelling parted limit lexemes value :=
  spelled.within (spelled.depth_le.trans deeper)

/-- A field is at most as deep as the levels within which it is spelled. -/
theorem FieldSpelling.depth_le {field : Field Nat}
    (spelled : FieldSpelling parted depth lexemes field) : field.depth ≤ depth := by
  cases spelled with
  | field _ _ types _ _ defaults _ _ =>
    refine Nat.max_le.2 ⟨types.depth_le, greatest_le_iff.2 ?_⟩
    cases defaults with
    | absent => simp
    | present _ value => simpa using value.depth_le

/-- Fields between brackets are at most as deep as the levels within which they are spelled. -/
theorem FieldListSpelling.depth_le {fields : List (Field Nat)}
    (spelled : FieldListSpelling parted depth lexemes fields) :
    greatest Field.depth fields ≤ depth := by
  cases spelled with
  | fields _ members _ =>
    refine greatest_le_iff.2 fun field mem => ?_
    obtain ⟨part, -, inner⟩ := members.forall field mem
    exact inner.depth_le

/-- A function is at most as deep as the levels within which it is spelled. -/
theorem FunctionSpelling.depth_le {function : FunctionDecl Nat}
    (spelled : FunctionSpelling parted depth lexemes function) : function.depth ≤ depth := by
  cases spelled with
  | function _ results _ _ members throwing _ _ =>
    refine Nat.max_le.2 ⟨greatest_le_iff.2 ?_, Nat.max_le.2 ⟨members.depth_le, ?_⟩⟩
    · cases results with
      | void => simp
      | type spelled _ => simpa using spelled.depth_le
    · cases throwing with
      | absent => exact Nat.zero_le _
      | present _ fields => exact fields.depth_le

/-- A definition is at most as deep as the levels within which it is spelled. -/
theorem DefinitionSpelling.depth_le {definition : Definition Nat}
    (spelled : DefinitionSpelling parted depth lexemes definition) : definition.depth ≤ depth := by
  cases spelled with
  | inclusion | cppInclusion | space | enum => exact Nat.zero_le _
  | typedef _ type _ _ _ _ => exact type.1.depth_le
  | const _ type _ _ _ _ value _ => exact Nat.max_le.2 ⟨type.depth_le, value.depth_le⟩
  | record _ _ _ _ members _ =>
    refine greatest_le_iff.2 fun field mem => ?_
    obtain ⟨part, -, inner⟩ := members.forall field mem
    exact inner.depth_le
  | service _ _ _ _ _ members _ =>
    refine greatest_le_iff.2 fun function mem => ?_
    obtain ⟨part, -, inner⟩ := members.forall function mem
    exact inner.depth_le

/-- A document is at most as deep as the levels within which its definitions are spelled. -/
theorem DefinitionsSpelling.depth_le {definitions : List (Definition Nat)}
    (spelled : DefinitionsSpelling parted depth lexemes definitions) :
    (Document.ofDefinitions definitions).depth ≤ depth :=
  Document.depth_ofDefinitions_le_iff.2 (spelled.all fun _ _ inner => inner.depth_le)

/-- Fields in a row are spelled within as many levels as the deepest of them. -/
theorem Sequence.within_fields {fields : List (Field Nat)}
    (spelled : Sequence (FieldSpelling parted depth) lexemes fields)
    (shallow : greatest Field.depth fields ≤ limit) :
    Sequence (FieldSpelling parted limit) lexemes fields := by
  refine spelled.imp fun _ field mem one => ?_
  have within := greatest_le_iff.1 shallow field mem
  cases one with
  | field ids words types isWord apart defaults separator begins =>
    obtain ⟨type, value⟩ := Nat.max_le.1 within
    refine .field ids words (types.within type) isWord apart ?_ separator begins
    cases defaults with
    | absent => exact .absent
    | present equal spelled =>
      exact .present equal (spelled.within (greatest_le_iff.1 value _ (by simp)))

/-- Fields between brackets are spelled within as many levels as the deepest of them. -/
theorem FieldListSpelling.within {fields : List (Field Nat)}
    (spelled : FieldListSpelling parted depth lexemes fields)
    (shallow : greatest Field.depth fields ≤ limit) :
    FieldListSpelling parted limit lexemes fields := by
  cases spelled with
  | fields opening members closing => exact .fields opening (members.within_fields shallow) closing

/-- A function is spelled within as many levels as it is deep. -/
theorem FunctionSpelling.within {function : FunctionDecl Nat}
    (spelled : FunctionSpelling parted depth lexemes function) (shallow : function.depth ≤ limit) :
    FunctionSpelling parted limit lexemes function := by
  cases spelled with
  | function words results isWord apart members throwing separator begins =>
    obtain ⟨returns, others⟩ := Nat.max_le.1 shallow
    obtain ⟨parameters, exceptions⟩ := Nat.max_le.1 others
    refine .function words ?_ isWord apart (members.within parameters) ?_ separator begins
    · cases results with
      | void isWord => exact .void isWord
      | type spelled other =>
        exact .type (spelled.within (greatest_le_iff.1 returns _ (by simp))) other
    · cases throwing with
      | absent => exact .absent
      | present isWord fields => exact .present isWord (fields.within exceptions)

/-- A definition is spelled within as many levels as it is deep. -/
theorem DefinitionSpelling.within {definition : Definition Nat}
    (spelled : DefinitionSpelling parted depth lexemes definition)
    (shallow : definition.depth ≤ limit) : DefinitionSpelling parted limit lexemes definition := by
  cases spelled with
  | inclusion isKeyword shape apart => exact .inclusion isKeyword shape apart
  | cppInclusion isKeyword shape apart => exact .cppInclusion isKeyword shape apart
  | space isKeyword scope isWord apart => exact .space isKeyword scope isWord apart
  | typedef isKeyword type apart isWord apart' separator =>
    exact .typedef isKeyword ⟨type.1.within shallow, type.2⟩ apart isWord apart' separator
  | const isKeyword type apart isWord apart' equal value separator =>
    obtain ⟨types, values⟩ := Nat.max_le.1 shallow
    exact .const isKeyword (type.within types) apart isWord apart' equal (value.within values) separator
  | enum isKeyword isWord apart opening members closing =>
    exact .enum isKeyword isWord apart opening members closing
  | record isKeyword isWord apart opening members closing =>
    exact .record isKeyword isWord apart opening (members.within_fields shallow) closing
  | service isKeyword isWord apart bases opening members closing =>
    exact .service isKeyword isWord apart bases opening
      (members.imp fun _ function mem one => one.within (greatest_le_iff.1 shallow function mem))
      closing

/-- Definitions are spelled within as many levels as their document is deep. -/
theorem DefinitionsSpelling.within {definitions : List (Definition Nat)}
    (spelled : DefinitionsSpelling parted depth lexemes definitions)
    (shallow : (Document.ofDefinitions definitions).depth ≤ limit) :
    DefinitionsSpelling parted limit lexemes definitions :=
  have each := Document.depth_ofDefinitions_le_iff.1 shallow
  Sequence.imp spelled fun _ definition mem one => one.within (each definition mem)

end Within

end ThriftIdl
