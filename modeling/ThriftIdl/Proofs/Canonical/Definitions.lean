import Mathlib.Data.List.Forall2
import ThriftIdl.Proofs.Canonical.Representable
import ThriftIdl.Proofs.Grammar.Ended
import ThriftIdl.Proofs.Places

/-!
# Canonical text of definitions

The text of a field, a function and a definition that can be written spells one that differs from it
at most in its places (`Definition.Representable.exists_spells`). Members of a body stand on lines of
their own with a comma after each.
-/
namespace ThriftIdl

open Text

variable {π : Type} {limit : Nat}

section Lists

/-- What is done for each of some things is done for all of them. -/
theorem exists_mapM_eq_ok {α β ε : Type} {write : α → Except ε β} {relates : β → α → Prop}
    {things : List α} (each : ∀ thing ∈ things, ∃ text, write thing = .ok text ∧ relates text thing) :
    ∃ texts, things.mapM write = .ok texts ∧ List.Forall₂ relates texts things := by
  induction things with
  | nil => exact ⟨[], rfl, .nil⟩
  | cons thing things ih =>
    obtain ⟨⟨text, written, holds⟩, others⟩ := List.forall_mem_cons.1 each
    obtain ⟨texts, writtens, hold⟩ := ih others
    exact ⟨text :: texts, by rw [List.mapM_cons, written, writtens]; rfl, .cons holds hold⟩

variable {α β γ : Type} {item : List Lexeme → β → Prop} {readContent : β → γ}
  {ownContent : α → γ} {lexemes : List Lexeme} {values : List α}

/-- Items in a row that are spelled as others with the same content are spelled together. -/
theorem Sequence.exists_reads (spelled : Sequence (fun lexemes value =>
      ∃ read, readContent read = ownContent value ∧ item lexemes read) lexemes values) :
    ∃ reads, reads.map readContent = values.map ownContent ∧ Sequence item lexemes reads := by
  induction spelled with
  | nil => exact ⟨[], rfl, .nil⟩
  | cons first _ ih =>
    obtain ⟨read, same, spelled⟩ := first
    obtain ⟨reads, sames, others⟩ := ih
    exact ⟨read :: reads, by simp [same, sames], .cons spelled others⟩

/-- Elements that are spelled as others with the same content are spelled together. -/
theorem Elements.exists_reads {parted : Bool} (spelled : Elements parted (fun lexemes value =>
      ∃ read, readContent read = ownContent value ∧ item lexemes read) lexemes values) :
    ∃ reads, reads.map readContent = values.map ownContent ∧ Elements parted item lexemes reads := by
  induction spelled with
  | nil => exact ⟨[], rfl, .nil⟩
  | cons first separator _ apart ih =>
    obtain ⟨read, same, spelled⟩ := first
    obtain ⟨reads, sames, others⟩ := ih
    exact ⟨read :: reads, by simp [same, sames], .cons spelled separator others apart⟩

end Lists

section Fields

/-- A place where some lexemes begin. -/
theorem exists_beginsAt (lexemes : List Lexeme) : ∃ place, BeginsAt place lexemes := by
  cases lexemes with
  | nil => exact ⟨0, by simp [BeginsAt]⟩
  | cons lexeme lexemes => exact ⟨lexeme.left, by simp [BeginsAt]⟩

/-- Lexemes spell a field, but for the list separator after it and its place. -/
def FieldWriting (limit : Nat) (lexemes : List Lexeme) (field : Field π) : Prop :=
  ∀ separator, SeparatorSpelling separator → ∃ read : Field Nat,
    read.map content = field.map content ∧ FieldSpelling true limit (lexemes ++ separator) read

section Parts

variable {typeText : List Char} {idText valueText : Option (List Char)}

/-- The type, the name and the default value of a field, one after the other. -/
theorem spells_fieldTail {type : FieldType} {name : String} {value : Option ConstValue}
    (types : Spells Closed typeText (TypeSpelling limit · type)) (isName : IsName name.toList)
    (values : Option.Rel (fun text value => Spells Closed text (ConstantSpelling true limit · value))
      valueText value) :
    Spells Closed
      (spaced ([typeText, name.toList] ++ valueText.elim [] fun text => ['=' :: ' ' :: text]))
      fun lexemes => ∃ types word defaults, lexemes = types ++ word :: defaults ∧
        TypeSpelling limit types type ∧ word.IsWord name ∧ word.apart ∧
          DefaultSpelling true limit defaults value := by
  have spellsName := spells_word _ isName
  cases values with
  | none =>
    refine (spells_spaced_cons types (spells_spaced_singleton spellsName) (by simp)).imp ?_
    rintro _ ⟨types, _, rfl, spelledType, ⟨word, rfl, isName⟩, apart⟩
    exact ⟨types, word, [], rfl, spelledType, isName, by simpa [Apart] using apart, .absent⟩
  | @some text value spellsValue =>
    have spellsDefault : Spells Closed (['='] ++ ([' '] ++ text)) _ :=
      (spells_mark .equal).blank spellsValue
    have tail := spells_spaced_cons spellsName (spells_spaced_singleton spellsDefault) (by simp)
    refine Spells.imp (spells_spaced_cons types tail (by simp)) ?_
    rintro _ ⟨types, _, rfl, spelledType, ⟨_, _, rfl, ⟨word, rfl, isName⟩, ⟨_, values, rfl,
      ⟨equal, rfl, isEqual⟩, spelledValue, -⟩, -⟩, apart⟩
    exact ⟨types, word, equal :: values, rfl, spelledType, isName,
      by simpa [Apart] using apart, .present isEqual spelledValue⟩

/-- The word that says whether a field must be set, before what spells its type and its name. -/
theorem spells_requiredness {type : FieldType} {name : String} {value : Option ConstValue}
    {requiredness : Requiredness} {texts : List (List Char)} (some : texts ≠ [])
    (unlike : type = .named "required" ∨ type = .named "optional" → requiredness ≠ .unstated)
    (tail : Spells Closed (spaced texts) fun lexemes => ∃ types word defaults,
      lexemes = types ++ word :: defaults ∧ TypeSpelling limit types type ∧ word.IsWord name ∧
        word.apart ∧ DefaultSpelling true limit defaults value) :
    Spells Closed (spaced (requiredness.idl ++ texts)) fun lexemes => ∃ words types word defaults,
      lexemes = words ++ (types ++ word :: defaults) ∧
        RequirednessSpelling words requiredness types type ∧ TypeSpelling limit types type ∧
          word.IsWord name ∧ word.apart ∧ DefaultSpelling true limit defaults value := by
  have isName : ∀ word ∈ ["required", "optional"], IsName word.toList := by decide
  cases requiredness with
  | unstated =>
    refine Spells.imp tail ?_
    rintro _ ⟨types, word, defaults, rfl, spelledType, isName, apart, spelledDefault⟩
    refine ⟨[], types, word, defaults, rfl, .unstated ?_ ?_, spelledType, isName, apart,
      spelledDefault⟩
    · exact fun same => unlike (.inl same) rfl
    · exact fun same => unlike (.inr same) rfl
  | required =>
    refine (spells_spaced_cons (spells_word _ (isName "required" (by simp))) tail some).imp ?_
    rintro _ ⟨_, _, rfl, ⟨keyword, rfl, isKeyword⟩, ⟨types, word, defaults, rfl, spelledType,
      isName, apart, spelledDefault⟩, apart'⟩
    exact ⟨[keyword], types, word, defaults, rfl, .required isKeyword (apart' (by simp)).left,
      spelledType, isName, apart, spelledDefault⟩
  | optional =>
    refine (spells_spaced_cons (spells_word _ (isName "optional" (by simp))) tail some).imp ?_
    rintro _ ⟨_, _, rfl, ⟨keyword, rfl, isKeyword⟩, ⟨types, word, defaults, rfl, spelledType,
      isName, apart, spelledDefault⟩, apart'⟩
    exact ⟨[keyword], types, word, defaults, rfl, .optional isKeyword (apart' (by simp)).left,
      spelledType, isName, apart, spelledDefault⟩

/-- A field is spelled by the texts of its parts with blanks between them. -/
theorem spells_field {field : Field π} (ids : Option.Rel DenotesInteger idText field.id)
    (unlike : field.type = .named "required" ∨ field.type = .named "optional" →
      field.requiredness ≠ .unstated)
    (types : Spells Closed typeText (TypeSpelling limit · field.type))
    (isName : IsName field.name.toList)
    (values : Option.Rel (fun text value => Spells Closed text (ConstantSpelling true limit · value))
      valueText field.defaultValue) :
    Spells Closed (spaced ((idText.elim [] fun text => [text ++ [':']]) ++
        field.requiredness.idl ++ [typeText, field.name.toList] ++
          valueText.elim [] fun text => ['=' :: ' ' :: text])) (FieldWriting limit · field) := by
  obtain ⟨type, name, id, requiredness, defaultValue, place⟩ := field
  have words := spells_requiredness (by simp) unlike (spells_fieldTail types isName values)
  cases ids with
  | none =>
    refine Spells.imp (by simpa using words) ?_
    rintro _ ⟨words, types, word, defaults, rfl, spelledWords, spelledType, isName, apart,
      spelledDefault⟩ separator spelledSeparator
    obtain ⟨place', begins⟩ := exists_beginsAt ([] ++ (words ++ types))
    have spelled := FieldSpelling.field .absent spelledWords spelledType isName apart spelledDefault
      spelledSeparator begins
    exact ⟨_, rfl, by simpa using spelled⟩
  | @some text number denotes =>
    have spellsId : Spells Closed (text ++ [':']) _ :=
      (denotes.spells.then (spells_mark .colon) (.closing .colon)
        fun rest _ => closed_mark .colon rest).closed
    have row := spells_spaced_cons spellsId words (by simp)
    refine Spells.imp (by simpa using row) ?_
    rintro _ ⟨_, _, rfl, ⟨_, _, rfl, ⟨number', rfl, shape, rfl, fits⟩, ⟨colon, rfl, isColon⟩, -⟩,
      ⟨words, types, word, defaults, rfl, spelledWords, spelledType, isName, apart,
        spelledDefault⟩, -⟩ separator spelledSeparator
    obtain ⟨place', begins⟩ := exists_beginsAt ([number', colon] ++ (words ++ types))
    have spelled := FieldSpelling.field (.present shape fits isColon) spelledWords spelledType
      isName apart spelledDefault spelledSeparator begins
    exact ⟨_, rfl, by simpa using spelled⟩

end Parts

/-- A field that can be written has a text, which spells the field. -/
theorem Field.Representable.exists_spells {field : Field π} (representable : field.Representable)
    (shallow : field.depth ≤ limit) :
    ∃ text, field.idl = .ok text ∧ Spells Closed text (FieldWriting limit · field) := by
  obtain ⟨type, name, id, requiredness, defaultValue, place⟩ := field
  obtain ⟨typeShallow, valueShallow⟩ := Nat.max_le.1 shallow
  have types := representable.type.spells.imp fun _ spelled => spelled.within typeShallow
  have ids : Option.Rel DenotesInteger (id.map integer) id := by
    cases id with
    | none => exact .none
    | some n => exact .some (denotesInteger_integer (representable.id n rfl))
  cases defaultValue with
  | none =>
    refine ⟨_, ?_, spells_field ids representable.requiredness types representable.name .none⟩
    cases id <;> rfl
  | some value =>
    obtain ⟨text, idl, spellsValue⟩ :=
      ConstValue.Representable.exists_spells (representable.defaultValue value rfl)
    have deep : value.depth ≤ limit := greatest_le_iff.1 valueShallow value (by simp)
    have values := spellsValue.imp fun _ spelled => spelled.within deep
    refine ⟨_, ?_,
      spells_field ids representable.requiredness types representable.name (.some values)⟩
    simp only [Field.idl, idl]
    cases id <;> rfl

/-- Lexemes spell fields between round brackets, but for their places. -/
def FieldsWriting (limit : Nat) (lexemes : List Lexeme) (fields : List (Field π)) : Prop :=
  ∃ reads : List (Field Nat), reads.map (Field.map content) = fields.map (Field.map content) ∧
    FieldListSpelling true limit lexemes reads

/-- Texts of fields with a divider between them, between round brackets. -/
theorem spells_fieldList {divider : List Char} {texts : List (List Char)} {fields : List (Field π)}
    (divides : Divider divider)
    (each : List.Forall₂ (fun text field => Spells Closed text (FieldWriting limit · field)) texts
      fields) :
    Spells Anywhere ('(' :: (divider.intercalate texts ++ [')'])) (FieldsWriting limit · fields) := by
  have enclosed := spells_enclosed .leftParen .rightParen (by decide) (by decide) divides .nil each
  refine Spells.imp (by simpa [Mark.char] using enclosed) ?_
  rintro _ ⟨first, last, members, rfl, isOpening, isClosing, elements⟩
  obtain ⟨reads, same, spelled⟩ := (elements.ended fun _ _ _ writing isSeparator =>
    writing _ isSeparator).exists_reads
  exact ⟨reads, same, .fields isOpening spelled isClosing⟩

/-- Fields that can be written have a text, which spells them between round brackets. -/
theorem exists_spells_fieldList {fields : List (Field π)}
    (representable : ∀ field ∈ fields, field.Representable)
    (shallow : greatest Field.depth fields ≤ limit) :
    ∃ text, fieldsIdl fields = .ok text ∧
      Spells Anywhere ('(' :: (text ++ [')'])) (FieldsWriting limit · fields) := by
  obtain ⟨texts, written, each⟩ := exists_mapM_eq_ok fun field mem =>
    (representable field mem).exists_spells (greatest_le_iff.1 shallow field mem)
  exact ⟨listed texts, by rw [fieldsIdl, written]; rfl, spells_fieldList divider_comma each⟩

end Fields

section Functions

/-- Lexemes spell a function, but for the list separator after it and its places. -/
def FunctionWriting (limit : Nat) (lexemes : List Lexeme) (function : FunctionDecl π) : Prop :=
  ∀ separator, SeparatorSpelling separator → ∃ read : FunctionDecl Nat,
    read.map content = function.map content ∧
      FunctionSpelling true limit (lexemes ++ separator) read

section Parts

variable {resultText parametersText : List Char} {exceptionsText : Option (List Char)}

/-- The parameters and the exceptions of a function, one after the other. -/
theorem spells_functionTail {parameters : List (Field π)} {exceptions : Option (List (Field π))}
    (spells : Spells Anywhere ('(' :: (parametersText ++ [')'])) (FieldsWriting limit · parameters))
    (throws : Option.Rel (fun text fields =>
      Spells Anywhere ('(' :: (text ++ [')'])) (FieldsWriting limit · fields)) exceptionsText
        exceptions) :
    Spells Anywhere ('(' :: (parametersText ++ [')']) ++
        exceptionsText.elim [] fun text => " throws (".toList ++ text ++ [')'])
      fun lexemes => ∃ members throwing parameters' exceptions', lexemes = members ++ throwing ∧
        FieldListSpelling true limit members parameters' ∧
        parameters'.map (Field.map content) = parameters.map (Field.map content) ∧
        ThrowsSpelling true limit throwing exceptions' ∧
        exceptions'.map (List.map (Field.map content)) =
          exceptions.map (List.map (Field.map content)) := by
  cases throws with
  | none =>
    refine Spells.imp (by simpa using spells) ?_
    rintro members ⟨reads, same, spelled⟩
    exact ⟨members, [], reads, none, by simp, spelled, same, .absent, rfl⟩
  | @some text thrown spells' =>
    have row := spells.blank ((spells_word "throws" (by decide)).spaced spells')
    have text_eq : '(' :: (parametersText ++ [')']) ++ (" throws (".toList ++ text ++ [')']) =
        '(' :: (parametersText ++ [')']) ++
          ([' '] ++ ("throws".toList ++ ([' '] ++ '(' :: (text ++ [')'])))) := by
      simp only [List.append_assoc]
      rfl
    rw [Option.elim_some, text_eq]
    refine row.imp ?_
    rintro _ ⟨members, _, rfl, ⟨reads, same, spelled⟩, ⟨_, members', rfl, ⟨word, rfl, isWord⟩,
      ⟨reads', same', spelled'⟩, -⟩, -⟩
    exact ⟨members, word :: members', reads, some reads', rfl, spelled, same,
      .present isWord spelled', by simp [same']⟩

/-- A function is spelled by the texts of its parts. -/
theorem spells_function {function : FunctionDecl π}
    (result : Spells Closed resultText (ResultSpelling limit · function.returns))
    (unlike : function.returns = some (.named "oneway") → function.oneway = true)
    (isName : IsName function.name.toList)
    (spells : Spells Anywhere ('(' :: (parametersText ++ [')']))
      (FieldsWriting limit · function.parameters))
    (throws : Option.Rel (fun text fields =>
      Spells Anywhere ('(' :: (text ++ [')'])) (FieldsWriting limit · fields)) exceptionsText
        function.exceptions) :
    Spells Closed ((if function.oneway then "oneway ".toList else []) ++ resultText ++
        ' ' :: function.name.toList ++ '(' :: parametersText ++
          ')' :: exceptionsText.elim [] fun text => " throws (".toList ++ text ++ [')'])
      (FunctionWriting limit · function) := by
  have spellsName := (spells_word _ isName).then (spells_functionTail spells throws)
    (.closing .leftParen) fun rest _ => closed_mark .leftParen _
  have result := result.spaced spellsName
  obtain ⟨name, returns, oneway, fields, exceptions', place⟩ := function
  generalize (exceptionsText.elim [] fun text => " throws (".toList ++ text ++ [')']) =
    exceptions at result ⊢
  -- The first word is a lexeme of its own, with a blank after it that parts it from the result.
  cases oneway with
  | false =>
    have text_eq : [] ++ resultText ++ ' ' :: name.toList ++ '(' :: parametersText ++
        ')' :: exceptions =
          resultText ++ ([' '] ++ (name.toList ++ ('(' :: (parametersText ++ [')']) ++ exceptions))) := by
      simp
    rw [if_neg (by simp), text_eq]
    refine result.closed.imp ?_
    rintro _ ⟨results, _, rfl, spelledResult, ⟨_, _, rfl, ⟨word, rfl, isName⟩, ⟨members, throwing,
      parameters', thrown, rfl, spelled, same, spelled', same'⟩, -⟩, apart⟩ separator
      spelledSeparator
    obtain ⟨place', begins⟩ := exists_beginsAt ([] ++ results)
    have whole := FunctionSpelling.function
      (.absent fun named => by simpa using unlike named) spelledResult isName
      (by simpa [Apart] using apart) spelled spelled' spelledSeparator begins
    refine ⟨_, ?_, by simpa using whole⟩
    simp [FunctionDecl.map, same, same', content]
  | true =>
    have row := (spells_word "oneway" (by decide)).spaced result
    have text_eq : "oneway ".toList ++ resultText ++ ' ' :: name.toList ++
        '(' :: parametersText ++ ')' :: exceptions = "oneway".toList ++ ([' '] ++ (resultText ++
          ([' '] ++ (name.toList ++ ('(' :: (parametersText ++ [')']) ++ exceptions))))) := by
      simp only [List.append_assoc, List.cons_append, List.nil_append]
      rfl
    rw [if_pos rfl, text_eq]
    refine row.closed.imp ?_
    rintro _ ⟨_, _, rfl, ⟨keyword, rfl, isKeyword⟩, ⟨results, _, rfl, spelledResult, ⟨_, _, rfl,
      ⟨word, rfl, isName⟩, ⟨members, throwing, parameters', thrown, rfl, spelled, same, spelled',
      same'⟩, -⟩, apart⟩, apart'⟩ separator spelledSeparator
    obtain ⟨place', begins⟩ := exists_beginsAt ([keyword] ++ results)
    have whole := FunctionSpelling.function
      (.present isKeyword (apart' (by simp)).left) spelledResult isName
      (by simpa [Apart] using apart) spelled spelled' spelledSeparator begins
    refine ⟨_, ?_, by simpa using whole⟩
    simp [FunctionDecl.map, same, same', content]

/-- The word for no result, or a type that is not named like it, spells the result. -/
theorem spells_result {returns : Option FieldType} {write : FieldType → List Char}
    (unlike : returns ≠ some (.named "void"))
    (types : ∀ type ∈ returns, Spells Closed (write type) (TypeSpelling limit · type)) :
    Spells Closed (returns.elim "void".toList write) (ResultSpelling limit · returns) := by
  cases returns with
  | none =>
    refine (spells_word "void" (by decide)).imp ?_
    rintro _ ⟨word, rfl, isWord⟩
    exact .void isWord
  | some type =>
    have noVoid : type ≠ .named "void" := by simpa using unlike
    exact (types type rfl).imp fun _ spelled => .type spelled noVoid

end Parts

/-- A function that can be written has a text, which spells the function. -/
theorem FunctionDecl.Representable.exists_spells {function : FunctionDecl π}
    (representable : function.Representable) (shallow : function.depth ≤ limit) :
    ∃ text, function.idl = .ok text ∧ Spells Closed text (FunctionWriting limit · function) := by
  obtain ⟨resultShallow, fieldsShallow⟩ := Nat.max_le.1 shallow
  obtain ⟨parametersShallow, exceptionsShallow⟩ := Nat.max_le.1 fieldsShallow
  obtain ⟨parameters, written, spells⟩ :=
    exists_spells_fieldList representable.parameters parametersShallow
  have result : Spells Closed (function.returns.elim "void".toList FieldType.idl)
      (ResultSpelling limit · function.returns) := by
    refine spells_result (fun named => (representable.returns _ named).2 rfl) fun type mem => ?_
    exact (representable.returns type mem).1.spells.imp fun _ spelled =>
      spelled.within (greatest_le_iff.1 resultShallow type (by simpa using mem))
  obtain ⟨name, returns, oneway, fields, exceptions, place⟩ := function
  cases exceptions with
  | none =>
    refine ⟨_, ?_, spells_function result representable.oneway representable.name spells .none⟩
    simp only [FunctionDecl.idl, written]
    rfl
  | some thrown =>
    obtain ⟨text, written', spells'⟩ :=
      exists_spells_fieldList (representable.exceptions thrown rfl) exceptionsShallow
    refine ⟨_, ?_,
      spells_function result representable.oneway representable.name spells (.some spells')⟩
    simp only [FunctionDecl.idl, written, written']
    rfl

end Functions

section Bodies

/-- The blanks before a member, if there is one. -/
def indentation : List (List Char) → List Char
  | [] => []
  | _ :: _ => [' ', ' ']

/-- The members of a body with the bracket that closes it, after the blanks before the first. -/
def bodyText : List (List Char) → List Char
  | [] => [Mark.rightBrace.char]
  | member :: members =>
    member ++ ([Mark.comma.char] ++ (('\n' :: indentation members) ++ bodyText members))

/-- A line with others after it. -/
theorem lined_cons (line : List Char) {lines : List (List Char)} (some : lines ≠ []) :
    lined (line :: lines) = line ++ '\n' :: lined lines := by
  obtain ⟨next, lines, rfl⟩ := List.exists_cons_of_ne_nil some
  simp [lined, List.intercalate]

/-- The lines of members and of the bracket that closes the body. -/
theorem lined_members (members : List (List Char)) :
    lined (members.map (fun member => ' ' :: ' ' :: member ++ [',']) ++ [[Mark.rightBrace.char]]) =
      indentation members ++ bodyText members := by
  induction members with
  | nil => rfl
  | cons member members ih =>
    rw [List.map_cons, List.cons_append, lined_cons _ (by simp), ih]
    simp [indentation, bodyText, Mark.char]

/-- Blanks before members are blanks. -/
theorem filler_indentation (members : List (List Char)) :
    Filler ('\n' :: indentation members) := by
  refine .blank rfl ?_
  cases members with
  | nil => exact .nil
  | cons member members => exact .blank rfl (.blank rfl .nil)

/-- A body has lines. -/
theorem block_ne_nil {header : List Char} {members : List (List Char)} :
    block header members ≠ [] := by
  unfold block
  split <;> simp

variable {α : Type} {item : List Lexeme → α → Prop} {texts : List (List Char)} {values : List α}

/-- Lexemes spell a header, and members between braces after it. -/
def BodyWriting (header : List Lexeme → Prop) (row : List Lexeme → List α → Prop)
    (lexemes : List Lexeme) (values : List α) : Prop :=
  ∃ first opening members closing, lexemes = first ++ opening :: (members ++ [closing]) ∧
    header first ∧ Lexeme.IsMark opening .leftBrace ∧ row members values ∧
      Lexeme.IsMark closing .rightBrace

/-- A body whose members have a list separator after each is a body of elements. -/
theorem BodyWriting.elements {header : List Lexeme → Prop} {lexemes : List Lexeme}
    (writing : BodyWriting header (Sequence (EndedItem item)) lexemes values) :
    BodyWriting header (Elements true item) lexemes values := by
  obtain ⟨first, opening, members, closing, rfl, head, isOpening, spelled, isClosing⟩ := writing
  exact ⟨first, opening, members, closing, rfl, head, isOpening, spelled.elements, isClosing⟩

/-- Members spell items with a comma after each, and the bracket closes them. -/
theorem spells_bodyText
    (each : List.Forall₂ (fun text value => Spells Closed text (item · value)) texts values) :
    Spells Anywhere (bodyText texts) fun lexemes => ∃ members closing,
      lexemes = members ++ [closing] ∧ Sequence (EndedItem item) members values ∧
        Lexeme.IsMark closing .rightBrace := by
  induction each with
  | nil =>
    refine (spells_mark .rightBrace).imp ?_
    rintro _ ⟨closing, rfl, isClosing⟩
    exact ⟨[], closing, rfl, .nil, isClosing⟩
  | @cons _ _ members _ first _ ih =>
    have tail := (spells_mark .comma).append (filler_indentation members) ih (by simp)
      fun _ _ => trivial
    refine (first.then tail (.closing .comma) fun rest _ => closed_mark .comma _).imp ?_
    rintro _ ⟨before, _, rfl, spelled, ⟨_, _, rfl, ⟨comma, rfl, isComma⟩,
      ⟨members, closing, rfl, spelled', isClosing⟩, -⟩, -⟩
    exact ⟨(before ++ [comma]) ++ members, closing, by simp,
      .cons ⟨before, comma, rfl, spelled, .comma isComma⟩ spelled', isClosing⟩

/-- A header with a body spells the header and items between braces. -/
theorem spells_block {header : List Char} {spelling : List Lexeme → Prop}
    (head : Spells Closed header spelling)
    (each : List.Forall₂ (fun text value => Spells Closed text (item · value)) texts values) :
    Spells Closed (lined (block header texts))
      (BodyWriting spelling (Sequence (EndedItem item)) · values) := by
  have members := spells_bodyText each
  have finish : ∀ gap, Filler gap → Spells Closed
      (header ++ ([' '] ++ ([Mark.leftBrace.char] ++ (gap ++ bodyText texts))))
      (BodyWriting spelling (Sequence (EndedItem item)) · values) := by
    intro gap filler
    have body := (spells_mark .leftBrace).append filler members
      (fun _ => .opening (by decide) (by decide)) fun _ _ => trivial
    have whole := head.spaced body
    refine whole.closed.imp ?_
    rintro _ ⟨first, _, rfl, spelled, ⟨_, _, rfl, ⟨opening, rfl, isOpening⟩,
      ⟨elements, closing, rfl, spelled', isClosing⟩, -⟩, -⟩
    exact ⟨first, opening, elements, closing, rfl, spelled, isOpening, spelled', isClosing⟩
  cases texts with
  | nil =>
    have text_eq : lined (block header []) =
        header ++ ([' '] ++ ([Mark.leftBrace.char] ++ ([] ++ bodyText []))) := by
      simp [lined, block, List.intercalate, bodyText, Mark.char]
    rw [text_eq]
    exact finish [] .nil
  | cons text texts =>
    have text_eq : lined (block header (text :: texts)) = header ++ ([' '] ++
        ([Mark.leftBrace.char] ++ (('\n' :: indentation (text :: texts)) ++
          bodyText (text :: texts)))) := by
      have lines : block header (text :: texts) = (header ++ [' ', Mark.leftBrace.char]) ::
          ((text :: texts).map (fun member => ' ' :: ' ' :: member ++ [',']) ++
            [[Mark.rightBrace.char]]) := rfl
      rw [lines, lined_cons _ (by simp), lined_members]
      simp
    rw [text_eq]
    exact finish _ (filler_indentation _)

end Bodies

section Definitions

/-- Lexemes spell a definition, but for its places. -/
def DefinitionWriting (limit : Nat) (lexemes : List Lexeme) (definition : Definition π) : Prop :=
  ∃ read : Definition Nat, read.map content = definition.map content ∧
    DefinitionSpelling true limit lexemes read

/-- Lexemes spell a definition with a list separator after each of its functions, but for its places. -/
def EndedWriting (limit : Nat) (lexemes : List Lexeme) (definition : Definition π) : Prop :=
  ∃ read : Definition Nat, read.map content = definition.map content ∧
    EndedSpelling true true limit lexemes read

/-- In a definition that is no service there are no functions. -/
theorem DefinitionWriting.ended {lexemes : List Lexeme} {definition : Definition π}
    (writing : DefinitionWriting limit lexemes definition)
    (plain : ∀ decl, definition ≠ .service decl) : EndedWriting limit lexemes definition := by
  obtain ⟨read, same, spelled⟩ := writing
  refine ⟨read, same, .plain ?_ spelled⟩
  rintro decl rfl
  cases definition with
  | service decl => exact plain decl rfl
  | _ => simp [Definition.map] at same

/-- A single line is lined as it is. -/
@[simp] theorem lined_singleton (line : List Char) : lined [line] = line := by
  simp [lined, List.intercalate]

section Parts

variable {typeText valueText literalText : List Char} {numberText : Option (List Char)}
  {lexemes : List Lexeme}

/-- Lexemes spell a value of an enumeration, but for its place. -/
def EnumValueWriting (lexemes : List Lexeme) (value : EnumValue π) : Prop :=
  ∃ read : EnumValue Nat, read.map content = value.map content ∧ EnumValueSpelling lexemes read

/-- A value of an enumeration is spelled by its name, and its number if it has one. -/
theorem spells_enumValue {value : EnumValue π} (isName : IsName value.name.toList)
    (numbers : Option.Rel DenotesInteger numberText value.value) :
    Spells Closed (value.name.toList ++ numberText.elim [] fun text => " = ".toList ++ text)
      (EnumValueWriting · value) := by
  obtain ⟨name, number, place⟩ := value
  have spellsName := spells_word _ isName
  cases numbers with
  | none =>
    refine Spells.imp (by simpa using spellsName) ?_
    rintro _ ⟨word, rfl, isName⟩
    exact ⟨_, rfl, .plain isName⟩
  | some denotes =>
    have row := spellsName.spaced ((spells_mark .equal).blank denotes.spells)
    refine Spells.imp (by simpa [Mark.char] using row) ?_
    rintro _ ⟨_, _, rfl, ⟨word, rfl, isWord⟩, ⟨_, _, rfl, ⟨equal, rfl, isEqual⟩,
      ⟨number, rfl, shape, rfl, fits⟩, -⟩, -⟩
    exact ⟨_, rfl, .numbered isWord isEqual shape fits⟩

/-- Lexemes are a keyword with a name after it. -/
def NamedHeader (keyword name : String) (lexemes : List Lexeme) : Prop :=
  ∃ first word : Lexeme, lexemes = [first, word] ∧ first.IsWord keyword ∧ word.IsWord name ∧
    word.apart

/-- A keyword with a name after it. -/
theorem spells_header (keyword : String) {name : String} (isKeyword : IsName keyword.toList)
    (isName : IsName name.toList) :
    Spells Closed (spaced [keyword.toList, name.toList]) (NamedHeader keyword name) := by
  refine (spells_spaced_cons (spells_word _ isKeyword)
    (spells_spaced_singleton (spells_word _ isName)) (by simp)).imp ?_
  rintro _ ⟨_, _, rfl, ⟨first, rfl, isFirst⟩, ⟨word, rfl, isWord⟩, apart⟩
  exact ⟨first, word, rfl, isFirst, isWord, by simpa [Apart] using apart⟩

/-- Lexemes are the header of a service, with the service it extends if there is one. -/
def ServiceHeader (name : String) (base : Option String) (lexemes : List Lexeme) : Prop :=
  ∃ (keyword word : Lexeme) (bases : List Lexeme), lexemes = keyword :: word :: bases ∧
    keyword.IsWord "service" ∧ word.IsWord name ∧ word.apart ∧ BaseSpelling bases base

/-- The header of a service, with the service it extends if there is one. -/
theorem spells_service_header {name : String} {base : Option String} (isName : IsName name.toList)
    (isBase : ∀ other ∈ base, IsName other.toList) :
    Spells Closed (spaced (["service".toList, name.toList] ++
        base.elim [] fun other => ["extends".toList, other.toList])) (ServiceHeader name base) := by
  cases base with
  | none =>
    refine (spells_header "service" (by decide) isName).imp ?_
    rintro _ ⟨keyword, word, rfl, isKeyword, isName, apart⟩
    exact ⟨keyword, word, [], rfl, isKeyword, isName, apart, .absent⟩
  | some other =>
    have extension := spells_header "extends" (by decide) (isBase other rfl)
    have names := spells_spaced_cons (spells_word _ isName) extension (by simp)
    refine (spells_spaced_cons (spells_word "service" (by decide)) names (by simp)).imp ?_
    rintro _ ⟨_, _, rfl, ⟨keyword, rfl, isKeyword⟩, ⟨_, _, rfl, ⟨word, rfl, isName⟩,
      ⟨first, second, rfl, isExtends, isOther, apartOther⟩, -⟩, apart⟩
    exact ⟨keyword, word, [first, second], rfl, isKeyword, isName,
      by simpa [Apart] using apart, .present isExtends isOther apartOther⟩

/-- A path after a keyword. -/
theorem spells_path (keyword : String) (isKeyword : IsName keyword.toList)
    (isLiteral : IsLiteral literalText) :
    Spells Closed (keyword.toList ++ ([' '] ++ literalText)) fun lexemes =>
      ∃ first literal : Lexeme, lexemes = [first, literal] ∧ first.IsWord keyword ∧
        literal.shape = .literal ∧ literal.apart ∧
          TokenReader.unquoted literal.text = TokenReader.unquoted literalText := by
  refine ((spells_word _ isKeyword).spaced (spells_literal isLiteral)).closed.imp ?_
  rintro _ ⟨_, _, rfl, ⟨first, rfl, isFirst⟩, ⟨literal, rfl, shape, value⟩, apart⟩
  exact ⟨first, literal, rfl, isFirst, shape, by simpa [Apart] using apart, value⟩

/-- An inclusion of a document is its keyword with a literal. -/
theorem spells_inclusion (isLiteral : IsLiteral literalText) :
    Spells Closed ("include".toList ++ ([' '] ++ literalText)) fun lexemes =>
      DefinitionWriting limit lexemes
        (.inclusion (TokenReader.unquoted literalText) : Definition π) := by
  refine (spells_path "include" (by decide) isLiteral).imp ?_
  rintro _ ⟨first, literal, rfl, isFirst, shape, apart, same⟩
  rw [← same]
  exact ⟨_, rfl, .inclusion isFirst shape apart⟩

/-- An inclusion of a header is its keyword with a literal. -/
theorem spells_cppInclusion (isLiteral : IsLiteral literalText) :
    Spells Closed ("cpp_include".toList ++ ([' '] ++ literalText)) fun lexemes =>
      DefinitionWriting limit lexemes
        (.cppInclusion (TokenReader.unquoted literalText) : Definition π) := by
  refine (spells_path "cpp_include" (by decide) isLiteral).imp ?_
  rintro _ ⟨first, literal, rfl, isFirst, shape, apart, same⟩
  rw [← same]
  exact ⟨_, rfl, .cppInclusion isFirst shape apart⟩

/-- The text of a scope spells the scope. -/
theorem spells_scope {scope : String} (mem : scope ∈ namespaceScopes) :
    Spells Closed scope.toList fun lexemes => ∃ mark : Lexeme, lexemes = [mark] ∧
      (mark.apart → ScopeSpelling true mark scope) := by
  by_cases star : scope = "*"
  · subst star
    refine (spells_mark .star).closed.imp ?_
    rintro _ ⟨mark, rfl, isStar⟩
    exact ⟨mark, rfl, fun apart => .star isStar fun _ => apart⟩
  · refine (spells_word _ (Reader.isName_of_mem_namespaceScopes mem star)).imp ?_
    rintro _ ⟨word, rfl, isWord⟩
    exact ⟨word, rfl, .word isWord mem⟩

/-- A namespace is spelled by its scope and its name after the keyword. -/
theorem spells_space (decl : Namespace) (mem : decl.scope ∈ namespaceScopes)
    (isName : IsName decl.name.toList) :
    Spells Closed (spaced ["namespace".toList, decl.scope.toList, decl.name.toList]) fun lexemes =>
      DefinitionWriting limit lexemes (.space decl : Definition π) := by
  have names := spells_spaced_cons (spells_scope mem)
    (spells_spaced_singleton (spells_word _ isName)) (by simp)
  refine (spells_spaced_cons (spells_word "namespace" (by decide)) names (by simp)).imp ?_
  rintro _ ⟨_, _, rfl, ⟨keyword, rfl, isKeyword⟩, ⟨_, _, rfl, ⟨mark, rfl, scope⟩,
    ⟨word, rfl, isName⟩, apart⟩, apart'⟩
  have spelledScope := scope (by simpa [Apart] using apart' (by simp))
  exact ⟨_, rfl, .space isKeyword spelledScope isName (by simpa [Apart] using apart)⟩

/-- A second name for a type is spelled by the type and the name after the keyword. -/
theorem spells_typedef (decl : Typedef π)
    (types : Spells Closed typeText (TypeSpelling limit · decl.old))
    (unnamed : ∀ name, decl.old ≠ .named name) (isName : IsName decl.name.toList) :
    Spells Closed (spaced ["typedef".toList, typeText, decl.name.toList])
      (DefinitionWriting limit · (.typedef decl)) := by
  have names := spells_spaced_cons types
    (spells_spaced_singleton (spells_word _ isName)) (by simp)
  refine (spells_spaced_cons (spells_word "typedef" (by decide)) names (by simp)).imp ?_
  rintro _ ⟨_, _, rfl, ⟨keyword, rfl, isKeyword⟩, ⟨types, _, rfl, spelled, ⟨word, rfl, isName⟩,
    apart⟩, apart'⟩
  exact ⟨_, rfl, .typedef isKeyword ⟨spelled, unnamed⟩ (apart' (by simp)).left isName
    (by simpa [Apart] using apart) .absent⟩

/-- A constant is spelled by its type, its name and its value after the keyword. -/
theorem spells_const (decl : ConstDecl π)
    (types : Spells Closed typeText (TypeSpelling limit · decl.type))
    (isName : IsName decl.name.toList)
    (values : Spells Closed valueText (ConstantSpelling true limit · decl.value)) :
    Spells Closed (spaced ["const".toList, typeText, decl.name.toList, ['='], valueText])
      (DefinitionWriting limit · (.const decl)) := by
  have assigned := spells_spaced_cons (spells_mark .equal).closed
    (spells_spaced_singleton values) (by simp)
  have names := spells_spaced_cons (spells_word _ isName) assigned (by simp)
  have typed := spells_spaced_cons types names (by simp)
  have row := spells_spaced_cons (spells_word "const" (by decide)) typed (by simp)
  refine Spells.imp (by simpa [Mark.char] using row) ?_
  rintro _ ⟨_, _, rfl, ⟨keyword, rfl, isKeyword⟩, ⟨types, _, rfl, spelledType, ⟨_, _, rfl,
    ⟨word, rfl, isName⟩, ⟨_, values, rfl, ⟨equal, rfl, isEqual⟩, spelledValue, -⟩, -⟩, apart⟩,
    apart'⟩
  have spelled := DefinitionSpelling.const isKeyword spelledType (apart' (by simp)).left isName
    (by simpa [Apart] using apart) isEqual spelledValue .absent
  exact ⟨_, rfl, by simpa using spelled⟩

/-- A header with values between braces is an enumeration. -/
theorem BodyWriting.enum {decl : EnumDecl π}
    (writing : BodyWriting (NamedHeader "enum" decl.name) (Elements true EnumValueWriting) lexemes
      decl.values) : DefinitionWriting limit lexemes (.enum decl) := by
  obtain ⟨_, opening, elements, closing, rfl, ⟨keyword, word, rfl, isKeyword, isName, apart⟩,
    isOpening, elements, isClosing⟩ := writing
  obtain ⟨reads, same, spelled⟩ := elements.exists_reads
  refine ⟨_, ?_, .enum isKeyword isName apart isOpening spelled isClosing⟩
  simp [Definition.map, EnumDecl.map, same, content]

/-- A header with fields between braces is a record. -/
theorem BodyWriting.record {kind : RecordKind} {decl : Record π}
    (writing : BodyWriting (NamedHeader kind.keyword decl.name)
      (Elements true (FieldWriting limit)) lexemes decl.fields) :
    DefinitionWriting limit lexemes (.record kind decl) := by
  obtain ⟨_, opening, elements, closing, rfl, ⟨keyword, word, rfl, isKeyword, isName, apart⟩,
    isOpening, elements, isClosing⟩ := writing
  obtain ⟨reads, same, spelled⟩ := (elements.ended fun _ _ _ writing isSeparator =>
    writing _ isSeparator).exists_reads
  refine ⟨_, ?_, .record isKeyword isName apart isOpening spelled isClosing⟩
  simp [Definition.map, Record.map, same, content]

/-- A header with functions between braces is a service. -/
theorem BodyWriting.service {decl : Service π}
    (writing : BodyWriting (ServiceHeader decl.name decl.base)
      (Elements true (FunctionWriting limit)) lexemes decl.functions) :
    DefinitionWriting limit lexemes (.service decl) := by
  obtain ⟨_, opening, elements, closing, rfl, ⟨keyword, word, bases, rfl, isKeyword, isName,
    apart, spelledBase⟩, isOpening, elements, isClosing⟩ := writing
  obtain ⟨reads, same, spelled⟩ := (elements.ended fun _ _ _ writing isSeparator =>
    writing _ isSeparator).exists_reads
  have whole := DefinitionSpelling.service isKeyword isName apart spelledBase isOpening spelled
    isClosing
  refine ⟨_, ?_, by simpa using whole⟩
  simp [Definition.map, Service.map, same, content]

/-- A header with functions between braces that have a list separator after each is a service with ended
functions. -/
theorem BodyWriting.endedService {decl : Service π}
    (writing : BodyWriting (ServiceHeader decl.name decl.base)
      (Sequence (EndedItem (FunctionWriting limit))) lexemes decl.functions) :
    EndedWriting limit lexemes (.service decl) := by
  obtain ⟨_, opening, inside, closing, rfl, ⟨keyword, word, bases, rfl, isKeyword, isName,
    apart, spelledBase⟩, isOpening, members, isClosing⟩ := writing
  have each : Sequence (fun lexemes function => ∃ read : FunctionDecl Nat,
      read.map content = function.map content ∧
        EndedFunctionSpelling true true limit lexemes read) inside decl.functions := by
    refine members.imp fun _ function _ divided => ?_
    obtain ⟨first, separator, rfl, writing, isSeparator⟩ := divided
    obtain ⟨read, same, spelled⟩ := writing _ isSeparator
    exact ⟨read, same, spelled, fun _ => ⟨first, separator, rfl, isSeparator⟩⟩
  obtain ⟨reads, same, spelled⟩ := each.exists_reads
  have whole := EndedSpelling.service isKeyword isName apart spelledBase isOpening spelled isClosing
  refine ⟨_, ?_, by simpa using whole⟩
  simp [Definition.map, Service.map, same, content]

/-- The keyword of a record is a name. -/
theorem RecordKind.isName_keyword (kind : RecordKind) : IsName kind.keyword.toList := by
  cases kind <;> decide

end Parts

/-- The text of a value of an enumeration that can be written spells the value. -/
theorem EnumValue.WellFormed.spells {value : EnumValue π} (representable : value.WellFormed) :
    Spells Closed value.idl (EnumValueWriting · value) := by
  have numbers : Option.Rel DenotesInteger (value.value.map integer) value.value := by
    cases number : value.value with
    | none => exact .none
    | some n => exact .some (denotesInteger_integer (representable.value n number))
  have idl : value.idl = value.name.toList ++
      (value.value.map integer).elim [] fun text => " = ".toList ++ text := by
    rw [EnumValue.idl, Option.elim_map]
    rfl
  rw [idl]
  exact spells_enumValue representable.name numbers

/-- A definition that is no service and can be written has lines, which spell the definition. -/
theorem Definition.Representable.exists_spells_plain {definition : Definition π}
    (representable : definition.Representable) (shallow : definition.depth ≤ limit)
    (plain : ∀ decl, definition ≠ .service decl) :
    ∃ lines, definition.idl = .ok lines ∧ lines ≠ [] ∧
      Spells Closed (lined lines) (DefinitionWriting limit · definition) := by
  cases definition with
  | inclusion path =>
    obtain ⟨written, idl, isLiteral, rfl⟩ := exists_isLiteral representable
    refine ⟨[_], by simp only [Definition.idl, idl]; rfl, by simp, ?_⟩
    simpa using spells_inclusion isLiteral
  | cppInclusion path =>
    obtain ⟨written, idl, isLiteral, rfl⟩ := exists_isLiteral representable
    refine ⟨[_], by simp only [Definition.idl, idl]; rfl, by simp, ?_⟩
    simpa using spells_cppInclusion isLiteral
  | space decl =>
    refine ⟨[_], rfl, by simp, ?_⟩
    simpa using spells_space decl representable.1 representable.2
  | typedef decl =>
    obtain ⟨old, unnamed, isName⟩ := representable
    have types := old.spells.imp fun _ spelled => spelled.within shallow
    refine ⟨[_], rfl, by simp, ?_⟩
    simpa using spells_typedef decl types unnamed isName
  | const decl =>
    obtain ⟨type, isName, value⟩ := representable
    obtain ⟨typeShallow, valueShallow⟩ := Nat.max_le.1 shallow
    obtain ⟨text, idl, spellsValue⟩ := ConstValue.Representable.exists_spells value
    have types := type.spells.imp fun _ spelled => spelled.within typeShallow
    have values := spellsValue.imp fun _ spelled => spelled.within valueShallow
    refine ⟨[_], by simp only [Definition.idl, idl]; rfl, by simp, ?_⟩
    simpa using spells_const decl types isName values
  | enum decl =>
    have header := spells_header "enum" (by decide) representable.1
    have each : List.Forall₂ (fun text value => Spells Closed text (EnumValueWriting · value))
        (decl.values.map EnumValue.idl) decl.values :=
      List.forall₂_map_left_iff.2
        (List.forall₂_same.2 fun value mem => (representable.2 value mem).spells)
    exact ⟨_, rfl, block_ne_nil, (spells_block header each).imp fun _ writing =>
      writing.elements.enum⟩
  | record kind decl =>
    have header := spells_header kind.keyword kind.isName_keyword representable.1
    obtain ⟨texts, written, each⟩ := exists_mapM_eq_ok fun field mem =>
      Field.Representable.exists_spells (representable.2 field mem)
        (greatest_le_iff.1 shallow field mem)
    exact ⟨_, by simp only [Definition.idl, written]; rfl, block_ne_nil,
      (spells_block header each).imp fun _ writing => writing.elements.record⟩
  | service decl => exact absurd rfl (plain decl)

/-- A definition that can be written has lines, which spell the definition with a list separator after
each of its functions. -/
theorem Definition.Representable.exists_spells {definition : Definition π}
    (representable : definition.Representable) (shallow : definition.depth ≤ limit) :
    ∃ lines, definition.idl = .ok lines ∧ lines ≠ [] ∧
      Spells Closed (lined lines) (EndedWriting limit · definition) := by
  by_cases plain : ∀ decl, definition ≠ .service decl
  · obtain ⟨lines, idl, some, spells⟩ := exists_spells_plain representable shallow plain
    exact ⟨lines, idl, some, spells.imp fun _ writing => writing.ended plain⟩
  · obtain ⟨decl, rfl⟩ := not_forall_not.1 plain
    obtain ⟨isName, isBase, functions⟩ := representable
    have header := spells_service_header isName isBase
    obtain ⟨texts, written, each⟩ := exists_mapM_eq_ok fun function mem =>
      FunctionDecl.Representable.exists_spells (functions function mem)
        (greatest_le_iff.1 shallow function mem)
    exact ⟨_, by simp only [Definition.idl, written]; rfl, block_ne_nil,
      (spells_block header each).imp fun _ writing => writing.endedService⟩

end Definitions

end ThriftIdl
