import ThriftIdl.Proofs.Canonical.Pieces
import ThriftIdl.Proofs.Grammar.WellFormed

/-!
# Documents that can be written

A document is representable if it is well-formed and its doubles are finite. Types and constants that
can be written have texts, which spell them.
-/
namespace ThriftIdl

open TokenReader (unquoted)

/-- A constant can be written. -/
abbrev ConstValue.Representable (value : ConstValue) : Prop := value.WellFormed (·.isFinite)

/-- Constants can be written. -/
abbrev RepresentableValues (values : List ConstValue) : Prop :=
  WellFormedValues (·.isFinite) values

/-- Entries of a map can be written. -/
abbrev RepresentableEntries (entries : List (ConstValue × ConstValue)) : Prop :=
  WellFormedEntries (·.isFinite) entries

variable {π : Type}

/-- A field can be written. -/
abbrev Field.Representable (field : Field π) : Prop := field.WellFormed (·.isFinite)

/-- A function can be written. -/
abbrev FunctionDecl.Representable (function : FunctionDecl π) : Prop :=
  function.WellFormed (·.isFinite)

/-- A definition can be written. -/
abbrev Definition.Representable (definition : Definition π) : Prop :=
  definition.WellFormed (·.isFinite)

/-- A document can be written. -/
def Document.Representable (document : Document π) : Prop := document.WellFormed (·.isFinite)

section Types

variable {text text' gap : List Char} {key value element : FieldType}

/-- A word with something between angle brackets after it. -/
theorem spells_angled (word : String) {spelling : List Lexeme → Prop} (isName : IsName word.toList)
    (inner : Spells Closed text spelling) :
    Spells Closed (word.toList ++ ([Mark.lessThan.char] ++ (text ++ [Mark.moreThan.char])))
      fun lexemes => ∃ (first less more : Lexeme) (others : List Lexeme),
        lexemes = first :: less :: (others ++ [more]) ∧ first.IsWord word ∧
          less.IsMark .lessThan ∧ spelling others ∧ more.IsMark .moreThan := by
  have closing := inner.then (spells_mark .moreThan) (.closing .moreThan)
    fun rest _ => closed_mark .moreThan rest
  have opening := (spells_mark .lessThan).then closing (.opening (by decide) (by decide))
    fun _ _ => trivial
  have whole := (spells_word word isName).then opening (.closing .lessThan)
    fun rest _ => closed_mark .lessThan _
  refine whole.closed.imp ?_
  rintro _ ⟨_, _, rfl, ⟨first, rfl, isWord⟩, ⟨_, _, rfl, ⟨less, rfl, isLess⟩, ⟨others, _, rfl,
    spelled, ⟨more, rfl, isMore⟩, -⟩, -⟩, -⟩
  exact ⟨first, less, more, others, rfl, isWord, isLess, spelled, isMore⟩

/-- A map type is spelled by its parts, whatever stands after the comma. -/
theorem spells_mapType (filler : Filler gap)
    (keys : Spells Closed text (TypeSpelling key.depth · key))
    (values : Spells Closed text' (TypeSpelling value.depth · value)) :
    Spells Closed ("map".toList ++ ([Mark.lessThan.char] ++
        ((text ++ ([Mark.comma.char] ++ (gap ++ text'))) ++ [Mark.moreThan.char])))
      (TypeSpelling (FieldType.map key value).depth · (.map key value)) := by
  have second := (spells_mark .comma).append filler values
    (fun _ => .opening (by decide) (by decide)) fun _ _ => trivial
  have inner := keys.then second (.closing .comma) fun rest _ => closed_mark .comma _
  refine (spells_angled "map" (by decide) inner).imp ?_
  rintro _ ⟨first, less, more, _, rfl, isWord, isLess, ⟨keys, _, rfl, spelledKey, ⟨_, values, rfl,
    ⟨comma, rfl, isComma⟩, spelledValue, -⟩, -⟩, isMore⟩
  have spelled := ContainerTypeSpelling.map isWord .absent isLess
    (spelledKey.within (Nat.le_max_left _ _)) isComma
    (spelledValue.within (Nat.le_max_right _ _)) isMore
  exact typeSpelling_succ.2 (.inr (by simpa using spelled))

/-- A set type is spelled by its parts. -/
theorem spells_setType (inner : Spells Closed text (TypeSpelling element.depth · element)) :
    Spells Closed ("set".toList ++ ([Mark.lessThan.char] ++ (text ++ [Mark.moreThan.char])))
      (TypeSpelling (FieldType.set element).depth · (.set element)) := by
  refine (spells_angled "set" (by decide) inner).imp ?_
  rintro _ ⟨first, less, more, others, rfl, isWord, isLess, spelled, isMore⟩
  exact typeSpelling_succ.2 (.inr (.set isWord .absent isLess spelled isMore))

/-- A list type is spelled by its parts. -/
theorem spells_listType (inner : Spells Closed text (TypeSpelling element.depth · element)) :
    Spells Closed ("list".toList ++ ([Mark.lessThan.char] ++ (text ++ [Mark.moreThan.char])))
      (TypeSpelling (FieldType.list element).depth · (.list element)) := by
  refine (spells_angled "list" (by decide) inner).imp ?_
  rintro _ ⟨first, less, more, others, rfl, isWord, isLess, spelled, isMore⟩
  exact typeSpelling_succ.2 (.inr (.list isWord isLess spelled isMore .absent))

/-- A base type is spelled by its keyword. -/
theorem spells_baseType (type : BaseType) :
    Spells Closed type.keyword.toList (TypeSpelling (FieldType.base type).depth · (.base type)) := by
  refine (spells_word _ (Keyword.isName (.base type))).imp ?_
  rintro _ ⟨word, rfl, isWord⟩
  exact .inl (.base isWord)

/-- A name that is no base type spells the type that is known by it. -/
theorem spells_namedType {name : String} (isName : IsName name.toList)
    (unlike : ∀ type : BaseType, name ≠ type.keyword) :
    Spells Closed name.toList (TypeSpelling (FieldType.named name).depth · (.named name)) := by
  refine (spells_word _ isName).imp ?_
  rintro _ ⟨word, rfl, isWord⟩
  exact .inr (.named isWord unlike)

/-- The text of a type that can be written spells the type. -/
theorem FieldType.WellFormed.spells {type : FieldType} (representable : type.WellFormed) :
    Spells Closed type.idl (TypeSpelling type.depth · type) := by
  induction type with
  | base type => exact spells_baseType type
  | named name => exact spells_namedType representable.1 representable.2
  | map key value key_ih value_ih =>
    have row : (FieldType.map key value).idl = "map".toList ++ ([Mark.lessThan.char] ++
        ((key.idl ++ ([Mark.comma.char] ++ ([] ++ value.idl))) ++ [Mark.moreThan.char])) := by
      change "map<".toList ++ key.idl ++ ',' :: value.idl ++ ['>'] = _
      simp only [List.append_assoc, List.cons_append]
      rfl
    rw [row]
    exact spells_mapType .nil (key_ih representable.1) (value_ih representable.2)
  | set element ih =>
    have row : (FieldType.set element).idl =
        "set".toList ++ ([Mark.lessThan.char] ++ (element.idl ++ [Mark.moreThan.char])) := by
      change "set<".toList ++ element.idl ++ ['>'] = _
      simp only [List.append_assoc]
      rfl
    rw [row]
    exact spells_setType (ih representable)
  | list element ih =>
    have row : (FieldType.list element).idl =
        "list".toList ++ ([Mark.lessThan.char] ++ (element.idl ++ [Mark.moreThan.char])) := by
      change "list<".toList ++ element.idl ++ ['>'] = _
      simp only [List.append_assoc]
      rfl
    rw [row]
    exact spells_listType (ih representable)

end Types

section Constants

variable {divider : List Char} {texts : List (List Char)}

/-- A name spells the constant that it is. -/
theorem spells_nameConstant {name : String} (isName : IsName name.toList) :
    Spells Closed name.toList
      (ConstantSpelling true (ConstValue.name name).depth · (.name name)) := by
  refine (spells_word _ isName).imp ?_
  rintro _ ⟨word, rfl, isWord⟩
  exact .name isWord

/-- A literal spells the constant that it is. -/
theorem spells_literalConstant {text : List Char} (isLiteral : IsLiteral text) :
    Spells Closed text (ConstantSpelling true (ConstValue.literal (unquoted text)).depth ·
      (.literal (unquoted text))) := by
  refine (spells_literal isLiteral).closed.imp ?_
  rintro _ ⟨lexeme, rfl, shape, same⟩
  rw [← same]
  exact .literal shape

/-- An integer of 64 bits spells the constant that it is. -/
theorem spells_intConstant {text : List Char} {n : Int} (denotes : DenotesInteger text n) :
    Spells Closed text (ConstantSpelling true (ConstValue.int n).depth · (.int n)) := by
  refine denotes.spells.imp ?_
  rintro _ ⟨lexeme, rfl, shape, rfl, fits⟩
  exact .int shape fits

/-- A double spells the constant that it is. -/
theorem spells_doubleConstant {text : List Char} {value : Double}
    (denotes : DenotesDouble text value) :
    Spells Closed text (ConstantSpelling true (ConstValue.double value).depth ·
      (.double value)) := by
  refine denotes.spells.imp ?_
  rintro _ ⟨lexeme, rfl, shape, converts, rfl⟩
  exact .double shape fun _ => converts

/-- Lexemes spell a key and a value, each within its own depth. -/
def EntryWriting (lexemes : List Lexeme) (entry : ConstValue × ConstValue) : Prop :=
  ∃ keys colon values, lexemes = keys ++ colon :: values ∧
    ConstantSpelling true entry.1.depth keys entry.1 ∧ Lexeme.IsMark colon .colon ∧
      ConstantSpelling true entry.2.depth values entry.2

/-- Texts of constants with a divider between them are those of a list. -/
theorem spells_constList {values : List ConstValue} (divides : Divider divider)
    (each : List.Forall₂ (fun text value =>
      Spells Closed text (ConstantSpelling true value.depth · value)) texts values) :
    Spells Closed ('[' :: divider.intercalate texts ++ [']'])
      (ConstantSpelling true (ConstValue.list values).depth · (.list values)) := by
  have enclosed := spells_enclosed .leftSquare .rightSquare (by decide) (by decide) divides .nil each
  refine Spells.imp (by simpa [Mark.char] using enclosed.closed) ?_
  rintro _ ⟨first, last, elements, rfl, isOpening, isClosing, spelled⟩
  refine constantSpelling_succ.2 (.inr (.list isOpening ?_ isClosing))
  exact spelled.imp fun _ value mem inner =>
    inner.within (depthOfValues_le_iff.1 (Nat.le_refl _) value mem)

/-- Texts of entries with a divider between them are those of a map. -/
theorem spells_constMap {entries : List (ConstValue × ConstValue)} (divides : Divider divider)
    (each : List.Forall₂ (fun text entry => Spells Closed text (EntryWriting · entry)) texts
      entries) :
    Spells Closed ('\x7b' :: divider.intercalate texts ++ ['\x7d'])
      (ConstantSpelling true (ConstValue.map entries).depth · (.map entries)) := by
  have enclosed := spells_enclosed .leftBrace .rightBrace (by decide) (by decide) divides .nil each
  refine Spells.imp (by simpa [Mark.char] using enclosed.closed) ?_
  rintro _ ⟨first, last, elements, rfl, isOpening, isClosing, spelled⟩
  refine constantSpelling_succ.2 (.inr (.map isOpening ?_ isClosing))
  refine spelled.imp fun _ entry mem inner => ?_
  obtain ⟨keys, colon, values, rfl, spelledKey, isColon, spelledValue⟩ := inner
  have shallow := depthOfEntries_le_iff.1 (Nat.le_refl _) entry mem
  exact .entry (spelledKey.within shallow.1) isColon (spelledValue.within shallow.2)

/-- A key and a value with a colon and a blank between them. -/
theorem spells_entry {text text' : List Char} {key value : ConstValue}
    (keys : Spells Closed text (ConstantSpelling true key.depth · key))
    (values : Spells Closed text' (ConstantSpelling true value.depth · value)) :
    Spells Closed (text ++ ':' :: ' ' :: text') (EntryWriting · (key, value)) := by
  have tail := (spells_mark .colon).blank values
  refine (keys.then tail (.closing .colon) fun rest _ => closed_mark .colon _).imp ?_
  rintro _ ⟨keys, _, rfl, spelledKey, ⟨_, values, rfl, ⟨colon, rfl, isColon⟩, spelledValue, -⟩, -⟩
  exact ⟨keys, colon, values, rfl, spelledKey, isColon, spelledValue⟩

mutual
/-- A constant that can be written has a text, which spells it. -/
theorem ConstValue.Representable.exists_spells : ∀ {value : ConstValue}, value.Representable →
    ∃ text, value.idl = .ok text ∧ Spells Closed text (ConstantSpelling true value.depth · value)
  | .name _, isName => ⟨_, rfl, spells_nameConstant isName⟩
  | .literal _, quotable => by
    obtain ⟨written, idl, isLiteral, rfl⟩ := exists_isLiteral quotable
    exact ⟨written, idl, spells_literalConstant isLiteral⟩
  | .int _, fits => ⟨_, rfl, spells_intConstant (denotesInteger_integer fits)⟩
  | .double value, finite =>
    ⟨value.text, if_pos finite, spells_doubleConstant (denotesDouble_text finite)⟩
  | .list values, representable => by
    obtain ⟨texts, idl, each⟩ := exists_spells_values representable
    exact ⟨_, by rw [ConstValue.idl, idl]; rfl, spells_constList divider_comma each⟩
  | .map entries, representable => by
    obtain ⟨texts, idl, each⟩ := exists_spells_entries representable
    exact ⟨_, by rw [ConstValue.idl, idl]; rfl, spells_constMap divider_comma each⟩

/-- Constants that can be written have texts, which spell them. -/
theorem exists_spells_values : ∀ {values : List ConstValue}, RepresentableValues values →
    ∃ texts, idlOfValues values = .ok texts ∧ List.Forall₂ (fun text value =>
      Spells Closed text (ConstantSpelling true value.depth · value)) texts values
  | [], _ => ⟨[], rfl, .nil⟩
  | value :: values, representable => by
    obtain ⟨text, idl, first⟩ := ConstValue.Representable.exists_spells representable.1
    obtain ⟨texts, idls, others⟩ := exists_spells_values representable.2
    exact ⟨text :: texts, by rw [idlOfValues, idl, idls]; rfl, .cons first others⟩

/-- Entries that can be written have texts, which spell them. -/
theorem exists_spells_entries : ∀ {entries : List (ConstValue × ConstValue)},
    RepresentableEntries entries →
    ∃ texts, idlOfEntries entries = .ok texts ∧
      List.Forall₂ (fun text entry => Spells Closed text (EntryWriting · entry)) texts entries
  | [], _ => ⟨[], rfl, .nil⟩
  | (key, value) :: entries, representable => by
    obtain ⟨keyText, keyIdl, spellsKey⟩ := ConstValue.Representable.exists_spells representable.1.1
    obtain ⟨text, idl, spellsValue⟩ := ConstValue.Representable.exists_spells representable.1.2
    obtain ⟨texts, idls, others⟩ := exists_spells_entries representable.2
    exact ⟨(keyText ++ ':' :: ' ' :: text) :: texts,
      by rw [idlOfEntries, keyIdl, idl, idls]; rfl, .cons (spells_entry spellsKey spellsValue) others⟩
end

end Constants

end ThriftIdl
