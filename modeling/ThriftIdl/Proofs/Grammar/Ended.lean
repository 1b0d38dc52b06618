import ThriftIdl.Proofs.Grammar.Depth

/-!
# Functions with a list separator after each

A list separator may stand after a function (`Ended`). Where one stands after each function of a
service, none of the functions is followed by the word for exceptions, so that the next one may begin
with a type of that name (`EndedSpelling`). Without this condition the relation is that of definitions
(`endedSpelling_false_iff`).
-/
namespace ThriftIdl

/-- The last lexeme is a list separator. -/
def Ended (lexemes : List Lexeme) : Prop :=
  ∃ others last, lexemes = others ++ [last] ∧ SeparatorSpelling [last]

/-- A bracket is no list separator. -/
theorem not_ended_of_rightParen {others : List Lexeme} {last : Lexeme}
    (isBracket : last.IsMark .rightParen) : ¬ Ended (others ++ [last]) := by
  rintro ⟨_, separator, same, isSeparator⟩
  obtain rfl : last = separator := (List.append_inj' same rfl).2 |> List.singleton_inj.1
  cases isSeparator with
  | comma isComma => exact Mark.noConfusion (Shape.mark.inj (isBracket.symm.trans isComma))
  | semicolon isSemicolon =>
    exact Mark.noConfusion (Shape.mark.inj (isBracket.symm.trans isSemicolon))

/-- Lexemes spell a function. If it is asked to be ended, a list separator stands after it. -/
def EndedFunctionSpelling (ended parted : Bool) (depth : Nat) (lexemes : List Lexeme)
    (function : FunctionDecl Nat) : Prop :=
  FunctionSpelling parted depth lexemes function ∧ (ended → Ended lexemes)

/-- Lexemes spell a definition. If its functions are asked to be ended, a list separator stands after
each of them. -/
inductive EndedSpelling (ended parted : Bool) (depth : Nat) :
    List Lexeme → Definition Nat → Prop where
  /-- A definition that is no service. -/
  | plain {lexemes : List Lexeme} {definition : Definition Nat} :
      (∀ decl, definition ≠ .service decl) → DefinitionSpelling parted depth lexemes definition →
      EndedSpelling ended parted depth lexemes definition
  /-- A service. -/
  | service {keyword word opening closing : Lexeme} {bases members : List Lexeme} {name : String}
      {base : Option String} {functions : List (FunctionDecl Nat)} :
      keyword.IsWord "service" → word.IsWord name → word.apart → BaseSpelling bases base →
      opening.IsMark .leftBrace →
      Sequence (EndedFunctionSpelling ended parted depth) members functions →
      closing.IsMark .rightBrace →
      EndedSpelling ended parted depth
        (keyword :: word :: (bases ++ opening :: (members ++ [closing])))
        (.service ⟨name, base, functions, keyword.left⟩)

section Ended

variable {lexemes : List Lexeme} {ended parted : Bool} {depth : Nat}

/-- A definition with ended functions is a definition. -/
theorem EndedSpelling.spelling {definition : Definition Nat}
    (spelled : EndedSpelling ended parted depth lexemes definition) :
    DefinitionSpelling parted depth lexemes definition := by
  cases spelled with
  | plain _ spelled => exact spelled
  | service isKeyword isName apart spelledBase isOpening spelledFunctions isClosing =>
    exact .service isKeyword isName apart spelledBase isOpening
      (spelledFunctions.imp fun _ _ _ one => one.1) isClosing

/-- If its functions are not asked to be ended, a definition is spelled as any other. -/
theorem endedSpelling_false_iff {definition : Definition Nat} :
    EndedSpelling false parted depth lexemes definition ↔
      DefinitionSpelling parted depth lexemes definition := by
  refine ⟨EndedSpelling.spelling, fun spelled => ?_⟩
  cases spelled with
  | service isKeyword isName apart spelledBase isOpening spelledFunctions isClosing =>
    exact .service isKeyword isName apart spelledBase isOpening
      (spelledFunctions.imp fun _ _ _ one => ⟨one, Bool.false_ne_true.elim⟩) isClosing
  | _ => exact .plain (by simp) (by constructor <;> assumption)

/-- The last lexeme of fields between round brackets is a bracket. -/
theorem FieldListSpelling.not_ended {fields : List (Field Nat)} {before : List Lexeme}
    (spelled : FieldListSpelling parted depth lexemes fields) : ¬ Ended (before ++ lexemes) := by
  cases spelled with
  | @fields opening closing members _ _ _ isClosing =>
    rw [← List.cons_append, ← List.append_assoc]
    exact not_ended_of_rightParen isClosing

/-- The last lexeme of the parameters and the exceptions of a function is a bracket. -/
theorem ThrowsSpelling.not_ended {parameters : List (Field Nat)}
    {exceptions : Option (List (Field Nat))} {before members throwing : List Lexeme}
    (spelled : FieldListSpelling parted depth members parameters)
    (spelledThrowing : ThrowsSpelling parted depth throwing exceptions) :
    ¬ Ended (before ++ (members ++ throwing)) := by
  cases spelledThrowing with
  | absent =>
    rw [List.append_nil]
    exact spelled.not_ended
  | @present word thrown _ _ spelledFields =>
    rw [← List.singleton_append, ← List.append_assoc, ← List.append_assoc]
    exact spelledFields.not_ended

/-- Lexemes are an item and a list separator after it. -/
def EndedItem {α : Type} (item : List Lexeme → α → Prop) (lexemes : List Lexeme) (value : α) : Prop :=
  ∃ first separator, lexemes = first ++ [separator] ∧ item first value ∧
    SeparatorSpelling [separator]

/-- Items with a list separator after each are elements. -/
theorem Sequence.elements {α : Type} {item : List Lexeme → α → Prop} {values : List α}
    (spelled : Sequence (EndedItem item) lexemes values) : Elements parted item lexemes values := by
  induction spelled with
  | nil => exact .nil
  | cons first _ ih =>
    obtain ⟨first, separator, rfl, one, isSeparator⟩ := first
    rw [List.append_assoc]
    exact .cons one isSeparator ih fun _ none => absurd none (List.cons_ne_nil _ _)

end Ended

end ThriftIdl
