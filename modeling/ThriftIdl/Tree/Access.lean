import ThriftIdl.Canonical
import ThriftIdl.Tree.Basic

/-!
# Looking into trees

A tree is used by its attributes, by its items, or inside a text. Since any tree may stand
anywhere, each use may fail, and the failure says which tree did not fit (`Misfit`). Main
statement: `joinedWords_texts`, texts are joined without a failure.
-/
namespace ThriftIdl

/-- Why a tree cannot be used. -/
inductive Misfit where
  /-- The tree is no type. -/
  | notType (tree : Tree)
  /-- The tree is no constant. -/
  | notConstant (tree : Tree)
  /-- The tree is no definition. -/
  | notDefinition (tree : Tree)
  /-- The tree lacks an attribute that its place needs. -/
  | lacks (tree : Tree) (name : String)
  /-- The tree belongs to no kind of definitions. -/
  | noCategory (tree : Tree)
  /-- The tree does not say whether a field must be set. -/
  | noRequiredness (tree : Tree)
  /-- The tree holds something that nothing can be looked up by. -/
  | notKey (tree : Tree)
  /-- The tree has no items. -/
  | noItems (tree : Tree)
  /-- The tree has no items that could become part of a list. -/
  | notSpread (tree : Tree)
  /-- The tree has no items among which something could be sought. -/
  | notSearched (tree : Tree)
  /-- The tree has no two parts. -/
  | noParts (tree : Tree)
  /-- The tree has less than two parts. -/
  | fewParts (count : Nat)
  /-- The tree has more than two parts. -/
  | manyParts
  /-- The tree is no number. -/
  | notNumber (tree : Tree)
  /-- The tree is no text, but stands among texts that are joined. -/
  | notText (place : Nat) (tree : Tree)
  /-- The tree contains quotes of both kinds. -/
  | bothQuotes (tree : Tree)
  /-- A double is infinite or no number. -/
  | notFinite (value : Double)

namespace Misfit

/-- What has no canonical text, as a misfit. -/
def ofUnprintable : Unprintable → Misfit
  | .bothQuotes text => .bothQuotes (.text text)
  | .notFinite value => .notFinite value

/-- Why a tree cannot be used, in words. -/
def message : Misfit → String
  | .notType tree => "Not a field type: " ++ String.ofList tree.display
  | .notConstant tree => "Not a constant value: " ++ String.ofList tree.display
  | .notDefinition tree => "Not a definition: " ++ String.ofList tree.display
  | .lacks tree name =>
    "'" ++ tree.className ++ "' object has no attribute " ++ shown name.toList
  | .noCategory tree => tree.classText
  | .noRequiredness tree => String.ofList tree.display
  | .notKey tree => "unhashable type: '" ++ tree.className ++ "'"
  | .noItems tree => "'" ++ tree.className ++ "' object is not iterable"
  | .notSpread tree => "Value after * must be an iterable, not " ++ tree.className
  | .notSearched tree => "argument of type '" ++ tree.className ++ "' is not iterable"
  | .noParts tree => "cannot unpack non-iterable " ++ tree.className ++ " object"
  | .fewParts count =>
    "not enough values to unpack (expected 2, got " ++ String.ofList (Text.digits count) ++ ")"
  | .manyParts => "too many values to unpack (expected 2)"
  | .notNumber tree => "must be real number, not " ++ tree.className
  | .notText place tree =>
    "sequence item " ++ String.ofList (Text.digits place) ++ ": expected str instance, " ++
      tree.className ++ " found"
  | .bothQuotes tree => "Literal contains both quote characters: " ++ String.ofList tree.display
  | .notFinite value => (Unprintable.notFinite value).message

end Misfit

namespace Tree

/-- A text as a tree. -/
def ofChars (chars : List Char) : Tree := .text (String.ofList chars)

/-- What stands for a tree inside a text: a text itself, and anything else written out. -/
def words : Tree → List Char
  | .text chars => chars.toList
  | .base type => "BaseType.".toList ++ type.title
  | tree => tree.display

/-- The words of a text are the text. -/
theorem words_ofChars (chars : List Char) : (ofChars chars).words = chars := String.toList_ofList

/-- The words of an integer are its decimal digits with their sign. -/
theorem words_int (value : Int) : (Tree.int value).words = Text.integer value := rfl

/-- The value of an attribute. A base type has its name and its keyword as attributes. -/
def valueOf? (name : String) : Tree → Option Tree
  | .node label values _ => ((label.attributes.map Attribute.name).zip values).lookup name
  | .base type =>
    if name = "name" then some (ofChars type.title)
    else if name = "value" then some (.text type.keyword)
    else none
  | _ => none

/-- The value of an attribute that the tree must have. -/
def valueOf (name : String) (tree : Tree) : Except Misfit Tree :=
  match tree.valueOf? name with
  | some value => .ok value
  | none => .error (.lacks tree name)

/-- The items of a tree: those of a list, the parts of a pair, the characters of a text. -/
def items? : Tree → Option (List Tree)
  | .list items => some items
  | .pair first second => some [first, second]
  | .text chars => some (chars.toList.map fun c => ofChars [c])
  | _ => none

/-- The items of a tree that must have some. -/
def items (tree : Tree) : Except Misfit (List Tree) :=
  match tree.items? with
  | some items => .ok items
  | none => .error (.noItems tree)

/-- Something that may be missing. -/
def optional {α : Type} (use : Tree → Except Misfit α) : Tree → Except Misfit (Option α)
  | .absent => .ok none
  | tree => some <$> use tree

/-- Whether a tree counts as yes: all but nothing, no, nought and what is empty. -/
def isYes : Tree → Bool
  | .absent => false
  | .text chars => chars ≠ ""
  | .flag value => value
  | .int value => value ≠ 0
  | .double value => !value.isZero
  | .list items => !items.isEmpty
  | .base _ | .pair _ _ | .node _ _ _ => true

/-- The text of a tree that must be one; its place among others is told if it is none. -/
def textAt (place : Nat) : Tree → Except Misfit (List Char)
  | .text chars => .ok chars.toList
  | tree => .error (.notText place tree)

/-- The texts that trees are, from a place on. -/
def textsFrom (place : Nat) : List Tree → Except Misfit (List (List Char))
  | [] => .ok []
  | tree :: trees => do
    let text ← tree.textAt place
    return text :: (← textsFrom (place + 1) trees)

/-- Texts with a separator between them. -/
def joinedWords (separator : List Char) (trees : List Tree) : Except Misfit (List Char) :=
  separator.intercalate <$> textsFrom 0 trees

/-- Trees that are texts are those texts. -/
theorem textsFrom_ofChars (place : Nat) (texts : List (List Char)) :
    textsFrom place (texts.map ofChars) = .ok texts := by
  induction texts generalizing place with
  | nil => rfl
  | cons text texts ih =>
    have read : (ofChars text).textAt place = .ok text := by simp [ofChars, textAt]
    simp only [List.map_cons, textsFrom, read, ih]
    rfl

/-- Texts are joined without a failure. -/
theorem joinedWords_texts (separator : List Char) (texts : List (List Char)) :
    joinedWords separator (texts.map ofChars) = .ok (separator.intercalate texts) := by
  rw [joinedWords, textsFrom_ofChars]
  rfl

end Tree
end ThriftIdl
