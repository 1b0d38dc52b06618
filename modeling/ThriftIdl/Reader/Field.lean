import ThriftIdl.Definition
import ThriftIdl.Reader.Nested

/-!
# Reading fields and functions

A field delimits itself, so that fields follow each other without anything between them. The
number and the requiredness of a field may be missing, and a field begins where its number, its
requiredness or its type begins. Places are recorded as the number of characters left.
-/
namespace ThriftIdl.Reader

open Readable

variable {ι : Type} [Readable ι]

/-- The number of a field, with the colon after it. -/
def fieldId : Reader ι Int := do
  let id ← integer
  let _ ← skipSeparator
  character ':' "field"
  let _ ← skipSeparator
  Reader.pure id

/-- The word that says whether a field must be set. -/
def requiredness : Reader ι Requiredness := do
  let word ← oneOf .requirednessExpected
    [("required", Requiredness.required), ("optional", Requiredness.optional)]
  separator
  Reader.pure word

/-- The default value of a field, with the sign before it. -/
def fieldDefault (depth : Nat) : Reader ι ConstValue := do
  character '=' "field"
  let _ ← skipSeparator
  constValue depth

/-- A field, with a list separator if one follows it. -/
def field (depth : Nat) : Reader ι (Field Nat) := do
  let place ← here
  let id ← optional fieldId
  let word ← optional requiredness
  let type ← fieldType depth
  separator
  let name ← name
  let _ ← skipSeparator
  let value ← optional (fieldDefault depth)
  let _ ← skipSeparator
  let _ ← optional listSeparator
  Reader.pure ⟨type, name, id, word.getD .unstated, value, place⟩

/-- Fields, as many as there are. -/
def fields (depth : Nat) : Reader ι (List (Field Nat)) :=
  many (do
    let _ ← skipSeparator
    optional (field depth))

/-- Fields between round brackets. -/
def fieldList (production : String) (depth : Nat) : Reader ι (List (Field Nat)) := do
  character '(' production
  let members ← fields depth
  character ')' production
  Reader.pure members

/-- The word for a function whose caller waits for no answer. -/
def oneway : Reader ι Unit := do
  keyword "oneway" "function"
  separator

/-- The type of the result of a function, or the word for none. -/
def functionType (depth : Nat) : Reader ι (Option FieldType) :=
  alternatives "function_type"
    [(fun _ => none) <$> keyword "void" "function", some <$> fieldType depth]

/-- The exceptions of a function. -/
def throws (depth : Nat) : Reader ι (List (Field Nat)) := do
  keyword "throws" "throws"
  let _ ← skipSeparator
  fieldList "throws" depth

/-- A list separator after blanks and comments. -/
def trailingListSeparator : Reader ι Char := do
  let _ ← skipSeparator
  listSeparator

/-- A function, with a list separator if one follows it. -/
def function (depth : Nat) : Reader ι (FunctionDecl Nat) := do
  let place ← here
  let word ← optional oneway
  let returns ← functionType depth
  separator
  let name ← name
  let _ ← skipSeparator
  let parameters ← fieldList "function" depth
  let _ ← skipSeparator
  let exceptions ← optional (throws depth)
  let _ ← optional trailingListSeparator
  Reader.pure ⟨name, returns, word.isSome, parameters, exceptions, place⟩

end ThriftIdl.Reader
