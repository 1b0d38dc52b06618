import ThriftIdl.Document
import ThriftIdl.Failure

/-!
# Canonical text

Every document whose literals and numbers can be written has one canonical text: the header
lines first, and then one definition after the other with a blank line between them. Types are
written without blanks, elements with a comma and a blank between them, and the members of a body
on lines of their own, each with a comma after it. A literal has no escapes, so that one with
both kinds of quotes cannot be written, and neither can a double that is infinite or no number.
-/
namespace ThriftIdl

open Text

/-- Why something has no canonical text. -/
inductive Unprintable where
  /-- A literal contains quotes of both kinds. -/
  | bothQuotes (text : String)
  /-- A double is infinite or no number. -/
  | notFinite (value : Double)
deriving DecidableEq

/-- Why something has no canonical text, in words. -/
def Unprintable.message : Unprintable → String
  | .bothQuotes text => "Literal contains both quote characters: " ++ shown text.toList
  | .notFinite value =>
    "Double constant " ++ String.ofList value.text ++ " has no IDL spelling"

/-- Texts with a comma and a blank between them. -/
def listed (texts : List (List Char)) : List Char := [',', ' '].intercalate texts

/-- Texts with a blank between them. -/
def spaced (texts : List (List Char)) : List Char := [' '].intercalate texts

/-- The text of a type. -/
def FieldType.idl : FieldType → List Char
  | .base type => type.keyword.toList
  | .map key value => "map<".toList ++ key.idl ++ ',' :: value.idl ++ ['>']
  | .set element => "set<".toList ++ element.idl ++ ['>']
  | .list element => "list<".toList ++ element.idl ++ ['>']
  | .named name => name.toList

/-- A literal between double quotes, or between single quotes if it contains a double one. -/
def literalIdl (text : String) : Except Unprintable (List Char) :=
  if !text.toList.contains Quote.double.char then
    .ok (Quote.double.char :: text.toList ++ [Quote.double.char])
  else if !text.toList.contains Quote.single.char then
    .ok (Quote.single.char :: text.toList ++ [Quote.single.char])
  else .error (.bothQuotes text)

mutual
/-- The text of a constant. -/
def ConstValue.idl : ConstValue → Except Unprintable (List Char)
  | .name name => .ok name.toList
  | .literal text => literalIdl text
  | .int value => .ok (integer value)
  | .double value => if value.isFinite then .ok value.text else .error (.notFinite value)
  | .list values => do return '[' :: listed (← idlOfValues values) ++ [']']
  | .map entries => do return '\x7b' :: listed (← idlOfEntries entries) ++ ['\x7d']

/-- The texts of constants. -/
def idlOfValues : List ConstValue → Except Unprintable (List (List Char))
  | [] => .ok []
  | value :: values => do
    let text ← value.idl
    return text :: (← idlOfValues values)

/-- The texts of the entries of a map. -/
def idlOfEntries : List (ConstValue × ConstValue) → Except Unprintable (List (List Char))
  | [] => .ok []
  | (key, value) :: entries => do
    let key ← key.idl
    let value ← value.idl
    return (key ++ ':' :: ' ' :: value) :: (← idlOfEntries entries)
end

/-- The word that says whether a field must be set, if one is written. -/
def Requiredness.idl : Requiredness → List (List Char)
  | .required => ["required".toList]
  | .optional => ["optional".toList]
  | .unstated => []

variable {π : Type}

/-- The text of a field. -/
def Field.idl (field : Field π) : Except Unprintable (List Char) := do
  let id := field.id.elim [] fun id => [integer id ++ [':']]
  let value ← match field.defaultValue with
    | none => .ok []
    | some value => do
      let text ← value.idl
      .ok ['=' :: ' ' :: text]
  return spaced (id ++ field.requiredness.idl ++ [field.type.idl, field.name.toList] ++ value)

/-- The texts of fields in one line. -/
def fieldsIdl (fields : List (Field π)) : Except Unprintable (List Char) := do
  return listed (← fields.mapM Field.idl)

/-- The text of a function. -/
def FunctionDecl.idl (function : FunctionDecl π) : Except Unprintable (List Char) := do
  let returns := function.returns.elim "void".toList FieldType.idl
  let parameters ← fieldsIdl function.parameters
  let exceptions ← match function.exceptions with
    | none => .ok []
    | some fields => do
      let text ← fieldsIdl fields
      .ok (" throws (".toList ++ text ++ [')'])
  let oneway := if function.oneway then "oneway ".toList else []
  return oneway ++ returns ++ ' ' :: function.name.toList ++ '(' :: parameters ++ ')' :: exceptions

/-- The text of a value of an enumeration. -/
def EnumValue.idl (value : EnumValue π) : List Char :=
  value.name.toList ++ value.value.elim [] fun number => " = ".toList ++ integer number

/-- The lines of a definition with a body. -/
def block (header : List Char) (members : List (List Char)) : List (List Char) :=
  if members.isEmpty then [header ++ " \x7b\x7d".toList]
  else
    (header ++ " \x7b".toList) :: members.map (fun member => ' ' :: ' ' :: member ++ [',']) ++
      ["\x7d".toList]

/-- The lines of a definition. -/
def Definition.idl : Definition π → Except Unprintable (List (List Char))
  | .inclusion path => do return ["include ".toList ++ (← literalIdl path)]
  | .cppInclusion path => do return ["cpp_include ".toList ++ (← literalIdl path)]
  | .space decl => .ok [spaced ["namespace".toList, decl.scope.toList, decl.name.toList]]
  | .typedef decl => .ok [spaced ["typedef".toList, decl.old.idl, decl.name.toList]]
  | .const decl => do
    let value ← decl.value.idl
    return [spaced ["const".toList, decl.type.idl, decl.name.toList, ['='], value]]
  | .enum decl =>
    .ok (block (spaced ["enum".toList, decl.name.toList]) (decl.values.map EnumValue.idl))
  | .record kind decl => do
    let members ← decl.fields.mapM Field.idl
    return block (spaced [kind.keyword.toList, decl.name.toList]) members
  | .service decl => do
    let members ← decl.functions.mapM FunctionDecl.idl
    let base := decl.base.elim [] fun base => ["extends".toList, base.toList]
    return block (spaced (["service".toList, decl.name.toList] ++ base)) members

/-- Whether a definition belongs to the header. -/
def Definition.isHeader : Definition π → Bool
  | .inclusion _ | .cppInclusion _ | .space _ => true
  | _ => false

/-- Lines with a line end between them. -/
def lined (lines : List (List Char)) : List Char := ['\n'].intercalate lines

/-- Sections with a blank line between them, and a line end after the last. -/
def sectioned (sections : List (List Char)) : List Char :=
  if sections.isEmpty then [] else ['\n', '\n'].intercalate sections ++ ['\n']

/-- The text of definitions that are given by their lines, each with whether it belongs to the
header: the lines of the header, and then the others one by one. -/
def paragraphs (texts : List (Bool × List (List Char))) : List Char :=
  let header := (texts.filter (·.1)).flatMap (·.2)
  let body := (texts.filter (!·.1)).map fun text => lined text.2
  sectioned ((if header.isEmpty then [] else [lined header]) ++ body)

/-- The text of definitions. -/
def definitionsIdl (definitions : List (Definition π)) : Except Unprintable (List Char) := do
  let texts ← definitions.mapM fun definition => do
    return (definition.isHeader, ← definition.idl)
  return paragraphs texts

/-- The canonical text of a document. -/
def Document.idl (document : Document π) : Except Unprintable (List Char) :=
  definitionsIdl document.definitions

end ThriftIdl
