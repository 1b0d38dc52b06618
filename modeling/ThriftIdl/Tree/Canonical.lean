import ThriftIdl.Tree.Access

/-!
# Canonical text of trees

A tree is written as the node that it is taken for, as far as it can be: types and constants must
be of the right kind, and all else must have the attributes that are written. A tree stops the
writing where it does not fit, in the order in which the text is made. The module
`Tree.Agreement` shows that types and constants are written alike as trees.
-/
namespace ThriftIdl.Tree

/-- The text of a type. What a name holds is left as it is. -/
def typeText : Tree → Except Misfit Tree
  | .base type => .ok (.text type.keyword)
  | .node .mapType [key, value] _ => do
    let key ← key.typeText
    let value ← value.typeText
    return ofChars ("map<".toList ++ key.words ++ ',' :: value.words ++ ['>'])
  | .node .setType [element] _ => do
    let element ← element.typeText
    return ofChars ("set<".toList ++ element.words ++ ['>'])
  | .node .listType [element] _ => do
    let element ← element.typeText
    return ofChars ("list<".toList ++ element.words ++ ['>'])
  | .node .identifier [name] _ => .ok name
  | tree => .error (.notType tree)

/-- Whether a tree is a text of one given character. -/
def isMark (mark : Char) : Tree → Bool
  | .text chars => chars.toList = [mark]
  | _ => false

/-- Whether a quote is found in a tree: in a text, or among the items of a list or a pair. -/
def holdsMark (mark : Char) : Tree → Except Misfit Bool
  | .text chars => .ok (chars.toList.contains mark)
  | .list items => .ok (items.any (isMark mark))
  | .pair first second => .ok (first.isMark mark || second.isMark mark)
  | tree => .error (.notSearched tree)

/-- A literal between double quotes, or between single quotes if it contains a double one. -/
def literalText (tree : Tree) : Except Misfit (List Char) := do
  let quoted (quote : Text.Quote) : List Char := quote.char :: tree.words ++ [quote.char]
  if !(← tree.holdsMark Text.Quote.double.char) then return quoted .double
  else if !(← tree.holdsMark Text.Quote.single.char) then return quoted .single
  else .error (.bothQuotes tree)

/-- The text of the number of a double constant. -/
def numberText : Tree → Except Misfit (List Char)
  | .double value => if value.isFinite then .ok value.text else .error (.notFinite value)
  | .int value => .ok (Text.integer value)
  | .flag value => .ok (Tree.flag value).display
  | tree => .error (.notNumber tree)

/-- The first thing that is wrong with a tree as the list of a list constant, if it is no list. -/
def listFault (tree : Tree) : Misfit :=
  match tree.items? with
  | some (item :: _) => .notConstant item
  | _ => .noItems tree

/-- The first thing that is wrong with a tree as an entry of a map constant, if it is no list of
two and no pair. -/
def entryFault (tree : Tree) : Misfit :=
  match tree.items? with
  | some [item, _] => .notConstant item
  | some (_ :: _ :: _ :: _) => .manyParts
  | some items => .fewParts items.length
  | none => .noParts tree

/-- The first thing that is wrong with a tree as the list of a map constant, if it is no list. -/
def entriesFault (tree : Tree) : Misfit :=
  match tree.items? with
  | some (item :: _) => item.entryFault
  | _ => .noItems tree

/-- An entry of a map constant. -/
def entryText (key value : Tree) : List Char := key.words ++ ':' :: ' ' :: value.words

/-- Texts with a comma and a blank between them, between brackets. -/
def bracketed (opening closing : Char) (trees : List Tree) : Except Misfit Tree := do
  return ofChars (opening :: (← joinedWords [',', ' '] trees) ++ [closing])

mutual
/-- The text of a constant. What a name holds is left as it is. -/
def constantText : Tree → Except Misfit Tree
  | .node .identifier [name] _ => .ok name
  | .node .literal [value] _ => ofChars <$> value.literalText
  | .node .intConstant [value] _ => .ok (ofChars value.words)
  | .node .doubleConstant [value] _ => ofChars <$> value.numberText
  | .node .constList [.list values] _ => do bracketed '[' ']' (← constantTexts values)
  | .node .constList [.pair first second] _ => do
    let first ← first.constantText
    let second ← second.constantText
    bracketed '[' ']' [first, second]
  | .node .constList [values] _ =>
    if values.items?.any List.isEmpty then bracketed '[' ']' [] else .error values.listFault
  | .node .constMap [.list entries] _ => do bracketed '\x7b' '\x7d' (← entryTexts entries)
  | .node .constMap [entries] _ =>
    if entries.items?.any List.isEmpty then bracketed '\x7b' '\x7d' []
    else .error entries.entriesFault
  | tree => .error (.notConstant tree)

/-- The texts of constants. -/
def constantTexts : List Tree → Except Misfit (List Tree)
  | [] => .ok []
  | item :: items => do
    let text ← item.constantText
    return text :: (← constantTexts items)

/-- The texts of the entries of a map constant. -/
def entryTexts : List Tree → Except Misfit (List Tree)
  | [] => .ok []
  | .pair key value :: items | .list [key, value] :: items => do
    let key ← key.constantText
    let value ← value.constantText
    return ofChars (entryText key value) :: (← entryTexts items)
  | item :: _ => .error item.entryFault
end

/-- The word that says whether a field must be set, if the tree says so. -/
def requirednessWords : Tree → List Tree
  | .flag true => [.text "required"]
  | .flag false => [.text "optional"]
  | _ => []

/-- The text of a field. -/
def fieldText (tree : Tree) : Except Misfit (List Char) := do
  let id ← tree.valueOf "id"
  let id := match id with
    | .absent => []
    | id => [ofChars (id.words ++ [':'])]
  let required ← tree.valueOf "required"
  let type ← (← tree.valueOf "type").typeText
  let name ← tree.valueOf "name"
  let value ← (← tree.valueOf "default").optional constantText
  let value := value.elim [] fun value => [ofChars ('=' :: ' ' :: value.words)]
  joinedWords [' '] (id ++ required.requirednessWords ++ [type, name] ++ value)

/-- The texts of fields in one line. -/
def fieldsText (tree : Tree) : Except Misfit (List Char) := do
  return listed (← (← tree.items).mapM fieldText)

/-- The text of a function. -/
def functionText (tree : Tree) : Except Misfit (List Char) := do
  let returns ← (← tree.valueOf "returns").optional typeText
  let name ← tree.valueOf "name"
  let parameters ← (← tree.valueOf "parameters").fieldsText
  let oneway ← tree.valueOf "oneway"
  let exceptions ← (← tree.valueOf "exceptions").optional fieldsText
  return (if oneway.isYes then "oneway ".toList else []) ++
    (returns.elim "void".toList words) ++ ' ' :: name.words ++ '(' :: parameters ++
    ')' :: exceptions.elim [] fun text => " throws (".toList ++ text ++ [')']

/-- The text of a value of an enumeration. -/
def enumValueText (tree : Tree) : Except Misfit (List Char) := do
  match ← tree.valueOf "value" with
  | .absent => return (← tree.valueOf "name").words
  | value => return (← tree.valueOf "name").words ++ " = ".toList ++ value.words

/-- The lines of a definition with a body, whose members are written one by one. -/
def blockText (header : List Char) (write : Tree → Except Misfit (List Char)) (members : Tree) :
    Except Misfit (List (List Char)) := do
  return block header (← (← members.items).mapM write)

/-- The lines of a definition. -/
def definitionText : Tree → Except Misfit (List (List Char))
  | .node .inclusion [path] _ => do return ["include ".toList ++ (← path.literalText)]
  | .node .cppInclusion [path] _ => do return ["cpp_include ".toList ++ (← path.literalText)]
  | .node .space [scope, name] _ => .ok [spaced ["namespace".toList, scope.words, name.words]]
  | .node .typedefDecl [old, newName] _ => do
    let old ← old.typeText
    return [spaced ["typedef".toList, old.words, newName.words]]
  | .node .constDecl [name, type, value] _ => do
    let type ← type.typeText
    let value ← value.constantText
    return [spaced ["const".toList, type.words, name.words, ['='], value.words]]
  | .node .enumDecl [name, values] _ =>
    blockText (spaced ["enum".toList, name.words]) enumValueText values
  | .node .structDecl [name, fields] _ =>
    blockText (spaced ["struct".toList, name.words]) fieldText fields
  | .node .unionDecl [name, fields] _ =>
    blockText (spaced ["union".toList, name.words]) fieldText fields
  | .node .exceptionDecl [name, fields] _ =>
    blockText (spaced ["exception".toList, name.words]) fieldText fields
  | .node .serviceDecl [name, extended, functions] _ =>
    let extension := match extended with
      | .absent => []
      | other => ["extends".toList, other.words]
    blockText (spaced (["service".toList, name.words] ++ extension)) functionText functions
  | tree => .error (.notDefinition tree)

/-- Whether a definition belongs to the header. -/
def isHeader : Tree → Bool
  | .node .inclusion _ _ | .node .cppInclusion _ _ | .node .space _ _ => true
  | _ => false

/-- The items of a tree that become part of a list. -/
def spread (tree : Tree) : Except Misfit (List Tree) :=
  match tree.items? with
  | some items => .ok items
  | none => .error (.notSpread tree)

/-- All definitions that a document holds, list by list. -/
def definitions : Tree → Except Misfit (List Tree)
  | .node .document lists _ => List.flatten <$> lists.mapM spread
  | tree => .error (.lacks tree "definitions")

/-- The text of the document that a tree is, whatever definitions its lists hold. -/
def documentText (tree : Tree) : Except Misfit (List Char) := do
  let texts ← (← tree.definitions).mapM fun definition => do
    return (definition.isHeader, ← definition.definitionText)
  return paragraphs texts

end ThriftIdl.Tree
