import ThriftIdl.Data.Document
import ThriftIdl.Tree.Canonical

/-!
# Plain data of trees

A tree is given as the plain data of the node that it is taken for. All that matters is that it
has the attributes that are asked for: anything with a name and fields can be taken for a record.
What stands in an attribute becomes data whatever it is. A tree stops this where it does not fit,
in the order in which the data are made.
-/
namespace ThriftIdl.Tree

mutual
/-- A tree as data. A node is a record of its attributes. -/
def data : Tree → Data
  | .absent => .null
  | .text chars => .text chars
  | .flag value => .flag value
  | .int value => .int value
  | .double value => .double value
  | .base type => .record [("node", .text "BaseType"), ("value", .text type.keyword)]
  | .list items => .list (dataOfAll items)
  | .pair first second => .list [first.data, second.data]
  | .node label values _ =>
    .record (("node", .text label.name) ::
      (label.attributes.map Attribute.name).zip (dataOfAll values))

/-- Trees as data. -/
def dataOfAll : List Tree → List Data
  | [] => []
  | item :: items => item.data :: dataOfAll items
end

mutual
/-- The data of a constant. -/
def constantData : Tree → Except Misfit Data
  | .node .identifier [name] _ => .ok (.record [("ref", name.data)])
  | .node .literal [value] _ => .ok value.data
  | .node .intConstant [value] _ => .ok value.data
  | .node .doubleConstant [value] _ => .ok value.data
  | .node .constList [.list values] _ => .list <$> constantsData values
  | .node .constList [.pair first second] _ => do
    let first ← first.constantData
    let second ← second.constantData
    return .list [first, second]
  | .node .constList [values] _ =>
    if values.items?.any List.isEmpty then .ok (.list []) else .error values.listFault
  | .node .constMap [.list entries] _ => .list <$> entriesData entries
  | .node .constMap [entries] _ =>
    if entries.items?.any List.isEmpty then .ok (.list []) else .error entries.entriesFault
  | tree => .error (.notConstant tree)

/-- The data of constants. -/
def constantsData : List Tree → Except Misfit (List Data)
  | [] => .ok []
  | item :: items => do
    let data ← item.constantData
    return data :: (← constantsData items)

/-- The data of the entries of a map constant. -/
def entriesData : List Tree → Except Misfit (List Data)
  | [] => .ok []
  | .pair key value :: items | .list [key, value] :: items => do
    let key ← key.constantData
    let value ← value.constantData
    return .list [key, value] :: (← entriesData items)
  | item :: _ => .error item.entryFault
end

/-- The data of a type: its text. -/
def typeData (tree : Tree) : Except Misfit Data := data <$> tree.typeText

mutual
/-- The first part of a tree that nothing can be looked up by: a list, or a double constant. -/
def noKey? : Tree → Option Tree
  | .absent | .text _ | .flag _ | .int _ | .double _ | .base _ => none
  | .list items => some (.list items)
  | .pair first second => first.noKey?.or second.noKey?
  | .node .doubleConstant values position => some (.node .doubleConstant values position)
  | .node _ values _ => noKeyAmong? values

/-- The same among trees. -/
def noKeyAmong? : List Tree → Option Tree
  | [] => none
  | item :: items => item.noKey?.or (noKeyAmong? items)
end

/-- The word for whether a field must be set. One and nought stand for yes and no. -/
def requirednessData : Tree → Except Misfit Data
  | .flag true | .int 1 => .ok Requiredness.required.data
  | .flag false | .int 0 => .ok Requiredness.optional.data
  | .absent => .ok Requiredness.unstated.data
  | tree => .error (tree.noKey?.elim (.noRequiredness tree) .notKey)

/-- The data of all items of an attribute. -/
def eachData (name : String) (use : Tree → Except Misfit Data) (tree : Tree) :
    Except Misfit Data := do
  return .list (← (← (← tree.valueOf name).items).mapM use)

/-- The data of an attribute, whatever it holds. -/
def plainData (name : String) (tree : Tree) : Except Misfit Data := data <$> tree.valueOf name

/-- The data of something that may be missing. -/
def optionalData (use : Tree → Except Misfit Data) (tree : Tree) : Except Misfit Data :=
  Data.ofOption <$> tree.optional use

/-- Named entries that are made one after the other. -/
def recordData (entries : List (String × (Tree → Except Misfit Data))) (tree : Tree) :
    Except Misfit Data := do
  return .record (← entries.mapM fun (name, make) => do return (name, ← make tree))

/-- A record of attributes as they are. -/
def attributesData (names : List String) : Tree → Except Misfit Data :=
  recordData (names.map fun name => (name, plainData name))

/-- The data of a field; a default value that is missing is left out. -/
def fieldData (tree : Tree) : Except Misfit Data := do
  let id ← tree.plainData "id"
  let name ← tree.plainData "name"
  let type ← (← tree.valueOf "type").typeData
  let required ← (← tree.valueOf "required").requirednessData
  let value ← (← tree.valueOf "default").optional constantData
  return .record ([("id", id), ("name", name), ("type", type), ("required", required)] ++
    value.elim [] fun value => [("default", value)])

/-- The data of the fields that an attribute holds. -/
def fieldsData (tree : Tree) : Except Misfit Data := do
  return .list (← (← tree.items).mapM fieldData)

/-- The data of a function. -/
def functionData : Tree → Except Misfit Data := recordData [
  ("name", plainData "name"), ("oneway", plainData "oneway"),
  ("returns", fun tree => do (← tree.valueOf "returns").optionalData typeData),
  ("parameters", fun tree => do (← tree.valueOf "parameters").fieldsData),
  ("throws", fun tree => do (← tree.valueOf "exceptions").optionalData fieldsData)]

/-- The data of a second name for a type. -/
def typedefData : Tree → Except Misfit Data := recordData [
  ("alias", plainData "alias"), ("type", fun tree => do (← tree.valueOf "old").typeData)]

/-- The data of a constant declaration. -/
def constDeclData : Tree → Except Misfit Data := recordData [
  ("name", plainData "name"), ("type", fun tree => do (← tree.valueOf "type").typeData),
  ("value", fun tree => do (← tree.valueOf "value").constantData)]

/-- The data of an enumeration. -/
def enumData : Tree → Except Misfit Data := recordData [
  ("name", plainData "name"), ("values", eachData "values" (attributesData ["name", "value"]))]

/-- The data of a record. -/
def recordDeclData : Tree → Except Misfit Data := recordData [
  ("name", plainData "name"), ("fields", eachData "fields" fieldData)]

/-- The data of a service. -/
def serviceData : Tree → Except Misfit Data := recordData [
  ("name", plainData "name"), ("extends", plainData "extends"),
  ("functions", eachData "functions" functionData)]

/-- The data of a document. -/
def documentData : Tree → Except Misfit Data := recordData [
  ("includes", eachData "includes" (plainData "path")),
  ("cpp_includes", eachData "cpp_includes" (plainData "path")),
  ("namespaces", eachData "namespaces" (attributesData ["scope", "name"])),
  ("typedefs", eachData "typedefs" typedefData),
  ("consts", eachData "consts" constDeclData),
  ("enums", eachData "enums" enumData),
  ("structs", eachData "structs" recordDeclData),
  ("unions", eachData "unions" recordDeclData),
  ("exceptions", eachData "exceptions" recordDeclData),
  ("services", eachData "services" serviceData)]

end ThriftIdl.Tree
