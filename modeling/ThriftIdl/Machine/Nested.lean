import ThriftIdl.ConstValue
import ThriftIdl.FieldType
import ThriftIdl.Machine.Basic

/-!
# Machines for constants and types

What stands inside a container is read by the machine that reads the container, so that the recursion
is bounded by the levels that are given. Those do not decide what is read: the counter of open
containers reaches its limit no later, and the inside of a container beyond the limit is not read
(`Machine.nested`).
-/
namespace ThriftIdl.Machine

open Readable

variable {ι α : Type} [Readable ι]

/-- What separates the elements of a bracketed body: blanks and comments with at most one list
separator among them, but not nothing. -/
def elementSeparator : Machine ι Unit := do
  if ← token skipSeparator then
    let _ ← optional (token listSeparator)
    let _ ← token skipSeparator
  else
    let _ ← token listSeparator
    let _ ← token skipSeparator

/-- Elements with separators between them, and perhaps one after the last. -/
def separated (rule : Machine ι α) : Machine ι (List α) := do
  match ← optional rule with
  | none => return []
  | some first =>
    let others ← many (optional (do elementSeparator; rule))
    let _ ← token skipSeparator
    let _ ← optional (token listSeparator)
    let _ ← token skipSeparator
    return first :: others

/-- What stands inside a container when no levels are given. It is never read. -/
def exhausted : Machine ι α := fail (.tooDeep "")

/-- A list constant, whose elements are read by a given machine. -/
def constListOf (value : Machine ι ConstValue) : Machine ι ConstValue := do
  token (character '[' "const_list")
  nested "const_list" do
    let _ ← token skipSeparator
    let values ← separated value
    token (character ']' "const_list")
    return .list values

/-- An entry of a map constant. -/
def constEntry (value : Machine ι ConstValue) : Machine ι (ConstValue × ConstValue) := do
  let key ← value
  let _ ← token skipSeparator
  token (character ':' "const_map")
  let _ ← token skipSeparator
  let content ← value
  return (key, content)

/-- A map constant, whose keys and values are read by a given machine. -/
def constMapOf (value : Machine ι ConstValue) : Machine ι ConstValue := do
  token (character '\x7b' "const_map")
  nested "const_map" do
    let _ ← token skipSeparator
    let entries ← separated (constEntry value)
    token (character '\x7d' "const_map")
    return .map entries

/-- A constant, whose inner constants are read by a given machine. -/
def constValueOf (value : Machine ι ConstValue) : Machine ι ConstValue :=
  alternatives "const_value" [ConstValue.name <$> token name, ConstValue.literal <$> token literal,
    ConstValue.double <$> token strictDouble, ConstValue.int <$> token integer, constListOf value,
    constMapOf value]

/-- What may stand inside a list or a map, when a number of levels is given. -/
def innerConstant : Nat → Machine ι ConstValue
  | 0 => exhausted
  | levels + 1 => constValueOf (innerConstant levels)

/-- A constant. -/
def constValue (levels : Nat) : Machine ι ConstValue := constValueOf (innerConstant levels)

/-- A list constant. -/
def constList (levels : Nat) : Machine ι ConstValue := constListOf (innerConstant levels)

/-- A map constant. -/
def constMap (levels : Nat) : Machine ι ConstValue := constMapOf (innerConstant levels)

/-- A base type. -/
def baseType : Machine ι BaseType :=
  token (oneOf .baseTypeExpected (BaseType.all.map fun type => (type.keyword, type)))

/-- The name of a type of another language, which has no meaning here. -/
def cppType : Machine ι String := do
  token (keyword "cpp_type" "cpp_type")
  token separator
  token literal

/-- What may stand between the keyword of a container and its bracket. -/
def leadingCppType : Machine ι Unit := do
  let _ ← token skipSeparator
  match ← optional cppType with
  | some _ =>
    let _ ← token skipSeparator
  | none => return ()

/-- What may stand after the bracket of a list. -/
def trailingCppType : Machine ι String := do
  let _ ← token skipSeparator
  cppType

/-- A map type, whose inner types are read by a given machine. -/
def mapTypeOf (type : Machine ι FieldType) : Machine ι FieldType := do
  token (keyword "map" "map_type")
  leadingCppType
  token (character '<' "map_type")
  nested "map_type" do
    let _ ← token skipSeparator
    let key ← type
    let _ ← token skipSeparator
    token (character ',' "map_type")
    let _ ← token skipSeparator
    let value ← type
    let _ ← token skipSeparator
    token (character '>' "map_type")
    return .map key value

/-- A set type, whose inner type is read by a given machine. -/
def setTypeOf (type : Machine ι FieldType) : Machine ι FieldType := do
  token (keyword "set" "set_type")
  leadingCppType
  token (character '<' "set_type")
  nested "set_type" do
    let _ ← token skipSeparator
    let element ← type
    let _ ← token skipSeparator
    token (character '>' "set_type")
    return .set element

/-- The brackets of a list type with its inner type. -/
def listTypeBody (type : Machine ι FieldType) : Machine ι FieldType := do
  token (character '<' "list_type")
  nested "list_type" do
    let _ ← token skipSeparator
    let element ← type
    let _ ← token skipSeparator
    token (character '>' "list_type")
    return element

/-- A list type, whose inner type is read by a given machine. -/
def listTypeOf (type : Machine ι FieldType) : Machine ι FieldType := do
  token (keyword "list" "list_type")
  let _ ← token skipSeparator
  let element ← listTypeBody type
  let _ ← optional trailingCppType
  return .list element

/-- A container type, whose inner types are read by a given machine. -/
def containerTypeOf (type : Machine ι FieldType) : Machine ι FieldType :=
  alternatives "container_type" [mapTypeOf type, setTypeOf type, listTypeOf type]

/-- A type, whose inner types are read by a given machine. -/
def fieldTypeOf (type : Machine ι FieldType) : Machine ι FieldType :=
  alternatives "field_type" [FieldType.base <$> baseType, containerTypeOf type,
    FieldType.named <$> token name]

/-- What may stand inside a container type, when a number of levels is given. -/
def innerType : Nat → Machine ι FieldType
  | 0 => exhausted
  | levels + 1 => fieldTypeOf (innerType levels)

/-- A type. -/
def fieldType (levels : Nat) : Machine ι FieldType := fieldTypeOf (innerType levels)

/-- A type that may get a second name: a base type or a container type. -/
def definitionType (levels : Nat) : Machine ι FieldType :=
  alternatives "definition_type" [FieldType.base <$> baseType, containerTypeOf (innerType levels)]

end ThriftIdl.Machine
