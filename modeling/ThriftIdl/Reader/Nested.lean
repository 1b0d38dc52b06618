import ThriftIdl.ConstValue
import ThriftIdl.FieldType
import ThriftIdl.Reader.Readable

/-!
# Reading constants and types

Constants and types hold others of their kind, down to a depth that the caller allows. What may
stand inside a container is read by a reader that allows one level less; where no level is left
there is none, and opening a container fails then (`inside`). The recursion is on the levels that
are left.
-/
namespace ThriftIdl.Reader

open Readable

variable {ι α β : Type} [Readable ι]

/-- Read the inside of a container, if a level is left for it. -/
def inside (production : String) (inner : Option (Reader ι α)) (body : Reader ι α → Reader ι β) :
    Reader ι β :=
  match inner with
  | some rule => body rule
  | none => fail (.tooDeep production)

/-- What separates the elements of a bracketed body: blanks and comments with at most one list
separator among them, but not nothing. -/
def elementSeparator : Reader ι Unit := do
  if ← skipSeparator then
    let _ ← optional listSeparator
    let _ ← skipSeparator
  else
    let _ ← listSeparator
    let _ ← skipSeparator

/-- Elements with separators between them, and perhaps one after the last. -/
def separated (rule : Reader ι α) : Reader ι (List α) := do
  match ← optional rule with
  | none => Reader.pure []
  | some first =>
    let others ← many (optional (do elementSeparator; rule))
    let _ ← skipSeparator
    let _ ← optional listSeparator
    let _ ← skipSeparator
    Reader.pure (first :: others)

/-- A list constant, whose elements are read by a given reader. -/
def constListOf (inner : Option (Reader ι ConstValue)) : Reader ι ConstValue := do
  character '[' "const_list"
  inside "const_list" inner fun value => do
    let _ ← skipSeparator
    let values ← separated value
    character ']' "const_list"
    Reader.pure (.list values)

/-- An entry of a map constant. -/
def constEntry (value : Reader ι ConstValue) : Reader ι (ConstValue × ConstValue) := do
  let key ← value
  let _ ← skipSeparator
  character ':' "const_map"
  let _ ← skipSeparator
  let content ← value
  Reader.pure (key, content)

/-- A map constant, whose keys and values are read by a given reader. -/
def constMapOf (inner : Option (Reader ι ConstValue)) : Reader ι ConstValue := do
  character '\x7b' "const_map"
  inside "const_map" inner fun value => do
    let _ ← skipSeparator
    let entries ← separated (constEntry value)
    character '\x7d' "const_map"
    Reader.pure (.map entries)

/-- A constant that is neither a list nor a map. -/
def simpleConstants : List (Reader ι ConstValue) := [
  ConstValue.name <$> name, ConstValue.literal <$> literal, ConstValue.double <$> strictDouble,
  ConstValue.int <$> integer]

/-- A constant, whose inner constants are read by a given reader. -/
def constValueOf (inner : Option (Reader ι ConstValue)) : Reader ι ConstValue :=
  alternatives "const_value" (simpleConstants ++ [constListOf inner, constMapOf inner])

/-- A constant with at most the given number of lists and maps around its innermost value. -/
def constValue : Nat → Reader ι ConstValue
  | 0 => fun text => constValueOf none text
  | depth + 1 => fun text => constValueOf (some (constValue depth)) text

/-- What may stand inside a list or a map, when a number of levels is left. -/
def innerConstant : Nat → Option (Reader ι ConstValue)
  | 0 => none
  | depth + 1 => some (constValue depth)

/-- A constant is read with the reader of inner constants for its levels. -/
theorem constValue_eq (depth : Nat) :
    (constValue depth : Reader ι ConstValue) = constValueOf (innerConstant depth) := by
  cases depth <;> rfl

/-- A list constant. -/
def constList (depth : Nat) : Reader ι ConstValue := constListOf (innerConstant depth)

/-- A map constant. -/
def constMap (depth : Nat) : Reader ι ConstValue := constMapOf (innerConstant depth)

/-- A base type. -/
def baseType : Reader ι BaseType :=
  oneOf .baseTypeExpected (BaseType.all.map fun type => (type.keyword, type))

/-- The name of a type of another language, which has no meaning here. -/
def cppType : Reader ι String := do
  keyword "cpp_type" "cpp_type"
  separator
  literal

/-- What may stand between the keyword of a container and its bracket. -/
def leadingCppType : Reader ι Unit := do
  let _ ← skipSeparator
  match ← optional cppType with
  | some _ =>
    let _ ← skipSeparator
  | none => Reader.pure ()

/-- What may stand after the bracket of a list. -/
def trailingCppType : Reader ι String := do
  let _ ← skipSeparator
  cppType

/-- A map type, whose inner types are read by a given reader. -/
def mapTypeOf (inner : Option (Reader ι FieldType)) : Reader ι FieldType := do
  keyword "map" "map_type"
  leadingCppType
  character '<' "map_type"
  inside "map_type" inner fun type => do
    let _ ← skipSeparator
    let key ← type
    let _ ← skipSeparator
    character ',' "map_type"
    let _ ← skipSeparator
    let value ← type
    let _ ← skipSeparator
    character '>' "map_type"
    Reader.pure (.map key value)

/-- A set type, whose inner type is read by a given reader. -/
def setTypeOf (inner : Option (Reader ι FieldType)) : Reader ι FieldType := do
  keyword "set" "set_type"
  leadingCppType
  character '<' "set_type"
  inside "set_type" inner fun type => do
    let _ ← skipSeparator
    let element ← type
    let _ ← skipSeparator
    character '>' "set_type"
    Reader.pure (.set element)

/-- The brackets of a list type with its inner type. -/
def listTypeBody (inner : Option (Reader ι FieldType)) : Reader ι FieldType := do
  character '<' "list_type"
  inside "list_type" inner fun type => do
    let _ ← skipSeparator
    let element ← type
    let _ ← skipSeparator
    character '>' "list_type"
    Reader.pure element

/-- A list type, whose inner type is read by a given reader. -/
def listTypeOf (inner : Option (Reader ι FieldType)) : Reader ι FieldType := do
  keyword "list" "list_type"
  let _ ← skipSeparator
  let element ← listTypeBody inner
  let _ ← optional trailingCppType
  Reader.pure (.list element)

/-- A container type, whose inner types are read by a given reader. -/
def containerTypeOf (inner : Option (Reader ι FieldType)) : Reader ι FieldType :=
  alternatives "container_type" [mapTypeOf inner, setTypeOf inner, listTypeOf inner]

/-- A type, whose inner types are read by a given reader. A base type is tried before a name, so
that its keyword is never the name of a type. -/
def fieldTypeOf (inner : Option (Reader ι FieldType)) : Reader ι FieldType :=
  alternatives "field_type" [FieldType.base <$> baseType, containerTypeOf inner,
    FieldType.named <$> name]

/-- A type with at most the given number of containers around its innermost type. -/
def fieldType : Nat → Reader ι FieldType
  | 0 => fun text => fieldTypeOf none text
  | depth + 1 => fun text => fieldTypeOf (some (fieldType depth)) text

/-- What may stand inside a container type, when a number of levels is left. -/
def innerType : Nat → Option (Reader ι FieldType)
  | 0 => none
  | depth + 1 => some (fieldType depth)

/-- A type is read with the reader of inner types for its levels. -/
theorem fieldType_eq (depth : Nat) :
    (fieldType depth : Reader ι FieldType) = fieldTypeOf (innerType depth) := by
  cases depth <;> rfl

/-- A type that may get a second name: a base type or a container type. -/
def definitionType (depth : Nat) : Reader ι FieldType :=
  alternatives "definition_type" [FieldType.base <$> baseType, containerTypeOf (innerType depth)]

end ThriftIdl.Reader
