import ThriftIdl.Token.Reader

/-!
# The grammar of documents over tokens

Each production reads its tokens from left to right and decides by the token ahead. Constants and
types hold others of their kind, and each level takes at least its bracket, so that the number of
characters left bounds the levels.
-/
namespace ThriftIdl.TokenReader

/-- A list constant after its opening bracket. -/
def listRest (value : TokenReader ConstValue) : TokenReader ConstValue := do
  let values ← items (.mark .rightSquare) (do
    let value ← value
    takeSeparator
    return value)
  let _ ← advance Follow.afterConstant
  return .list values

/-- A map constant after its opening bracket. -/
def mapRest (value : TokenReader ConstValue) : TokenReader ConstValue := do
  let entries ← items (.mark .rightBrace) (do
    let key ← value
    let _ ← take (.mark .colon) Follow.constant
    let value ← value
    takeSeparator
    return (key, value))
  let _ ← advance Follow.afterConstant
  return .map entries

/-- A constant, whose inner constants are read by a given reader. -/
def constantOf (inner : TokenReader ConstValue) : TokenReader ConstValue := do
  match ← next with
  | .identifier => return .name (String.ofList (← advance Follow.afterConstant))
  | .literal => return .literal (unquoted (← advance Follow.afterConstant))
  | .double =>
    let text ← advance Follow.afterConstant
    return .double (scanNumber (fun _ => true) text).1.toDouble
  | .integer =>
    let text ← advance Follow.afterConstant
    return .int (← int64 text)
  | .mark .leftSquare =>
    let _ ← advance (.mark .rightSquare :: Follow.constant)
    listRest inner
  | .mark .leftBrace =>
    let _ ← advance (.mark .rightBrace :: Follow.constant)
    mapRest inner
  | _ => reject

/-- A constant of at most the given number of levels. -/
def constantWithin : Nat → TokenReader ConstValue
  | 0 => reject
  | levels + 1 => constantOf (constantWithin levels)

/-- A constant. -/
def constant : TokenReader ConstValue := do
  constantWithin ((← get).rest.length + 1)

/-- What may stand between the keyword of a container and its bracket. -/
def leadingCppType : TokenReader Unit := do
  if ← takes (.keyword .cppType) [.literal] then
    let _ ← take .literal Follow.afterCppType

/-- A type, whose inner types are read by a given reader. A name is a type only where one is
admitted. -/
def typeOf (named : Bool) (inner : TokenReader FieldType) : TokenReader FieldType := do
  match ← next with
  | .keyword (.base type) =>
    let _ ← advance Follow.afterType
    return .base type
  | .keyword .map =>
    let _ ← advance [.keyword .cppType, .mark .lessThan]
    leadingCppType
    let _ ← take (.mark .lessThan) Follow.type
    let key ← inner
    let _ ← take (.mark .comma) Follow.type
    let value ← inner
    let _ ← take (.mark .moreThan) Follow.afterType
    return .map key value
  | .keyword .set =>
    let _ ← advance [.keyword .cppType, .mark .lessThan]
    leadingCppType
    let _ ← take (.mark .lessThan) Follow.type
    let element ← inner
    let _ ← take (.mark .moreThan) Follow.afterType
    return .set element
  | .keyword .list =>
    let _ ← advance [.mark .lessThan]
    let _ ← take (.mark .lessThan) Follow.type
    let element ← inner
    let _ ← take (.mark .moreThan) Follow.afterListType
    leadingCppType
    return .list element
  | .identifier =>
    if named then return .named (String.ofList (← advance Follow.afterType)) else reject
  | _ => reject

/-- A type of at most the given number of levels. -/
def typeWithin : Nat → TokenReader FieldType
  | 0 => reject
  | levels + 1 => typeOf true (typeWithin levels)

/-- A type. -/
def type : TokenReader FieldType := do
  typeWithin ((← get).rest.length + 1)

/-- A type that may get a second name. -/
def definitionType : TokenReader FieldType := do
  typeOf false (typeWithin ((← get).rest.length + 1))

/-- The number of a field, if there is one. -/
def fieldId : TokenReader (Option (List Char)) := do
  if (← next) = .integer then
    let text ← advance [.mark .colon]
    let _ ← take (.mark .colon) Follow.numberedField
    return some text
  else return none

/-- The word that says whether a field must be set, if there is one. -/
def requiredness : TokenReader Requiredness := do
  if ← takes (.keyword .required) Follow.type then return .required
  else if ← takes (.keyword .optional) Follow.type then return .optional
  else return .unstated

/-- A constant after a sign, if there is one. -/
def defaultValue : TokenReader (Option ConstValue) := do
  if ← takes (.mark .equal) Follow.constant then return some (← constant) else return none

/-- A field. Its number is looked at after its default value. -/
def field : TokenReader (Field Nat) := do
  let place ← place
  let id ← fieldId
  let requiredness ← requiredness
  let type ← type
  let name ← name Follow.afterFieldName
  let value ← defaultValue
  takeSeparator
  let id ← id.mapM int64
  return ⟨type, name, id, requiredness, value, place⟩

/-- Fields between round brackets, and what may follow them. -/
def fieldList (follow : Expected) : TokenReader (List (Field Nat)) := do
  let _ ← take (.mark .leftParen) (.mark .rightParen :: Follow.field)
  let fields ← items (.mark .rightParen) field
  let _ ← advance follow
  return fields

/-- The type of the result of a function, or the word for none. -/
def functionType : TokenReader (Option FieldType) := do
  if ← takes (.keyword .void) [.identifier] then return none else return some (← type)

/-- A function. -/
def function : TokenReader (FunctionDecl Nat) := do
  let place ← place
  let oneway ← takes (.keyword .oneway) Follow.onewayFunction
  let returns ← functionType
  let name ← name [.mark .leftParen]
  let parameters ← fieldList Follow.afterParameters
  let exceptions ← do
    if ← takes (.keyword .throws) [.mark .leftParen] then some <$> fieldList Follow.afterThrows
    else pure none
  takeSeparator
  return ⟨name, returns, oneway, parameters, exceptions, place⟩

/-- The scope of a namespace, which is reported if it is none. -/
def namespaceScope : TokenReader String := do
  if ← takes (.mark .star) [.identifier] then return "*"
  else
    let scope ← name [.identifier]
    if namespaceScopes.contains scope then return scope
    else
      report (.unknownScope scope)
      return scope

/-- A value of an enumeration. -/
def enumValue : TokenReader (EnumValue Nat) := do
  let place ← place
  let name ← name Follow.afterEnumName
  let value ← do
    if ← takes (.mark .equal) [.integer] then
      some <$> (take .integer Follow.afterEnumNumber >>= int64)
    else pure none
  takeSeparator
  return ⟨name, value, place⟩

/-- A body between braces, after which a definition may follow. -/
def body {α : Type} (start : Expected) (item : TokenReader α) : TokenReader (List α) := do
  let _ ← take (.mark .leftBrace) (.mark .rightBrace :: start)
  let members ← items (.mark .rightBrace) item
  let _ ← advance Follow.definition
  return members

/-- A record after its keyword. -/
def recordRest (place : Nat) : TokenReader (Record Nat) := do
  let _ ← advance [.identifier]
  let name ← name [.mark .leftBrace]
  let fields ← body Follow.field field
  return ⟨name, fields, place⟩

/-- A service after its keyword. -/
def serviceRest (place : Nat) : TokenReader (Service Nat) := do
  let _ ← advance [.identifier]
  let service ← name [.keyword .extending, .mark .leftBrace]
  let base ← do
    if ← takes (.keyword .extending) [.identifier] then some <$> name [.mark .leftBrace]
    else pure none
  let functions ← body Follow.function function
  return ⟨service, base, functions, place⟩

/-- A definition. -/
def definition : TokenReader (Definition Nat) := do
  let place ← place
  match ← next with
  | .keyword .inclusion =>
    let _ ← advance [.literal]
    return .inclusion (← literal Follow.definition)
  | .keyword .cppInclusion =>
    let _ ← advance [.literal]
    return .cppInclusion (← literal Follow.definition)
  | .keyword .space =>
    let _ ← advance [.identifier, .mark .star]
    let scope ← namespaceScope
    return .space ⟨scope, ← name Follow.definition⟩
  | .keyword .typedef =>
    let _ ← advance Follow.definitionType
    let old ← definitionType
    let newName ← name Follow.afterAlias
    takeSeparator
    return .typedef ⟨old, newName, place⟩
  | .keyword .const =>
    let _ ← advance Follow.type
    let type ← type
    let name ← name [.mark .equal]
    let _ ← take (.mark .equal) Follow.constant
    let value ← constant
    takeSeparator
    return .const ⟨name, type, value, place⟩
  | .keyword .enum =>
    let _ ← advance [.identifier]
    let name ← name [.mark .leftBrace]
    let values ← body [.identifier] enumValue
    return .enum ⟨name, values, place⟩
  | .keyword .struct => return .record .struct (← recordRest place)
  | .keyword .union => return .record .union (← recordRest place)
  | .keyword .exception => return .record .exception (← recordRest place)
  | .keyword .service => return .service (← serviceRest place)
  | _ => reject

/-- All definitions of a text, in the order of the text. -/
def definitions : TokenReader (List (Definition Nat)) := items .ending definition

end ThriftIdl.TokenReader
