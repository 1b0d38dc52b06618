import ThriftIdl.Fuzz.Draw
import ThriftIdl.Fuzz.Sketch

/-!
# Random documents

A random document is drawn as a sketch, part by part in a fixed order. Types and constants are
nested at most four deep: at the deepest level only types without parts and numbers are left to
draw.
-/
namespace ThriftIdl.Fuzz

open Draw

/-- The letters that a name may begin with. -/
def letters : List Char := "abcdefghijklmnopqrstuvwxyzABCDEFGHIJKLMNOPQRSTUVWXYZ".toList

/-- The digits. -/
def digitChars : List Char := "0123456789".toList

/-- The characters that a name may go on with. -/
def nameChars : List Char := letters ++ digitChars ++ ['_', '.']

/-- The characters of random literals: all that can be printed in ASCII but the quote that
encloses a literal, and the white space. -/
def literalChars : List Char :=
  digitChars ++ letters ++ "!#$%&'()*+,-./:;<=>?@[\\]^_`\x7b|\x7d~ \t\n\r\x0b\x0c".toList

/-- Names that are often drawn. -/
def commonNames : List String := [
  "x", "y", "foo", "bar", "User", "Status", "_id", "a.b", "boolean", "voidResult"]

/-- Scopes that are drawn. -/
def commonScopes : List String := ["*", "cpp", "java", "py", "py.twisted", "go", "rb", "js"]

/-- A name: often a common one, and else up to twenty random characters. -/
def name : Draw String := do
  if ← chance 700 then oneOf commonNames
  else
    let size ← between 1 20
    let first ← oneOf letters
    let rest ← times (size - 1) (oneOf nameChars)
    return String.ofList (first :: rest)

/-- An integer: mostly a small one, and else one with an odd spelling or at a bound. -/
def integer : Draw String := do
  if ← chance 800 then
    let above ← upTo 2000
    return String.ofList (Text.integer ((above : Int) - 1000))
  else oneOf ["0", "-0", "+7", "9223372036854775807", "-9223372036854775808"]

/-- A double between minus and plus a hundred: whether it is negative, and its magnitude. Its
distance from minus a hundred is rounded, and the sum is rounded again. -/
def withinHundred : Draw (Bool × Magnitude) := do
  let distance := Magnitude.ofUnits (200 * (← share).units)
  let sum : Int := distance.units - 100 * unitsOfOne
  return (sum < 0, .ofUnits sum.natAbs)

/-- The text of a double with three places after its point, to the nearest thousandth. -/
def placesText (negative : Bool) (magnitude : Magnitude) : List Char :=
  let thousandths := Magnitude.roundQuotient (1000 * magnitude.units) unitsOfOne
  let places := Text.digits (thousandths % 1000)
  (if negative then ['-'] else []) ++ Text.digits (thousandths / 1000) ++
    '.' :: List.replicate (3 - places.length) '0' ++ places

/-- A number: an integer, a double between minus and plus a hundred with three places, or one
with an odd spelling. -/
def number : Draw String := do
  if ← chance 500 then integer
  else if ← chance 500 then
    let (negative, magnitude) ← withinHundred
    return String.ofList (placesText negative magnitude)
  else oneOf ["0.0", ".5", "-.5", "1e10", "1.5E-3", "+2.0e+2"]

/-- A literal: seldom one that looks like something else, and else up to thirty random
characters. -/
def literal : Draw String := do
  if ← chance 100 then
    oneOf ["\"\"", "''", "\"test\"", "'it\"s'", "\"a // b\"", "\"/* x */\""]
  else
    let size ← upTo 30
    let text ← times size (oneOf literalChars)
    return String.ofList ('\x22' :: text ++ ['\x22'])

/-- A type with at most so many levels of containers, or one more of base types. -/
def type : Nat → Draw FieldType
  | 0 => do
    let _ ← share
    return .base (← oneOf BaseType.all)
  | levels + 1 => do
    let share ← share
    if isBelow 500 share then return .base (← oneOf BaseType.all)
    else if isBelow 600 share then return .named (← name)
    else if isBelow 750 share then return .list (← type levels)
    else if isBelow 850 share then return .set (← type levels)
    else
      let key ← type levels
      let value ← type levels
      return .map key value

/-- What stands between elements. -/
def separator : Draw String := oneOf [", ", "; ", " ", ",", "\n", " /* c */ "]

/-- Elements that were drawn, with a separator drawn after them. -/
def together {α : Type} (items : List α) : Draw (Joined α) := do return ⟨← separator, items⟩

/-- A constant with at most so many levels of containers, or one more of numbers. -/
def constant : Nat → Draw ConstSketch
  | 0 => do
    let _ ← upTo 5
    return .number (← number)
  | levels + 1 => do
    match (← upTo 5).val with
    | 0 | 1 => return .number (← number)
    | 2 => return .literal (← literal)
    | 3 => return .name (← name)
    | 4 =>
      let count ← upTo 4
      let values ← times count (constant levels)
      return .list (← separator) values
    | _ =>
      let count ← upTo 3
      let entries ← times count do
        let key ← constant levels
        let value ← constant levels
        return (key, value)
      return .map (← separator) entries

/-- The levels of containers of types and constants. -/
def levels : Nat := 4

/-- Something or nothing, as it happens so many times in a thousand. -/
def perhaps {α : Type} (perMille : Nat) (draw : Draw α) : Draw (Option α) := do
  if ← chance perMille then return some (← draw) else return none

/-- A field with a number that was decided before, as it is spelled. -/
def field (id : Option (List Char)) : Draw FieldSketch := do
  let word ← perhaps 300 (oneOf [Requiredness.required, Requiredness.optional])
  let type ← type levels
  let name ← name
  let value ← perhaps 200 (constant levels)
  return ⟨id, word.getD .unstated, type, name, value⟩

/-- Fields, each mostly with its place as its number, the first one at a given place. -/
def fieldsFrom (place : Nat) : Nat → Draw (List FieldSketch)
  | 0 => return []
  | count + 1 => do
    let numbered ← chance 800
    let first ← field (if numbered then some (Text.digits place) else none)
    let rest ← fieldsFrom (place + 1) count
    return first :: rest

/-- Up to four fields. -/
def fields : Draw (Joined FieldSketch) := do
  let count ← upTo 4
  together (← fieldsFrom 1 count)

/-- A function. -/
def function : Draw FunctionSketch := do
  let oneway ← chance 100
  let void ← chance 300
  let returns ← if void then pure none else some <$> type levels
  let name ← name
  let parameters ← fields
  let exceptions ← perhaps 200 fields
  return ⟨oneway, returns, name, parameters, exceptions⟩

/-- A value of an enumeration. -/
def enumValue : Draw EnumValueSketch := do
  let name ← name
  return ⟨name, ← perhaps 500 integer⟩

/-- A record of a kind. -/
def record (kind : RecordKind) : Draw DefinitionSketch := do
  let name ← name
  return .record kind name (← fields)

/-- A definition. -/
def definition : Draw DefinitionSketch := do
  match (← upTo 8).val with
  | 0 =>
    let ofHeader ← oneOf [false, true]
    return .inclusion ofHeader (← literal)
  | 1 =>
    let scope ← oneOf commonScopes
    return .space scope (← name)
  | 2 =>
    let base ← oneOf BaseType.all
    let type ← type levels
    return .typedef base type (← name)
  | 3 =>
    let type ← type levels
    let name ← name
    return .const type name (← constant levels)
  | 4 =>
    let count ← upTo 5
    let values ← times count enumValue
    let name ← name
    return .enum name (← together values)
  | 5 => record .struct
  | 6 => record .union
  | 7 => record .exception
  | _ =>
    let base ← perhaps 300 name
    let count ← upTo 3
    let functions ← times count function
    let name ← name
    return .service name base (← together functions)

/-- Up to five definitions. -/
def document : Draw (List DefinitionSketch) := do
  let count ← few
  times count definition

end ThriftIdl.Fuzz
