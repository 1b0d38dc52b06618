import ThriftIdl.ConstValue
import ThriftIdl.Document
import ThriftIdl.Number
import ThriftIdl.Token.Follow

/-!
# Reading tokens

A reader of tokens sees one token ahead. Taking that token says which terminals may follow it,
and the next token is sought among them at once. The terminal ahead decides what is read; where
it decides nothing, the token is unexpected. What is wrong with the meaning of the text does not
stop the reading: the first such thing is kept for the end.
-/
namespace ThriftIdl

/-- A token ahead, the text after it, and the first thing that is wrong with the meaning. -/
structure Ahead where
  /-- The token ahead. -/
  token : Token
  /-- The text after it. -/
  rest : List Char
  /-- The first thing that is wrong with the meaning of the text before. -/
  invalid : Option Invalid

/-- A reader of tokens. -/
abbrev TokenReader (α : Type) : Type := StateT Ahead (Except Rejection) α

namespace TokenReader

variable {α : Type}

/-- The kind of the token ahead. -/
def next : TokenReader Terminal := do return (← get).token.terminal

/-- The place of the token ahead. -/
def place : TokenReader Nat := do return (← get).token.left

/-- Reject the token ahead. -/
def reject : TokenReader α := do throw (.unexpected (← get).token)

/-- Keep something that is wrong with the meaning, unless there is something already. -/
def report (reason : Invalid) : TokenReader Unit :=
  modify fun ahead => { ahead with invalid := ahead.invalid.or (some reason) }

/-- Take the token ahead, whatever it is, and look for the next one among some terminals. -/
def advance (follow : Expected) : TokenReader (List Char) := do
  let ahead ← get
  let (token, rest) ← nextToken follow (some ahead.token) 0 ahead.rest
  set { ahead with token := token, rest := rest }
  return ahead.token.text

/-- Take the token ahead if it has a given terminal. -/
def take (terminal : Terminal) (follow : Expected) : TokenReader (List Char) := do
  if (← next) = terminal then advance follow else reject

/-- Take the token ahead if it has a given terminal, and say whether it had. -/
def takes (terminal : Terminal) (follow : Expected) : TokenReader Bool := do
  if (← next) = terminal then
    let _ ← advance follow
    return true
  else return false

/-- Take a list separator if there is one ahead. -/
def takeSeparator : TokenReader Unit := do
  if Follow.separator.contains (← next) then
    let _ ← advance Follow.afterSeparator

/-- Read items up to a terminal, at most as many as given. -/
def itemsWithin (closing : Terminal) (item : TokenReader α) : Nat → TokenReader (List α)
  | 0 => reject
  | count + 1 => do
    if (← next) = closing then return []
    else
      let first ← item
      let others ← itemsWithin closing item count
      return first :: others

/-- Read items up to a terminal. Every item takes at least one token, and every token but the one
ahead has characters in the text after it, which bounds the number of items. -/
def items (closing : Terminal) (item : TokenReader α) : TokenReader (List α) := do
  itemsWithin closing item ((← get).rest.length + 2)

/-- The literal of a token without its quotes. -/
def unquoted (text : List Char) : String := String.ofList ((text.drop 1).dropLast)

/-- A name. -/
def name (follow : Expected) : TokenReader String := do
  return String.ofList (← take .identifier follow)

/-- A literal. -/
def literal (follow : Expected) : TokenReader String := do
  return unquoted (← take .literal follow)

/-- What is wrong with digits after an optional sign that are no integer of 64 bits. -/
def integerFault (text : List Char) : Invalid :=
  if isConvertible text then .integerTooLarge text else .tooManyDigits (digitCount text)

/-- The integer of a token, which is reported if it has more than 64 bits. -/
def int64 (text : List Char) : TokenReader Int := do
  let value := Text.signedValue text
  if admitsInteger text then return value
  else
    report (integerFault text)
    return value

end TokenReader
end ThriftIdl
