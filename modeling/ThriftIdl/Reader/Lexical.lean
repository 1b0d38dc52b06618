import ThriftIdl.Comment
import ThriftIdl.Number
import ThriftIdl.Reader.Basic
import ThriftIdl.Vocabulary

/-!
# Reading single tokens

The smallest readers take one token off a text, or what stands between tokens. A reader of this
module that fails leaves the text as it was. A block comment without an end is no separator; it
is noted, because the failure that follows is likely to be caused by it.
-/
namespace ThriftIdl.Lexical

open Reader (fail orFail)
open Text

/-- A literal between equal quotes, without escapes; its value is the text between them. -/
def literal : Reader (List Char) String := fun text =>
  match text with
  | [] => fail .literalExpected text
  | c :: after =>
    match Quote.ofChar? c with
    | none => fail .literalExpected text
    | some quote =>
      match splitAt? [c] after with
      | some (value, rest) => .ok (String.ofList value) rest none
      | none => fail (.literalUnclosed quote) text

/-- A name. -/
def name : Reader (List Char) String :=
  orFail .nameExpected fun text =>
    (scanName? text).map fun (name, rest) => (String.ofList name, rest)

/-- A comma or a semicolon. -/
def listSeparator : Reader (List Char) Char := fun text =>
  match text with
  | [] => fail .listSeparatorExpected text
  | c :: rest =>
    if c = ',' || c = ';' then .ok c rest none else fail .listSeparatorExpected text

/-- A comment; its value is the text without the marks. -/
def comment : Reader (List Char) String := fun text =>
  match scanComment? text with
  | some (comment, rest) => .ok (String.ofList comment) rest none
  | none => fail (if opensBlock text then .commentUnclosed else .commentExpected) text

/-- A run of blanks. -/
def blanks : Reader (List Char) String :=
  orFail .blankExpected fun text =>
    if (text.takeWhile isBlank).isEmpty then none
    else some (String.ofList (text.takeWhile isBlank), text.dropWhile isBlank)

/-- The fault of a block comment without an end, if one begins here. -/
def unclosedNote (text : List Char) : Option Fault :=
  if opensBlock text then some ⟨.commentUnclosed, text.length⟩ else none

/-- At least one blank or comment, and all that follow it. -/
def separator : Reader (List Char) Unit := fun text =>
  match afterSeparator? text with
  | some rest => .ok () (skip rest) (unclosedNote (skip rest))
  | none => fail (if opensBlock text then .commentUnclosed else .separatorExpected) text

/-- All blanks and comments that follow, and whether there are any. -/
def skipSeparator : Reader (List Char) Bool := fun text =>
  match afterSeparator? text with
  | some rest => .ok true (skip rest) (unclosedNote (skip rest))
  | none => .ok false text (unclosedNote text)

/-- One given character. -/
def character (wanted : Char) (production : String) : Reader (List Char) Unit := fun text =>
  match text with
  | [] => fail (.charExpected (String.singleton wanted) production none) text
  | c :: rest =>
    if c = wanted then .ok () rest none
    else fail (.charExpected (String.singleton wanted) production (some c)) text

/-- A given keyword that is not the beginning of a longer name. -/
def keyword (word production : String) : Reader (List Char) Unit :=
  orFail (.keywordExpected word production) fun text =>
    (afterKeyword? word.toList text).map fun rest => ((), rest)

/-- The first of some keywords that stands here; its value is what the keyword stands for. -/
def oneOf {α : Type} (reason : Reason) (words : List (String × α)) : Reader (List Char) α :=
  orFail reason fun text =>
    words.findSome? fun (word, value) =>
      (afterKeyword? word.toList text).map fun rest => (value, rest)

/-- What follows the scope of a namespace. The star needs no boundary after it. -/
def afterScope? (scope : String) (text : List Char) : Option (List Char) :=
  if scope = "*" then Text.after? scope.toList text else afterKeyword? scope.toList text

/-- The scope of a namespace. -/
def namespaceScope : Reader (List Char) String :=
  orFail .scopeExpected fun text =>
    namespaceScopes.findSome? fun scope =>
      (afterScope? scope text).map fun rest => (scope, rest)

/-- Why digits after an optional sign are no integer of 64 bits. -/
def integerFault (numeral : List Char) : Reason :=
  if isConvertible numeral then .integerTooLarge numeral else .tooManyDigits (digitCount numeral)

/-- An integer of 64 bits. -/
def integer : Reader (List Char) Int := fun text =>
  match scanInteger? text with
  | none => fail .integerExpected text
  | some (digits, rest) =>
    if admitsInteger digits then .ok (signedValue digits) rest none
    else fail (integerFault digits) text

/-- A number as a double. An exponent of more than 64 bits is not read. -/
def double : Reader (List Char) Double := fun text =>
  let (number, rest) := scanNumber takesExponent text
  if !isConvertible number.scale then fail (.tooManyDigits (digitCount number.scale)) text
  else if number.hasDigits then .ok number.toDouble rest none
  else fail (.doubleMalformed number.text) text

/-- A number with a fraction or an exponent as a double. -/
def strictDouble : Reader (List Char) Double := fun text =>
  let (number, _) := scanNumber takesExponent text
  if number.isIntegral then fail (.doubleIntegral number.text) text else double text

end ThriftIdl.Lexical
