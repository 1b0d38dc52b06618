import ThriftIdl.Position
import ThriftIdl.Reader.Readable

/-!
# Cursors before the start of a text

A cursor into a text may stand before its start, at a negative offset. What stands at such a cursor
is what stands so far before the end of the text: there characters are looked at, one by one and
across the start of the text, and from there words, literals and comments are cut out. What is
recognised by its shape, a name or a number, is sought at the start of the text instead. Reading
goes on after what was found, and there is nothing to look at if the cursor lies further before the
start than the text is long (`Cursor.isAstray`).
-/
namespace ThriftIdl

open Text

/-- An offset into a text. -/
structure Cursor where
  /-- The text. -/
  source : List Char
  /-- The offset, which may be negative. -/
  offset : Int
deriving DecidableEq, Repr

namespace Cursor

open Reader (fail)

/-- The text from the cursor to the end. -/
def ahead (cursor : Cursor) : List Char := since cursor.source cursor.offset

/-- The cursor with so many characters less in front of it. -/
def advance (cursor : Cursor) (count : Nat) : Cursor :=
  { cursor with offset := cursor.offset + count }

/-- The cursor in front of a text that the source ends with. -/
def before (cursor : Cursor) (rest : List Char) : Cursor :=
  { cursor with offset := (cursor.source.length : Int) - rest.length }

/-- Whether nothing can be looked at from a cursor, because no character lies so far before the
end. -/
def isAstray (cursor : Cursor) : Bool := cursor.source.length + cursor.offset < 0

/-- The text between a cursor and the place where only a rest is left. -/
def upTo (cursor : Cursor) (rest : List Char) : List Char :=
  cursor.ahead.take (cursor.ahead.length - rest.length)

/-- The text in which shapes are recognised. -/
def recognisable (cursor : Cursor) : List Char :=
  if cursor.offset < 0 then cursor.source else cursor.ahead

/-- The characters from the cursor on, across the start of the text. -/
def passing (cursor : Cursor) : List Char :=
  if cursor.offset < 0 then cursor.ahead ++ cursor.source else cursor.ahead

instance : Input Cursor where
  left cursor := (cursor.source.length - cursor.offset).toNat
  excerpt cursor := excerptAt cursor.source cursor.offset

variable {α : Type}

/-- Look at the character at the cursor. -/
def look (use : Option Char → Reader Cursor α) : Reader Cursor α := fun cursor =>
  if cursor.isAstray then fail .outOfRange cursor else use cursor.ahead.head? cursor

/-- Recognise a shape. -/
def recognise (rule : Reader (List Char) α) : Reader Cursor α := fun cursor =>
  match rule cursor.recognisable with
  | .ok value rest noted => .ok value (cursor.before rest) noted
  | .fail failure _ _ => fail failure.head.reason cursor

/-- The cursor after a word that stands at it. -/
def after? (cursor : Cursor) (word : List Char) : Option Cursor :=
  (Text.after? word cursor.ahead).map fun _ => cursor.advance word.length

/-- A literal. -/
def literal : Reader Cursor String := look fun first cursor =>
  match first with
  | none => fail .literalExpected cursor
  | some c =>
    match Quote.ofChar? c with
    | none => fail .literalExpected cursor
    | some quote =>
      match splitAt? [c] (cursor.advance 1).ahead with
      | some (value, rest) => .ok (String.ofList value) (cursor.before rest) none
      | none => fail (.literalUnclosed quote) cursor

/-- One of some characters. -/
def oneChar (admits : Char → Bool) (reason : Option Char → Reason) : Reader Cursor Char :=
  look fun first cursor =>
    match first with
    | none => fail (reason none) cursor
    | some c => if admits c then .ok c (cursor.advance 1) none else fail (reason (some c)) cursor

/-- The text of a complete comment at the cursor, and the cursor after it. -/
def scanComment? (cursor : Cursor) : Option (List Char × Cursor) :=
  match (cursor.after? ['/', '/']).or (cursor.after? ['#']) with
  | some start =>
    let text := start.ahead
    some (text.takeWhile (· ≠ '\n'), cursor.before (text.dropWhile (· ≠ '\n')))
  | none => do
    let start ← cursor.after? ['/', '*']
    let (comment, rest) ← splitAt? ['*', '/'] start.ahead
    return (comment, cursor.before rest)

/-- Whether a block comment begins at the cursor. -/
def opensBlock (cursor : Cursor) : Bool := (cursor.after? ['/', '*']).isSome

/-- A comment. -/
def comment : Reader Cursor String := fun cursor =>
  match cursor.scanComment? with
  | some (comment, rest) => .ok (String.ofList comment) rest none
  | none => fail (if cursor.opensBlock then .commentUnclosed else .commentExpected) cursor

/-- A run of blanks. Its value is the text between the cursors before and after it. -/
def blanks : Reader Cursor String := look fun _ cursor =>
  let next := cursor.advance (cursor.passing.takeWhile isBlank).length
  if next = cursor then fail .blankExpected cursor
  else .ok (String.ofList (cursor.upTo next.ahead)) next none

/-- The cursor after a blank or a complete comment. -/
def afterSeparator? (cursor : Cursor) : Option Cursor :=
  match cursor.ahead.head? with
  | some c => if isBlank c then some (cursor.advance 1) else cursor.scanComment?.map (·.2)
  | none => none

/-- The cursor after at most the given number of blanks and comments. -/
def skipWithin : Nat → Cursor → Cursor
  | 0, cursor => cursor
  | rounds + 1, cursor =>
    match cursor.afterSeparator? with
    | some next => skipWithin rounds next
    | none => cursor

/-- Skip all blanks and comments, at least one. A block comment without an end is noted. -/
def skip? (cursor : Cursor) : Option (Cursor × Option Fault) :=
  cursor.afterSeparator?.map fun next =>
    let reached := skipWithin (Input.left next) next
    (reached, if reached.opensBlock then some ⟨.commentUnclosed, Input.left reached⟩ else none)

/-- At least one blank or comment, and all that follow it. -/
def separator : Reader Cursor Unit := look fun _ cursor =>
  match cursor.skip? with
  | some (reached, noted) => .ok () reached noted
  | none => fail (if cursor.opensBlock then .commentUnclosed else .separatorExpected) cursor

/-- All blanks and comments that follow, and whether there are any. -/
def skipSeparator : Reader Cursor Bool := look fun _ cursor =>
  match cursor.skip? with
  | some (reached, noted) => .ok true reached noted
  | none =>
    .ok false cursor
      (if cursor.opensBlock then some ⟨.commentUnclosed, Input.left cursor⟩ else none)

/-- The cursor after a keyword that stands here, if it can be seen that the keyword is not the
beginning of a longer name. -/
def afterKeyword? (cursor : Cursor) (word : List Char) : Option (Option Cursor) :=
  (cursor.after? word).bind fun next =>
    if next.isAstray then some none
    else if next.ahead.head?.any continuesName then none
    else some (some next)

/-- Go on after what was found, or fail for a reason if nothing was found. -/
def found (reason : Reason) (next : Option (Option (α × Cursor))) : Reader Cursor α :=
  fun cursor =>
    match next with
    | some (some (value, next)) => .ok value next none
    | some none => fail .outOfRange cursor
    | none => fail reason cursor

/-- The first of some keywords that stands here. -/
def oneOf (reason : Reason) (words : List (String × α)) : Reader Cursor α := fun cursor =>
  found reason (words.findSome? fun (word, value) =>
    (cursor.afterKeyword? word.toList).map (·.map (value, ·))) cursor

/-- The scope of a namespace. -/
def namespaceScope : Reader Cursor String := fun cursor =>
  found .scopeExpected (namespaceScopes.findSome? fun scope =>
    (if scope = "*" then (cursor.after? ['*']).map some
      else cursor.afterKeyword? scope.toList).map (·.map (scope, ·))) cursor

/-- The text of the number that is recognised, as far as it lies between the cursor and the end of
that number. -/
def numberText (cursor : Cursor) : List Char :=
  cursor.upTo (scanNumber takesExponent cursor.recognisable).2

/-- Use a number that is recognised, unless its exponent cannot be converted. -/
def useNumber (use : List Char → Reader Cursor α) : Reader Cursor α := fun cursor =>
  let scale := (scanNumber takesExponent cursor.recognisable).1.scale
  if !isConvertible scale then fail (.tooManyDigits (digitCount scale)) cursor
  else use cursor.numberText cursor

/-- A number as a double. The cursor moves on by as many characters as belong to it. -/
def double : Reader Cursor Double := useNumber fun text cursor =>
  let number := (scanNumber takesExponent text).1
  if number.hasDigits then .ok number.toDouble (cursor.advance text.length) none
  else fail (.doubleMalformed text) cursor

/-- A number with a fraction or an exponent as a double. -/
def strictDouble : Reader Cursor Double := useNumber fun text cursor =>
  if (scanNumber takesExponent text).1.isIntegral then fail (.doubleIntegral text) cursor
  else double cursor

instance : Readable Cursor where
  literal := literal
  name := recognise Lexical.name
  listSeparator := oneChar (fun c => c = ',' || c = ';') fun _ => .listSeparatorExpected
  comment := comment
  blanks := blanks
  separator := separator
  skipSeparator := skipSeparator
  character wanted production :=
    (fun _ => ()) <$> oneChar (· = wanted) (.charExpected (String.singleton wanted) production)
  keyword word production := oneOf (.keywordExpected word production) [(word, ())]
  oneOf := oneOf
  namespaceScope := namespaceScope
  integer := recognise Lexical.integer
  double := double
  strictDouble := strictDouble

end Cursor
end ThriftIdl
