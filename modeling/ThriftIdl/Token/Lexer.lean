import ThriftIdl.Comment
import ThriftIdl.Number
import ThriftIdl.Token.Basic

/-!
# Taking tokens off a text

Which token stands at a place depends on the terminals that are expected there. Where a name is
expected, a word is read whole and is a keyword only if that keyword is expected too; where no
name is expected, a keyword is taken off the front of a word. A number with a fraction or an
exponent comes before an integer. If none of the expected terminals matches, the token that
stands there among all terminals is unexpected. Two tokens that both look like parts of words
need something between them (`touching`).
-/
namespace ThriftIdl

open Text

/-- A set of terminals that are expected at a place. -/
abbrev Expected : Type := List Terminal

/-- A word: a keyword if it is one that is expected, and else a name. -/
def wordTerminal (expects : Terminal → Bool) (word : List Char) : Terminal :=
  match Keyword.all.find? fun keyword =>
    expects (.keyword keyword) && keyword.text.toList = word with
  | some keyword => .keyword keyword
  | none => .identifier

/-- A number with a fraction or an exponent, and the text after it. -/
def matchDouble? (text : List Char) : Option (List Char × List Char) :=
  let (number, rest) := scanNumber (fun _ => true) text
  if number.hasDigits && !number.isIntegral then some (number.text, rest) else none

/-- A literal with its quotes, and the text after it. -/
def matchLiteral? : List Char → Option (List Char × List Char)
  | [] => none
  | c :: text =>
    match Quote.ofChar? c with
    | none => none
    | some _ => (splitAt? [c] text).map fun (value, rest) => (c :: value ++ [c], rest)

/-- A keyword that is expected, as a mere beginning of the text, and the text after it. -/
def matchKeyword? (expects : Terminal → Bool) (text : List Char) :
    Option (Keyword × List Char) :=
  Keyword.all.findSome? fun keyword =>
    if expects (.keyword keyword) then
      (after? keyword.text.toList text).map fun rest => (keyword, rest)
    else none

/-- A mark that is expected, and the text after it. -/
def matchMark? (expects : Terminal → Bool) : List Char → Option (Mark × List Char)
  | [] => none
  | c :: text =>
    (Mark.all.find? fun mark => expects (.mark mark) && mark.char = c).map fun mark => (mark, text)

/-- A match of one terminal, if that terminal is expected. -/
def matchOne? (expects : Terminal → Bool) (terminal : Terminal)
    (scan : List Char → Option (List Char × List Char)) (text : List Char) :
    Option (Terminal × List Char × List Char) :=
  if expects terminal then (scan text).map fun (found, rest) => (terminal, found, rest) else none

/-- A word, where a name is expected, and else an expected keyword. -/
def matchWord? (expects : Terminal → Bool) (text : List Char) :
    Option (Terminal × List Char × List Char) :=
  if expects .identifier then
    (scanName? text).map fun (word, rest) => (wordTerminal expects word, word, rest)
  else
    (matchKeyword? expects text).map fun (keyword, rest) =>
      (.keyword keyword, keyword.text.toList, rest)

/-- The expected terminal that matches at the start of a text, the text it matches, and the text
after that. -/
def matchTerminal? (expects : Terminal → Bool) (text : List Char) :
    Option (Terminal × List Char × List Char) :=
  (matchOne? expects .double matchDouble? text).or <|
    (matchOne? expects .integer scanInteger? text).or <|
      (matchOne? expects .literal matchLiteral? text).or <|
        (matchWord? expects text).or <|
          (matchMark? expects text).map fun (mark, rest) => (.mark mark, [mark.char], rest)

/-- The characters after which a token needs something before another. -/
def endsWord (c : Char) : Bool :=
  continuesName c || c = Quote.single.char || c = Quote.double.char || c = '*'

/-- The characters before which a token needs something after another. -/
def startsWord (c : Char) : Bool :=
  continuesName c || c = Quote.single.char || c = Quote.double.char || c = '+' || c = '-'

/-- Whether two tokens look like parts of one word when nothing stands between them. After the
bracket that closes a type only a name does. -/
def wordsTouch (previous next : Token) : Bool :=
  if previous.terminal = .mark .moreThan then next.terminal = .identifier
  else previous.text.getLast?.any endsWord && next.text.head?.any startsWord

/-- Whether a token may not directly follow another. The keyword of a definition may follow
anything. -/
def touching (previous next : Token) : Bool :=
  match next.terminal with
  | .keyword word => !Keyword.definitions.contains word && wordsTouch previous next
  | _ => wordsTouch previous next

/-- The next token of a text after a given one, and the text after it. -/
def nextToken (expected : Expected) (previous : Option Token) (total : Nat) (text : List Char) :
    Except Rejection (Token × List Char) :=
  let start := skip text
  match start with
  | [] => .ok (⟨.ending, [], previous.elim total (·.left)⟩, [])
  | c :: _ =>
    match matchTerminal? expected.contains start with
    | some (terminal, found, rest) =>
      let token : Token := ⟨terminal, found, start.length⟩
      if start.length = text.length && previous.any (touching · token) then
        .error (.unexpected token)
      else .ok (token, rest)
    | none =>
      match matchTerminal? (fun _ => true) start with
      | some (terminal, found, _) => .error (.unexpected ⟨terminal, found, start.length⟩)
      | none => .error (.noTerminal c start.length)

end ThriftIdl
