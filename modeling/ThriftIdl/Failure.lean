import ThriftIdl.Bounds
import ThriftIdl.Position
import ThriftIdl.Text.Decimal
import ThriftIdl.Text.Quoted
import ThriftIdl.Text.Scan

/-!
# Failures of reading

A reader fails for a reason at a place. A choice between alternatives fails with the failures of
its branches as causes, so that a failure is a tree (`Trace`). Of two failures the one that got
further is better, and of two at one place the one of a specific kind. The best failure of a tree
is the first one, in preorder, that no other is better than (`Trace.furthest`). A diagnosis is a
failure for readers, with the text that it is about. Not every failure is diagnosed: digits that are
too many to be converted to a number say nothing about the grammar of the text (`Raised`).
-/
namespace ThriftIdl

/-- The kinds of failures. -/
inductive FailureKind where
  /-- A word was expected. -/
  | tag
  /-- A character was expected. -/
  | char
  /-- A number is malformed or too large. -/
  | number
  /-- A literal or a comment is not closed. -/
  | unterminated
  /-- Every branch of a choice failed. -/
  | alternative
  /-- Containers are nested too deeply. -/
  | nesting
deriving DecidableEq, Repr

/-- The word for a kind. -/
def FailureKind.name : FailureKind → String
  | .tag => "tag"
  | .char => "char"
  | .number => "number"
  | .unterminated => "unterminated"
  | .alternative => "alternative"
  | .nesting => "nesting"

/-- The word for a kind in capitals. -/
def FailureKind.title : FailureKind → String
  | .tag => "TAG"
  | .char => "CHAR"
  | .number => "NUMBER"
  | .unterminated => "UNTERMINATED"
  | .alternative => "ALTERNATIVE"
  | .nesting => "NESTING"

/-- Whether a kind says more than that something else was expected. -/
def FailureKind.isSpecific : FailureKind → Bool
  | .number | .unterminated | .nesting => true
  | .tag | .char | .alternative => false

/-- Why a production does not match a text. -/
inductive Reason where
  /-- No literal begins here. -/
  | literalExpected
  /-- A literal has no closing quote. -/
  | literalUnclosed (quote : Text.Quote)
  /-- No name begins here. -/
  | nameExpected
  /-- No comma or semicolon stands here. -/
  | listSeparatorExpected
  /-- No comment begins here. -/
  | commentExpected
  /-- A block comment has no end. -/
  | commentUnclosed
  /-- No blank stands here. -/
  | blankExpected
  /-- Neither a blank nor a comment begins here. -/
  | separatorExpected
  /-- Another character stands here, or the text ends. -/
  | charExpected (wanted : String) (production : String) (found : Option Char)
  /-- A keyword does not stand here. -/
  | keywordExpected (word production : String)
  /-- No integer begins here. -/
  | integerExpected
  /-- An integer has more than 64 bits. -/
  | integerTooLarge (text : List Char)
  /-- A number has no digits before its exponent. -/
  | doubleMalformed (text : List Char)
  /-- A number has neither a fraction nor an exponent. -/
  | doubleIntegral (text : List Char)
  /-- No branch of a choice matches. -/
  | noAlternative (production : String) (found : List Char)
  /-- No definition begins where reading stopped. -/
  | definitionExpected (found : List Char)
  /-- No base type stands here. -/
  | baseTypeExpected
  /-- Neither `required` nor `optional` stands here. -/
  | requirednessExpected
  /-- No scope of a namespace stands here. -/
  | scopeExpected
  /-- A container lies inside as many others as are allowed. -/
  | tooDeep (production : String)
  /-- No character lies so far before the end of the text. -/
  | outOfRange
  /-- A numeral has more digits than can be converted. -/
  | tooManyDigits (count : Nat)
deriving DecidableEq, Repr

namespace Reason

/-- The kind of a failure for a reason. A look beyond the range of a text and digits that cannot be
converted are not diagnosed; they are as final as nesting beyond the limit, and are counted as it. -/
def kind : Reason → FailureKind
  | literalExpected | nameExpected | listSeparatorExpected | blankExpected | charExpected ..
  | integerExpected => .char
  | literalUnclosed _ | commentUnclosed => .unterminated
  | commentExpected | separatorExpected | keywordExpected .. | baseTypeExpected
  | requirednessExpected | scopeExpected => .tag
  | integerTooLarge _ | doubleMalformed _ | doubleIntegral _ => .number
  | noAlternative .. | definitionExpected _ => .alternative
  | tooDeep _ | outOfRange | tooManyDigits _ => .nesting

/-- The production that fails for a reason. -/
def production : Reason → String
  | literalExpected | literalUnclosed _ => "literal"
  | nameExpected => "identifier"
  | listSeparatorExpected => "list_separator"
  | commentExpected | commentUnclosed => "comment"
  | blankExpected => "whitespace"
  | separatorExpected => "separator"
  | charExpected _ production _ | keywordExpected _ production | noAlternative production _
  | tooDeep production => production
  | integerExpected | integerTooLarge _ => "int_constant"
  | doubleMalformed _ | doubleIntegral _ => "double_constant"
  | definitionExpected _ => "document"
  | baseTypeExpected => "base_type"
  | requirednessExpected => "field"
  | scopeExpected => "namespace_scope"
  | outOfRange | tooManyDigits _ => ""

end Reason

/-- The words for the end of the text, where a character or an excerpt is shown. -/
def endOfInput : List Char := "end of input".toList

/-- An excerpt of a text from an offset on. -/
def Text.excerptAt (text : List Char) (offset : Int) : List Char :=
  firstLine ((before text (offset + excerptLength)).drop (index text offset))

/-- A text between quotes. -/
def shown (text : List Char) : String := String.ofList (Text.quoted text)

/-- What a nesting limit that was exceeded says. -/
def nestingMessage (limit : Int) (production : String) : String :=
  "Nesting deeper than " ++ String.ofList (Text.integer limit) ++ " levels in " ++ production

/-- What an integer that is too large says. -/
def overflowMessage (text : List Char) : String :=
  "Integer constant " ++ String.ofList text ++ " overflows 64 bits"

/-- What a numeral with so many digits says that it cannot be converted. -/
def digitsMessage (count : Nat) : String :=
  "Exceeds the limit (" ++ String.ofList (Text.digits digitLimit) ++
    " digits) for integer string conversion: value has " ++ String.ofList (Text.digits count) ++
    " digits; use sys.set_int_max_str_digits() to increase the limit"

/-- The words for a reason, under a nesting limit. -/
def Reason.message (limit : Int) : Reason → String
  | literalExpected => "Expected string literal"
  | literalUnclosed quote =>
    "Unterminated string literal (missing closing " ++ String.singleton quote.char ++ ")"
  | nameExpected => "Expected identifier"
  | listSeparatorExpected => "Expected ',' or ';'"
  | commentExpected => "Expected comment"
  | commentUnclosed => "Unterminated block comment (missing */)"
  | blankExpected => "Expected whitespace"
  | separatorExpected => "Expected whitespace or comment"
  | charExpected wanted production found =>
    "Expected " ++ shown wanted.toList ++ " in " ++ production ++ ", found " ++
      shown (found.elim endOfInput fun c => [c])
  | keywordExpected word production => "Expected keyword '" ++ word ++ "' in " ++ production
  | integerExpected => "Expected integer constant"
  | integerTooLarge text => overflowMessage text
  | doubleMalformed text => "Malformed double constant " ++ shown text
  | doubleIntegral text => shown text ++ " has no fraction or exponent"
  | noAlternative production found =>
    "Expected " ++ production ++ ", found " ++ shown (if found.isEmpty then endOfInput else found)
  | definitionExpected found => "Expected definition, found " ++ shown found
  | baseTypeExpected => "Expected base type"
  | requirednessExpected => "Expected 'required' or 'optional'"
  | scopeExpected => "Expected namespace scope"
  | tooDeep production => nestingMessage limit production
  | outOfRange => "string index out of range"
  | tooManyDigits count => digitsMessage count

/-- A tree of failures: what failed, and the failures that led to it. -/
inductive Trace (φ : Type) where
  /-- A failure with its causes in the order in which they arose. -/
  | node (head : φ) (causes : List (Trace φ))

namespace Trace

variable {φ ψ : Type}

/-- The failure at the root of a tree. -/
def head : Trace φ → φ
  | node head _ => head

mutual
/-- The best failure of a tree, the first of equally good ones. -/
def furthest (better : φ → φ → Bool) : Trace φ → φ
  | node head causes => furthestAmong better head causes

/-- The best of a failure and the failures of a list of trees. -/
def furthestAmong (better : φ → φ → Bool) (best : φ) : List (Trace φ) → φ
  | [] => best
  | cause :: causes =>
    let candidate := cause.furthest better
    furthestAmong better (if better candidate best then candidate else best) causes
end

mutual
/-- The failures of a tree, each before its causes. -/
def preorder : Trace φ → List φ
  | node head causes => head :: preorderOfAll causes

/-- The failures of a list of trees, tree by tree. -/
def preorderOfAll : List (Trace φ) → List φ
  | [] => []
  | cause :: causes => cause.preorder ++ preorderOfAll causes
end

mutual
/-- A tree with all failures changed. -/
def map (change : φ → ψ) : Trace φ → Trace ψ
  | node head causes => node (change head) (mapAll change causes)

/-- A list of trees with all failures changed. -/
def mapAll (change : φ → ψ) : List (Trace φ) → List (Trace ψ)
  | [] => []
  | cause :: causes => cause.map change :: mapAll change causes
end

end Trace

/-- A reason at a place. The place is given by the number of characters that are left there. -/
structure Fault where
  /-- The reason. -/
  reason : Reason
  /-- The number of characters from the place to the end of the text. -/
  left : Nat
deriving DecidableEq, Repr

/-- Whether a fault says more than another: it lies further on, or at the same place and is of a
specific kind, unlike the other. -/
def Fault.better (candidate current : Fault) : Bool :=
  if candidate.left = current.left then
    candidate.reason.kind.isSpecific && !current.reason.kind.isSpecific
  else candidate.left < current.left

/-- The best fault seen so far, after another one: the earlier one of equally good ones. -/
def Fault.best : Option Fault → Option Fault → Option Fault
  | none, later => later
  | some earlier, none => some earlier
  | some earlier, some later => some (if later.better earlier then later else earlier)

/-- A failure of a reader: a fault with its causes. -/
abbrev Failure := Trace Fault

namespace Failure

/-- The best fault of a failure. -/
def furthest (failure : Failure) : Fault := Trace.furthest Fault.better failure

/-- Whether a failure is final: no choice and no option swallows it. -/
def isFinal (failure : Failure) : Bool := failure.head.reason.kind = .nesting

end Failure

/-- A failure for readers. -/
structure Diagnosis where
  /-- The kind. -/
  kind : FailureKind
  /-- The production that failed. -/
  production : String
  /-- What failed, in words. -/
  message : String
  /-- The text that was read. -/
  source : List Char
  /-- The offset of the place into the text. -/
  offset : Int
  /-- The nesting limit, if it was exceeded. -/
  limit : Option Int
deriving DecidableEq

namespace Diagnosis

/-- The line and column of the place. -/
def position (diagnosis : Diagnosis) : Position :=
  .counted diagnosis.source diagnosis.offset

/-- The text at the place, up to twenty characters and its line end. -/
def fragment (diagnosis : Diagnosis) : String :=
  String.ofList (Text.excerptAt diagnosis.source diagnosis.offset)

/-- The diagnosis of nesting beyond a limit. -/
def tooDeep (production : String) (source : List Char) (offset : Int) (limit : Int) : Diagnosis :=
  ⟨.nesting, production, nestingMessage limit production, source, offset, some limit⟩

/-- The diagnosis of a fault in a text that is read from an offset on under a nesting limit. The
place of the fault is told by the number of characters left. -/
def ofFault (source : List Char) (limit : Int) (start : Int) (fault : Fault) : Diagnosis where
  kind := fault.reason.kind
  production := fault.reason.production
  message := fault.reason.message limit
  source := source
  offset := Text.ending source start - fault.left
  limit := if fault.reason.kind = .nesting then some limit else none

/-- Whether a diagnosis says more than another: its place is further on, or the same, and then its
kind is specific, unlike that of the other. -/
def better (candidate current : Diagnosis) : Bool :=
  if candidate.offset = current.offset then
    candidate.kind.isSpecific && !current.kind.isSpecific
  else current.offset < candidate.offset

/-- Whether a diagnosis says more than another, if there is another. -/
def betterThan? (candidate : Diagnosis) : Option Diagnosis → Bool
  | none => true
  | some current => candidate.better current

/-- The best diagnosis after another one: the earlier of equally good ones. -/
def kept (earlier : Option Diagnosis) (later : Diagnosis) : Option Diagnosis :=
  if later.betterThan? earlier then some later else earlier

/-- The diagnosis as a message with its place. -/
def text (diagnosis : Diagnosis) : String :=
  let position := diagnosis.position
  "Line " ++ String.ofList (Text.integer position.line) ++ ", column " ++
    String.ofList (Text.integer position.column) ++ ": " ++ diagnosis.message

/-- The diagnosis with its parts written out. -/
def description (diagnosis : Diagnosis) : String :=
  "ParseError(" ++ diagnosis.kind.title ++ ", " ++ shown diagnosis.production.toList ++ ", " ++
    shown diagnosis.message.toList ++ ", offset=" ++
    String.ofList (Text.integer diagnosis.offset) ++ ")"

end Diagnosis

/-- What is raised where a text is not read. -/
inductive Raised where
  /-- The text does not match, or nests too deeply. -/
  | diagnosis (diagnosis : Diagnosis)
  /-- A numeral has more digits than can be converted. -/
  | tooManyDigits (count : Nat)
deriving DecidableEq

namespace Raised

/-- What a fault raises in a text that is read from an offset on under a nesting limit. -/
def ofFault (source : List Char) (limit : Int) (start : Int) (fault : Fault) : Raised :=
  match fault.reason with
  | .tooManyDigits count => .tooManyDigits count
  | _ => .diagnosis (.ofFault source limit start fault)

/-- Every fault raises its diagnosis but for digits that are too many. -/
theorem ofFault_eq_diagnosis {source : List Char} {limit start : Int} {fault : Fault}
    (other : ∀ count, fault.reason ≠ .tooManyDigits count) :
    ofFault source limit start fault = .diagnosis (.ofFault source limit start fault) := by
  rw [ofFault]
  split
  next count found => exact absurd found (other count)
  next => rfl

/-- A fault that is not final raises its diagnosis. -/
theorem ofFault_of_kind {source : List Char} {limit start : Int} {fault : Fault}
    (kind : fault.reason.kind ≠ .nesting) :
    ofFault source limit start fault = .diagnosis (.ofFault source limit start fault) := by
  refine ofFault_eq_diagnosis fun count digits => ?_
  rw [digits] at kind
  exact kind rfl

/-- Whether nesting beyond the limit is what is raised. -/
def isNesting : Raised → Bool
  | diagnosis found => found.limit.isSome
  | tooManyDigits _ => false

/-- The place of what is raised, if it has one, and what it says. -/
def report : Raised → Option Position × String
  | diagnosis found => (some found.position, found.message)
  | tooManyDigits count => (none, digitsMessage count)

end Raised
end ThriftIdl
