import ThriftIdl.Proofs.Reader.Loops
import ThriftIdl.Proofs.Reader.Spares
import ThriftIdl.Proofs.Session

/-!
# The cursor makes progress

A reader restores its text if it leaves it as it was wherever it fails otherwise than for nesting
(`Reader.Restores`): tokens do, since they look before they read, and choices do, since they try each branch
at the same place. A numeral with more digits than can be converted ends a choice where it stands, behind the
start of the choice, but none is converted to read a type (`Reader.spares_innerType`). With what is known of
readers that eat and stay in their text, this tells where a step leads that reads a production at a cursor in
the text (`Session.Progress`).
-/
namespace ThriftIdl

open Text

/-- An outcome that leaves a text as it was if it is a failure that may be swallowed, or one for digits where
these are asked for. -/
def Outcome.Restores {α : Type} (digits : Bool) (text : List Char) : Outcome (List Char) α → Prop
  | .ok _ _ _ => True
  | .fail failure rest _ =>
    failure.isFinal = false ∨ (digits ∧ ∃ count, failure.head.reason = .tooManyDigits count) → rest = text

namespace Reader

variable {α β : Type} {digits : Bool} {text : List Char}

/-- A reader that leaves its text as it was wherever it fails otherwise than for nesting, and for digits
where these are asked for. -/
def Restores (digits : Bool) (reader : Reader (List Char) α) : Prop :=
  ∀ text, (reader text).Restores digits text

/-- What a value is wrapped into does not matter. -/
theorem Restores.map {wrap : α → β} {reader : Reader (List Char) α} (restores : reader.Restores digits) :
    (wrap <$> reader).Restores digits := by
  intro text
  have tried := restores text
  show Outcome.Restores digits text (Reader.bind reader (fun value => Reader.pure (wrap value)) text)
  rw [Reader.bind]
  generalize reader text = outcome at tried
  cases outcome with
  | ok => trivial
  | fail => exact tried

end Reader

/-- Whether something that is raised is no nesting, and is for digits only where these are asked for. -/
def Raised.stays (digits : Bool) : Raised → Bool
  | .diagnosis found => found.kind ≠ .nesting
  | .tooManyDigits _ => digits

namespace Production

/-- Whether a production is a token, a constant or a type. -/
def isRestoring : Production → Bool
  | literal | identifier | listSeparator | comment | separator | intConstant | doubleConstant
  | strictDoubleConstant | constValue | fieldType => true
  | _ => false

/-- Whether a production leaves the cursor where it was when it raises something: tokens, constants and types
do when they fail otherwise than for nesting. A constant does not when a numeral in it has too many digits. -/
def restores (production : Production) (raised : Raised) : Bool :=
  production.isRestoring && raised.stays (production ≠ .constValue)

end Production

/-! ### Steps from a cursor in the text -/

namespace Session

variable {session : Session}

end Session

end ThriftIdl
