import ThriftIdl.Failure

/-!
# Readers

A reader takes what is left to read and either reads a value off its front or fails; in both
cases it says what is left then, and which fault it met on the way got furthest. A reader sees
nothing but what lies in front of it: not what came before, nor what other readers noted. Places
are told by the number of characters left, so that neither values nor faults depend on the text
already read. Trying something and going on without it (`optional`), choosing (`alternatives`)
and repeating (`many`) are the three ways in which a failure is swallowed, and none of them
swallows a failure that is final. What is read is mostly a text, but a reader takes anything whose
characters left are counted (`Input`).
-/
namespace ThriftIdl

/-- What can be read. -/
class Input (ι : Type) where
  /-- The number of characters left. -/
  left : ι → Nat
  /-- What is shown of the characters left. -/
  excerpt : ι → List Char

instance : Input (List Char) where
  left := List.length
  excerpt := Text.excerpt

/-- What a reader makes of its input. -/
inductive Outcome (ι α : Type) where
  /-- A value, what is left after it, and the best fault noted on the way. -/
  | ok (value : α) (rest : ι) (noted : Option Fault)
  /-- A failure, the place that was reached, and the best fault noted on the way. -/
  | fail (failure : Failure) (rest : ι) (noted : Option Fault)

/-- An outcome reached after an earlier fault had been noted. -/
def Outcome.after {ι α : Type} (earlier : Option Fault) : Outcome ι α → Outcome ι α
  | .ok value rest noted => .ok value rest (Fault.best earlier noted)
  | .fail failure rest noted => .fail failure rest (Fault.best earlier noted)

/-- A function from what is left to what becomes of it. -/
def Reader (ι α : Type) : Type := ι → Outcome ι α

namespace Reader

variable {ι α β : Type}

/-- Read nothing. -/
def pure (value : α) : Reader ι α := fun input => .ok value input none

/-- Read one thing, then another that may depend on it. -/
def bind (first : Reader ι α) (next : α → Reader ι β) : Reader ι β := fun input =>
  match first input with
  | .ok value rest noted => (next value rest).after noted
  | .fail failure rest noted => .fail failure rest noted

instance : Monad (Reader ι) where
  pure := Reader.pure
  bind := Reader.bind

variable [Input ι]

/-- Fail here, for a reason. -/
def fail (reason : Reason) : Reader ι α := fun input =>
  .fail (.node ⟨reason, Input.left input⟩ []) input none

/-- The place that is reached: the number of characters left. -/
def here : Reader ι Nat := fun input => .ok (Input.left input) input none

/-- Cut something off, or fail for a reason. -/
def orFail (reason : Reason) (cut : ι → Option (α × ι)) : Reader ι α := fun input =>
  match cut input with
  | some (value, rest) => .ok value rest none
  | none => fail reason input

/-- Read something if it is there, and otherwise nothing; the failure is noted. -/
def optional (rule : Reader ι α) : Reader ι (Option α) := fun input =>
  match rule input with
  | .ok value rest noted => .ok (some value) rest noted
  | .fail failure rest noted =>
    if failure.isFinal then .fail failure rest noted
    else .ok none input (Fault.best noted (some failure.furthest))

/-- The failures of earlier branches that got beyond the start of the choice. -/
def noteBeyond (left : Nat) (failures : List Failure) : Option Fault :=
  failures.foldl (fun noted failure =>
    if failure.furthest.left < left then Fault.best noted (some failure.furthest) else noted) none

/-- Try the remaining branches of a choice, after the failures of the earlier ones. -/
def choose (production : String) (input : ι) (failures : List Failure) :
    List (Reader ι α) → Outcome ι α
  | [] =>
    .fail (.node ⟨.noAlternative production (Input.excerpt input), Input.left input⟩ failures) input
      none
  | rule :: rules =>
    match rule input with
    | .ok value rest noted =>
      .ok value rest (Fault.best noted (noteBeyond (Input.left input) failures))
    | .fail failure rest noted =>
      if failure.isFinal then .fail failure rest noted
      else (choose production input (failures ++ [failure]) rules).after noted

/-- The first branch that matches. If none does, their failures are the causes. -/
def alternatives (production : String) (rules : List (Reader ι α)) : Reader ι α := fun input =>
  choose production input [] rules

/-- Read on while there is something to read, in at most as many rounds as given. A round that
reads something and leaves no less is the last. -/
def manyWithin (round : Reader ι (Option α)) : Nat → Reader ι (List α)
  | 0 => Reader.pure []
  | rounds + 1 => fun input =>
    match round input with
    | .fail failure rest noted => .fail failure rest noted
    | .ok none rest noted => .ok [] rest noted
    | .ok (some value) rest noted =>
      if Input.left rest < Input.left input then
        match manyWithin round rounds rest with
        | .ok values rest' noted' => .ok (value :: values) rest' (Fault.best noted noted')
        | .fail failure rest' noted' => .fail failure rest' (Fault.best noted noted')
      else .ok [value] rest noted

/-- Read on while there is something to read. Every round but the last leaves less, so that there
are no more rounds than characters, and one more to find that nothing follows. -/
def many (round : Reader ι (Option α)) : Reader ι (List α) := fun input =>
  manyWithin round (Input.left input + 1) input

end Reader
end ThriftIdl
