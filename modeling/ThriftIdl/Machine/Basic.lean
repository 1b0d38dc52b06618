import ThriftIdl.Reader.Readable

/-!
# Machines

A machine reads in the same way as a reader, but works on a state (`Running`): what is left to read, a
counter of the containers that are open, and the best diagnosis so far. What is noted is compared with
the best diagnosis at once. A failure leaves the state as it was changed up to there. Whoever swallows
the failure goes back to what was left before (`optional`, `alternatives`), while the counter is lowered
wherever a container is left (`nested`).
-/
namespace ThriftIdl

/-- What stays the same while a machine runs. -/
structure Setting where
  /-- The text. -/
  source : List Char
  /-- The nesting limit. -/
  limit : Int
  /-- The offset at which the machine was started. -/
  start : Int

/-- How many more containers may be opened when so many are open. -/
def Setting.levels (setting : Setting) (depth : Int) : Nat := (setting.limit - depth).toNat

/-- The state of a machine. -/
structure Running (ι : Type) where
  /-- What is left to read. -/
  input : ι
  /-- The number of containers that are open. -/
  depth : Int
  /-- The best diagnosis so far. -/
  furthest : Option Diagnosis

/-- What reads on a state. -/
abbrev Machine (ι : Type) : Type → Type := ReaderT Setting (ExceptT Failure (StateM (Running ι)))

namespace Machine

variable {ι α : Type}

/-- Note a fault. Its diagnosis is kept if it is better than the best one so far. -/
def note (fault : Fault) : Machine ι Unit := do
  let setting ← read
  let diagnosis := Diagnosis.ofFault setting.source setting.limit setting.start fault
  modify fun running => { running with furthest := Diagnosis.kept running.furthest diagnosis }

/-- Go to where something is left. -/
def goTo (input : ι) : Machine ι Unit := modify fun running => { running with input := input }

/-- Read a token. -/
def token (rule : Reader ι α) : Machine ι α := do
  match rule (← get).input with
  | .ok value rest noted =>
    goTo rest
    noted.forM note
    return value
  | .fail failure rest noted =>
    goTo rest
    noted.forM note
    throw failure

variable [Input ι]

/-- The place that is reached: the number of characters left. -/
def here : Machine ι Nat := return Input.left (← get).input

/-- Fail here, for a reason. -/
def fail (reason : Reason) : Machine ι α := do
  throw (.node ⟨reason, ← here⟩ [])

/-- Read something if it is there, and otherwise nothing; the failure is noted. -/
def optional (rule : Machine ι α) : Machine ι (Option α) := do
  let start := (← get).input
  match ← observing rule with
  | .ok value => return some value
  | .error failure =>
    if failure.isFinal then throw failure
    goTo start
    note failure.furthest
    return none

/-- Note the failures of earlier branches that got beyond the start of a choice. -/
def noteBeyond (left : Nat) (failures : List Failure) : Machine ι Unit :=
  failures.forM fun failure => do
    if failure.furthest.left < left then note failure.furthest

/-- Try the remaining branches of a choice, after the failures of the earlier ones. -/
def choose (production : String) (start : ι) (failures : List Failure) :
    List (Machine ι α) → Machine ι α
  | [] => throw (.node ⟨.noAlternative production (Input.excerpt start), Input.left start⟩ failures)
  | rule :: rules => do
    match ← observing rule with
    | .ok value =>
      noteBeyond (Input.left start) failures
      return value
    | .error failure =>
      if failure.isFinal then throw failure
      goTo start
      choose production start (failures ++ [failure]) rules

/-- The first branch that matches. If none does, their failures are the causes. -/
def alternatives (production : String) (rules : List (Machine ι α)) : Machine ι α := do
  choose production (← get).input [] rules

/-- Read on while there is something to read, in at most as many rounds as given. A round that
reads something and leaves no less is the last. -/
def manyWithin (round : Machine ι (Option α)) : Nat → Machine ι (List α)
  | 0 => return []
  | rounds + 1 => do
    let left ← here
    match ← round with
    | none => return []
    | some value =>
      if (← here) < left then return value :: (← manyWithin round rounds) else return [value]

/-- Read on while there is something to read. -/
def many (round : Machine ι (Option α)) : Machine ι (List α) := do
  manyWithin round ((← here) + 1)

/-- Read the inside of a container, unless as many as are allowed are open. The container is counted as
open as long as its inside is read, whether that succeeds or fails. -/
def nested (production : String) (body : Machine ι α) : Machine ι α := do
  if (← read).limit ≤ (← get).depth then fail (.tooDeep production)
  modify fun running => { running with depth := running.depth + 1 }
  try body finally modify fun running => { running with depth := running.depth - 1 }

end Machine
end ThriftIdl
