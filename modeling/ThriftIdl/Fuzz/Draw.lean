import ThriftIdl.Double.Basic

/-!
# Drawing at random

All chance comes from an endless sequence of numbers, which are used one after the other. A
choice is made by the remainder of the next number, so that every number decides something and
none is out of range: what is drawn between two bounds lies between them (`between`), and a choice
is made from a list that is not empty (`oneOf`). A share of one is a number of steps, as the double
nearest to it (`share`); the finer the steps are, the more shares there are.
-/
namespace ThriftIdl.Fuzz

/-- An endless sequence of numbers, and how many of them were used. -/
structure Draws where
  /-- The numbers. -/
  number : Nat → Nat
  /-- How many were used. -/
  used : Nat
  /-- The number of steps from nought to one in shares of one. -/
  steps : Nat
  /-- There are steps. -/
  positive : 0 < steps

/-- The numbers of a list, over and over again; noughts if it is empty. Shares are thousandths. -/
def Draws.cycle (numbers : List Nat) : Draws :=
  let stock := numbers.toArray
  ⟨fun place => stock.getD (place % stock.size) 0, 0, 1000, by decide⟩

/-- What depends on numbers drawn one after the other. -/
abbrev Draw (α : Type) := StateM Draws α

namespace Draw

/-- The next number. -/
def next : Draw Nat := fun draws =>
  (draws.number draws.used, { draws with used := draws.used + 1 })

/-- The double nearest to a quotient of whole numbers. -/
def ratio (numerator denominator : Nat) : Magnitude :=
  .ofQuotient (numerator * unitsOfOne) denominator

/-- A share of one: some of its steps, but not all. -/
def share : Draw Magnitude := do
  let number ← next
  let draws ← get
  return ratio (number % draws.steps) draws.steps

/-- Whether a share is less than so many thousandths. -/
def isBelow (perMille : Nat) (share : Magnitude) : Bool :=
  share.ordinal < (ratio perMille 1000).ordinal

/-- Whether something happens that happens so many times in a thousand. -/
def chance (perMille : Nat) : Draw Bool := do return isBelow perMille (← share)

/-- A number from nought up to a bound. -/
def upTo (most : Nat) : Draw { n : Nat // n ≤ most } := do
  let number ← next
  return ⟨number % (most + 1), Nat.le_of_lt_succ (Nat.mod_lt number (Nat.succ_pos most))⟩

/-- A number between two bounds. -/
def between (low high : Nat) (ordered : low ≤ high := by decide) :
    Draw { n : Nat // low ≤ n ∧ n ≤ high } := do
  let ⟨above, bound⟩ ← upTo (high - low)
  return ⟨low + above, by omega⟩

/-- A few: a number from one to five. -/
def few : Draw { n : Nat // 1 ≤ n ∧ n ≤ 5 } := between 1 5

/-- One of several things. -/
def oneOf {α : Type} (things : List α) (some : 0 < things.length := by decide) : Draw α := do
  let number ← next
  return things.get ⟨number % things.length, Nat.mod_lt number some⟩

/-- A list of a given number of things, each drawn after the one before. -/
def times {α : Type} : Nat → Draw α → Draw (List α)
  | 0, _ => return []
  | count + 1, draw => do
    let first ← draw
    let rest ← times count draw
    return first :: rest

end Draw
end ThriftIdl.Fuzz
