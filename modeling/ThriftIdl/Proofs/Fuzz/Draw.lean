import ThriftIdl.Fuzz.Draw

/-!
# What can be drawn

What is drawn depends on numbers that are not known. A draw yields a property if what is drawn has
it whatever the numbers are and however many of them were used (`Draw.Yields`). Each way to put draws
together has a law, so that a property of everything that can be drawn follows from properties of its
parts (`Draw.Yields.bind`, `Draw.yields_oneOf`, `Draw.yields_times`).
-/
namespace ThriftIdl.Fuzz.Draw

variable {α β : Type} {draw : Draw α} {next : α → Draw β} {holds : α → Prop} {holds' : β → Prop}

/-- What is drawn has a property, whatever the numbers are. -/
def Yields (draw : Draw α) (holds : α → Prop) : Prop := ∀ draws, holds (draw.run draws).1

/-- Everything that is drawn is something. -/
theorem yields_any (draw : Draw α) : Yields draw fun _ => True := fun _ => trivial

/-- What is given without drawing has the properties that it has. -/
theorem Yields.pure {thing : α} (has : holds thing) : Yields (pure thing) holds := fun _ => has

/-- What is drawn next may depend on what was drawn before. -/
theorem Yields.bind (first : Yields draw holds)
    (second : ∀ thing, holds thing → Yields (next thing) holds') :
    Yields (draw >>= next) holds' := by
  intro draws
  have has : holds (draw.run draws).1 := first draws
  exact second (draw.run draws).1 has (draw.run draws).2

/-- What is drawn next may have a property whatever was drawn before. -/
theorem Yields.after (draw : Draw α) (second : ∀ thing, Yields (next thing) holds') :
    Yields (draw >>= next) holds' :=
  (yields_any draw).bind fun thing _ => second thing

/-- What is drawn has every property that follows from one it has. -/
theorem Yields.imp (first : Yields draw holds) {holds' : α → Prop}
    (step : ∀ thing, holds thing → holds' thing) : Yields draw holds' :=
  fun draws => step _ (first draws)

/-- What is made of something drawn has what follows from a property of that. -/
theorem Yields.map {change : α → β} (first : Yields draw holds)
    (step : ∀ thing, holds thing → holds' (change thing)) : Yields (change <$> draw) holds' :=
  fun draws => step _ (first draws)

/-- One of two draws has what both have. -/
theorem Yields.ite {decision : Prop} [Decidable decision] {draw' : Draw α}
    (first : decision → Yields draw holds) (second : ¬ decision → Yields draw' holds) :
    Yields (if decision then draw else draw') holds := by
  by_cases taken : decision
  · rw [if_pos taken]
    exact first taken
  · rw [if_neg taken]
    exact second taken

/-- A choice yields what all the things have that are chosen from. -/
theorem yields_oneOf {things : List α} {some : 0 < things.length}
    (each : ∀ thing ∈ things, holds thing) : Yields (oneOf things some) holds := by
  refine .after Draw.next fun number => ?_
  exact .pure (each _ (List.get_mem things _))

/-- A list of things is as long as it was asked to be, and each thing in it has what a single one
has. -/
theorem yields_times (each : Yields draw holds) (count : Nat) :
    Yields (times count draw) fun things =>
      things.length = count ∧ ∀ thing ∈ things, holds thing := by
  induction count with
  | zero => exact .pure ⟨rfl, fun _ none => by cases none⟩
  | succ count ih =>
    refine each.bind fun first has => ih.bind fun rest others => .pure ?_
    exact ⟨congrArg (· + 1) others.1, List.forall_mem_cons.2 ⟨has, others.2⟩⟩

end ThriftIdl.Fuzz.Draw
