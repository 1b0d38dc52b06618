import ThriftIdl.Reader.Basic

/-!
# What readers give and what they refuse

A reader gives a value on an input and leaves a rest, or it refuses the input; a failure of
nesting is neither, because nothing swallows it. The faults that are noted on the way do not
matter here. There is one law for each way in which readers are put together: reading in a row
(`gives_bind`, `refuses_bind`), trying (`gives_optional`), choosing (`gives_alternatives`) and
repeating (`gives_many`).
-/
namespace ThriftIdl.Reader

variable {ι α β : Type}

/-- A reader reads a value off an input and leaves a rest. -/
def Gives (reader : Reader ι α) (input : ι) (value : α) (rest : ι) : Prop :=
  ∃ noted, reader input = .ok value rest noted

/-- A reader fails on an input, and not for nesting. -/
def Refuses (reader : Reader ι α) (input : ι) : Prop :=
  ∃ failure rest noted, reader input = .fail failure rest noted ∧ failure.isFinal = false

/-- A reader gives at most one value. -/
theorem Gives.unique {reader : Reader ι α} {input rest rest' : ι} {value value' : α}
    (first : reader.Gives input value rest) (second : reader.Gives input value' rest') :
    value = value' ∧ rest = rest' := by
  obtain ⟨_, first⟩ := first
  obtain ⟨_, second⟩ := second
  rw [first] at second
  simp only [Outcome.ok.injEq] at second
  exact ⟨second.1, second.2.1⟩

/-- A reader that refuses an input gives nothing on it. -/
theorem Refuses.not_gives {reader : Reader ι α} {input : ι} (refused : reader.Refuses input)
    (value : α) (rest : ι) : ¬ reader.Gives input value rest := by
  obtain ⟨_, _, _, failed, _⟩ := refused
  rintro ⟨_, given⟩
  rw [failed] at given
  cases given

/-- What is given is not refused. -/
theorem Gives.not_refuses {reader : Reader ι α} {input rest : ι} {value : α}
    (given : reader.Gives input value rest) : ¬ reader.Refuses input :=
  fun refused => refused.not_gives value rest given

/-- Reading nothing gives its value. -/
@[simp] theorem gives_pure {input rest : ι} {value given : α} :
    (Reader.pure value : Reader ι α).Gives input given rest ↔ given = value ∧ rest = input := by
  constructor
  · rintro ⟨_, given⟩
    simp only [Reader.pure, Outcome.ok.injEq] at given
    exact ⟨given.1.symm, given.2.1.symm⟩
  · rintro ⟨rfl, rfl⟩
    exact ⟨none, rfl⟩

/-- Reading nothing refuses nothing. -/
@[simp] theorem not_refuses_pure {input : ι} {value : α} :
    ¬ (Reader.pure value : Reader ι α).Refuses input := by
  rintro ⟨_, _, _, failed, _⟩
  cases failed

/-- An outcome after an earlier fault gives what it gives without it. -/
theorem exists_after_eq_ok {earlier : Option Fault} {outcome : Outcome ι α} {value : α} {rest : ι} :
    (∃ noted, outcome.after earlier = .ok value rest noted) ↔
      ∃ noted, outcome = .ok value rest noted := by
  cases outcome <;> simp [Outcome.after]

/-- An outcome after an earlier fault fails as it fails without it. -/
theorem exists_after_eq_fail {earlier : Option Fault} {outcome : Outcome ι α} {failure : Failure}
    {rest : ι} :
    (∃ noted, outcome.after earlier = .fail failure rest noted) ↔
      ∃ noted, outcome = .fail failure rest noted := by
  cases outcome <;> simp [Outcome.after]

/-- Reading in a row gives what the second reader gives on what the first leaves. -/
theorem gives_bind {first : Reader ι α} {next : α → Reader ι β} {input rest : ι} {value : β} :
    (first >>= next).Gives input value rest ↔
      ∃ middle place, first.Gives input middle place ∧ (next middle).Gives place value rest := by
  change (∃ _, Reader.bind first next input = _) ↔ _
  unfold Reader.bind
  constructor
  · intro given
    cases opening : first input with
    | fail failure place noted => simp [opening] at given
    | ok middle place noted =>
      simp only [opening] at given
      exact ⟨middle, place, ⟨noted, opening⟩, exists_after_eq_ok.1 given⟩
  · rintro ⟨middle, place, ⟨noted, opening⟩, closing⟩
    simp only [opening]
    exact exists_after_eq_ok.2 closing

/-- Reading in a row refuses what the first reader refuses, and what the second refuses after the
first. -/
theorem refuses_bind {first : Reader ι α} {next : α → Reader ι β} {input : ι} :
    (first >>= next).Refuses input ↔
      first.Refuses input ∨
        ∃ middle place, first.Gives input middle place ∧ (next middle).Refuses place := by
  change (∃ failure rest noted, Reader.bind first next input = .fail failure rest noted ∧ _) ↔ _
  unfold Reader.bind
  constructor
  · rintro ⟨failure, rest, noted, failed, soft⟩
    cases opening : first input with
    | fail failure place noted =>
      simp only [opening, Outcome.fail.injEq] at failed
      obtain ⟨rfl, -⟩ := failed
      exact .inl ⟨_, _, _, opening, soft⟩
    | ok middle place noted =>
      simp only [opening] at failed
      obtain ⟨noted, closing⟩ := exists_after_eq_fail.1 ⟨_, failed⟩
      exact .inr ⟨middle, place, ⟨_, opening⟩, failure, rest, noted, closing, soft⟩
  · rintro (⟨failure, rest, noted, failed, soft⟩ |
      ⟨middle, place, ⟨noted, opening⟩, failure, rest, later, closing, soft⟩)
    · exact ⟨failure, rest, noted, by simp only [failed], soft⟩
    · obtain ⟨noted, failed⟩ : ∃ found, (next middle place).after noted = .fail failure rest found :=
        exists_after_eq_fail.2 ⟨later, closing⟩
      exact ⟨failure, rest, noted, by simp only [opening, failed], soft⟩

/-- Two readers in a row, one after the other. -/
theorem Gives.bind {first : Reader ι α} {next : α → Reader ι β} {input place rest : ι} {middle : α}
    {value : β} (opening : first.Gives input middle place)
    (closing : (next middle).Gives place value rest) : (first >>= next).Gives input value rest :=
  gives_bind.2 ⟨middle, place, opening, closing⟩

/-- What the first of two readers refuses is refused. -/
theorem Refuses.bind {first : Reader ι α} {next : α → Reader ι β} {input : ι}
    (refused : first.Refuses input) : (first >>= next).Refuses input :=
  refuses_bind.2 (.inl refused)

/-- What the second of two readers refuses after the first is refused. -/
theorem Gives.bind_refuses {first : Reader ι α} {next : α → Reader ι β} {input place : ι}
    {middle : α} (opening : first.Gives input middle place)
    (refused : (next middle).Refuses place) : (first >>= next).Refuses input :=
  refuses_bind.2 (.inr ⟨middle, place, opening, refused⟩)

/-- A changed value is the change of a value that is given. -/
theorem gives_map {change : α → β} {reader : Reader ι α} {input rest : ι} {value : β} :
    (change <$> reader).Gives input value rest ↔
      ∃ given, reader.Gives input given rest ∧ value = change given := by
  show (reader >>= fun given => Reader.pure (change given)).Gives input value rest ↔ _
  simp only [gives_bind, gives_pure]
  constructor
  · rintro ⟨given, place, reads, rfl, rfl⟩
    exact ⟨given, reads, rfl⟩
  · rintro ⟨given, reads, rfl⟩
    exact ⟨given, rest, reads, rfl, rfl⟩

/-- A reader whose value is changed gives the changed value. -/
theorem Gives.map {reader : Reader ι α} {input rest : ι} {value : α} (change : α → β)
    (given : reader.Gives input value rest) : (change <$> reader).Gives input (change value) rest :=
  gives_map.2 ⟨value, given, rfl⟩

/-- Changing the value changes nothing about what is refused. -/
theorem refuses_map {change : α → β} {reader : Reader ι α} {input : ι} :
    (change <$> reader).Refuses input ↔ reader.Refuses input := by
  show (reader >>= fun given => Reader.pure (change given)).Refuses input ↔ _
  simp [refuses_bind]

/-- Trying gives what is read, or nothing where it is refused. -/
theorem gives_optional {rule : Reader ι α} {input rest : ι} {value : Option α} :
    (optional rule).Gives input value rest ↔
      (∃ given, rule.Gives input given rest ∧ value = some given) ∨
        (rule.Refuses input ∧ value = none ∧ rest = input) := by
  constructor
  · rintro ⟨noted, given⟩
    simp only [optional] at given
    cases tried : rule input with
    | ok found place noted =>
      simp only [tried, Outcome.ok.injEq] at given
      obtain ⟨rfl, rfl, -⟩ := given
      exact .inl ⟨found, ⟨_, tried⟩, rfl⟩
    | fail failure place noted =>
      cases nesting : failure.isFinal with
      | true => simp [tried, nesting] at given
      | false =>
        simp only [tried, nesting, Bool.false_eq_true, ↓reduceIte, Outcome.ok.injEq] at given
        obtain ⟨rfl, rfl, -⟩ := given
        exact .inr ⟨⟨failure, place, _, tried, nesting⟩, rfl, rfl⟩
  · rintro (⟨given, ⟨noted, tried⟩, rfl⟩ | ⟨⟨failure, place, noted, tried, soft⟩, rfl, rfl⟩)
    · exact ⟨noted, by simp only [optional, tried]⟩
    · exact ⟨Fault.best noted (some failure.furthest), by simp [optional, tried, soft]⟩

/-- Trying what can be read gives it. -/
theorem Gives.optional {rule : Reader ι α} {input rest : ι} {value : α}
    (given : rule.Gives input value rest) : (optional rule).Gives input (some value) rest :=
  gives_optional.2 (.inl ⟨value, given, rfl⟩)

/-- Trying what is refused gives nothing and moves nowhere. -/
theorem Refuses.optional {rule : Reader ι α} {input : ι} (refused : rule.Refuses input) :
    (optional rule).Gives input none input :=
  gives_optional.2 (.inr ⟨refused, rfl, rfl⟩)

variable [Input ι]

/-- A failure gives nothing. -/
@[simp] theorem not_gives_fail {reason : Reason} {input rest : ι} {value : α} :
    ¬ (fail reason : Reader ι α).Gives input value rest := by
  rintro ⟨_, given⟩
  cases given

/-- A failure that is not one of nesting refuses. -/
theorem refuses_fail {reason : Reason} {input : ι} (kind : reason.kind ≠ .nesting) :
    (fail reason : Reader ι α).Refuses input := by
  refine ⟨_, _, _, rfl, ?_⟩
  exact decide_eq_false kind

/-- The place that is reached is given without reading. -/
@[simp] theorem gives_here {input rest : ι} {place : Nat} :
    (here : Reader ι Nat).Gives input place rest ↔ place = Input.left input ∧ rest = input := by
  constructor
  · rintro ⟨_, given⟩
    simp only [here, Outcome.ok.injEq] at given
    exact ⟨given.1.symm, given.2.1.symm⟩
  · rintro ⟨rfl, rfl⟩
    exact ⟨none, rfl⟩

/-- What is cut off is given. -/
@[simp] theorem gives_orFail {reason : Reason} {cut : ι → Option (α × ι)} {input rest : ι}
    {value : α} : (orFail reason cut).Gives input value rest ↔ cut input = some (value, rest) := by
  simp only [Gives, orFail]
  cases cut input with
  | none => simp [fail]
  | some found => simp [Prod.ext_iff]

/-- Where nothing can be cut off, the input is refused. -/
theorem refuses_orFail {reason : Reason} {cut : ι → Option (α × ι)} {input : ι}
    (kind : reason.kind ≠ .nesting) (nothing : cut input = none) :
    (orFail reason cut).Refuses input := by
  simp only [Refuses, orFail, nothing]
  exact refuses_fail kind

/-- The first branch of a choice that does not refuse an input gives a value. -/
def FirstGives : List (Reader ι α) → ι → α → ι → Prop
  | [], _, _, _ => False
  | rule :: rules, input, value, rest =>
    rule.Gives input value rest ∨ (rule.Refuses input ∧ FirstGives rules input value rest)

omit [Input ι] in
/-- Branches that refuse an input leave the choice to those after them. -/
theorem FirstGives.append {refused rules : List (Reader ι α)} {input rest : ι} {value : α}
    (refuses : ∀ rule ∈ refused, rule.Refuses input) (given : FirstGives rules input value rest) :
    FirstGives (refused ++ rules) input value rest := by
  induction refused with
  | nil => exact given
  | cons rule refused ih =>
    exact .inr ⟨refuses rule (by simp), ih fun other mem => refuses other (by simp [mem])⟩

/-- What a choice gives after some branches have failed does not depend on their failures. -/
theorem gives_choose {production : String} {failures : List Failure} {rules : List (Reader ι α)}
    {input rest : ι} {value : α} :
    (∃ noted, choose production input failures rules = .ok value rest noted) ↔
      FirstGives rules input value rest := by
  induction rules generalizing failures with
  | nil => simp [choose, FirstGives]
  | cons rule rules ih =>
    simp only [FirstGives]
    cases tried : rule input with
    | ok given place noted => simp [choose, Gives, Refuses, tried]
    | fail failure place noted =>
      cases nesting : failure.isFinal with
      | true => simp [choose, Gives, Refuses, tried, nesting]
      | false =>
        simp only [choose, Gives, Refuses, tried, nesting, Bool.false_eq_true, ↓reduceIte]
        rw [exists_after_eq_ok, ih]
        simp [nesting]

/-- A choice gives what its first branch that does not refuse gives. -/
theorem gives_alternatives {production : String} {rules : List (Reader ι α)} {input rest : ι}
    {value : α} :
    (alternatives production rules).Gives input value rest ↔ FirstGives rules input value rest :=
  gives_choose

/-- A choice after some failures refuses what all other branches refuse. -/
theorem refuses_choose {production : String} {failures : List Failure} {rules : List (Reader ι α)}
    {input : ι} (refused : ∀ rule ∈ rules, rule.Refuses input) :
    ∃ failure rest noted, choose production input failures rules = .fail failure rest noted ∧
      failure.isFinal = false := by
  induction rules generalizing failures with
  | nil => exact ⟨_, _, _, rfl, rfl⟩
  | cons rule rules ih =>
    obtain ⟨failure, place, noted, failed, soft⟩ := refused rule (by simp)
    obtain ⟨last, rest, later, others, softly⟩ := @ih (failures ++ [failure])
      fun rule mem => refused rule (by simp [mem])
    refine ⟨last, rest, Fault.best noted later, ?_, softly⟩
    simp [choose, failed, soft, others, Outcome.after]

/-- A choice refuses what all its branches refuse. -/
theorem refuses_alternatives {production : String} {rules : List (Reader ι α)} {input : ι}
    (refused : ∀ rule ∈ rules, rule.Refuses input) :
    (alternatives production rules).Refuses input :=
  refuses_choose refused

/-- Rounds that follow each other until one finds nothing. -/
inductive Rounds (round : Reader ι (Option α)) : ι → List α → ι → Prop where
  /-- A round that finds nothing is the last. -/
  | done {input rest : ι} : round.Gives input none rest → Rounds round input [] rest
  /-- A round that finds something is followed by others. -/
  | more {input place rest : ι} {value : α} {values : List α} :
    round.Gives input (some value) place → Rounds round place values rest →
      Rounds round input (value :: values) rest

/-- Rounds that leave less and less are not cut off while more are allowed than characters are
left. -/
theorem gives_manyWithin {round : Reader ι (Option α)}
    (shrinks : ∀ {input value rest}, round.Gives input (some value) rest →
      Input.left rest < Input.left input)
    {rounds : Nat} {input rest : ι} {values : List α} (enough : Input.left input < rounds) :
    (manyWithin round rounds).Gives input values rest ↔ Rounds round input values rest := by
  induction rounds generalizing input values with
  | zero => omega
  | succ rounds ih =>
    simp only [Gives, manyWithin]
    cases tried : round input with
    | fail failure place noted =>
      simp only [reduceCtorEq, exists_const, false_iff]
      rintro (⟨_, given⟩ | ⟨⟨_, given⟩, _⟩) <;> simp [tried] at given
    | ok value place noted =>
      cases value with
      | none =>
        simp only [Outcome.ok.injEq]
        constructor
        · rintro ⟨_, rfl, rfl, rfl⟩
          exact .done ⟨_, tried⟩
        · rintro (⟨_, given⟩ | ⟨⟨_, given⟩, _⟩)
          · simp only [tried, Outcome.ok.injEq, true_and] at given
            exact ⟨noted, rfl, given.1, rfl⟩
          · simp [tried] at given
      | some value =>
        have less := shrinks ⟨_, tried⟩
        simp only [less, ↓reduceIte]
        constructor
        · intro given
          cases others : manyWithin round rounds place with
          | fail failure last later => simp [others] at given
          | ok more last later =>
            simp only [others, Outcome.ok.injEq] at given
            obtain ⟨_, rfl, rfl, -⟩ := given
            exact .more ⟨_, tried⟩ ((ih (by omega)).1 ⟨_, others⟩)
        · rintro (⟨_, given⟩ | ⟨⟨_, given⟩, others⟩)
          · simp [tried] at given
          · simp only [tried, Outcome.ok.injEq, Option.some.injEq] at given
            obtain ⟨rfl, rfl, rfl⟩ := given
            obtain ⟨later, others⟩ := (ih (by omega)).2 others
            simp [others]

/-- Repeating gives what the rounds find, if every round that finds something leaves less. -/
theorem gives_many {round : Reader ι (Option α)}
    (shrinks : ∀ {input value rest}, round.Gives input (some value) rest →
      Input.left rest < Input.left input)
    {input rest : ι} {values : List α} :
    (many round).Gives input values rest ↔ Rounds round input values rest :=
  gives_manyWithin shrinks (Nat.lt_succ_self _)

end ThriftIdl.Reader
