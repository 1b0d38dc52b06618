import ThriftIdl.Token.Reader

/-!
# What token readers give

A token reader goes from one token ahead to another and gives a value, or it rejects the text. There
is one law for each way in which token readers are put together, and for each reader of a single
token; repeated items are read in rounds (`gives_items`).
-/
namespace ThriftIdl.TokenReader

variable {α β : Type}

/-- A reader goes from one token ahead to another and gives a value. -/
def Gives (reader : TokenReader α) (before : Ahead) (value : α) (after : Ahead) : Prop :=
  reader before = .ok (value, after)

section Laws

variable {before after : Ahead}

/-- Reading nothing gives its value. -/
@[simp] theorem gives_pure {value given : α} :
    Gives (pure value) before given after ↔ given = value ∧ after = before := by
  change Except.ok (value, before) = .ok (given, after) ↔ _
  simp only [Except.ok.injEq, Prod.mk.injEq]
  exact ⟨fun ⟨same, stays⟩ => ⟨same.symm, stays.symm⟩, fun ⟨same, stays⟩ => ⟨same.symm, stays.symm⟩⟩

/-- Reading in a row gives what the second reader gives where the first stops. -/
theorem gives_bind {first : TokenReader α} {next : α → TokenReader β} {value : β} :
    Gives (first >>= next) before value after ↔
      ∃ middle ahead, Gives first before middle ahead ∧ Gives (next middle) ahead value after := by
  change (first before >>= fun found => next found.1 found.2) = _ ↔ _
  unfold Gives
  cases opening : first before with
  | error rejection => simp [bind, Except.bind]
  | ok found => simp [bind, Except.bind, Prod.ext_iff, and_assoc]

/-- What is read and changed is read. -/
theorem gives_map {change : α → β} {reader : TokenReader α} {value : β} :
    Gives (change <$> reader) before value after ↔
      ∃ found, Gives reader before found after ∧ value = change found := by
  rw [map_eq_pure_bind, gives_bind]
  simp [and_comm, and_assoc]

/-- The kind of the token ahead is given, and the token stays. -/
@[simp] theorem gives_next {terminal : Terminal} :
    Gives next before terminal after ↔ terminal = before.token.terminal ∧ after = before :=
  gives_pure

/-- The place of the token ahead is given, and the token stays. -/
@[simp] theorem gives_place {left : Nat} :
    Gives place before left after ↔ left = before.token.left ∧ after = before :=
  gives_pure

/-- A token that is rejected gives nothing. -/
@[simp] theorem not_gives_reject {value : α} : ¬ Gives reject before value after := by
  intro given
  cases given

/-- A reader may depend on what is ahead. -/
theorem gives_get_bind {next : Ahead → TokenReader β} {value : β} :
    Gives (get >>= next) before value after ↔ Gives (next before) before value after :=
  Iff.rfl

/-- Two readers of which one is chosen may be followed by a third. -/
theorem gives_ite_bind {chosen : Bool} {first second : TokenReader α} {next : α → TokenReader β}
    {value : β} :
    Gives (if chosen then first >>= next else second >>= next) before value after ↔
      ∃ middle ahead, Gives (if chosen then first else second) before middle ahead ∧
        Gives (next middle) ahead value after := by
  cases chosen <;> exact gives_bind

/-- What is kept to be reported changes nothing else. -/
@[simp] theorem gives_report {reason : Invalid} {done : Unit} :
    Gives (report reason) before done after ↔
      after = { before with invalid := before.invalid.or (some reason) } := by
  change Except.ok ((), _) = .ok (done, after) ↔ _
  simp only [Except.ok.injEq, Prod.mk.injEq]
  exact ⟨fun ⟨_, same⟩ => same.symm, fun same => ⟨trivial, same.symm⟩⟩

/-- Taking the token ahead looks for the next token. -/
theorem advance_apply {follow : Expected} :
    advance follow before = (nextToken follow (some before.token) 0 before.rest).map fun found =>
      (before.token.text, { before with token := found.1, rest := found.2 }) := by
  change ((nextToken follow (some before.token) 0 before.rest >>= fun found =>
    .ok (found, before)) >>= fun taken => .ok (before.token.text,
      { before with token := taken.1.1, rest := taken.1.2 })) = _
  cases nextToken follow (some before.token) 0 before.rest <;> rfl

/-- Taking the token ahead gives its text and goes on to the next token. -/
theorem gives_advance {follow : Expected} {text : List Char} :
    Gives (advance follow) before text after ↔ text = before.token.text ∧
      after.invalid = before.invalid ∧
        nextToken follow (some before.token) 0 before.rest = .ok (after.token, after.rest) := by
  obtain ⟨token, rest, invalid⟩ := after
  rw [Gives, advance_apply]
  cases nextToken follow (some before.token) 0 before.rest with
  | error rejection => simp [Except.map]
  | ok found =>
    obtain ⟨token', rest'⟩ := found
    simp only [Except.map, Except.ok.injEq, Prod.mk.injEq, Ahead.mk.injEq]
    constructor
    · rintro ⟨rfl, rfl, rfl, rfl⟩
      exact ⟨rfl, rfl, rfl, rfl⟩
    · rintro ⟨rfl, rfl, rfl, rfl⟩
      exact ⟨rfl, rfl, rfl, rfl⟩

/-- A given token is taken where it is ahead. -/
theorem gives_take {terminal : Terminal} {follow : Expected} {text : List Char} :
    Gives (take terminal follow) before text after ↔
      before.token.terminal = terminal ∧ Gives (advance follow) before text after := by
  rw [take, gives_bind]
  simp only [gives_next, and_assoc, exists_and_left, exists_eq_left]
  split
  next same => simp [same]
  next other => simp [other]

/-- A given token is taken where it is ahead, and else the token ahead stays. -/
theorem gives_takes {terminal : Terminal} {follow : Expected} {taken : Bool} :
    Gives (takes terminal follow) before taken after ↔
      (before.token.terminal = terminal ∧ taken = true ∧
        ∃ text, Gives (advance follow) before text after) ∨
      (before.token.terminal ≠ terminal ∧ taken = false ∧ after = before) := by
  rw [takes, gives_bind]
  simp only [gives_next, and_assoc, exists_and_left, exists_eq_left]
  split
  next same =>
    simp only [gives_bind, gives_pure]
    constructor
    · rintro ⟨text, _, advanced, rfl, rfl⟩
      exact .inl ⟨same, rfl, text, advanced⟩
    · rintro (⟨-, rfl, text, advanced⟩ | ⟨other, -⟩)
      · exact ⟨text, after, advanced, rfl, rfl⟩
      · exact absurd same other
  next other => simp [other]

/-- A list separator is taken where one is ahead, and else the token ahead stays. -/
theorem gives_takeSeparator {done : Unit} :
    Gives takeSeparator before done after ↔
      (before.token.terminal ∈ Follow.separator ∧
        ∃ text, Gives (advance Follow.afterSeparator) before text after) ∨
      (before.token.terminal ∉ Follow.separator ∧ after = before) := by
  rw [takeSeparator, gives_bind]
  simp only [gives_next, and_assoc, exists_and_left, exists_eq_left, List.contains_eq_mem,
    decide_eq_true_eq]
  split
  next separator => simp [gives_map, separator]
  next other => simp [other]

/-- An integer is given, and is reported if it has more than 64 bits. -/
theorem gives_int64 {text : List Char} {value : Int} :
    Gives (int64 text) before value after ↔ value = Text.signedValue text ∧
      ((admitsInteger text ∧ after = before) ∨
        (¬ admitsInteger text ∧
          after = { before with invalid := before.invalid.or (some (integerFault text)) })) := by
  simp only [int64]
  split
  next fits => simp [fits]
  next large => simp [large, gives_map, and_comm]

end Laws

section Items

/-- Items are read one after the other until a closing token is ahead. -/
inductive Rounds (closing : Terminal) (item : TokenReader α) : Ahead → List α → Ahead → Prop where
  /-- The closing token is ahead. -/
  | done {before : Ahead} : before.token.terminal = closing → Rounds closing item before [] before
  /-- An item is read, and others after it. -/
  | more {before middle after : Ahead} {value : α} {values : List α} :
      before.token.terminal ≠ closing → Gives item before value middle →
      Rounds closing item middle values after → Rounds closing item before (value :: values) after

variable {closing : Terminal} {item : TokenReader α} {before after : Ahead} {values : List α}

/-- A number of items is read in fewer rounds. -/
theorem gives_itemsWithin {count : Nat} :
    Gives (itemsWithin closing item count) before values after ↔
      Rounds closing item before values after ∧ values.length < count := by
  induction count generalizing before values with
  | zero => simp [itemsWithin]
  | succ count ih =>
    rw [itemsWithin, gives_bind]
    simp only [gives_next, and_assoc, exists_and_left, exists_eq_left]
    split
    next same =>
      simp only [gives_pure]
      constructor
      · rintro ⟨rfl, rfl⟩
        exact ⟨.done same, by simp⟩
      · rintro ⟨rounds, -⟩
        cases rounds with
        | done => exact ⟨rfl, rfl⟩
        | more other => exact absurd same other
    next other =>
      simp only [gives_bind, gives_pure]
      constructor
      · rintro ⟨value, middle, first, others, _, given, rfl, rfl⟩
        obtain ⟨rounds, less⟩ := ih.1 given
        exact ⟨.more other first rounds, by simpa using less⟩
      · rintro ⟨rounds, less⟩
        cases rounds with
        | done same => exact absurd same other
        | more _ first others =>
          exact ⟨_, _, first, _, _, ih.2 ⟨others, by simpa using less⟩, rfl, rfl⟩

/-- Items are read in rounds, of which there are not more than characters left. -/
theorem gives_items :
    Gives (items closing item) before values after ↔
      Rounds closing item before values after ∧ values.length ≤ before.rest.length + 1 := by
  rw [items, gives_get_bind, gives_itemsWithin]
  exact and_congr_right fun _ => Nat.lt_succ_iff

end Items

end ThriftIdl.TokenReader
