import ThriftIdl.Proofs.Reader.Results
import ThriftIdl.Proofs.Text.Piece
import ThriftIdl.Reader.Definition

/-!
# Reading two texts side by side

Two texts are alike if the same tokens are left in them, between different fillers (`Alike`). Two
readers correspond if on texts that are alike both read values that are the same, and leave texts that
are alike, or both fail, and then both or neither of them for nesting, and both or neither of them
for a numeral that cannot be converted (`Corresponds`).
There is one law for each way in which readers are put together.
-/
namespace ThriftIdl

open Text

/-- A fault that is not final, if there is one. -/
def Harmless (noted : Option Fault) : Prop := ∀ fault ∈ noted, fault.reason.kind ≠ .nesting

/-- A failure whose faults are not final, as far as they are ever reported. -/
structure Failure.Harmless (failure : Failure) : Prop where
  /-- The fault itself is none. -/
  head : failure.isFinal = false
  /-- The best fault is none. -/
  furthest : failure.furthest.reason.kind ≠ .nesting

/-- Two failures that are final for the same reason. If digits are too many to be converted, they are
as many as is allowed. -/
structure Failure.Final (runs : Nat → Prop) (failure failure' : Failure) : Prop where
  /-- The first is final. -/
  isFinal : failure.isFinal
  /-- The second has the same reason. -/
  reason : failure'.head.reason = failure.head.reason
  /-- So many digits are allowed. -/
  digits : ∀ count, failure.head.reason = .tooManyDigits count → digitLimit < count ∧ runs count

/-- Two outcomes that correspond. Of their values only a view counts. -/
inductive Outcome.Matches {α γ : Type} (runs : Nat → Prop) (states : List Char → List Char → Prop) (view : α → γ) :
    Outcome (List Char) α → Outcome (List Char) α → Prop where
  /-- Both are values. -/
  | ok {value value' : α} {rest rest' : List Char} {noted noted' : Option Fault} :
      view value = view value' → states rest rest' → Harmless noted → Harmless noted' →
      Matches runs states view (.ok value rest noted) (.ok value' rest' noted')
  /-- Both are final failures. -/
  | final {failure failure' : Failure} {rest rest' : List Char} {noted noted' : Option Fault} :
      failure.Final runs failure' →
      Matches runs states view (.fail failure rest noted) (.fail failure' rest' noted')
  /-- Both are other failures. -/
  | fail {failure failure' : Failure} {rest rest' : List Char} {noted noted' : Option Fault} :
      failure.Harmless → failure'.Harmless → Harmless noted → Harmless noted' →
      Matches runs states view (.fail failure rest noted) (.fail failure' rest' noted')

/-- A failure that is not final. -/
def Outcome.Fails {α : Type} (outcome : Outcome (List Char) α) : Prop :=
  ∃ failure rest noted, outcome = .fail failure rest noted ∧ failure.Harmless ∧ Harmless noted

variable {runs : Nat → Prop}

section Faults

/-- The second of two final failures is final. -/
theorem Failure.Final.isFinal' {failure failure' : Failure} (final : failure.Final runs failure') :
    failure'.isFinal := by
  rw [Failure.isFinal, final.reason]
  exact final.isFinal

/-- Where nothing was noted there is no harm. -/
@[simp] theorem harmless_none : Harmless none := fun _ none => by cases none

/-- A fault that was noted is harmless unless it is one of nesting. -/
@[simp] theorem harmless_some {fault : Fault} :
    Harmless (some fault) ↔ fault.reason.kind ≠ .nesting := by simp [Harmless]

/-- The better of two harmless faults is harmless. -/
theorem Harmless.best {earlier later : Option Fault} (first : Harmless earlier)
    (second : Harmless later) : Harmless (Fault.best earlier later) := by
  cases earlier with
  | none => exact second
  | some earlier =>
    cases later with
    | none => exact first
    | some later =>
      simp only [Fault.best]
      split
      · exact second
      · exact first

/-- A fault without causes is harmless if it is none of nesting. -/
theorem harmless_node {fault : Fault} (kind : fault.reason.kind ≠ .nesting) :
    Failure.Harmless (.node fault []) :=
  ⟨decide_eq_false kind, by
    simpa [Failure.furthest, Trace.furthest, Trace.furthestAmong] using kind⟩

/-- The best fault among harmless failures is none of nesting. -/
theorem furthestAmong_harmless {best : Fault} {causes : List Failure}
    (kind : best.reason.kind ≠ .nesting) (each : ∀ cause ∈ causes, Failure.Harmless cause) :
    (Trace.furthestAmong Fault.better best causes).reason.kind ≠ .nesting := by
  induction causes generalizing best with
  | nil => simpa [Trace.furthestAmong] using kind
  | cons cause causes ih =>
    rw [List.forall_mem_cons] at each
    rw [Trace.furthestAmong]
    refine ih ?_ each.2
    split
    · exact each.1.furthest
    · exact kind

/-- What a choice notes of harmless failures is harmless. -/
theorem Harmless.noteBeyond {left : Nat} {failures : List Failure}
    (each : ∀ failure ∈ failures, Failure.Harmless failure) :
    Harmless (Reader.noteBeyond left failures) := by
  suffices step : ∀ noted, Harmless noted → Harmless (failures.foldl (fun noted failure =>
      if failure.furthest.left < left then Fault.best noted (some failure.furthest) else noted) noted) from
    step none harmless_none
  induction failures with
  | nil => exact fun _ noted => noted
  | cons failure failures ih =>
    rw [List.forall_mem_cons] at each
    intro noted first
    refine ih each.2 _ ?_
    dsimp only
    split
    · exact first.best (harmless_some.2 each.1.furthest)
    · exact first

end Faults

/-- Two readers that correspond: on texts in corresponding states they have corresponding outcomes. -/
def Reader.Corresponds {α γ : Type} (runs : Nat → Prop) (states : List Char → List Char → Prop) (view : α → γ)
    (reader reader' : Reader (List Char) α) : Prop :=
  ∀ ⦃text text' : List Char⦄, states text text' → (reader text).Matches runs states view (reader' text')

section Laws

variable {α β γ δ : Type} {states states' : List Char → List Char → Prop} {view : α → γ}
  {view' : β → δ} {text text' : List Char}

/-- Faults that were noted before do not matter if they are harmless. -/
theorem Outcome.Matches.after {outcome outcome' : Outcome (List Char) α} {earlier earlier' : Option Fault}
    (same : outcome.Matches runs states view outcome') (first : Harmless earlier)
    (first' : Harmless earlier') :
    (outcome.after earlier).Matches runs states view (outcome'.after earlier') := by
  cases same with
  | ok value rest noted noted' => exact .ok value rest (first.best noted) (first'.best noted')
  | final final => exact .final final
  | fail failure failure' noted noted' =>
    exact .fail failure failure' (first.best noted) (first'.best noted')

/-- Reading in a row fails if reading the first part does. -/
theorem Outcome.Fails.bind {first : Reader (List Char) α} {next : α → Reader (List Char) β}
    (fails : (first text).Fails) : ((first >>= next) text).Fails := by
  obtain ⟨failure, rest, noted, failed, harmless⟩ := fails
  refine ⟨failure, rest, noted, ?_, harmless⟩
  change Reader.bind first next text = _
  rw [Reader.bind, failed]

/-- Reading in a row corresponds if the parts do. -/
theorem Outcome.Matches.bind {first first' : Reader (List Char) α} {next next' : α → Reader (List Char) β}
    (opening : (first text).Matches runs states view (first' text'))
    (closing : ∀ value value' rest rest', view value = view value' → states rest rest' →
      (next value rest).Matches runs states' view' (next' value' rest')) :
    ((first >>= next) text).Matches runs states' view' ((first' >>= next') text') := by
  change Outcome.Matches runs states' view' (Reader.bind first next text) (Reader.bind first' next' text')
  simp only [Reader.bind]
  generalize first text = outcome at opening
  generalize first' text' = outcome' at opening
  cases opening with
  | ok value rest noted noted' => exact (closing _ _ _ _ value rest).after noted noted'
  | final final => exact .final final
  | fail failure failure' noted noted' => exact .fail failure failure' noted noted'

namespace Reader

/-- Reading in a row corresponds if the parts do, from every value that is the same in view. -/
theorem Corresponds.bind {first first' : Reader (List Char) α} {next next' : α → Reader (List Char) β}
    (opening : Corresponds runs states view first first')
    (closing : ∀ value value', view value = view value' →
      Corresponds runs states view' (next value) (next' value')) :
    Corresponds runs states view' (first >>= next) (first' >>= next') := fun _ _ state =>
  (opening state).bind fun value value' _ _ same state => closing value value' same state

/-- Values that are the same in view correspond where nothing is read. -/
theorem corresponds_pure {value value' : α} (same : view value = view value') :
    Corresponds runs states view (Reader.pure value) (Reader.pure value') := fun _ _ state =>
  .ok same state harmless_none harmless_none

/-- Values may be wrapped if that keeps the view. -/
theorem Corresponds.map {reader reader' : Reader (List Char) α} {wrap wrap' : α → β}
    (corresponds : Corresponds runs states view reader reader')
    (same : ∀ value value', view value = view value' → view' (wrap value) = view' (wrap' value')) :
    Corresponds runs states view' (wrap <$> reader) (wrap' <$> reader') :=
  corresponds.bind fun value value' equal => corresponds_pure (same value value' equal)

/-- Reading in a row corresponds if both read the same first and correspond from there. -/
theorem Corresponds.then {reader reader' : Reader (List Char) α}
    {next next' : α → Reader (List Char) β} (opening : Corresponds runs states id reader reader')
    (closing : ∀ value, Corresponds runs states view' (next value) (next' value)) :
    Corresponds runs states view' (reader >>= next) (reader' >>= next') :=
  opening.bind fun value value' same => by
    obtain rfl : value = value' := same
    exact closing value

/-- Where two readers have outcomes that correspond, so have they if what they read may be missing. -/
theorem matches_optional {rule rule' : Reader (List Char) α} (state : states text text')
    (same : (rule text).Matches runs states view (rule' text')) :
    (optional rule text).Matches runs states (Option.map view) (optional rule' text') := by
  simp only [Reader.optional]
  generalize rule text = outcome at same
  generalize rule' text' = outcome' at same
  cases same with
  | ok value rest noted noted' => exact .ok (congrArg some value) rest noted noted'
  | final final =>
    simp only [final.isFinal, final.isFinal', ↓reduceIte]
    exact .final final
  | fail failure failure' noted noted' =>
    simp only [failure.head, failure'.head, Bool.false_eq_true, ↓reduceIte]
    exact .ok rfl state (noted.best (harmless_some.2 failure.furthest))
      (noted'.best (harmless_some.2 failure'.furthest))

/-- Trying corresponds if what is tried does. -/
theorem Corresponds.optional {rule rule' : Reader (List Char) α}
    (corresponds : Corresponds runs states view rule rule') :
    Corresponds runs states (Option.map view) (Reader.optional rule) (Reader.optional rule') := fun _ _ state =>
  matches_optional state (corresponds state)

/-- Loops match if their rounds correspond and the rounds that are admitted are enough. -/
theorem matches_manyWithin {round round' : Reader (List Char) (Option α)}
    (corresponds : Corresponds runs states (Option.map view) round round')
    (shrinks : ∀ {input value rest}, round.Gives input (some value) rest → rest.length < input.length)
    (shrinks' : ∀ {input value rest}, round'.Gives input (some value) rest →
      rest.length < input.length) {rounds rounds' : Nat} (enough : text.length < rounds)
    (enough' : text'.length < rounds') (state : states text text') :
    (manyWithin round rounds text).Matches runs states (List.map view) (manyWithin round' rounds' text') := by
  induction rounds generalizing rounds' text text' with
  | zero => omega
  | succ rounds ih =>
    cases rounds' with
    | zero => omega
    | succ rounds' =>
      have same := corresponds state
      simp only [manyWithin]
      generalize tried : round text = outcome at same
      generalize tried' : round' text' = outcome' at same
      cases same with
      | final final => exact .final final
      | fail failure failure' noted noted' => exact .fail failure failure' noted noted'
      | @ok value value' rest rest' _ _ equal state noted noted' =>
        cases value with
        | none =>
          obtain rfl : value' = none := Option.map_eq_none_iff.1 equal.symm
          exact .ok rfl state noted noted'
        | some value =>
          obtain ⟨value', rfl, viewed⟩ := Option.map_eq_some_iff.1 equal.symm
          have less : rest.length < text.length := shrinks ⟨_, tried⟩
          have less' : rest'.length < text'.length := shrinks' ⟨_, tried'⟩
          have others := ih (by omega) (by omega : rest'.length < rounds') state
          simp only [Input.left, less, less', ↓reduceIte]
          generalize manyWithin round rounds rest = more at others
          generalize manyWithin round' rounds' rest' = more' at others
          cases others with
          | final final => exact .final final
          | fail failure failure' later later' =>
            exact .fail failure failure' (noted.best later) (noted'.best later')
          | ok values state later later' =>
            exact .ok (by simp [viewed, values]) state (noted.best later) (noted'.best later')

/-- A loop corresponds if its rounds do and each of them leaves less. -/
theorem Corresponds.many {round round' : Reader (List Char) (Option α)}
    (corresponds : Corresponds runs states (Option.map view) round round')
    (shrinks : ∀ {input value rest}, round.Gives input (some value) rest → rest.length < input.length)
    (shrinks' : ∀ {input value rest}, round'.Gives input (some value) rest →
      rest.length < input.length) :
    Corresponds runs states (List.map view) (many round) (many round') := fun _ _ state =>
  matches_manyWithin corresponds shrinks shrinks' (Nat.lt_succ_self _) (Nat.lt_succ_self _) state

end Reader

end Laws

section Pieces

variable {α β : Type} {text text' : List Char}

/-- What a reader cuts off a piece, and what is left of the piece, do not depend on what follows the
piece. -/
def Reader.Cuts (runs : Nat → Prop) (reader : Reader (List Char) α) : Prop :=
  ∀ ⦃piece : List Char⦄, Piece runs piece →
    (∃ value left, Piece runs left ∧
      ∀ rest, Fenced rest → reader (piece ++ rest) = .ok value (left ++ rest) none) ∨
    (∀ rest, Fenced rest → ∃ reason, reason.kind ≠ .nesting ∧
      reader (piece ++ rest) = Reader.fail reason (piece ++ rest)) ∨
    ∃ count, (piece ≠ [] ∧ digitLimit < count ∧ runs count) ∧
      ∀ rest, Fenced rest → reader (piece ++ rest) = Reader.fail (.tooManyDigits count) (piece ++ rest)

namespace Reader

/-- What is cut off a piece is the same in texts that are alike. -/
theorem Cuts.corresponds {reader : Reader (List Char) α} (cuts : reader.Cuts runs) :
    Corresponds runs (Alike runs) id reader reader := by
  intro text text' alike
  obtain ⟨piece, each, spaced, spaced'⟩ := alike
  rcases cuts piece with ⟨value, left, piece, given⟩ | failed | ⟨count, ⟨-, many, run⟩, failed⟩
  · rw [given _ spaced.fenced, given _ spaced'.fenced]
    exact .ok rfl ⟨piece, each, spaced, spaced'⟩ harmless_none harmless_none
  · obtain ⟨reason, kind, failed'⟩ := failed _ spaced.fenced
    obtain ⟨reason', kind', failed''⟩ := failed _ spaced'.fenced
    rw [failed', failed'']
    exact .fail (harmless_node kind) (harmless_node kind') harmless_none harmless_none
  · rw [failed _ spaced.fenced, failed _ spaced'.fenced]
    refine .final ⟨rfl, rfl, fun count' same => ?_⟩
    obtain rfl := Reason.tooManyDigits.inj same
    exact ⟨many, run⟩

/-- A reader that can read nothing where only fillers are left. -/
def Starves (reader : Reader (List Char) α) : Prop := ∀ ⦃text : List Char⦄, Filler text →
  (reader text).Fails

/-- A reader that cuts tokens can read nothing at the end of a text if it gives nothing for no text. -/
theorem Cuts.starves {reader : Reader (List Char) α} (cuts : reader.Cuts fun _ => True)
    (nothing : ∀ value rest, reader [] ≠ .ok value rest none) : reader.Starves := by
  intro text filler
  rcases cuts piece_nil with ⟨value, left, -, given⟩ | failed | ⟨_, ⟨some, -⟩, -⟩
  · exact absurd (given [] fenced_nil) (nothing _ _)
  · obtain ⟨reason, kind, failed⟩ := failed text filler.fenced
    exact ⟨_, _, _, failed, harmless_node kind, harmless_none⟩
  · exact absurd rfl some

/-- Nothing is read in a row if the first part cannot be read. -/
theorem Starves.bind {first : Reader (List Char) α} {next : α → Reader (List Char) β}
    (starves : first.Starves) : (first >>= next).Starves := fun _ filler => (starves filler).bind

/-- Wrapping a value does not make something to be read. -/
theorem Starves.map {reader : Reader (List Char) α} {wrap : α → β} (starves : reader.Starves) :
    (wrap <$> reader).Starves := starves.bind

/-- None of several readers can read anything at the end of a text if each of them cannot. -/
theorem Starves.alternatives {production : String} {rules : List (Reader (List Char) α)}
    (each : ∀ rule ∈ rules, rule.Starves) : (alternatives production rules).Starves := by
  intro text filler
  suffices rest : ∀ failures : List Failure, (∀ failure ∈ failures, Failure.Harmless failure) →
      (choose production text failures rules).Fails from rest [] (by simp)
  induction rules with
  | nil =>
    intro failures harmless
    have kind : (Reason.noAlternative production (Input.excerpt text)).kind ≠ .nesting := by
      simp [Reason.kind]
    exact ⟨_, _, _, rfl, ⟨decide_eq_false kind, furthestAmong_harmless kind harmless⟩, harmless_none⟩
  | cons rule rules ih =>
    intro failures harmless
    obtain ⟨starves, each⟩ := List.forall_mem_cons.1 each
    obtain ⟨failure, rest, noted, failed, harmless', note⟩ := starves filler
    have extended : ∀ failure' ∈ failures ++ [failure], Failure.Harmless failure' :=
      List.forall_mem_append.2 ⟨harmless, List.forall_mem_singleton.2 harmless'⟩
    obtain ⟨last, place, later, others, harmless'', note'⟩ := ih each _ extended
    refine ⟨last, place, Fault.best noted later, ?_, harmless'', note.best note'⟩
    simp [choose, failed, harmless'.head, others, Outcome.after]

end Reader

end Pieces

end ThriftIdl
