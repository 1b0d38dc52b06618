import ThriftIdl.Proofs.Canonical.Accepted
import ThriftIdl.Proofs.Grammar.Placed
import ThriftIdl.Proofs.Grammar.Respelling
import ThriftIdl.Proofs.Position
import ThriftIdl.Proofs.Text.Truncated

/-!
# Where reading stops

Reading definitions stops at the first place where none matches. The text up to there is read as the
same definitions at the same places, and nothing of it is left (`Reader.exists_gives_consumed`), so that
a definition that fails on the way leaves no trace. Strict reading accepts the text exactly if nothing
but blanks and complete comments is left (`exactAfter_of_readDefinitions`).
-/
namespace ThriftIdl

namespace Reader

variable {depth : Nat} {text rest : List Char} {values : List (Definition Nat)}

/-- Reading definitions stops where nothing can be skipped, unless it stops at once. -/
theorem stop_definitions (given : (definitions depth).Gives text values rest) :
    (values = [] → rest = text) ∧ (values ≠ [] → skip rest = rest) := by
  have rounds := (gives_many fun given => length_lt_of_spacedDefinition given).1 given
  clear given
  induction rounds with
  | done tried =>
    rcases gives_optional.1 tried with ⟨_, -, some⟩ | ⟨-, -, same⟩
    · cases some
    · exact ⟨fun _ => same, fun some => absurd rfl some⟩
  | @more _ _ _ _ values tried _ ih =>
    refine ⟨fun none => absurd none (by simp), fun _ => ?_⟩
    rcases gives_optional.1 tried with ⟨_, reads, -⟩ | ⟨-, none, -⟩
    · obtain ⟨place, -, rfl⟩ := gives_spacedDefinition.1 reads
      by_cases last : values = []
      · rw [ih.1 last, skip_skip]
      · exact ih.2 last
    · cases none

/-- Definitions with all places so much closer to the end of the text. -/
def closer (rest : List Char) : Definition Nat → Definition Nat :=
  Definition.map (· - rest.length)

/-- The text up to the place where reading stops is read as the same definitions, and nothing of it is
left. All places lie inside that text. -/
theorem exists_gives_consumed (given : (definitions depth).Gives text values rest) :
    ∃ consumed, text = consumed ++ rest ∧
      (definitions depth).Gives consumed (values.map (closer rest)) [] ∧
        (Document.ofDefinitions values).Placed fun place =>
          rest.length < place ∧ place ≤ text.length := by
  obtain ⟨stopped, skipped⟩ := stop_definitions given
  obtain ⟨lexemes, after, lexes, spelled, same⟩ := spelled_definitions given
  by_cases none : values = []
  · subst none
    obtain rfl := stopped rfl
    have nothing : (Document.ofDefinitions ([] : List (Definition Nat))).Placed fun place =>
        rest.length < place ∧ place ≤ rest.length := Document.placed_ofDefinitions.2 (by simp)
    obtain ⟨left, reads, -⟩ : ∃ left, (definitions depth).Gives [] [] left ∧ skip left = [] :=
      gives_definitions .nil (lexes_nil.2 rfl) rfl
    obtain rfl := (stop_definitions reads).1 rfl
    exact ⟨[], rfl, reads, nothing⟩
  · have some : lexemes ≠ [] := by
      cases spelled with
      | nil => exact absurd rfl none
      | cons one _ => simp [one.ne_nil]
    rw [skipped none] at same
    obtain ⟨last, rfl⟩ : rest <:+ after := same ▸ skip_suffix after
    obtain ⟨consumed, rfl⟩ := (List.suffix_append last rest).trans lexes.suffix
    have respells : Respelling true true depth depth (Lexeme.before rest) (· - rest.length) :=
      ⟨fun _ => rfl, fun _ => rfl, fun _ => rfl, fun _ apart => apart, id, Nat.le_refl depth⟩
    have shorter := lexes.truncate (lexes.uncut some same.symm)
    obtain ⟨ends, -⟩ : skip last = [] ∧ _ := skip_of_append same.symm
    obtain ⟨left, reads, nothing⟩ := gives_definitions (spelled.respelled respells) shorter ends
    have stable := (stop_definitions reads).2 (by simpa using none)
    obtain rfl : left = [] := stable.symm.trans nothing
    refine ⟨consumed, rfl, reads, spelled.placed fun lexeme mem => ?_⟩
    have bounds := lexes.left_bounds lexeme mem
    rw [List.length_append] at bounds
    omega

end Reader

section Stop

variable {limit : Int} {source : List Char} {stop : SoftStop}

/-- A document is read exactly if its definitions are. -/
theorem exists_readDefinitions_iff {document : Document Position} {rest : List Char} :
    (∃ noted, readDefinitions limit source = .ok ⟨document, rest, noted⟩) ↔
      ∃ definitions, (Reader.definitions limit.toNat).Gives source definitions rest ∧
        document = (Document.ofDefinitions definitions).map (positionIn source 0) := by
  have sorted : ∀ {value place}, (Reader.document limit.toNat).Gives source value place ↔
      ∃ definitions, (Reader.definitions limit.toNat).Gives source definitions place ∧
        value = Document.ofDefinitions definitions := Reader.gives_map
  constructor
  · rintro ⟨noted, read⟩
    simp only [readDefinitions] at read
    cases opening : Reader.document limit.toNat source with
    | fail failure left best => simp [opening] at read
    | ok value left best =>
      obtain ⟨definitions, given, rfl⟩ := sorted.1 ⟨best, opening⟩
      rw [opening] at read
      simp only [Except.ok.injEq, SoftStop.mk.injEq] at read
      obtain ⟨rfl, rfl, -⟩ := read
      exact ⟨definitions, given, rfl⟩
  · rintro ⟨definitions, given, rfl⟩
    obtain ⟨noted, opening⟩ := sorted.2 ⟨definitions, given, rfl⟩
    exact ⟨noted, by rw [readDefinitions, opening]⟩

end Stop

end ThriftIdl
