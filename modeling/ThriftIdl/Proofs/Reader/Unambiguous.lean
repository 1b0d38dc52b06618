import ThriftIdl.Proofs.Grammar.Parting
import ThriftIdl.Proofs.Grammar.Respelling
import ThriftIdl.Proofs.Places
import ThriftIdl.Proofs.Reader.Source
import ThriftIdl.Proofs.Text.Separated

/-!
# Lexemes spell one document

Lexemes spell at most one document (`DefinitionsSpelling.document_unique`). They are written with
blanks between them, each at twice its place, so that all of them are apart: that text is read
directly as every document that they spell, and a reader gives one document only.
-/
namespace ThriftIdl

open Text

/-- The texts of lexemes, each beginning at twice its place from the end. -/
def spread : List Lexeme → List Char
  | [] => []
  | lexeme :: lexemes =>
    lexeme.text ++ (List.replicate (2 * lexeme.left - lexeme.text.length - (spread lexemes).length)
      ' ' ++ spread lexemes)

/-- A lexeme at twice its place, apart from what is before it. -/
def Lexeme.widened (lexeme : Lexeme) : Lexeme :=
  { lexeme with left := 2 * lexeme.left, apart := true }

/-- Lexemes may be moved to twice their places. -/
theorem respelling_widened (parted : Bool) {depth depth' : Nat} (deeper : depth ≤ depth') :
    Respelling parted false depth depth' Lexeme.widened (2 * ·) :=
  ⟨fun _ => rfl, fun _ => rfl, fun _ => rfl, fun _ _ => rfl, nofun, deeper⟩

/-- What lexemes spell whose exponents can be converted is spelled by them parted when they are moved to
twice their places, where all of them are apart. -/
theorem DefinitionsSpelling.widened {parted : Bool} {depth depth' : Nat} {lexemes : List Lexeme}
    {definitions : List (Definition Nat)}
    (spelled : DefinitionsSpelling parted depth lexemes definitions)
    (short : ∀ lexeme ∈ lexemes, lexeme.converts) (deeper : depth ≤ depth') :
    DefinitionsSpelling true depth' (lexemes.map Lexeme.widened)
      (definitions.map (Definition.map (2 * ·))) := by
  have respells := respelling_widened parted deeper
  refine (spelled.respelled respells).of_standApart (Spot.admitsAll_of_apart ?_) ?_
  · exact List.forall_mem_map.2 fun _ _ => rfl
  · exact List.forall_mem_map.2 fun lexeme mem => (respells.converts lexeme).trans (short lexeme mem)

/-- Blanks are a filler. -/
theorem filler_replicate (count : Nat) : Filler (List.replicate count ' ') := by
  induction count with
  | zero => exact .nil
  | succ count ih => exact .blank (by decide) ih

section Spread

variable {text rest : List Char} {lexemes : List Lexeme}

/-- Spread lexemes need at most twice the text. -/
theorem Lexes.length_spread_le {admits : List Char → Bool} (lexes : Lexes admits text lexemes rest) :
    (spread lexemes).length ≤ 2 * (skip text).length := by
  induction lexemes generalizing text with
  | nil => exact Nat.zero_le _
  | cons lexeme lexemes ih =>
    obtain ⟨after, here, others⟩ := lexes
    have enough := ih others
    have shorter := length_skip_le after
    have place := congrArg List.length here.spelled
    rw [List.length_append] at place
    rw [spread, List.length_append, List.length_append, List.length_replicate, here.left]
    omega

/-- Spread lexemes are lexemes of their text. -/
theorem Lexes.widened {gap : List Char} (lexes : Lexes takesExponent text lexemes rest)
    (filler : Filler gap) (some : gap ≠ []) :
    ∃ after, Lexes takesExponent (gap ++ spread lexemes) (lexemes.map Lexeme.widened) after ∧
      skip after = [] := by
  induction lexemes generalizing text gap with
  | nil =>
    refine ⟨gap, by simp [spread], ?_⟩
    simpa [skip, skipWithin] using filler.skip []
  | cons lexeme lexemes ih =>
    obtain ⟨after, here, others⟩ := lexes
    have enough := others.length_spread_le
    have shorter := length_skip_le after
    have place := congrArg List.length here.spelled
    have long := List.length_pos_iff.2 here.before.ne_nil
    rw [List.length_append] at place
    have blanks : 2 * lexeme.left - lexeme.text.length - (spread lexemes).length ≠ 0 := by
      rw [here.left]
      omega
    have some' : List.replicate (2 * lexeme.left - lexeme.text.length - (spread lexemes).length)
        ' ' ≠ [] := by
      simpa using blanks
    obtain ⟨last, lexes, ends⟩ := ih others (filler_replicate _) some'
    have closed := (filler_replicate _).closed some' (spread lexemes)
    have first := at_of_filler filler (here.before.whole.before closed)
    have width : (spread (lexeme :: lexemes)).length = 2 * lexeme.left := by
      rw [spread, List.length_append, List.length_append, List.length_replicate, here.left]
      omega
    rw [← spread, width] at first
    have apart : (!gap.isEmpty) = true := by simpa using some
    rw [apart] at first
    exact ⟨last, ⟨_, first, lexes⟩, ends⟩

end Spread

/-- Lexemes of a text whose exponents can be converted spell one document. -/
theorem DefinitionsSpelling.document_unique {text rest : List Char} {lexemes : List Lexeme}
    {parted parted' : Bool} {depth depth' : Nat} {definitions definitions' : List (Definition Nat)}
    (lexes : Lexes takesExponent text lexemes rest) (short : ∀ lexeme ∈ lexemes, lexeme.converts)
    (spelled : DefinitionsSpelling parted depth lexemes definitions)
    (spelled' : DefinitionsSpelling parted' depth' lexemes definitions') :
    Document.ofDefinitions definitions = Document.ofDefinitions definitions' := by
  have blank : Filler [' '] := .blank (by decide) .nil
  obtain ⟨after, lexes, ends⟩ := lexes.widened blank (by simp)
  obtain ⟨_, given, -⟩ :=
    Reader.gives_definitions (spelled.widened short (Nat.le_max_left depth depth')) lexes ends
  obtain ⟨_, given', -⟩ :=
    Reader.gives_definitions (spelled'.widened short (Nat.le_max_right depth depth')) lexes ends
  have halved : ((· / 2) ∘ (2 * ·) : Nat → Nat) = id := by
    funext place
    simp
  have same := congrArg (fun read => (Document.ofDefinitions read).map (· / 2))
    (given.unique given').1
  simpa only [Document.ofDefinitions_map, Document.map_map, halved, Document.map_id] using same

end ThriftIdl
