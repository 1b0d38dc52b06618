import ThriftIdl.Proofs.Grammar.Depth
import ThriftIdl.Proofs.Reader.Source
import ThriftIdl.Proofs.Token.Source

/-!
# The nesting limit

The direct reader counts the containers that it has opened and gives up as soon as there are too
many; the reader over tokens looks at the nesting once all is read. For both the limit decides about
nothing but the depth of the document: a text has a document under a limit exactly if it has the same
document under some limit and the document is no deeper than the limit allows (`read_iff_depth_le`).
-/
namespace ThriftIdl

variable {limit : Int} {source : List Char} {document : Document Position}

/-- A negative limit allows as little as nought. -/
theorem le_toNat_iff {depth : Nat} : depth ≤ limit.toNat ↔ (depth : Int) ≤ max limit 0 := by
  omega

/-- Direct reading under a limit is direct reading under any limit, as long as the document is not
deeper. -/
theorem readStrictly_iff_depth_le :
    readStrictly limit source = .ok document ↔
      (∃ limit', readStrictly limit' source = .ok document) ∧ (document.depth : Int) ≤ max limit 0 := by
  rw [← le_toNat_iff]
  constructor
  · intro read
    obtain ⟨lexemes, rest, definitions, -, -, spelled, rfl⟩ := readStrictly_eq_ok_iff.1 read
    exact ⟨⟨limit, read⟩, (Document.depth_map _ _).trans_le spelled.depth_le⟩
  · rintro ⟨⟨limit', read⟩, shallow⟩
    obtain ⟨lexemes, rest, definitions, lexes, ends, spelled, rfl⟩ := readStrictly_eq_ok_iff.1 read
    rw [Document.depth_map] at shallow
    exact readStrictly_eq_ok_iff.2
      ⟨lexemes, rest, definitions, lexes, ends, spelled.within shallow, rfl⟩

/-- Reading over tokens under a limit is reading over tokens under any limit, as long as the document
is not deeper. -/
theorem readGrammatically_iff_depth_le :
    readGrammatically limit source = .ok document ↔
      (∃ limit', readGrammatically limit' source = .ok document) ∧
        (document.depth : Int) ≤ max limit 0 := by
  rw [← le_toNat_iff]
  constructor
  · intro read
    obtain ⟨_, tokens, rfl⟩ := readGrammatically_eq_ok_iff.1 read
    obtain ⟨definitions, -, shallow, rfl⟩ := readByTokens_eq_ok_iff.1 tokens
    rw [Document.depth_map, Document.depth_ofDefinitions_le_iff]
    exact ⟨⟨limit, read⟩, greatest_le_iff.1 shallow⟩
  · rintro ⟨⟨limit', read⟩, shallow⟩
    obtain ⟨_, tokens, rfl⟩ := readGrammatically_eq_ok_iff.1 read
    obtain ⟨definitions, given, -, rfl⟩ := readByTokens_eq_ok_iff.1 tokens
    rw [Document.depth_map, Document.depth_ofDefinitions_le_iff, ← greatest_le_iff] at shallow
    exact readGrammatically_eq_ok_iff.2
      ⟨_, readByTokens_eq_ok_iff.2 ⟨definitions, given, shallow, rfl⟩, rfl⟩

/-- The limit is a limit on the depth of the document and on nothing else, directly as well as over
tokens. -/
theorem read_iff_depth_le (limit : Int) (source : List Char) (document : Document Position) :
    (readStrictly limit source = .ok document ↔
      (∃ limit', readStrictly limit' source = .ok document) ∧ (document.depth : Int) ≤ max limit 0) ∧
    (readGrammatically limit source = .ok document ↔
      (∃ limit', readGrammatically limit' source = .ok document) ∧
        (document.depth : Int) ≤ max limit 0) :=
  ⟨readStrictly_iff_depth_le, readGrammatically_iff_depth_le⟩

end ThriftIdl
