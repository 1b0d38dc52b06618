import ThriftIdl.Proofs.Canonical.Accepted
import ThriftIdl.Proofs.Passing.Source

/-!
# Canonical text over tokens

What is read over tokens may have names that are keywords elsewhere. The canonical text puts a comma
after each member of a row and leaves out the names of types of another language, so that such a name
may come to stand where it is a keyword. Unless it does, the canonical text is read over tokens again,
and gives the document back (`readGrammatically_idl`).
-/
namespace ThriftIdl

variable {π : Type} {limit : Int} {source : List Char}

/-- A document that can be written, and in which no name is a keyword where it stands in the canonical
text, is read back from its canonical text over tokens. -/
theorem Document.Representable.exists_readByTokens {document : Document π}
    (representable : document.Representable) (shallow : document.depth ≤ limit.toNat)
    (settled : document.Settled) (clear : document.Clear) :
    ∃ text read, document.idl = .ok text ∧ readByTokens limit text = .ok read ∧
      read.map content = document.map content := by
  obtain ⟨text, lexemes, rest, reads, idl, lexes, ends, loose, spelled, same⟩ :=
    representable.exists_lexes shallow
  have settled' : (Document.ofDefinitions reads).Settled := by
    rwa [← settled_map content, same, settled_map]
  have clear' : (Document.ofDefinitions reads).Clear := by
    rwa [← clear_map content, same, clear_map]
  exact ⟨text, _, idl, readByTokens_of_ended lexes ends loose spelled settled' clear'
    fun never => Bool.noConfusion never, same⟩

/-- The canonical text of a document that is read over tokens is read over tokens again within the same
limit, and gives the document back but for the places, if its doubles are finite, no member but the
first of its row begins with a name that is a keyword after a list separator, and no name after a
list type is that of a type of another language. -/
theorem readGrammatically_idl {document : Document Position}
    (accepted : readGrammatically limit source = .ok document)
    (finite : ∀ double ∈ document.doubles, double.isFinite) (clear : document.Clear) :
    ∃ text read, document.idl = .ok text ∧ readGrammatically limit text = .ok read ∧
      read.map content = document.map content := by
  obtain ⟨_, read, same⟩ := readGrammatically_eq_ok_iff.1 accepted
  obtain ⟨lexemes, rest, definitions, lexes, -, spelled, rfl, settled⟩ := spelled_readByTokens read
  have formed : document.WellFormed (· ≠ .nan) := by
    rw [same, Document.wellFormed_map]
    exact spelled.wellFormed lexes
  have representable : document.Representable :=
    document.wellFormed_iff.2 ⟨(document.wellFormed_iff.1 formed).1, finite⟩
  have shallow : document.depth ≤ limit.toNat := by
    rw [same, Document.depth_map]
    exact spelled.depth_le
  have settled' : document.Settled := by rwa [same, Document.settled_map]
  obtain ⟨text, again, idl, accepted', contents⟩ :=
    representable.exists_readByTokens shallow settled' clear
  refine ⟨text, _, idl, readGrammatically_eq_ok_iff.2 ⟨again, accepted', rfl⟩, ?_⟩
  rw [Document.map_map]
  exact contents

/-- A list separator makes a keyword of a name. -/
example : (readGrammatically 0 "enum E { A struct }".toList).isOk ∧
    ¬ (readGrammatically 0 "enum E { A, struct }".toList).isOk := by decide +kernel

/-- A struct with a field whose type and name are the word for structs. -/
def structOfStruct : Document Position :=
  .ofDefinitions [.record .struct
    ⟨"S", [⟨.named "struct", "struct", none, .unstated, none, ⟨1, 12⟩⟩], ⟨1, 1⟩⟩]

/-- The canonical text of a struct is read again in which a word of the language is a type and a name. -/
theorem readGrammatically_idl_structOfStruct :
    readGrammatically 0 "struct S { struct struct }".toList = .ok structOfStruct ∧
    (∀ double ∈ structOfStruct.doubles, double.isFinite) ∧ structOfStruct.Clear ∧
    ∃ text read, structOfStruct.idl = .ok text ∧ readGrammatically 0 text = .ok read ∧
      read.map content = structOfStruct.map content := by
  have accepted : readGrammatically 0 "struct S { struct struct }".toList = .ok structOfStruct := by
    have spelled : "struct S { struct struct }".toList =
        ['s', 't', 'r', 'u', 'c', 't', ' ', 'S', ' ', '\x7b', ' ', 's', 't', 'r', 'u', 'c', 't',
          ' ', 's', 't', 'r', 'u', 'c', 't', ' ', '\x7d'] := by decide +kernel
    rw [spelled]
    with_unfolding_all rfl
  have finite : ∀ double ∈ structOfStruct.doubles, double.isFinite := by
    intro double mem
    cases mem
  have clear : structOfStruct.Clear := by
    refine Document.clear_ofDefinitions.2 (List.forall_mem_singleton.2 ⟨?_, ?_, ?_⟩)
    · exact List.forall_mem_singleton.2 fun _ list => by cases list
    · exact List.forall_mem_singleton.2 fun _ none => by cases none
    · exact fun _ none => by cases none
  exact ⟨accepted, finite, clear, readGrammatically_idl accepted finite clear⟩

end ThriftIdl
