import ThriftIdl.Proofs.Alike.Basic
import ThriftIdl.Proofs.Reader.Lexemes

/-!
# Taking tokens off texts that are alike

Each reader of a single token cuts it off a piece, whatever follows the piece (`cuts_name`,
`cuts_integer` and so on). Skipping what stands between tokens leads from texts that are alike to
texts that are alike. Only at the end of a text it matters whether something can be skipped: one text
may end with a filler and the other one without. So what must be separated from something is
looked at together with what must follow the separator (`corresponds_separator_bind`).
-/
namespace ThriftIdl

open Text

namespace Reader

section Tokens

variable {α : Type} {reason : Reason} {cut : List Char → Option (α × List Char)} {runs : Nat → Prop}

end Tokens

section Separators

variable {α β δ : Type} {view : β → δ} {text text' : List Char} {runs : Nat → Prop}

/-- Skipping leaves what stands behind all blanks and comments. -/
theorem skipSeparator_apply : (Readable.skipSeparator : Reader (List Char) Bool) text =
    .ok (hasGap text) (ThriftIdl.skip text) (Lexical.unclosedNote (ThriftIdl.skip text)) := by
  show Lexical.skipSeparator text = _
  rw [Lexical.skipSeparator, hasGap]
  cases found : afterSeparator? text with
  | none => simp [skip_of_none found]
  | some rest => simp [skip_of_some found]

end Separators

end Reader

end ThriftIdl
