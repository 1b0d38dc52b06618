import ThriftIdl.Main
import ThriftIdl.Proofs.Agreement
import ThriftIdl.Proofs.Canonical.Tokens
import ThriftIdl.Reader.Session
import ThriftIdl.Tree.Comparison
import ThriftIdl.Tree.Document
import ThriftIdl.Proofs.Joined
import ThriftIdl.Proofs.Alike.Source
import ThriftIdl.Proofs.Limit
import ThriftIdl.Proofs.Grammar.Placed
import ThriftIdl.Proofs.Position
import ThriftIdl.Proofs.Text.Skipped
import ThriftIdl.Proofs.Text.Truncated
import ThriftIdl.Proofs.SoftStop
import ThriftIdl.Proofs.Reader.Confined
import ThriftIdl.Proofs.Reader.Curtailed
import ThriftIdl.Proofs.Reader.Productions
import ThriftIdl.Proofs.Session
import ThriftIdl.Proofs.Fuzz.Corpus
import ThriftIdl.Proofs.Fuzz.Generator
import ThriftIdl.Proofs.Fuzz.Journal
import ThriftIdl.Proofs.Fuzz.Mutation
import ThriftIdl.Proofs.Check
import ThriftIdl.Proofs.Furthest
import ThriftIdl.Proofs.Bodies
import ThriftIdl.Proofs.Faithful
import ThriftIdl.Proofs.Json.Document
import ThriftIdl.Proofs.Branches
import ThriftIdl.Proofs.Lines
import ThriftIdl.Proofs.PlainData
import ThriftIdl.Proofs.Rising
import ThriftIdl.Proofs.Grouping
import ThriftIdl.Proofs.Progress
import ThriftIdl.Proofs.Independent
import ThriftIdl.Proofs.Separators
import ThriftIdl.Proofs.Words
