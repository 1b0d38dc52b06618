import ThriftIdl.Reader.Source
import ThriftIdl.Token.Source

/-!
# Manners of reading

A text can be read directly, strictly or up to the first place where no definition matches, or
over tokens. What all manners give is a document; a text that is not accepted is refused in the
words of the manner that was chosen.
-/
namespace ThriftIdl

/-- The nesting limit that holds when none is asked for. -/
def standardLimit : Int := 64

/-- The ways to read a text as a whole. -/
inductive Manner where
  /-- All of the text must consist of definitions. -/
  | strict
  /-- Reading stops softly at the first place where no definition matches. -/
  | soft
  /-- The text is read over tokens. -/
  | tokens
deriving DecidableEq, Repr

/-- Why a text is not accepted. -/
inductive Rejected where
  /-- Direct reading failed. -/
  | raised (raised : Raised)
  /-- Reading over tokens failed. -/
  | refusal (refusal : Refusal)

/-- Whether a text is not accepted because containers are nested beyond the limit. -/
def Rejected.isNesting : Rejected → Bool
  | .raised found => found.isNesting
  | .refusal (.invalid (.tooDeep _) _) => true
  | .refusal _ => false

/-- The document of a text. -/
def Manner.read (manner : Manner) (limit : Int) (source : List Char) :
    Except Rejected (Document Position) :=
  match manner with
  | .strict => (readStrictly limit source).mapError .raised
  | .soft => ((readDefinitions limit source).map SoftStop.document).mapError .raised
  | .tokens => (readGrammatically limit source).mapError .refusal

end ThriftIdl
