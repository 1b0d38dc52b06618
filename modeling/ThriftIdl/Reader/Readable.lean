import ThriftIdl.Reader.Lexical

/-!
# What tokens can be read off

The productions of the language need no more of their input than that tokens can be read off it,
one after the other. So they are written for whatever offers that (`Readable`), and in the first
place for texts.
-/
namespace ThriftIdl

/-- An input that tokens can be read off. A reader of a token that fails stays where it is. -/
class Readable (ι : Type) extends Input ι where
  /-- A literal; its value is the text between the quotes. -/
  literal : Reader ι String
  /-- A name. -/
  name : Reader ι String
  /-- A comma or a semicolon. -/
  listSeparator : Reader ι Char
  /-- A comment; its value is the text without the marks. -/
  comment : Reader ι String
  /-- A run of blanks. -/
  blanks : Reader ι String
  /-- At least one blank or comment, and all that follow it. -/
  separator : Reader ι Unit
  /-- All blanks and comments that follow, and whether there are any. -/
  skipSeparator : Reader ι Bool
  /-- One given character. -/
  character (wanted : Char) (production : String) : Reader ι Unit
  /-- A given keyword that is not the beginning of a longer name. -/
  keyword (word production : String) : Reader ι Unit
  /-- The first of some keywords that stands here; its value is what the keyword stands for. -/
  oneOf {α : Type} (reason : Reason) (words : List (String × α)) : Reader ι α
  /-- The scope of a namespace. -/
  namespaceScope : Reader ι String
  /-- An integer of 64 bits. -/
  integer : Reader ι Int
  /-- A number as a double. -/
  double : Reader ι Double
  /-- A number with a fraction or an exponent as a double. -/
  strictDouble : Reader ι Double

instance : Readable (List Char) where
  literal := Lexical.literal
  name := Lexical.name
  listSeparator := Lexical.listSeparator
  comment := Lexical.comment
  blanks := Lexical.blanks
  separator := Lexical.separator
  skipSeparator := Lexical.skipSeparator
  character := Lexical.character
  keyword := Lexical.keyword
  oneOf := Lexical.oneOf
  namespaceScope := Lexical.namespaceScope
  integer := Lexical.integer
  double := Lexical.double
  strictDouble := Lexical.strictDouble

end ThriftIdl
