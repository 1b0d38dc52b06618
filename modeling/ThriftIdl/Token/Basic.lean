import ThriftIdl.Failure
import ThriftIdl.Vocabulary

/-!
# Tokens

The second reader works on tokens. A terminal is a kind of token; a token is a piece of the text
with its terminal and its place, told by the number of characters left at its start. A text is
rejected for its tokens, with the place of one of them, or for what they mean.
-/
namespace ThriftIdl

/-- The words with a meaning of their own. -/
inductive Keyword where
  /-- Begins an inclusion. -/
  | inclusion
  /-- Begins an inclusion of a header. -/
  | cppInclusion
  /-- Begins a namespace. -/
  | space
  /-- Begins a second name for a type. -/
  | typedef
  /-- Begins a constant. -/
  | const
  /-- Begins an enumeration. -/
  | enum
  /-- Begins a struct. -/
  | struct
  /-- Begins a union. -/
  | union
  /-- Begins an exception. -/
  | exception
  /-- Begins a service. -/
  | service
  /-- Precedes the name of an extended service. -/
  | extending
  /-- Precedes a function whose caller waits for no answer. -/
  | oneway
  /-- Stands for no result. -/
  | void
  /-- Precedes the exceptions of a function. -/
  | throws
  /-- Precedes a field that must be set. -/
  | required
  /-- Precedes a field that may be left out. -/
  | optional
  /-- Precedes the name of a type of another language. -/
  | cppType
  /-- Begins a map type. -/
  | map
  /-- Begins a set type. -/
  | set
  /-- Begins a list type. -/
  | list
  /-- A base type. -/
  | base (type : BaseType)
deriving DecidableEq, Repr

namespace Keyword

/-- The keywords that begin definitions. -/
def definitions : List Keyword := [
  inclusion, cppInclusion, space, typedef, const, enum, struct, union, exception, service]

/-- The keywords other than base types. -/
def structural : List Keyword :=
  definitions ++ [extending, oneway, void, throws, required, optional, cppType, map, set, list]

/-- All keywords. -/
def all : List Keyword := structural ++ BaseType.all.map base

/-- The text of a keyword. -/
def text : Keyword → String
  | inclusion => "include"
  | cppInclusion => "cpp_include"
  | space => "namespace"
  | typedef => "typedef"
  | const => "const"
  | enum => "enum"
  | struct => "struct"
  | union => "union"
  | exception => "exception"
  | service => "service"
  | extending => "extends"
  | oneway => "oneway"
  | void => "void"
  | throws => "throws"
  | required => "required"
  | optional => "optional"
  | cppType => "cpp_type"
  | map => "map"
  | set => "set"
  | list => "list"
  | base type => type.keyword

end Keyword

/-- The single characters that are tokens. -/
inductive Mark where
  /-- The sign before a value. -/
  | equal
  /-- The bracket that opens a body. -/
  | leftBrace
  /-- The bracket that closes a body. -/
  | rightBrace
  /-- The sign after a key or a number. -/
  | colon
  /-- The bracket that opens a list of fields. -/
  | leftParen
  /-- The bracket that closes a list of fields. -/
  | rightParen
  /-- The bracket that opens the types of a container. -/
  | lessThan
  /-- The bracket that closes the types of a container. -/
  | moreThan
  /-- A list separator, and what separates the types of a map. -/
  | comma
  /-- The bracket that opens a list. -/
  | leftSquare
  /-- The bracket that closes a list. -/
  | rightSquare
  /-- A list separator. -/
  | semicolon
  /-- The scope of all languages. -/
  | star
deriving DecidableEq, Repr

namespace Mark

/-- All marks. -/
def all : List Mark := [
  equal, leftBrace, rightBrace, colon, leftParen, rightParen, lessThan, moreThan, comma,
  leftSquare, rightSquare, semicolon, star]

/-- The character of a mark. -/
def char : Mark → Char
  | equal => '='
  | leftBrace => '\x7b'
  | rightBrace => '\x7d'
  | colon => ':'
  | leftParen => '('
  | rightParen => ')'
  | lessThan => '<'
  | moreThan => '>'
  | comma => ','
  | leftSquare => '['
  | rightSquare => ']'
  | semicolon => ';'
  | star => '*'

/-- The name of a mark in capitals. -/
def title : Mark → String
  | equal => "EQUAL"
  | leftBrace => "LBRACE"
  | rightBrace => "RBRACE"
  | colon => "COLON"
  | leftParen => "LPAR"
  | rightParen => "RPAR"
  | lessThan => "LESSTHAN"
  | moreThan => "MORETHAN"
  | comma => "COMMA"
  | leftSquare => "LSQB"
  | rightSquare => "RSQB"
  | semicolon => "SEMICOLON"
  | star => "STAR"

end Mark

/-- The kinds of tokens. -/
inductive Terminal where
  /-- A keyword. -/
  | keyword (word : Keyword)
  /-- A single character. -/
  | mark (mark : Mark)
  /-- A name. -/
  | identifier
  /-- A literal. -/
  | literal
  /-- A number with a fraction or an exponent. -/
  | double
  /-- An integer. -/
  | integer
  /-- The end of the text. -/
  | ending
deriving DecidableEq, Repr

/-- The name of a terminal. -/
def Terminal.title : Terminal → String
  | keyword word => String.ofList (word.text.toList.map Char.toUpper)
  | mark symbol => symbol.title
  | identifier => "IDENTIFIER"
  | literal => "LITERAL"
  | double => "DOUBLE_CONSTANT"
  | integer => "INT_CONSTANT"
  | ending => "$END"

/-- A piece of the text. -/
structure Token where
  /-- Its kind. -/
  terminal : Terminal
  /-- Its text. -/
  text : List Char
  /-- The number of characters left at its start. The end of the text has the place of the token
  before it. -/
  left : Nat
deriving DecidableEq, Repr

/-- Why the meaning of a text is not admitted. -/
inductive Invalid where
  /-- Containers are nested beyond the limit. -/
  | tooDeep (production : String)
  /-- An integer has more than 64 bits. -/
  | integerTooLarge (text : List Char)
  /-- An integer has more digits than can be converted. -/
  | tooManyDigits (count : Nat)
  /-- A namespace has a scope that is none. -/
  | unknownScope (name : String)
deriving DecidableEq, Repr

/-- What is said of an inadmissible meaning, under a nesting limit. -/
def Invalid.message (limit : Int) : Invalid → String
  | .tooDeep production => nestingMessage limit production
  | .integerTooLarge text => overflowMessage text
  | .tooManyDigits count => digitsMessage count
  | .unknownScope name => "Unknown namespace scope: " ++ name

/-- Why a text is rejected. -/
inductive Rejection where
  /-- A token stands where it may not. -/
  | unexpected (token : Token)
  /-- A character begins no token. -/
  | noTerminal (char : Char) (left : Nat)
  /-- The meaning of the text is not admitted. -/
  | invalid (reason : Invalid)
deriving DecidableEq, Repr

/-- A rejection for readers. -/
inductive Refusal where
  /-- The text is refused at a position. -/
  | at (position : Position) (kind : Rejection) (message : String)
  /-- The text is refused for its meaning, under a nesting limit. -/
  | invalid (reason : Invalid) (limit : Int)
deriving DecidableEq, Repr

/-- What a refusal says. -/
def Refusal.message : Refusal → String
  | .at _ _ message => message
  | .invalid reason limit => reason.message limit

/-- A rejection of a text with the position that it is about. -/
def Refusal.ofRejection (source : List Char) (limit : Int) (rejection : Rejection) : Refusal :=
  let position (left : Nat) : Position :=
    (LineTable.ofText source).position (source.length - left : Nat)
  let number (n : Int) : String := String.ofList (Text.integer n)
  match rejection with
  | .unexpected token =>
    let place := position token.left
    .at place rejection ("Unexpected token Token('" ++ token.terminal.title ++ "', " ++
      shown token.text ++ ") at line " ++ number place.line ++ ", column " ++
      number place.column ++ ".")
  | .noTerminal char left =>
    let place := position left
    .at place rejection ("No terminal matches '" ++ String.singleton char ++
      "' in the current parser context, at line " ++ number place.line ++ " col " ++
      number place.column)
  | .invalid reason => .invalid reason limit

end ThriftIdl
