import ThriftIdl.Token.Lexer

/-!
# What may follow a token

After each token the grammar leaves some terminals open, and the next token is sought among these.
Where a token ends a phrase, what may follow the phrase is open in all places where the phrase may
stand, so that a word is a keyword there even if this place has no use for the keyword.
-/
namespace ThriftIdl.Follow

open Terminal

/-- The keywords that begin definitions. -/
def definition : Expected := Keyword.definitions.map keyword

/-- The base types. -/
def baseType : Expected := BaseType.all.map fun type => keyword (.base type)

/-- The keywords of container types. -/
def container : Expected := [keyword .map, keyword .set, keyword .list]

/-- What may begin a type that gets a second name. -/
def definitionType : Expected := baseType ++ container

/-- What may begin a type. -/
def type : Expected := definitionType ++ [identifier]

/-- What may begin a constant. -/
def constant : Expected :=
  [identifier, literal, double, integer, mark .leftSquare, mark .leftBrace]

/-- What may begin a field after its number. -/
def numberedField : Expected := [keyword .required, keyword .optional] ++ type

/-- What may begin a field. -/
def field : Expected := integer :: numberedField

/-- What may begin a function after the word for no answer. -/
def onewayFunction : Expected := keyword .void :: type

/-- What may begin a function. -/
def function : Expected := keyword .oneway :: onewayFunction

/-- The list separators. -/
def separator : Expected := [mark .comma, mark .semicolon]

/-- The brackets that close a body or a list in which constants, fields or functions stand. -/
def closing : Expected := [mark .rightBrace, mark .rightParen, mark .rightSquare]

/-- What may follow a constant anywhere. -/
def afterConstant : Expected :=
  mark .colon :: (constant ++ field ++ definition ++ separator ++ closing)

/-- What may follow a list separator anywhere. -/
def afterSeparator : Expected := constant ++ field ++ function ++ definition ++ closing

/-- What may follow a type anywhere. -/
def afterType : Expected := [identifier, mark .comma, mark .moreThan]

/-- What may follow the bracket that closes a list type. -/
def afterListType : Expected := keyword .cppType :: afterType

/-- What may follow the name of a type of another language. -/
def afterCppType : Expected := mark .lessThan :: afterType

/-- What may follow the name of a field. -/
def afterFieldName : Expected :=
  [mark .equal, mark .rightBrace, mark .rightParen] ++ separator ++ field

/-- What may follow the number of a value of an enumeration. -/
def afterEnumNumber : Expected := [identifier, mark .rightBrace] ++ separator

/-- What may follow the name of a value of an enumeration. -/
def afterEnumName : Expected := mark .equal :: afterEnumNumber

/-- What may follow the exceptions of a function. -/
def afterThrows : Expected := mark .rightBrace :: (function ++ separator)

/-- What may follow the parameters of a function. -/
def afterParameters : Expected := keyword .throws :: afterThrows

/-- What may follow the second name of a type. -/
def afterAlias : Expected := definition ++ separator

end ThriftIdl.Follow
