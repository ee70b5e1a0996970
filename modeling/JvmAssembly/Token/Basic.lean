/-
JvmAssembly/Token/Basic.lean

Tokens: a kind, a content and the location of the first character.  Four
characters are operators, and each of them is a token of its own.

Which bytes of a text a token was cut from is not a part of it, since nobody who
reads tokens asks for them; the scanner gives the span beside the token.
-/
import JvmAssembly.Text.CodePoint
import JvmAssembly.Location

namespace JvmAssembly

/-- Whether a character is one of the operators. -/
def isOperatorChar (c : Char) : Bool :=
  c == '{' || c == '}' || c == ':' || c == ','

/-- What a token is. -/
inductive TokenKind where
  | string
  | number
  | identifier
  | operator
deriving DecidableEq, Repr

/-- The name of a kind of token. -/
def TokenKind.name : TokenKind → String
  | string => "string"
  | number => "number"
  | identifier => "identifier"
  | operator => "operator"

/-- A piece of source text that means something.  A string literal is located at its
opening quote, and its content has the escapes resolved. -/
structure Token where
  kind : TokenKind
  content : Content
  location : Location
deriving DecidableEq, Repr

namespace Token

/-- The characters of the content, with the replacement character for each surrogate. -/
def chars (token : Token) : List Char :=
  token.content.chars

/-- The content as a string, with the replacement character for each surrogate. -/
def text (token : Token) : String :=
  token.content.text

/-- Whether the content is exactly the given text. -/
def is (token : Token) (text : String) : Bool :=
  token.content == Content.ofString text

/-- Whether this is the operator `c`. -/
def isOperator (token : Token) (c : Char) : Bool :=
  token.kind == .operator && token.content.startsWith c

/-- The same name as an identifier, since a number may serve as a name. -/
def toIdentifier (token : Token) : Token :=
  { token with kind := .identifier }

end Token

end JvmAssembly
