/-
JvmAssembly/Token/Scan.lean

The second step of scanning: from pieces to tokens.

A cursor moves over the sources of the pieces.  Operators, words and string
literals become lexemes, which are tokens with the span of their source; blanks
and comments become nothing.  The span of a string literal is what stands between
its quotes.  A word is a number if it is a numeral, and an identifier otherwise.

Scanning never fails.
-/
import JvmAssembly.Token.Piece
import JvmAssembly.Token.Escape

namespace JvmAssembly

/-- A part of a text, from the byte `start` to before the byte `stop`. -/
structure Span where
  start : Nat
  stop : Nat
deriving DecidableEq, Repr

/-- A token together with where its source stands in the text. -/
structure Lexeme extends Token where
  span : Span
deriving DecidableEq, Repr

/-- The kind of the token that a word is. -/
def wordKind (text : List Char) : TokenKind :=
  if isNumeral text then .number else .identifier

/-- The lexeme of a piece whose source starts at the cursor. -/
def Piece.lexeme? (source : String) (cursor : Cursor) : Piece → Option Lexeme
  | blank _ => none
  | comment _ => none
  | operator c =>
    some
      { kind := .operator
        content := [.char c]
        location := cursor.location source
        span := ⟨cursor.offset, (cursor.step c).offset⟩ }
  | word text =>
    some
      { kind := wordKind text
        content := Content.ofChars text
        location := cursor.location source
        span := ⟨cursor.offset, (cursor.advance text).offset⟩ }
  | literal body _ =>
    let inside := cursor.step '"'
    some
      { kind := .string
        content := Escape.decode body
        location := cursor.location source
        span := ⟨inside.offset, (inside.advance body).offset⟩ }

/-- The lexemes of pieces whose sources follow each other from the cursor on. -/
def lexemes (source : String) (cursor : Cursor) : List Piece → List Lexeme
  | [] => []
  | piece :: rest =>
    (piece.lexeme? source cursor).toList ++ lexemes source (cursor.advance piece.source) rest

/-- The lexemes of a text, in order. -/
def scan (source text : String) : List Lexeme :=
  lexemes source Cursor.start (pieces text.toList)

end JvmAssembly
