/-
JvmAssembly/Text/CodePoint.lean

Code points, and the contents of tokens as sequences of them.

A `\uXXXX` escape in a string literal may name a surrogate, which is a code point
but no character.  Contents are therefore lists of `CodePoint`s and not `String`s:
a surrogate stays what it is, and two neighbouring surrogates are never joined
into one character.  `Content.text` is the view as an ordinary string, in which
every surrogate is shown as the replacement character; `Content.ofString` is the
way back, and `text_ofString` says that nothing is lost on contents without
surrogates.
-/

namespace JvmAssembly

/-- A Unicode code point: a character, or one of the surrogates `U+D800` to `U+DFFF`. -/
inductive CodePoint where
  | char (c : Char)
  | surrogate (index : Fin 0x800)
deriving DecidableEq, Repr

namespace CodePoint

/-- The number of a code point. -/
def toNat : CodePoint → Nat
  | char c => c.toNat
  | surrogate index => 0xD800 + index.val

/-- The code point with the given number, if there is one. -/
def ofNat? (n : Nat) : Option CodePoint :=
  if h : n.isValidChar then
    some (char (Char.ofNatAux n h))
  else if h : 0xD800 ≤ n ∧ n < 0xE000 then
    some (surrogate ⟨n - 0xD800, by omega⟩)
  else
    none

/-- Shows a surrogate as the replacement character. -/
def toChar : CodePoint → Char
  | char c => c
  | surrogate _ => '\uFFFD'

/-- Whether this is one of the surrogates. -/
def isSurrogate : CodePoint → Bool
  | char _ => false
  | surrogate _ => true

end CodePoint

/-- What a token stands for: its characters with all escapes resolved. -/
abbrev Content := List CodePoint

namespace Content

/-- The content that consists of the given characters. -/
def ofChars (cs : List Char) : Content :=
  cs.map CodePoint.char

/-- The content that consists of the characters of a string. -/
def ofString (s : String) : Content :=
  ofChars s.toList

/-- The characters of a content, with the replacement character for each surrogate. -/
def chars (content : Content) : List Char :=
  content.map CodePoint.toChar

/-- The content as a string, with the replacement character for each surrogate. -/
def text (content : Content) : String :=
  String.ofList content.chars

/-- The string that a content is; `none` if there is a surrogate in it. -/
def string? (content : Content) : Option String :=
  if content.any CodePoint.isSurrogate then none else some content.text

/-- Whether the first code point is the character `c`. -/
def startsWith (content : Content) (c : Char) : Bool :=
  content.head? == some (.char c)

@[simp] theorem text_ofString (s : String) : (ofString s).text = s := by
  simp [text, chars, ofString, ofChars, Function.comp_def, CodePoint.toChar]

end Content

end JvmAssembly
