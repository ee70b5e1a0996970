/-
JvmAssembly/Token/Escape.lean

The escapes of string literals.

A backslash and one of `n r t b f " ' \` stand for one character.  A backslash,
a `u` and four hexadecimal digits stand for the code point with that number, which
may be a surrogate.  Any other backslash stands for itself, and so does what
follows it.
-/
import JvmAssembly.Numeral.Value

namespace JvmAssembly

namespace Escape

/-- The character that a backslash and `c` stand for. -/
def single? (c : Char) : Option Char :=
  match c with
  | 'n' => some '\n'
  | 'r' => some '\r'
  | 't' => some '\t'
  | 'b' => some '\x08'
  | 'f' => some '\x0c'
  | '"' => some '"'
  | '\'' => some '\''
  | '\\' => some '\\'
  | _ => none

/-- The code point that four hexadecimal digits denote. -/
def unicode? (digits : List Char) : Option CodePoint :=
  if digits.all Numeral.isHexDigit then
    CodePoint.ofNat? (Numeral.natOfDigits 16 digits)
  else
    none

/-- The content of a string literal with the given body. -/
def decode : List Char → Content
  | [] => []
  | '\\' :: 'u' :: cs =>
    match cs with
    | a :: b :: c :: d :: rest =>
      match unicode? [a, b, c, d] with
      | some point => point :: decode rest
      -- no number: only the backslash and the `u` are taken
      | none => .char '\\' :: .char 'u' :: decode (a :: b :: c :: d :: rest)
    | cs => .char '\\' :: .char 'u' :: decode cs
  | '\\' :: c :: cs =>
    match single? c with
    | some plain => .char plain :: decode cs
    | none => .char '\\' :: .char c :: decode cs
  | c :: cs => .char c :: decode cs

end Escape

end JvmAssembly
