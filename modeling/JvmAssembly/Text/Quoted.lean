/-
JvmAssembly/Text/Quoted.lean

Texts as they are quoted in messages: between double quotes, with a backslash
before a quote or a backslash, short escapes for NUL, tab, carriage return and
line feed, and a code point that cannot be seen on its own written as its number
in braces.  A surrogate is always written as its number.

`isHidden` says which characters are not shown: controls, format characters,
separators other than the space, private use characters and marks that extend the
character in front of them.  Its table is a part of that of Unicode.
-/
import JvmAssembly.Text.CodePoint

namespace JvmAssembly

namespace Quoted

/-- Ranges of characters that are written as their number, both ends included: the controls,
the separators, private use, and the format characters and marks that are common to scripts.

The list is not complete.  Left out are the marks of single scripts (from the last Hebrew
points on, and for example `U+0901` of Devanagari), their format characters outside the basic
plane (`U+110BD`, `U+13430` and others) and the code points that are not assigned, of which
there are fewer with each version of Unicode.  A character that is left out is shown as it
stands.  Nothing but the wording of messages that quote a text depends on it. -/
def hiddenRanges : List (Nat × Nat) :=
  [(0x0000, 0x001F), (0x007F, 0x00A0), (0x00AD, 0x00AD), (0x0300, 0x036F), (0x0483, 0x0489),
    (0x0591, 0x05BD), (0x0600, 0x0605), (0x0610, 0x061A), (0x061C, 0x061C), (0x064B, 0x065F),
    (0x06DD, 0x06DD), (0x070F, 0x070F), (0x0890, 0x0891), (0x08E2, 0x08E2), (0x1680, 0x1680),
    (0x180B, 0x180F), (0x1AB0, 0x1ACE), (0x1DC0, 0x1DFF), (0x2000, 0x200F), (0x2028, 0x202F),
    (0x205F, 0x206F), (0x20D0, 0x20F0), (0x3000, 0x3000), (0x302A, 0x302F), (0x3099, 0x309A),
    (0xE000, 0xF8FF), (0xFE00, 0xFE0F), (0xFE20, 0xFE2F), (0xFEFF, 0xFEFF), (0xFFF9, 0xFFFB),
    (0xFFFE, 0xFFFF), (0x1D173, 0x1D17A), (0xE0000, 0x10FFFF)]

/-- Whether a character is written as its number. -/
def isHidden (c : Char) : Bool :=
  hiddenRanges.any fun (first, last) => first ≤ c.toNat && c.toNat ≤ last

/-- A code point written as its number, in hexadecimal and in braces. -/
def numbered (n : Nat) : List Char :=
  ['\\', 'u', '\x7b'] ++ Nat.toDigits 16 n ++ ['\x7d']

/-- One character of a quoted text. -/
def quotedChar (c : Char) : List Char :=
  if c = '"' then ['\\', '"']
  else if c = '\\' then ['\\', '\\']
  else if c = '\x00' then ['\\', '0']
  else if c = '\t' then ['\\', 't']
  else if c = '\r' then ['\\', 'r']
  else if c = '\n' then ['\\', 'n']
  else if isHidden c then numbered c.toNat
  else [c]

/-- One code point of a quoted text. -/
def quotedPoint : CodePoint → List Char
  | .char c => quotedChar c
  | .surrogate index => numbered (CodePoint.surrogate index).toNat

end Quoted

/-- A content as it is quoted in messages. -/
def Content.quoted (content : Content) : String :=
  String.ofList ('"' :: content.flatMap Quoted.quotedPoint ++ ['"'])

/-- A string as it is quoted in messages. -/
def quoted (text : String) : String :=
  (Content.ofString text).quoted

end JvmAssembly
