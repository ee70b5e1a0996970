/-
JvmAssembly/Numeral/Basic.lean

Numeric literals and their spellings.

A numeral is one of
  * a name: `nan`, `infinity`, `+infinity` or `-infinity` in any case of letters;
  * an integer, decimal (`10`, `1_000L`) or hexadecimal (`0xCAFE`, `-0x1L`);
  * a decimal floating point number (`1.5`, `.5f`, `1e-3`, `10d`);
  * a hexadecimal floating point number with a binary exponent (`0x1.8p1`).
Underscores may stand anywhere after the first digit of a decimal run, and
anywhere in a hexadecimal one.

`Numeral.parse?` takes a text apart once; everything else is read off the result:
`isFloating` and `isWide` classify it, and `JvmAssembly.Numeral.Value` computes
what it denotes.  So a text that is a numeral cannot be classified in one way and
evaluated in another.
-/

namespace JvmAssembly

/-- The base that an integer is written in. -/
inductive Radix where
  | decimal
  | hex
deriving DecidableEq, Repr

/-- The number of digits of a base. -/
def Radix.base : Radix → Nat
  | decimal => 10
  | hex => 16

/-- The floating point numbers that have names. -/
inductive NamedFloat where
  | nan
  | infinity (negative : Bool)
deriving DecidableEq, Repr

/-- A numeric literal taken apart.  Runs of digits keep their underscores, and an
exponent keeps its sign.  `single` says that an `f` follows, `long` that an `l` does. -/
inductive Numeral where
  | named (value : NamedFloat) (single : Bool)
  | integer (negative : Bool) (radix : Radix) (digits : List Char) (long : Bool)
  | decimalFloat (negative : Bool) (whole fraction : List Char) (exponent : Option (List Char))
      (single : Bool)
  | hexFloat (negative : Bool) (whole fraction exponent : List Char) (single : Bool)
deriving DecidableEq, Repr

namespace Numeral

/-! ### Characters -/

/-- Whether a character is a hexadecimal digit, of either case. -/
def isHexDigit (c : Char) : Bool :=
  c.isDigit || ('a' ≤ c && c ≤ 'f') || ('A' ≤ c && c ≤ 'F')

/-- The suffixes of a `float`. -/
def isSingleSuffix (c : Char) : Bool :=
  c == 'f' || c == 'F'

/-- The suffixes of a floating point number. -/
def isFloatSuffix (c : Char) : Bool :=
  isSingleSuffix c || c == 'd' || c == 'D'

/-- The suffixes of a `long`. -/
def isLongSuffix (c : Char) : Bool :=
  c == 'l' || c == 'L'

/-- The marks before the exponent of a decimal number. -/
def isDecimalMark (c : Char) : Bool :=
  c == 'e' || c == 'E'

/-- The marks before the binary exponent of a hexadecimal number. -/
def isBinaryMark (c : Char) : Bool :=
  c == 'p' || c == 'P'

/-! ### Cutting a text -/

/-- Cuts a text at its first character with a property, which is dropped. -/
def splitOnce (p : Char → Bool) : List Char → Option (List Char × List Char)
  | [] => none
  | c :: cs =>
    if p c then
      some ([], cs)
    else
      (splitOnce p cs).map fun (before, after) => (c :: before, after)

/-- Takes the last character off a text if it has a property. -/
def splitSuffix (p : Char → Bool) (cs : List Char) : List Char × Option Char :=
  match cs.getLast? with
  | some c => if p c then (cs.dropLast, some c) else (cs, none)
  | none => (cs, none)

/-- Takes a minus sign off the front of a text. -/
def splitSign : List Char → Bool × List Char
  | '-' :: cs => (true, cs)
  | cs => (false, cs)

/-- Takes the mark of a hexadecimal number off the front of a text. -/
def hexBody? : List Char → Option (List Char)
  | '0' :: 'x' :: cs => some cs
  | '0' :: 'X' :: cs => some cs
  | _ => none

/-! ### Runs of digits -/

/-- A decimal digit, then decimal digits and underscores. -/
def isDigitRun : List Char → Bool
  | [] => false
  | c :: cs => c.isDigit && cs.all fun d => d.isDigit || d == '_'

/-- Hexadecimal digits and underscores, or nothing. -/
def isHexRun (cs : List Char) : Bool :=
  cs.all fun c => isHexDigit c || c == '_'

/-- A run of decimal digits that may have a minus sign. -/
def isExponent (cs : List Char) : Bool :=
  isDigitRun (splitSign cs).2

/-! ### Reading a numeral -/

/-- Reads one of the names. -/
def named? (cs : List Char) : Option Numeral :=
  let (body, suffix) := splitSuffix isFloatSuffix cs
  let name := body.map Char.toLower
  let single := suffix.any isSingleSuffix
  if name = "nan".toList then some (named .nan single)
  else if name = "infinity".toList then some (named (.infinity false) single)
  else if name = "+infinity".toList then some (named (.infinity false) single)
  else if name = "-infinity".toList then some (named (.infinity true) single)
  else none

/-- Reads what follows the mark of a hexadecimal number.  With a binary exponent it
is floating point; without one, `f` and `d` are digits and only `l` is a suffix. -/
def hex? (negative : Bool) (cs : List Char) : Option Numeral :=
  match splitOnce isBinaryMark cs with
  | some (mantissa, rest) =>
    let (exponent, suffix) := splitSuffix isFloatSuffix rest
    let (whole, fraction) := (splitOnce (· == '.') mantissa).getD (mantissa, [])
    if isHexRun whole && isHexRun fraction && isExponent exponent then
      some (hexFloat negative whole fraction exponent (suffix.any isSingleSuffix))
    else
      none
  | none =>
    let (digits, suffix) := splitSuffix isLongSuffix cs
    if !digits.isEmpty && isHexRun digits then
      some (integer negative .hex digits suffix.isSome)
    else
      none

/-- Whether the two sides of a decimal point form a number: digits on one side at
least, and nothing but digits on either. -/
def isMantissa (whole fraction : List Char) : Bool :=
  (isDigitRun whole && fraction.isEmpty) || (whole.isEmpty && isDigitRun fraction) ||
    (isDigitRun whole && isDigitRun fraction)

/-- Reads a decimal number without sign and suffix.  It is an integer if it has neither
a point nor an exponent, unless it is `marked` as floating point by its suffix. -/
def unsuffixed? (negative marked single : Bool) (cs : List Char) : Option Numeral :=
  let (mantissa, exponent) :=
    match splitOnce isDecimalMark cs with
    | some (mantissa, exponent) => (mantissa, some exponent)
    | none => (cs, none)
  if exponent.all isExponent then
    match splitOnce (· == '.') mantissa with
    | some (whole, fraction) =>
      if isMantissa whole fraction then
        some (decimalFloat negative whole fraction exponent single)
      else
        none
    | none =>
      if isDigitRun mantissa then
        if exponent.isSome || marked then
          some (decimalFloat negative mantissa [] exponent single)
        else
          some (integer negative .decimal mantissa false)
      else
        none
  else
    none

/-- Reads a decimal number without its sign. -/
def decimal? (negative : Bool) (cs : List Char) : Option Numeral :=
  match splitSuffix isLongSuffix cs with
  | (digits, some _) =>
    if isDigitRun digits then some (integer negative .decimal digits true) else none
  | (_, none) =>
    let (body, suffix) := splitSuffix isFloatSuffix cs
    unsuffixed? negative suffix.isSome (suffix.any isSingleSuffix) body

/-- Takes a numeric literal apart; `none` if the text is no numeric literal. -/
def parse? (cs : List Char) : Option Numeral :=
  named? cs <|>
    let (negative, body) := splitSign cs
    match hexBody? body with
    | some digits => hex? negative digits
    | none => decimal? negative body

/-! ### Classification -/

/-- Whether this is a `float` or a `double`. -/
def isFloating : Numeral → Bool
  | integer .. => false
  | _ => true

/-- Whether this is a `long` or a `double`, which take two slots each. -/
def isWide : Numeral → Bool
  | named _ single => !single
  | integer _ _ _ long => long
  | decimalFloat _ _ _ _ single => !single
  | hexFloat _ _ _ _ single => !single

end Numeral

/-- Whether a text is a numeric literal. -/
def isNumeral (text : List Char) : Bool :=
  (Numeral.parse? text).isSome

/-- Whether a text is a numeric literal of type `long` or `double`. -/
def isWideNumeral (text : List Char) : Bool :=
  (Numeral.parse? text).any Numeral.isWide

/-- Whether a text is a numeric literal of type `float` or `double`. -/
def isFloatingNumeral (text : List Char) : Bool :=
  (Numeral.parse? text).any Numeral.isFloating

/-- The base that a text announces: hexadecimal after `0x`, decimal otherwise.  This
looks at the front of the text only, which need not be a numeric literal. -/
def radixOf (text : List Char) : Radix :=
  if (Numeral.hexBody? (Numeral.splitSign text).2).isSome then .hex else .decimal

end JvmAssembly
