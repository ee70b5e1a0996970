/-
JvmAssembly/Numeral/Value.lean

The values of numeric literals.

A decimal integer has to fit into its type.  A hexadecimal integer has to fit
into as many bits as its type has, and its sign is applied modulo the width, so
that `0xFFFFFFFF` is `-1`.  A decimal floating point number is the nearest one of
its type; a `float` is rounded once, from the decimal digits.  A hexadecimal
floating point number is computed in `double`s, digit by digit, and scaled by a
power of two.

A literal without a value has a `NumeralFault`, whose causes are listed from the
outermost to the innermost.
-/
import JvmAssembly.Numeral.Basic
import JvmAssembly.Text.Quoted

namespace JvmAssembly

/-- The value of a numeric literal. -/
inductive Number where
  | int (value : Int32)
  | long (value : Int64)
  | float (value : Float32)
  | double (value : Float)

namespace Number

/-- The value of an `int`. -/
def asInt? : Number → Option Int32
  | int value => some value
  | _ => none

/-- The value of a `long`, to which an `int` widens. -/
def asLong? : Number → Option Int64
  | int value => some value.toInt64
  | long value => some value
  | _ => none

/-- The value of a `float`. -/
def asFloat? : Number → Option Float32
  | float value => some value
  | _ => none

/-- The value of a `double`, to which a `float` widens. -/
def asDouble? : Number → Option Float
  | float value => some value.toFloat
  | double value => some value
  | _ => none

end Number

/-! ### Faults -/

/-- Why a run of digits denotes no integer of the wanted width. -/
inductive IntegerFault where
  | noDigits
  | tooLarge
  | tooSmall
deriving DecidableEq, Repr

/-- The wording of an `IntegerFault`. -/
def IntegerFault.message : IntegerFault → String
  | noDigits => "cannot parse integer from empty string"
  | tooLarge => "number too large to fit in target type"
  | tooSmall => "number too small to fit in target type"

/-- Why a hexadecimal floating point literal has no value. -/
inductive FloatFault where
  | exponent (text : List Char) (cause : IntegerFault)
  | noDigits
deriving DecidableEq, Repr

/-- The wording of a `FloatFault`, its cause last. -/
def FloatFault.messages : FloatFault → List String
  | exponent text cause =>
    ["invalid binary exponent " ++ quoted (String.ofList text), cause.message]
  | noDigits => ["hex floating point literal without digits"]

/-- Why a text has no numeric value. -/
inductive NumeralFault where
  | notNumeral (text : List Char)
  | integer (text : List Char) (cause : IntegerFault)
  | floating (text : List Char) (cause : FloatFault)
deriving DecidableEq, Repr

namespace NumeralFault

/-- The wording of a `NumeralFault`. -/
def message : NumeralFault → String
  | notNumeral text => "not a numeric literal: " ++ quoted (String.ofList text)
  | integer text _ => "invalid integer literal " ++ quoted (String.ofList text)
  | floating text _ => "invalid floating point literal " ++ quoted (String.ofList text)

/-- The wording of what is behind a `NumeralFault`, the innermost cause last. -/
def causes : NumeralFault → List String
  | notNumeral _ => []
  | integer _ cause => [cause.message]
  | floating _ cause => cause.messages

end NumeralFault

namespace Numeral

/-! ### Digits -/

/-- The value of a hexadecimal digit of either case, and 0 for any other character. -/
def digitValue (c : Char) : Nat :=
  if c.isDigit then c.toNat - '0'.toNat
  else if 'a' ≤ c && c ≤ 'f' then c.toNat - 'a'.toNat + 10
  else if 'A' ≤ c && c ≤ 'F' then c.toNat - 'A'.toNat + 10
  else 0

/-- The digits of a run, without the underscores. -/
def digitsOf (run : List Char) : List Char :=
  run.filter (· != '_')

/-- The number that digits denote in positional notation. -/
def natOfDigits (base : Nat) (digits : List Char) : Nat :=
  digits.foldl (fun n c => n * base + digitValue c) 0

/-- Applies a sign. -/
def signed (negative : Bool) (n : Nat) : Int :=
  if negative then -(n : Int) else n

/-- How many numbers can be written in `width` bits. -/
def capacity (width : Nat) : Nat :=
  Nat.pow 2 width

/-! ### Integers -/

/-- The integer of a decimal run, which has to fit into `width` bits with sign. -/
def decimalInteger (negative : Bool) (run : List Char) (width : Nat) : Except IntegerFault Int :=
  let value := signed negative (natOfDigits 10 (digitsOf run))
  let half : Int := capacity (width - 1)
  if half ≤ value then .error .tooLarge
  else if value < -half then .error .tooSmall
  else .ok value

/-- The integer of a hexadecimal run, which has to fit into `width` bits without sign.
The result is to be taken modulo `2 ^ width`. -/
def hexInteger (negative : Bool) (run : List Char) (width : Nat) : Except IntegerFault Int :=
  let digits := digitsOf run
  let n := natOfDigits 16 digits
  if digits.isEmpty then .error .noDigits
  else if capacity width ≤ n then .error .tooLarge
  else .ok (signed negative n)

/-- The integer of a run in either base. -/
def integerOf (negative : Bool) (radix : Radix) (run : List Char) (width : Nat) :
    Except IntegerFault Int :=
  match radix with
  | .decimal => decimalInteger negative run width
  | .hex => hexInteger negative run width

/-- The value of an integer literal, 64 bits wide if it is `long` and 32 bits otherwise. -/
def integerValue (negative : Bool) (radix : Radix) (run : List Char) (long : Bool) :
    Except IntegerFault Number :=
  if long then
    (integerOf negative radix run 64).map fun value => .long (Int64.ofInt value)
  else
    (integerOf negative radix run 32).map fun value => .int (Int32.ofInt value)

/-! ### Floating point numbers -/

/-- Positive infinity as a `double`. -/
def infinity : Float := Float.ofBits 0x7FF0000000000000

/-- Not a number, as a `double`. -/
def notANumber : Float := Float.ofBits 0x7FF8000000000000

/-- Applies a sign to a `double`. -/
def signedFloat (negative : Bool) (value : Float) : Float :=
  if negative then -value else value

/-- A `double` as a value of the wanted precision. -/
def ofDouble (single : Bool) (value : Float) : Number :=
  if single then .float value.toFloat32 else .double value

/-- The value of a name. -/
def namedValue : NamedFloat → Float
  | .nan => notANumber
  | .infinity negative => signedFloat negative infinity

/-- The value of an exponent as it is written, sign included. -/
def exponentValue (exponent : List Char) : Int :=
  let (negative, run) := splitSign exponent
  signed negative (natOfDigits 10 (digitsOf run))

/-- How a positive decimal number compares with the range of both floating point types. -/
inductive Magnitude where
  | vanishing
  | ordinary
  | overflowing
deriving DecidableEq, Repr

/-- Sorts `mantissa * 10 ^ exponent`.  Anything from `10 ^ 310` on is beyond the largest
`double`, and anything below `10 ^ (-330)` is nearer to zero than to the smallest one. -/
def magnitude (mantissa : Nat) (exponent : Int) : Magnitude :=
  let digits : Int := (Nat.toDigits 10 mantissa).length
  if mantissa = 0 || digits + exponent < -330 then .vanishing
  else if 310 < digits + exponent then .overflowing
  else .ordinary

/-- The `double` nearest to `mantissa * 10 ^ exponent`. -/
def nearestDouble (mantissa : Nat) (exponent : Int) : Float :=
  match magnitude mantissa exponent with
  | .vanishing => 0
  | .overflowing => infinity
  | .ordinary => Float.ofScientific mantissa (exponent < 0) exponent.natAbs

/-- The `float` nearest to `mantissa * 10 ^ exponent`. -/
def nearestSingle (mantissa : Nat) (exponent : Int) : Float32 :=
  match magnitude mantissa exponent with
  | .vanishing => 0
  | .overflowing => infinity.toFloat32
  | .ordinary => Float32.ofScientific mantissa (exponent < 0) exponent.natAbs

/-- The value of a decimal floating point literal. -/
def decimalFloatValue (negative : Bool) (whole fraction : List Char)
    (exponent : Option (List Char)) (single : Bool) : Number :=
  let fractionDigits := digitsOf fraction
  let mantissa := natOfDigits 10 (digitsOf whole ++ fractionDigits)
  let scale := (exponent.map exponentValue).getD 0 - fractionDigits.length
  if single then
    let value := nearestSingle mantissa scale
    .float (if negative then -value else value)
  else
    .double (signedFloat negative (nearestDouble mantissa scale))

/-- The power of two with the given exponent, computed without subnormal powers: from
`2 ^ 1024` on it is infinite, and a negative power is the inverse of the positive one. -/
def powerOfTwo (exponent : Int) : Float :=
  let power := Float.ofNat (capacity (min exponent.natAbs 1024))
  if exponent < 0 then 1 / power else power

/-- The value of a hexadecimal floating point literal without its sign, as a `double`.
Every digit is added with rounding, and the result is scaled once. -/
def hexFloatValue (whole fraction exponent : List Char) : Except FloatFault Float :=
  let (negativeExponent, run) := splitSign exponent
  match decimalInteger negativeExponent run 32 with
  | .error cause => .error (.exponent exponent cause)
  | .ok binary =>
    let fractionDigits := digitsOf fraction
    let digits := digitsOf whole ++ fractionDigits
    if digits.isEmpty then
      .error .noDigits
    else
      let mantissa := digits.foldl (fun value c => value * 16 + Float.ofNat (digitValue c)) 0
      .ok (mantissa * powerOfTwo (binary - 4 * fractionDigits.length))

/-! ### Literals -/

/-- The value of a numeral that was read from `text`. -/
def value (text : List Char) : Numeral → Except NumeralFault Number
  | named name single => .ok (ofDouble single (namedValue name))
  | integer negative radix digits long =>
    (integerValue negative radix digits long).mapError (.integer text)
  | decimalFloat negative whole fraction exponent single =>
    .ok (decimalFloatValue negative whole fraction exponent single)
  | hexFloat negative whole fraction exponent single =>
    match hexFloatValue whole fraction exponent with
    | .error cause => .error (.floating text cause)
    | .ok value => .ok (ofDouble single (signedFloat negative value))

end Numeral

/-- The value of a text as a numeric literal. -/
def numeralValue (text : List Char) : Except NumeralFault Number :=
  match Numeral.parse? text with
  | none => .error (.notNumeral text)
  | some numeral => numeral.value text

end JvmAssembly
