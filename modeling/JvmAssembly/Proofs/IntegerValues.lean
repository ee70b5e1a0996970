/-
JvmAssembly/Proofs/IntegerValues.lean

Integer literals denote machine integers.

What an integer literal says is read off its text here, without taking the text apart:
its digits are the characters of the text that are digits, behind the `x` of a
hexadecimal literal; its sign is a `-` in front, and its width is told by the last
character.  The digits are read in positional notation, by Mathlib's `Nat.ofDigits`,
and each of them by its place in the row of all digits.  Together this is the number
`denoted text`.

The value of a decimal literal is this number, if there is room for it.  The value of a
hexadecimal one is the machine integer with the same bits,

    value ≡ denoted text  (mod 2 ^ width),

of which there is exactly one in the range of the type (`isTwosComplement_iff`).

That the parts of a spelled literal are the ones that are read off its text is shown part
by part (`signOf_signText`, `widthOf_suffix`, `filter_signedRun`, `filter_hexMantissa`).
-/
import JvmAssembly.Proofs.NumeralGrammar
import Mathlib.Data.Int.ModEq
import Mathlib.Data.Nat.Digits.Defs

namespace JvmAssembly

namespace Number

/-- The width and the value of an integer. -/
def integer? : Number → Option (Nat × Int)
  | int value => some (32, value.toInt)
  | long value => some (64, value.toInt)
  | float _ => none
  | double _ => none

end Number

namespace Numeral

/-! ### What a text says -/

/-- What a digit counts for: its place in the row of digits, in either case of letters. -/
def digitIndex (c : Char) : Nat :=
  "0123456789abcdef".toList.idxOf c.toLower

/-- The number that digits denote in positional notation, the last digit counting once. -/
def positional (base : Nat) (digits : List Char) : Nat :=
  Nat.ofDigits base (digits.reverse.map digitIndex)

/-- The sign in front of a text, as a factor. -/
def signOf (text : List Char) : Int :=
  if text.head? = some '-' then -1 else 1

/-- How many bits an integer literal has. -/
def widthOf (text : List Char) : Nat :=
  if text.getLast?.any isLongSuffix then 64 else 32

/-- A hexadecimal literal from its `x` on, up to the mark of its exponent if it has one. -/
def hexMantissa (text : List Char) : List Char :=
  (text.dropWhile fun c => c != 'x' && c != 'X').takeWhile fun c => !isBinaryMark c

/-- The digits that are written in a decimal integer, or in a hexadecimal literal in front of
its exponent. -/
def writtenDigits (text : List Char) : List Char :=
  match radixOf text with
  | .decimal => text.filter Char.isDigit
  | .hex => (hexMantissa text).filter isHexDigit

/-- The number that the digits of an integer literal denote in the base of the literal. -/
def writtenNumber (text : List Char) : Nat :=
  positional (radixOf text).base (writtenDigits text)

/-- The number that an integer literal denotes, with its sign. -/
def denoted (text : List Char) : Int :=
  signOf text * writtenNumber text

/-- An integer of the given width whose bits are the last bits of a number. -/
def IsTwosComplement (width : Nat) (number value : Int) : Prop :=
  -2 ^ (width - 1) ≤ value ∧ value < 2 ^ (width - 1) ∧ value ≡ number [ZMOD 2 ^ width]

/-! ### Positional notation -/

/-- The value of a digit is its place among the sixteen digits. -/
theorem digitValue_eq_digitIndex {c : Char} (h : isHexDigit c) : digitValue c = digitIndex c := by
  have hall : "0123456789abcdefABCDEF_".toList.all fun c =>
      !isHexDigit c || digitValue c == digitIndex c := by decide
  have hc := List.all_eq_true.mp hall c (mem_hexDigits.mpr (.inl h))
  simpa [h] using hc

/-- The digits of a run are added up from the left to what they denote. -/
theorem natOfDigits_eq_positional (base : Nat) {digits : List Char}
    (h : ∀ c ∈ digits, isHexDigit c) : natOfDigits base digits = positional base digits := by
  induction digits using List.reverseRecOn with
  | nil => rfl
  | append_singleton digits c ih =>
    obtain ⟨hdigits, hc⟩ := List.forall_mem_append.mp h
    have hvalue : digitValue c = digitIndex c :=
      digitValue_eq_digitIndex (hc c (List.mem_singleton_self c))
    calc natOfDigits base (digits ++ [c])
        = natOfDigits base digits * base + digitValue c := List.foldl_append
      _ = digitIndex c + base * positional base digits := by
        rw [ih hdigits, hvalue, Nat.mul_comm, Nat.add_comm]
      _ = positional base (digits ++ [c]) := by
        simp [positional, Nat.ofDigits_cons]

/-- Of a run, the digits are what is no underscore. -/
theorem filter_run {p : Char → Bool} (hp : ¬ p '_') {run : List Char}
    (h : ∀ c ∈ run, p c ∨ c = '_') : run.filter p = digitsOf run := by
  refine List.filter_congr fun c hc => ?_
  rcases h c hc with hdigit | rfl
  · have hne : c ≠ '_' := by
      rintro rfl
      exact hp hdigit
    simp [hdigit, hne]
  · simp [hp]

theorem isHexDigit_of_isDigit {c : Char} (h : c.isDigit) : isHexDigit c := by
  simp [isHexDigit, h]

/-- The digits of a decimal run are read as what they denote. -/
theorem natOfDigits_of_isDigitRun {run : List Char} (h : isDigitRun run) :
    natOfDigits 10 (digitsOf run) = positional 10 (digitsOf run) := by
  refine natOfDigits_eq_positional 10 fun c hc => ?_
  rw [← filter_run (by decide) (all_of_isDigitRun h)] at hc
  exact isHexDigit_of_isDigit (List.mem_filter.mp hc).2

/-- The digits of a hexadecimal run are read as what they denote. -/
theorem natOfDigits_of_isHexRun {run : List Char} (h : isHexRun run) :
    natOfDigits 16 (digitsOf run) = positional 16 (digitsOf run) := by
  refine natOfDigits_eq_positional 16 fun c hc => ?_
  rw [← filter_run (by decide) (isHexRun_iff.mp h)] at hc
  exact (List.mem_filter.mp hc).2

/-! ### The parts of a text -/

/-- The sign of a text is read off its first character. -/
theorem signOf_signText (negative : Bool) {c : Char} (h : c ≠ '-') (cs : List Char) :
    signOf (signText negative ++ c :: cs) = if negative then -1 else 1 := by
  cases negative with
  | true => rfl
  | false => simp [signOf, signText, h]

/-- Behind the suffix of a `long`, and only there, 64 bits are meant. -/
theorem widthOf_suffix {front : List Char} {suffix : Option Char}
    (hfront : EndsPlain isLongSuffix front) (hsuffix : ∀ c ∈ suffix, isLongSuffix c) :
    widthOf (front ++ suffix.toList) = if suffix.isSome then 64 else 32 := by
  unfold widthOf
  cases suffix with
  | none =>
    have hany : ¬ front.getLast?.any isLongSuffix := by
      rw [Option.any_eq_true]
      rintro ⟨c, hlast, hc⟩
      exact hfront c hlast hc
    simp [hany]
  | some c =>
    have hc : isLongSuffix c := hsuffix c rfl
    simp [hc]

theorem filter_suffix {p : Char → Bool} {suffix : Option Char} (h : ∀ c ∈ suffix, ¬ p c) :
    suffix.toList.filter p = [] := by
  cases suffix with
  | none => rfl
  | some c => simpa using h c rfl

theorem filter_signText (negative : Bool) {p : Char → Bool} (hp : ¬ p '-') :
    (signText negative).filter p = [] := by
  cases negative <;> simp [signText, hp]

theorem not_isHexDigit_of_isLongSuffix {c : Char} (h : isLongSuffix c) : ¬ isHexDigit c := by
  simp only [isLongSuffix, Bool.or_eq_true, beq_iff_eq] at h
  rcases h with rfl | rfl <;> decide

/-- The digits of a decimal run are found again between its sign and a suffix. -/
theorem filter_signedRun {negative : Bool} {run : List Char} {suffix : Option Char}
    (hrun : isDigitRun run) (hsuffix : ∀ c ∈ suffix, ¬ c.isDigit) :
    (signText negative ++ (run ++ suffix.toList)).filter Char.isDigit = digitsOf run := by
  rw [List.filter_append, List.filter_append, filter_signText negative (by decide),
    filter_suffix hsuffix, filter_run (by decide) (all_of_isDigitRun hrun)]
  simp

theorem not_isHexDigit_of_hexMark {x : Char} (h : x = 'x' ∨ x = 'X') : ¬ isHexDigit x := by
  rcases h with rfl | rfl <;> decide

/-- What stands between the `x` of a hexadecimal literal and the mark of its exponent. -/
theorem hexMantissa_eq (negative : Bool) {x : Char} (hx : x = 'x' ∨ x = 'X')
    {body rest : List Char} (hbody : ∀ c ∈ body, ¬ isBinaryMark c)
    (hrest : ∀ c ∈ rest.head?, isBinaryMark c) :
    hexMantissa (signText negative ++ '0' :: x :: (body ++ rest)) = x :: body := by
  have hdrop : (signText negative ++ '0' :: x :: (body ++ rest)).dropWhile
      (fun c => c != 'x' && c != 'X') = x :: body ++ rest := by
    rcases hx with rfl | rfl <;> cases negative <;> rfl
  have htake : ∀ c ∈ x :: body, (!isBinaryMark c) = true := by
    refine List.forall_mem_cons.mpr ⟨?_, fun c hc => by simpa using hbody c hc⟩
    rcases hx with rfl | rfl <;> rfl
  have hstop : rest.takeWhile (fun c => !isBinaryMark c) = [] := by
    cases rest with
    | nil => rfl
    | cons c rest =>
      have hc : isBinaryMark c := hrest c rfl
      simp [hc]
  rw [hexMantissa, hdrop, List.takeWhile_append_of_pos htake, hstop, List.append_nil]

/-- The digits of a hexadecimal run are found again between the `x` and a suffix. -/
theorem filter_hexMantissa {negative : Bool} {x : Char} {run : List Char} {suffix : Option Char}
    (hx : x = 'x' ∨ x = 'X') (hrun : isHexRun run) (hsuffix : ∀ c ∈ suffix, isLongSuffix c) :
    (hexMantissa (signText negative ++ '0' :: x :: (run ++ suffix.toList))).filter isHexDigit
      = digitsOf run := by
  have hbody : ∀ c ∈ run ++ suffix.toList, ¬ isBinaryMark c := by
    rw [List.forall_mem_append]
    refine ⟨not_isBinaryMark_of_mem hrun, fun c hc hmark => ?_⟩
    have hlong := hsuffix c (Option.mem_toList.mp hc)
    simp only [isBinaryMark, Bool.or_eq_true, beq_iff_eq] at hmark
    rcases hmark with rfl | rfl <;> cases hlong
  have hmantissa := hexMantissa_eq negative hx hbody (by simp : ∀ c ∈ [].head?, isBinaryMark c)
  rw [List.append_nil] at hmantissa
  rw [hmantissa, List.filter_cons_of_neg (not_isHexDigit_of_hexMark hx), List.filter_append,
    filter_run (by decide) (isHexRun_iff.mp hrun),
    filter_suffix fun c hc => not_isHexDigit_of_isLongSuffix (hsuffix c hc), List.append_nil]

/-- What is read off the text of an integer literal agrees with its parts. -/
structure ReadsInteger (text : List Char) (negative : Bool) (radix : Radix) (run : List Char)
    (long : Bool) : Prop where
  radix_eq : radixOf text = radix
  width_eq : widthOf text = if long then 64 else 32
  digits_eq : writtenDigits text = digitsOf run
  number_eq : writtenNumber text = natOfDigits radix.base (digitsOf run)
  denoted_eq : denoted text = signed negative (natOfDigits radix.base (digitsOf run))

/-- The sign, the width, the base and the digits say the rest. -/
theorem ReadsInteger.of_parts {text run : List Char} {negative long : Bool} {radix : Radix}
    (hsign : signOf text = if negative then -1 else 1) (hradix : radixOf text = radix)
    (hwidth : widthOf text = if long then 64 else 32) (hdigits : writtenDigits text = digitsOf run)
    (hrun : natOfDigits radix.base (digitsOf run) = positional radix.base (digitsOf run)) :
    ReadsInteger text negative radix run long := by
  have hnumber : writtenNumber text = natOfDigits radix.base (digitsOf run) := by
    rw [writtenNumber, hradix, hdigits, hrun]
  refine ⟨hradix, hwidth, hdigits, hnumber, ?_⟩
  rw [denoted, hsign, hnumber]
  cases negative <;> simp [signed]

/-- What is spelled as an integer reads as one, with the same sign, radix, digits and width. -/
theorem Spells.readsInteger {text run : List Char} {suffix : Option Char} {negative long : Bool}
    {radix : Radix} (h : Spells text suffix (.integer negative radix run long)) :
    ReadsInteger text negative radix run long := by
  have hradix : radixOf text = radix := radixOf_eq h.parse?_eq
  cases h with
  | @hexInteger _ x _ _ hx hne hrun hsuffix =>
    have hplain : EndsPlain isLongSuffix run :=
      endsPlain_of_forall (not_isLongSuffix_of_mem hrun)
    refine .of_parts ?_ hradix ?_ ?_ (natOfDigits_of_isHexRun hrun)
    · exact signOf_signText negative (by decide) _
    · -- the run is not empty, so that it decides how the text ends
      have hfront : EndsPlain isLongSuffix (signText negative ++ '0' :: x :: run) := by
        have happend : EndsPlain isLongSuffix (signText negative ++ ['0', x] ++ run) :=
          hplain.append hne
        simpa using happend
      have hwidth := widthOf_suffix hfront hsuffix
      simpa using hwidth
    · rw [writtenDigits, hradix]
      exact filter_hexMantissa hx hrun hsuffix
  | integer negative hrun hsuffix =>
    have hplain : EndsPlain isLongSuffix run :=
      endsPlain_of_forall fun c hc => apart_isLongSuffix c (isPlain_of_isDigitRun hrun c hc)
    refine .of_parts ?_ hradix ?_ ?_ (natOfDigits_of_isDigitRun hrun)
    · cases run with
      | nil => cases hrun
      | cons c run =>
        refine signOf_signText negative ?_ _
        rintro rfl
        cases hrun
    · have hne : run ≠ [] := by
        rintro rfl
        cases hrun
      have hfront : EndsPlain isLongSuffix (signText negative ++ run) := hplain.append hne
      have hwidth := widthOf_suffix hfront hsuffix
      simpa using hwidth
    · rw [writtenDigits, hradix]
      refine filter_signedRun hrun fun c hc hdigit => ?_
      exact not_isHexDigit_of_isLongSuffix (hsuffix c hc) (isHexDigit_of_isDigit hdigit)

/-! ### Machine integers -/

/-- There is exactly one machine integer with the last bits of a number. -/
theorem isTwosComplement_iff {width : Nat} (hwidth : 0 < width) {number value : Int} :
    IsTwosComplement width number value ↔ number.bmod (2 ^ width) = value := by
  obtain ⟨half, rfl⟩ : ∃ half, width = half + 1 := ⟨width - 1, by omega⟩
  have hpow : ((2 ^ (half + 1) : Nat) : Int) = 2 * 2 ^ half := by
    push_cast
    ring
  have hdvd : value ≡ number [ZMOD 2 ^ (half + 1)]
      ↔ ((2 ^ (half + 1) : Nat) : Int) ∣ value - number := by
    rw [Int.modEq_comm, Int.modEq_iff_dvd]
    push_cast
    rfl
  rw [Int.bmod_eq_iff (Nat.two_pow_pos _), IsTwosComplement, hdvd, hpow, Nat.add_sub_cancel]
  have hlow : 2 * (2 : Int) ^ half / 2 = 2 ^ half := by omega
  have hhigh : (2 * (2 : Int) ^ half + 1) / 2 = 2 ^ half := by omega
  rw [hlow, hhigh]

/-- How many bits the integer types have. -/
def bits (long : Bool) : Nat :=
  if long then 64 else 32

/-- A number as an integer of the wanted type. -/
def machineInteger (long : Bool) (number : Int) : Number :=
  if long then .long (Int64.ofInt number) else .int (Int32.ofInt number)

/-- A machine integer holds the residue of a number in the range of its width. -/
theorem integer?_machineInteger (long : Bool) (number : Int) :
    (machineInteger long number).integer? = some (bits long, number.bmod (2 ^ bits long)) := by
  cases long with
  | true => exact congrArg (fun value => some (64, value)) Int64.toInt_ofInt
  | false => exact congrArg (fun value => some (32, value)) Int32.toInt_ofInt

/-- The value of an integer literal is its number as a machine integer of its width, if it is in
range. -/
theorem integerValue_eq (negative long : Bool) (radix : Radix) (run : List Char) :
    integerValue negative radix run long
      = (integerOf negative radix run (bits long)).map (machineInteger long) := by
  cases long <;> rfl

/-- A literal has a value exactly if its digits give an integer, and this is the value. -/
theorem numeralValue_eq_ok_iff {text run : List Char} {negative long : Bool} {radix : Radix}
    (h : parse? text = some (.integer negative radix run long)) {value : Number} :
    numeralValue text = .ok value
      ↔ ∃ number, integerOf negative radix run (bits long) = .ok number
        ∧ machineInteger long number = value := by
  have hvalue : numeralValue text
      = (integerValue negative radix run long).mapError (.integer text) := by
    rw [numeralValue, h]
    rfl
  rw [hvalue, integerValue_eq]
  cases integerOf negative radix run (bits long) with
  | error fault => simp [Except.map, Except.mapError]
  | ok number => simp [Except.map, Except.mapError]

theorem cast_capacity (width : Nat) : ((capacity width : Nat) : Int) = 2 ^ width := by
  show ((2 ^ width : Nat) : Int) = 2 ^ width
  push_cast
  rfl

/-- A decimal run gives the number that it denotes, if that is in the range of the type. -/
theorem decimalInteger_eq_ok_iff {negative : Bool} {run : List Char} {width : Nat}
    {number denoted : Int} (hdenoted : denoted = signed negative (natOfDigits 10 (digitsOf run))) :
    decimalInteger negative run width = .ok number
      ↔ (-2 ^ (width - 1) ≤ denoted ∧ denoted ≤ 2 ^ (width - 1) - 1) ∧ denoted = number := by
  unfold decimalInteger
  rw [cast_capacity, ← hdenoted]
  dsimp only
  split
  · constructor
    · exact nofun
    · omega
  split
  · constructor
    · exact nofun
    · omega
  · rw [Except.ok.injEq]
    omega

/-- A hexadecimal run gives the number that it denotes, if it has digits and these fit into the
bits of the type. -/
theorem hexInteger_eq_ok_iff {negative : Bool} {run : List Char} {width : Nat} {number : Int} :
    hexInteger negative run width = .ok number
      ↔ (digitsOf run ≠ [] ∧ natOfDigits 16 (digitsOf run) < 2 ^ width)
        ∧ signed negative (natOfDigits 16 (digitsOf run)) = number := by
  have hcapacity : capacity width = 2 ^ width := rfl
  unfold hexInteger
  rw [hcapacity]
  dsimp only
  split
  · next hempty => simp [List.isEmpty_iff.mp hempty]
  split
  · next hlarge => simp [hlarge]
  · next hdigits hsmall =>
    have hne : digitsOf run ≠ [] := mt List.isEmpty_iff.mpr hdigits
    have hlt : natOfDigits 16 (digitsOf run) < 2 ^ width := Nat.not_le.mp hsmall
    simp [hne, hlt]

/-! ### Literals -/

/-- The parts of an integer literal, and that they are what is read off its text. -/
theorem exists_readsInteger {text : List Char} (hnumeral : isNumeral text)
    (hinteger : ¬ isFloatingNumeral text) :
    ∃ negative run long, parse? text = some (.integer negative (radixOf text) run long)
      ∧ ReadsInteger text negative (radixOf text) run long := by
  obtain ⟨numeral, hread⟩ := Option.isSome_iff_exists.mp hnumeral
  obtain ⟨suffix, hspells⟩ := parse?_eq_some_iff.mp hread
  rw [isFloatingNumeral, hread, Option.any_some] at hinteger
  cases numeral with
  | integer negative radix run long =>
    have hreads := hspells.readsInteger
    rw [hreads.radix_eq]
    exact ⟨negative, run, long, hread, hreads⟩
  | named | decimalFloat | hexFloat => exact absurd rfl hinteger

/-- A literal whose digits give what it denotes, under a condition, has a value under this
condition: the integer with the bits of what it denotes. -/
theorem value_of_integerOf {text run : List Char} {negative long : Bool} {radix : Radix}
    {fits : Prop} (hread : parse? text = some (.integer negative radix run long))
    (hfits : ∀ number, integerOf negative radix run (bits long) = .ok number
      ↔ fits ∧ denoted text = number) :
    ((∃ value, numeralValue text = .ok value) ↔ fits)
      ∧ ∀ value, numeralValue text = .ok value →
        value.integer? = some (bits long, (denoted text).bmod (2 ^ bits long)) := by
  have hok : ∀ value, numeralValue text = .ok value
      ↔ fits ∧ machineInteger long (denoted text) = value := by
    intro value
    rw [numeralValue_eq_ok_iff hread]
    simp only [hfits]
    constructor
    · rintro ⟨_, ⟨h, rfl⟩, hvalue⟩
      exact ⟨h, hvalue⟩
    · rintro ⟨h, hvalue⟩
      exact ⟨_, ⟨h, rfl⟩, hvalue⟩
  refine ⟨⟨?_, ?_⟩, ?_⟩
  · rintro ⟨value, hvalue⟩
    exact ((hok value).mp hvalue).1
  · intro h
    exact ⟨_, (hok _).mpr ⟨h, rfl⟩⟩
  · intro value hvalue
    rw [← ((hok value).mp hvalue).2, integer?_machineInteger]

theorem bits_pos (long : Bool) : 0 < bits long := by
  cases long <;> decide

/-- What a decimal literal denotes has to be in the range of the type, and is the value. -/
theorem ReadsInteger.decimal {text run : List Char} {negative long : Bool}
    (hreads : ReadsInteger text negative .decimal run long)
    (hread : parse? text = some (.integer negative .decimal run long)) :
    ((∃ value, numeralValue text = .ok value)
        ↔ -2 ^ (widthOf text - 1) ≤ denoted text ∧ denoted text ≤ 2 ^ (widthOf text - 1) - 1)
      ∧ ∀ value, numeralValue text = .ok value →
        value.integer? = some (widthOf text, denoted text) := by
  have hwidth : widthOf text = bits long := hreads.width_eq
  rw [hwidth]
  obtain ⟨hfits, hvalue⟩ := value_of_integerOf hread fun number =>
    decimalInteger_eq_ok_iff hreads.denoted_eq
  refine ⟨hfits, fun value hok => ?_⟩
  -- a number in range is the integer with its own bits
  have hrange := hfits.mp ⟨value, hok⟩
  have hself : IsTwosComplement (bits long) (denoted text) (denoted text) :=
    ⟨hrange.1, Int.lt_of_le_sub_one hrange.2, .rfl⟩
  rw [hvalue value hok, (isTwosComplement_iff (bits_pos long)).mp hself]

/-- A hexadecimal literal has to have digits, and these have to fit into the bits of the type.
The value is the integer with these bits, or with those of their negative. -/
theorem ReadsInteger.hex {text run : List Char} {negative long : Bool}
    (hreads : ReadsInteger text negative .hex run long)
    (hread : parse? text = some (.integer negative .hex run long)) :
    ((∃ value, numeralValue text = .ok value)
        ↔ writtenDigits text ≠ [] ∧ writtenNumber text < 2 ^ widthOf text)
      ∧ ∀ value, numeralValue text = .ok value → ∃ integer,
        value.integer? = some (widthOf text, integer)
          ∧ ∀ other, IsTwosComplement (widthOf text) (denoted text) other ↔ integer = other := by
  have hwidth : widthOf text = bits long := hreads.width_eq
  rw [hwidth, hreads.digits_eq, hreads.number_eq]
  obtain ⟨hfits, hvalue⟩ := value_of_integerOf hread fun number => by
    rw [hreads.denoted_eq]
    exact hexInteger_eq_ok_iff
  exact ⟨hfits, fun value hok =>
    ⟨_, hvalue value hok, fun other => isTwosComplement_iff (bits_pos long)⟩⟩

end Numeral

open Numeral

/-- **Integer literals denote the right machine integer.**  A decimal literal has a value exactly
if what it denotes is in the signed range of its width, and this is then the value.  A
hexadecimal literal with digits has a value exactly if its digits fit into its width, and the
value is then the one integer of this width that is congruent to what the literal denotes.  In
both cases the type of the value has the width of the literal: 64 bits are a `long`, and 32
bits are an `int`. -/
theorem integer_literals_denote {text : List Char} (hnumeral : isNumeral text)
    (hinteger : ¬ isFloatingNumeral text) :
    (radixOf text = .decimal →
        ((∃ value, numeralValue text = .ok value)
            ↔ -2 ^ (widthOf text - 1) ≤ denoted text ∧ denoted text ≤ 2 ^ (widthOf text - 1) - 1)
          ∧ ∀ value, numeralValue text = .ok value →
            value.integer? = some (widthOf text, denoted text))
      ∧ (radixOf text = .hex → writtenDigits text ≠ [] →
        ((∃ value, numeralValue text = .ok value) ↔ writtenNumber text < 2 ^ widthOf text)
          ∧ ∀ value, numeralValue text = .ok value → ∃ integer,
            value.integer? = some (widthOf text, integer)
              ∧ ∀ other, IsTwosComplement (widthOf text) (denoted text) other
                ↔ integer = other) := by
  obtain ⟨negative, run, long, hread, hreads⟩ := exists_readsInteger hnumeral hinteger
  constructor
  · intro hradix
    rw [hradix] at hread hreads
    exact hreads.decimal hread
  · intro hradix hdigits
    rw [hradix] at hread hreads
    obtain ⟨hfits, hvalue⟩ := hreads.hex hread
    exact ⟨hfits.trans (and_iff_right hdigits), hvalue⟩

/-- The least `int` in both bases: in decimal its sign makes room for it, and in hexadecimal it
is its own negative. -/
theorem least_int_denotes :
    (isNumeral "-2_147_483_648".toList ∧ ¬ isFloatingNumeral "-2_147_483_648".toList
        ∧ ∃ value, numeralValue "-2_147_483_648".toList = .ok value
          ∧ value.integer? = some (32, -2147483648))
      ∧ isNumeral "-0x8000_0000".toList ∧ ¬ isFloatingNumeral "-0x8000_0000".toList
        ∧ ∃ value, numeralValue "-0x8000_0000".toList = .ok value
          ∧ value.integer? = some (32, -2147483648) := by
  refine ⟨⟨by decide, by decide, ?_⟩, by decide, by decide, ?_⟩
  · obtain ⟨hrange, hdenoted⟩ := (integer_literals_denote
      (by decide : isNumeral "-2_147_483_648".toList) (by decide)).1 (by decide)
    obtain ⟨value, hvalue⟩ := hrange.mpr (by decide)
    exact ⟨value, hvalue, (hdenoted value hvalue).trans (by decide)⟩
  · obtain ⟨hfits, hdenoted⟩ := (integer_literals_denote
      (by decide : isNumeral "-0x8000_0000".toList) (by decide)).2 (by decide) (by decide)
    obtain ⟨value, hvalue⟩ := hfits.mpr (by decide)
    obtain ⟨integer, hinteger, hbits⟩ := hdenoted value hvalue
    obtain rfl : integer = -2147483648 := (hbits _).mp ⟨by decide, by decide, by decide⟩
    exact ⟨value, hvalue, hinteger.trans (by decide)⟩

end JvmAssembly
