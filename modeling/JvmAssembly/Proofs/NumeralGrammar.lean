/-
JvmAssembly/Proofs/NumeralGrammar.lean

Numerals are a regular language, and their types follow its productions.

With `R = [0-9][0-9_]*` and `H = [0-9a-fA-F_]`, a numeral is one of

    (nan | infinity | +infinity | -infinity) [fFdD]?      in any case of letters
    -?0[xX] H* (.H*)? [pP] -?R [fFdD]?
    -?0[xX] H+ [lL]?
    -?R [lL]
    -?(R | R. | .R | R.R) ([eE] -?R)? [fFdD]?

The productions are written down as languages, with the operations of Mathlib's
`Language`, and without a word from the reader of numerals.  Their texts are put together from
the same parts as spellings (`Spells`), so that what is known of spellings carries over:
which texts are numerals, and which of them are floating point or wide.

A suffix is a parameter of a production.  Floating point numbers without an `f` are
then the same productions with fewer suffixes.
-/
import JvmAssembly.Proofs.NumeralSpelling
import Mathlib.Computability.Language

namespace JvmAssembly

namespace Numeral

open Computability

/-! ### Productions -/

/-- One of the given characters. -/
def oneOf (chars : String) : Language Char :=
  {text | ∃ c ∈ chars.toList, text = [c]}

/-- A text of a language, or nothing. -/
def optional (language : Language Char) : Language Char :=
  1 + language

/-- `-?` -/
def sign : Language Char :=
  optional (oneOf "-")

/-- `R`: a digit, and then digits and underscores. -/
def digitRun : Language Char :=
  oneOf "0123456789" * (oneOf "0123456789_")∗

/-- `-?R` -/
def signedRun : Language Char :=
  sign * digitRun

/-- `H`: a hexadecimal digit or an underscore. -/
def hexDigit : Language Char :=
  oneOf "0123456789abcdefABCDEF_"

/-- `nan | infinity | +infinity | -infinity`, in any case of letters. -/
def name : Language Char :=
  {text | text.map Char.toLower
    ∈ ["nan".toList, "infinity".toList, "+infinity".toList, "-infinity".toList]}

/-- `R | R. | .R | R.R` -/
def mantissa : Language Char :=
  digitRun + digitRun * oneOf "." + oneOf "." * digitRun + digitRun * oneOf "." * digitRun

/-- `R. | .R | R.R` -/
def pointedMantissa : Language Char :=
  digitRun * oneOf "." + oneOf "." * digitRun + digitRun * oneOf "." * digitRun

/-- `[eE] -?R` -/
def exponent : Language Char :=
  oneOf "eE" * signedRun

/-- `-?0[xX]` -/
def hexMark : Language Char :=
  sign * oneOf "0" * oneOf "xX"

variable (suffix : Language Char)

/-- A name with a suffix. -/
def namedForm : Language Char :=
  name * suffix

/-- `-?0[xX] H* (.H*)? [pP] -?R`, with a suffix. -/
def hexFloatForm : Language Char :=
  hexMark * hexDigit∗ * optional (oneOf "." * hexDigit∗) * oneOf "pP" * signedRun * suffix

/-- `-?0[xX] H+`, with a suffix. -/
def hexIntegerForm : Language Char :=
  hexMark * (hexDigit * hexDigit∗) * suffix

/-- `-?R`, with a suffix. -/
def integerForm : Language Char :=
  signedRun * suffix

/-- `-?(R | R. | .R | R.R) ([eE] -?R)?`, with a suffix. -/
def decimalForm : Language Char :=
  sign * mantissa * optional exponent * suffix

/-- The decimal form with a point. -/
def pointedForm : Language Char :=
  sign * pointedMantissa * optional exponent * suffix

/-- The decimal form with an exponent. -/
def exponentForm : Language Char :=
  sign * mantissa * exponent * suffix

/-- All numerals. -/
def numeralForm : Language Char :=
  namedForm (optional (oneOf "fFdD")) + hexFloatForm (optional (oneOf "fFdD"))
    + hexIntegerForm (optional (oneOf "lL")) + integerForm (oneOf "lL")
    + decimalForm (optional (oneOf "fFdD"))

/-- The floating point numbers that have one of the given suffixes or none: names, hexadecimal
ones, and decimal ones with a point, an exponent or a suffix. -/
def floatingForm (suffixes : String) : Language Char :=
  namedForm (optional (oneOf suffixes)) + hexFloatForm (optional (oneOf suffixes))
    + pointedForm (optional (oneOf suffixes)) + exponentForm (optional (oneOf suffixes))
    + decimalForm (oneOf suffixes)

/-- The integers that are marked as long. -/
def longForm : Language Char :=
  hexIntegerForm (oneOf "lL") + integerForm (oneOf "lL")

/-- The hexadecimal numerals. -/
def hexForm : Language Char :=
  hexFloatForm (optional (oneOf "fFdD")) + hexIntegerForm (optional (oneOf "lL"))

/-! ### Texts of the parts -/

variable {text : List Char}

theorem mem_optional {language : Language Char} :
    text ∈ optional language ↔ text = [] ∨ text ∈ language :=
  Iff.rfl

theorem mem_optional_oneOf {chars : String} :
    text ∈ optional (oneOf chars)
      ↔ ∃ suffix : Option Char, (∀ c ∈ suffix, c ∈ chars.toList) ∧ text = suffix.toList := by
  rw [mem_optional]
  constructor
  · rintro (rfl | ⟨c, hc, rfl⟩)
    · exact ⟨none, by simp, rfl⟩
    · exact ⟨some c, by simpa using hc, rfl⟩
  · rintro ⟨_ | c, hc, rfl⟩
    · exact .inl rfl
    · exact .inr ⟨c, hc c rfl, rfl⟩

theorem mem_sign : text ∈ sign ↔ ∃ negative, text = signText negative := by
  rw [sign, mem_optional]
  constructor
  · rintro (rfl | ⟨c, hc, rfl⟩)
    · exact ⟨false, rfl⟩
    · obtain rfl : c = '-' := by simpa using hc
      exact ⟨true, rfl⟩
  · rintro ⟨_ | _, rfl⟩
    · exact .inl rfl
    · exact .inr ⟨'-', by decide, rfl⟩

theorem mem_kstar_oneOf {chars : String} :
    text ∈ (oneOf chars)∗ ↔ ∀ c ∈ text, c ∈ chars.toList := by
  rw [Language.mem_kstar]
  constructor
  · rintro ⟨texts, rfl, htexts⟩ c hc
    obtain ⟨single, hmem, hc⟩ := List.mem_flatten.mp hc
    obtain ⟨d, hd, rfl⟩ := htexts single hmem
    rw [List.mem_singleton.mp hc]
    exact hd
  · intro h
    refine ⟨text.map fun c => [c], ?_, ?_⟩
    · rw [← List.flatMap_def, List.flatMap_singleton']
    · intro single hmem
      obtain ⟨c, hc, rfl⟩ := List.mem_map.mp hmem
      exact ⟨c, h c hc, rfl⟩

/-- A class of characters holds a range of numbers if it does so number by number. -/
theorem mem_of_range {c : Char} {chars : List Char} (first last : Nat)
    (h : first ≤ c.toNat ∧ c.toNat ≤ last)
    (hall : ∀ n ≤ last, first ≤ n → Char.ofNat n ∈ chars) : c ∈ chars := by
  have hmem := hall c.toNat h.2 h.1
  rwa [Char.ofNat_toNat] at hmem

theorem mem_decimalDigits {c : Char} : c ∈ "0123456789".toList ↔ c.isDigit := by
  have hall : "0123456789".toList.all Char.isDigit := by decide
  constructor
  · exact List.all_eq_true.mp hall c
  · intro h
    exact mem_of_range 48 57 (Char.isDigit_iff_toNat.mp h) (by decide)

theorem mem_hexDigits {c : Char} :
    c ∈ "0123456789abcdefABCDEF_".toList ↔ isHexDigit c ∨ c = '_' := by
  have hall : "0123456789abcdefABCDEF_".toList.all fun c => isHexDigit c || c == '_' := by decide
  constructor
  · intro h
    simpa using List.all_eq_true.mp hall c h
  · rintro (h | rfl)
    · simp only [isHexDigit, Bool.or_eq_true, Bool.and_eq_true, decide_eq_true_eq] at h
      rcases h with (h | h) | h
      · exact mem_of_range 48 57 (Char.isDigit_iff_toNat.mp h) (by decide)
      · exact mem_of_range 97 102 h (by decide)
      · exact mem_of_range 65 70 h (by decide)
    · decide

/-- Runs of digits by the grammar are those that the reader knows. -/
theorem mem_digitRun : text ∈ digitRun ↔ isDigitRun text := by
  have htail : ∀ c, c ∈ "0123456789_".toList ↔ c.isDigit ∨ c = '_' := by
    intro c
    rw [← mem_decimalDigits]
    simp only [show "0123456789_".toList = "0123456789".toList ++ ['_'] from rfl,
      List.mem_append, List.mem_singleton]
  rw [digitRun, Language.mem_mul]
  constructor
  · rintro ⟨_, ⟨c, hc, rfl⟩, rest, hrest, rfl⟩
    rw [mem_kstar_oneOf] at hrest
    simpa [isDigitRun, mem_decimalDigits.mp hc] using fun d hd => (htail d).mp (hrest d hd)
  · intro h
    cases text with
    | nil => cases h
    | cons c rest =>
      simp only [isDigitRun, Bool.and_eq_true, List.all_eq_true, Bool.or_eq_true, beq_iff_eq] at h
      exact ⟨[c], ⟨c, mem_decimalDigits.mpr h.1, rfl⟩, rest,
        mem_kstar_oneOf.mpr fun d hd => (htail d).mpr (h.2 d hd), rfl⟩

theorem mem_hexRun : text ∈ hexDigit∗ ↔ isHexRun text := by
  rw [hexDigit, mem_kstar_oneOf, isHexRun_iff]
  simp only [mem_hexDigits]

theorem mem_hexRun_of_ne_nil : text ∈ hexDigit * hexDigit∗ ↔ text ≠ [] ∧ isHexRun text := by
  rw [Language.mem_mul]
  constructor
  · rintro ⟨_, ⟨c, hc, rfl⟩, rest, hrest, rfl⟩
    rw [mem_hexRun, isHexRun_iff] at hrest
    exact ⟨List.cons_ne_nil _ _,
      isHexRun_iff.mpr (List.forall_mem_cons.mpr ⟨mem_hexDigits.mp hc, hrest⟩)⟩
  · rintro ⟨hne, hrun⟩
    cases text with
    | nil => exact absurd rfl hne
    | cons c rest =>
      obtain ⟨hc, hrest⟩ := List.forall_mem_cons.mp (isHexRun_iff.mp hrun)
      exact ⟨[c], ⟨c, mem_hexDigits.mpr hc, rfl⟩, rest,
        mem_hexRun.mpr (isHexRun_iff.mpr hrest), rfl⟩

theorem mem_signedRun : text ∈ signedRun ↔ isExponent text := by
  rw [signedRun, Language.mem_mul]
  constructor
  · rintro ⟨_, hsign, run, hrun, rfl⟩
    obtain ⟨negative, rfl⟩ := mem_sign.mp hsign
    rw [mem_digitRun] at hrun
    cases negative with
    | true => exact hrun
    | false =>
      cases run with
      | nil => cases hrun
      | cons c rest =>
        have hc : c ≠ '-' := by
          rintro rfl
          cases hrun
        rw [isExponent, splitSign_signText false hc]
        exact hrun
  · intro h
    unfold isExponent splitSign at h
    split at h
    · next run => exact ⟨['-'], mem_sign.mpr ⟨true, rfl⟩, run, mem_digitRun.mpr h, rfl⟩
    · exact ⟨[], mem_sign.mpr ⟨false, rfl⟩, text, mem_digitRun.mpr h, rfl⟩

/-- An optional fraction is the text of one behind a point. -/
theorem mem_point {language : Language Char} :
    text ∈ optional (oneOf "." * language)
      ↔ ∃ fraction, (∀ run ∈ fraction, run ∈ language) ∧ text = pointText fraction := by
  rw [mem_optional, Language.mem_mul]
  constructor
  · rintro (rfl | ⟨_, ⟨c, hc, rfl⟩, run, hrun, rfl⟩)
    · exact ⟨none, by simp, rfl⟩
    · obtain rfl : c = '.' := by simpa using hc
      exact ⟨some run, by simpa using hrun, rfl⟩
  · rintro ⟨_ | run, hrun, rfl⟩
    · exact .inl rfl
    · exact .inr ⟨['.'], ⟨'.', by decide, rfl⟩, run, hrun run rfl, rfl⟩

theorem mem_pointedMantissa :
    text ∈ pointedMantissa
      ↔ ∃ whole fraction, isMantissa whole fraction ∧ text = whole ++ '.' :: fraction := by
  simp only [pointedMantissa, Language.mem_add, Language.mem_mul, mem_digitRun, isMantissa_iff]
  constructor
  · rintro ((⟨whole, hwhole, _, ⟨c, hc, rfl⟩, rfl⟩ | ⟨_, ⟨c, hc, rfl⟩, fraction, hfraction, rfl⟩)
      | ⟨_, ⟨whole, hwhole, _, ⟨c, hc, rfl⟩, rfl⟩, fraction, hfraction, rfl⟩)
    all_goals obtain rfl : c = '.' := by simpa using hc
    · exact ⟨whole, [], .inl ⟨hwhole, rfl⟩, rfl⟩
    · exact ⟨[], fraction, .inr (.inl ⟨rfl, hfraction⟩), rfl⟩
    · exact ⟨whole, fraction, .inr (.inr ⟨hwhole, hfraction⟩), List.append_assoc _ _ _⟩
  · have hpoint : ['.'] ∈ oneOf "." := ⟨'.', by decide, rfl⟩
    rintro ⟨whole, fraction, ⟨hwhole, rfl⟩ | ⟨rfl, hfraction⟩ | ⟨hwhole, hfraction⟩, rfl⟩
    · exact .inl (.inl ⟨whole, hwhole, _, hpoint, rfl⟩)
    · exact .inl (.inr ⟨_, hpoint, fraction, hfraction, rfl⟩)
    · exact .inr ⟨_, ⟨whole, hwhole, _, hpoint, rfl⟩, fraction, hfraction, List.append_assoc _ _ _⟩

/-- A mantissa of the grammar, by its parts. -/
theorem mem_mantissa :
    text ∈ mantissa
      ↔ ∃ whole fraction, IsDecimalMantissa whole fraction
        ∧ text = whole ++ pointText fraction := by
  have hsplit : text ∈ mantissa ↔ text ∈ digitRun ∨ text ∈ pointedMantissa := by
    simp only [mantissa, pointedMantissa, Language.mem_add, or_assoc]
  rw [hsplit, mem_digitRun, mem_pointedMantissa]
  constructor
  · rintro (hrun | ⟨whole, fraction, hmantissa, rfl⟩)
    · exact ⟨text, none, hrun, (List.append_nil text).symm⟩
    · exact ⟨whole, some fraction, hmantissa, rfl⟩
  · rintro ⟨whole, _ | fraction, hmantissa, rfl⟩
    · rw [pointText, List.append_nil]
      exact .inl hmantissa
    · exact .inr ⟨whole, fraction, hmantissa, rfl⟩

theorem mem_exponent :
    text ∈ exponent
      ↔ ∃ marked : Char × List Char, (isDecimalMark marked.1 ∧ isExponent marked.2)
        ∧ text = marked.1 :: marked.2 := by
  simp only [exponent, Language.mem_mul, mem_signedRun]
  constructor
  · rintro ⟨_, ⟨mark, hmark, rfl⟩, digits, hdigits, rfl⟩
    exact ⟨(mark, digits), ⟨by simpa [isDecimalMark] using hmark, hdigits⟩, rfl⟩
  · rintro ⟨⟨mark, digits⟩, ⟨hmark, hdigits⟩, rfl⟩
    exact ⟨[mark], ⟨mark, by simpa [isDecimalMark] using hmark, rfl⟩, digits, hdigits, rfl⟩

theorem mem_optional_exponent :
    text ∈ optional exponent
      ↔ ∃ exponent : Option (Char × List Char),
        (∀ marked ∈ exponent, isDecimalMark marked.1 ∧ isExponent marked.2)
          ∧ text = exponentText exponent := by
  rw [mem_optional, mem_exponent]
  constructor
  · rintro (rfl | ⟨marked, hmarked, rfl⟩)
    · exact ⟨none, by simp, rfl⟩
    · exact ⟨some marked, by simpa using hmarked, rfl⟩
  · rintro ⟨_ | marked, hmarked, rfl⟩
    · exact .inl rfl
    · exact .inr ⟨marked, hmarked marked rfl, rfl⟩

/-! ### Texts of the forms -/

variable {suffix : Language Char}

/-- The named numbers of the grammar, by name and suffix. -/
theorem mem_namedForm :
    text ∈ namedForm suffix
      ↔ ∃ body tail value, (body.map Char.toLower, value) ∈ names ∧ tail ∈ suffix
        ∧ text = body ++ tail := by
  have hname : ∀ body : List Char,
      body ∈ name ↔ ∃ value, (body.map Char.toLower, value) ∈ names := by
    intro body
    show body.map Char.toLower ∈ names.map Prod.fst ↔ _
    rw [List.mem_map]
    constructor
    · rintro ⟨⟨_, value⟩, hmem, rfl⟩
      exact ⟨value, hmem⟩
    · rintro ⟨value, hmem⟩
      exact ⟨_, hmem, rfl⟩
  simp only [namedForm, Language.mem_mul, hname]
  constructor
  · rintro ⟨body, ⟨value, hvalue⟩, tail, htail, rfl⟩
    exact ⟨body, tail, value, hvalue, htail, rfl⟩
  · rintro ⟨body, tail, value, hvalue, htail, rfl⟩
    exact ⟨body, ⟨value, hvalue⟩, tail, htail, rfl⟩

/-- The mark of a hexadecimal number, behind a sign. -/
theorem mem_hexMark :
    text ∈ hexMark
      ↔ ∃ negative x, (x = 'x' ∨ x = 'X') ∧ text = signText negative ++ ['0', x] := by
  simp only [hexMark, Language.mem_mul, mem_sign]
  constructor
  · rintro ⟨_, ⟨_, ⟨negative, rfl⟩, _, ⟨c, hc, rfl⟩, rfl⟩, _, ⟨x, hx, rfl⟩, rfl⟩
    obtain rfl : c = '0' := by simpa using hc
    exact ⟨negative, x, by simpa using hx, List.append_assoc _ _ _⟩
  · rintro ⟨negative, x, hx, rfl⟩
    exact ⟨_, ⟨_, ⟨negative, rfl⟩, ['0'], ⟨'0', by decide, rfl⟩, rfl⟩, [x],
      ⟨x, by simpa using hx, rfl⟩, List.append_assoc _ _ _⟩

/-- The hexadecimal floating point numbers of the grammar, by their parts. -/
theorem mem_hexFloatForm :
    text ∈ hexFloatForm suffix
      ↔ ∃ negative x whole fraction mark exponent tail, (x = 'x' ∨ x = 'X') ∧ isHexRun whole
        ∧ (∀ run ∈ fraction, isHexRun run) ∧ isBinaryMark mark ∧ isExponent exponent
        ∧ tail ∈ suffix
        ∧ text = signText negative
          ++ '0' :: x :: (whole ++ pointText fraction ++ mark :: (exponent ++ tail)) := by
  simp only [hexFloatForm, Language.mem_mul, mem_hexMark, mem_hexRun, mem_point, mem_signedRun]
  constructor
  · rintro ⟨_, ⟨_, ⟨_, ⟨_, ⟨_, ⟨negative, x, hx, rfl⟩, whole, hwhole, rfl⟩,
      _, ⟨fraction, hfraction, rfl⟩, rfl⟩, _, ⟨mark, hmark, rfl⟩, rfl⟩,
      exponent, hexponent, rfl⟩, tail, htail, rfl⟩
    exact ⟨negative, x, whole, fraction, mark, exponent, tail, hx, hwhole, hfraction,
      by simpa [isBinaryMark] using hmark, hexponent, htail, by simp⟩
  · rintro ⟨negative, x, whole, fraction, mark, exponent, tail, hx, hwhole, hfraction, hmark,
      hexponent, htail, rfl⟩
    exact ⟨_, ⟨_, ⟨_, ⟨_, ⟨_, ⟨negative, x, hx, rfl⟩, whole, hwhole, rfl⟩,
      _, ⟨fraction, hfraction, rfl⟩, rfl⟩, [mark], ⟨mark, by simpa [isBinaryMark] using hmark, rfl⟩,
      rfl⟩, exponent, hexponent, rfl⟩, tail, htail, by simp⟩

theorem mem_hexIntegerForm :
    text ∈ hexIntegerForm suffix
      ↔ ∃ negative x digits tail, (x = 'x' ∨ x = 'X') ∧ (digits ≠ [] ∧ isHexRun digits)
        ∧ tail ∈ suffix ∧ text = signText negative ++ '0' :: x :: (digits ++ tail) := by
  rw [hexIntegerForm, Language.mem_mul]
  constructor
  · rintro ⟨_, ⟨_, hmark, digits, hdigits, rfl⟩, tail, htail, rfl⟩
    obtain ⟨negative, x, hx, rfl⟩ := mem_hexMark.mp hmark
    exact ⟨negative, x, digits, tail, hx, mem_hexRun_of_ne_nil.mp hdigits, htail, by simp⟩
  · rintro ⟨negative, x, digits, tail, hx, hdigits, htail, rfl⟩
    exact ⟨_, ⟨_, mem_hexMark.mpr ⟨negative, x, hx, rfl⟩, digits,
      mem_hexRun_of_ne_nil.mpr hdigits, rfl⟩, tail, htail, by simp⟩

theorem mem_integerForm :
    text ∈ integerForm suffix
      ↔ ∃ negative digits tail, isDigitRun digits ∧ tail ∈ suffix
        ∧ text = signText negative ++ (digits ++ tail) := by
  simp only [integerForm, signedRun, Language.mem_mul, mem_sign, mem_digitRun]
  constructor
  · rintro ⟨_, ⟨_, ⟨negative, rfl⟩, digits, hdigits, rfl⟩, tail, htail, rfl⟩
    exact ⟨negative, digits, tail, hdigits, htail, List.append_assoc _ _ _⟩
  · rintro ⟨negative, digits, tail, hdigits, htail, rfl⟩
    exact ⟨_, ⟨_, ⟨negative, rfl⟩, digits, hdigits, rfl⟩, tail, htail, List.append_assoc _ _ _⟩

/-- The decimal forms differ in what they ask of the mantissa and of the exponent. -/
theorem mem_decimal {mantissa exponent : Language Char} :
    text ∈ sign * mantissa * exponent * suffix
      ↔ ∃ negative, ∃ digits ∈ mantissa, ∃ marked ∈ exponent, ∃ tail ∈ suffix,
        text = signText negative ++ (digits ++ marked ++ tail) := by
  simp only [Language.mem_mul, mem_sign]
  constructor
  · rintro ⟨_, ⟨_, ⟨_, ⟨negative, rfl⟩, digits, hdigits, rfl⟩, marked, hmarked, rfl⟩,
      tail, htail, rfl⟩
    exact ⟨negative, digits, hdigits, marked, hmarked, tail, htail, by simp⟩
  · rintro ⟨negative, digits, hdigits, marked, hmarked, tail, htail, rfl⟩
    exact ⟨_, ⟨_, ⟨_, ⟨negative, rfl⟩, digits, hdigits, rfl⟩, marked, hmarked, rfl⟩,
      tail, htail, by simp⟩

/-! ### Forms and spellings -/

theorem mem_floatSuffixes {c : Char} : c ∈ "fFdD".toList ↔ isFloatSuffix c := by
  simp [isFloatSuffix, isSingleSuffix, or_assoc]

theorem mem_longSuffixes {c : Char} : c ∈ "lL".toList ↔ isLongSuffix c := by
  simp [isLongSuffix]

theorem mem_optional_floatSuffix :
    text ∈ optional (oneOf "fFdD")
      ↔ ∃ suffix : Option Char, (∀ c ∈ suffix, isFloatSuffix c) ∧ text = suffix.toList := by
  simp only [mem_optional_oneOf, mem_floatSuffixes]

theorem mem_optional_longSuffix :
    text ∈ optional (oneOf "lL")
      ↔ ∃ suffix : Option Char, (∀ c ∈ suffix, isLongSuffix c) ∧ text = suffix.toList := by
  simp only [mem_optional_oneOf, mem_longSuffixes]

/-- A text of the floating forms spells a floating point number with one of the suffixes. -/
theorem spells_of_mem_floatingForm {suffixes : String}
    (hsuffixes : ∀ c ∈ suffixes.toList, isFloatSuffix c) (h : text ∈ floatingForm suffixes) :
    ∃ suffix numeral, Spells text suffix numeral ∧ numeral.isFloating
      ∧ ∀ c ∈ suffix, c ∈ suffixes.toList := by
  rcases h with (((h | h) | h) | h) | h
  · obtain ⟨name, _, value, hname, htail, rfl⟩ := mem_namedForm.mp h
    obtain ⟨suffix, hsuffix, rfl⟩ := mem_optional_oneOf.mp htail
    exact ⟨suffix, _, .named hname fun c hc => hsuffixes c (hsuffix c hc), rfl, hsuffix⟩
  · obtain ⟨negative, x, whole, fraction, mark, exponent, _, hx, hwhole, hfraction, hmark,
      hexponent, htail, rfl⟩ := mem_hexFloatForm.mp h
    obtain ⟨suffix, hsuffix, rfl⟩ := mem_optional_oneOf.mp htail
    exact ⟨suffix, _, .hexFloat negative hx hwhole hfraction hmark hexponent
      fun c hc => hsuffixes c (hsuffix c hc), rfl, hsuffix⟩
  · obtain ⟨negative, _, hdigits, _, hmarked, _, htail, rfl⟩ := mem_decimal.mp h
    obtain ⟨whole, fraction, hmantissa, rfl⟩ := mem_pointedMantissa.mp hdigits
    obtain ⟨exponent, hexponent, rfl⟩ := mem_optional_exponent.mp hmarked
    obtain ⟨suffix, hsuffix, rfl⟩ := mem_optional_oneOf.mp htail
    have hpointed : IsDecimalMantissa whole (some fraction) := hmantissa
    exact ⟨suffix, _, .decimalFloat negative hpointed hexponent
      (fun c hc => hsuffixes c (hsuffix c hc)) (.inl rfl), rfl, hsuffix⟩
  · obtain ⟨negative, _, hdigits, _, hmarked, _, htail, rfl⟩ := mem_decimal.mp h
    obtain ⟨whole, fraction, hmantissa, rfl⟩ := mem_mantissa.mp hdigits
    obtain ⟨marked, hexponent, rfl⟩ := mem_exponent.mp hmarked
    obtain ⟨suffix, hsuffix, rfl⟩ := mem_optional_oneOf.mp htail
    have hmarks : ∀ other ∈ some marked, isDecimalMark other.1 ∧ isExponent other.2 := by
      rintro _ ⟨⟩
      exact hexponent
    exact ⟨suffix, _, .decimalFloat negative hmantissa hmarks
      (fun c hc => hsuffixes c (hsuffix c hc)) (.inr (.inl rfl)), rfl, hsuffix⟩
  · obtain ⟨negative, _, hdigits, _, hmarked, _, ⟨c, hc, rfl⟩, rfl⟩ := mem_decimal.mp h
    obtain ⟨whole, fraction, hmantissa, rfl⟩ := mem_mantissa.mp hdigits
    obtain ⟨exponent, hexponent, rfl⟩ := mem_optional_exponent.mp hmarked
    have hsuffix : ∀ d ∈ some c, d ∈ suffixes.toList := by
      rintro _ ⟨⟩
      exact hc
    exact ⟨some c, _, .decimalFloat negative hmantissa hexponent
      (fun d hd => hsuffixes d (hsuffix d hd)) (.inr (.inr rfl)), rfl, hsuffix⟩

/-- The suffix of a floating point number is one of the four of its kind. -/
theorem Spells.isFloatSuffix {suffix : Option Char} {numeral : Numeral}
    (h : Spells text suffix numeral) (hfloating : numeral.isFloating) :
    ∀ c ∈ suffix, Numeral.isFloatSuffix c := by
  cases h with
  | named _ hsuffix => exact hsuffix
  | hexFloat _ _ _ _ _ _ hsuffix => exact hsuffix
  | hexInteger => cases hfloating
  | integer => cases hfloating
  | decimalFloat _ _ _ hsuffix => exact hsuffix

/-- The floating forms are the spellings of floating point numbers. -/
theorem mem_floatingForm {suffixes : String} (hsuffixes : ∀ c ∈ suffixes.toList, isFloatSuffix c) :
    text ∈ floatingForm suffixes
      ↔ ∃ suffix numeral, Spells text suffix numeral ∧ numeral.isFloating
        ∧ ∀ c ∈ suffix, c ∈ suffixes.toList := by
  refine ⟨spells_of_mem_floatingForm hsuffixes, ?_⟩
  rintro ⟨suffix, numeral, hspells, hfloating, hsuffix⟩
  have htail : suffix.toList ∈ optional (oneOf suffixes) :=
    mem_optional_oneOf.mpr ⟨suffix, hsuffix, rfl⟩
  cases hspells with
  | named hname =>
    exact .inl (.inl (.inl (.inl (mem_namedForm.mpr ⟨_, _, _, hname, htail, rfl⟩))))
  | hexFloat negative hx hwhole hfraction hmark hexponent =>
    exact .inl (.inl (.inl (.inr (mem_hexFloatForm.mpr
      ⟨negative, _, _, _, _, _, _, hx, hwhole, hfraction, hmark, hexponent, htail, rfl⟩))))
  | hexInteger => cases hfloating
  | integer => cases hfloating
  | @decimalFloat negative whole fraction exponent _ hmantissa hexponent _ hform =>
    have hdigits := mem_mantissa.mpr ⟨whole, fraction, hmantissa, rfl⟩
    have hmarked := mem_optional_exponent.mpr ⟨exponent, hexponent, rfl⟩
    rcases hform with hpoint | hmark | hlast
    · obtain ⟨run, rfl⟩ := Option.isSome_iff_exists.mp hpoint
      exact .inl (.inl (.inr (mem_decimal.mpr ⟨negative, _,
        mem_pointedMantissa.mpr ⟨whole, run, hmantissa, rfl⟩, _, hmarked, _, htail, rfl⟩)))
    · obtain ⟨marked, rfl⟩ := Option.isSome_iff_exists.mp hmark
      exact .inl (.inr (mem_decimal.mpr ⟨negative, _, hdigits, _,
        mem_exponent.mpr ⟨marked, hexponent marked rfl, rfl⟩, _, htail, rfl⟩))
    · obtain ⟨c, rfl⟩ := Option.isSome_iff_exists.mp hlast
      exact .inr (mem_decimal.mpr ⟨negative, _, hdigits, _, hmarked, _,
        ⟨c, hsuffix c rfl, rfl⟩, rfl⟩)

/-- The long forms are the spellings of integers with a suffix. -/
theorem mem_longForm :
    text ∈ longForm
      ↔ ∃ suffix numeral, Spells text suffix numeral
        ∧ numeral.isFloating = false ∧ suffix.isSome := by
  have hlong : ∀ {c : Char}, c ∈ "lL".toList → ∀ d ∈ some c, isLongSuffix d := by
    rintro c hc _ ⟨⟩
    exact mem_longSuffixes.mp hc
  constructor
  · rintro (h | h)
    · obtain ⟨negative, x, digits, _, hx, ⟨hne, hdigits⟩, ⟨c, hc, rfl⟩, rfl⟩ :=
        mem_hexIntegerForm.mp h
      exact ⟨some c, _, .hexInteger negative hx hne hdigits (hlong hc), rfl, rfl⟩
    · obtain ⟨negative, digits, _, hdigits, ⟨c, hc, rfl⟩, rfl⟩ := mem_integerForm.mp h
      exact ⟨some c, _, .integer negative hdigits (hlong hc), rfl, rfl⟩
  · rintro ⟨_ | c, numeral, hspells, hinteger, hsome⟩
    · cases hsome
    cases hspells with
    | named => cases hinteger
    | hexFloat => cases hinteger
    | hexInteger negative hx hne hdigits hsuffix =>
      exact .inl (mem_hexIntegerForm.mpr ⟨negative, _, _, _, hx, ⟨hne, hdigits⟩,
        ⟨c, mem_longSuffixes.mpr (hsuffix c rfl), rfl⟩, rfl⟩)
    | integer negative hdigits hsuffix =>
      exact .inr (mem_integerForm.mpr ⟨negative, _, _, hdigits,
        ⟨c, mem_longSuffixes.mpr (hsuffix c rfl), rfl⟩, rfl⟩)
    | decimalFloat => cases hinteger

/-- The base in which the digits of a numeral are written. -/
def radix : Numeral → Radix
  | hexFloat .. => .hex
  | integer _ radix _ _ => radix
  | named .. => .decimal
  | decimalFloat .. => .decimal

theorem mem_hexForm :
    text ∈ hexForm ↔ ∃ suffix numeral, Spells text suffix numeral ∧ numeral.radix = .hex := by
  constructor
  · rintro (h | h)
    · obtain ⟨negative, x, whole, fraction, mark, exponent, _, hx, hwhole, hfraction, hmark,
        hexponent, htail, rfl⟩ := mem_hexFloatForm.mp h
      obtain ⟨suffix, hsuffix, rfl⟩ := mem_optional_floatSuffix.mp htail
      exact ⟨suffix, _, .hexFloat negative hx hwhole hfraction hmark hexponent hsuffix, rfl⟩
    · obtain ⟨negative, x, digits, _, hx, ⟨hne, hdigits⟩, htail, rfl⟩ := mem_hexIntegerForm.mp h
      obtain ⟨suffix, hsuffix, rfl⟩ := mem_optional_longSuffix.mp htail
      exact ⟨suffix, _, .hexInteger negative hx hne hdigits hsuffix, rfl⟩
  · rintro ⟨suffix, numeral, hspells, hradix⟩
    cases hspells with
    | named => cases hradix
    | hexFloat negative hx hwhole hfraction hmark hexponent hsuffix =>
      have htail := mem_optional_floatSuffix.mpr ⟨suffix, hsuffix, rfl⟩
      exact .inl (mem_hexFloatForm.mpr
        ⟨negative, _, _, _, _, _, _, hx, hwhole, hfraction, hmark, hexponent, htail, rfl⟩)
    | hexInteger negative hx hne hdigits hsuffix =>
      have htail := mem_optional_longSuffix.mpr ⟨suffix, hsuffix, rfl⟩
      exact .inr (mem_hexIntegerForm.mpr ⟨negative, _, _, _, hx, ⟨hne, hdigits⟩, htail, rfl⟩)
    | integer => cases hradix
    | decimalFloat => cases hradix

/-- The forms together are all spellings. -/
theorem mem_numeralForm : text ∈ numeralForm ↔ ∃ suffix numeral, Spells text suffix numeral := by
  constructor
  · rintro ((((h | h) | h) | h) | h)
    · obtain ⟨name, _, value, hname, htail, rfl⟩ := mem_namedForm.mp h
      obtain ⟨suffix, hsuffix, rfl⟩ := mem_optional_floatSuffix.mp htail
      exact ⟨suffix, _, .named hname hsuffix⟩
    · obtain ⟨suffix, numeral, hspells, -⟩ := mem_hexForm.mp (.inl h)
      exact ⟨suffix, numeral, hspells⟩
    · obtain ⟨suffix, numeral, hspells, -⟩ := mem_hexForm.mp (.inr h)
      exact ⟨suffix, numeral, hspells⟩
    · obtain ⟨suffix, numeral, hspells, -⟩ := mem_longForm.mp (.inr h)
      exact ⟨suffix, numeral, hspells⟩
    · obtain ⟨negative, _, hdigits, _, hmarked, _, htail, rfl⟩ := mem_decimal.mp h
      obtain ⟨whole, fraction, hmantissa, rfl⟩ := mem_mantissa.mp hdigits
      obtain ⟨exponent, hexponent, rfl⟩ := mem_optional_exponent.mp hmarked
      obtain ⟨suffix, hsuffix, rfl⟩ := mem_optional_floatSuffix.mp htail
      exact ⟨suffix, exists_spells_of_parts negative hmantissa hexponent hsuffix⟩
  · rintro ⟨suffix, numeral, hspells⟩
    have hspelled := hspells
    cases hspells with
    | named hname hsuffix =>
      have htail := mem_optional_floatSuffix.mpr ⟨suffix, hsuffix, rfl⟩
      exact .inl (.inl (.inl (.inl (mem_namedForm.mpr ⟨_, _, _, hname, htail, rfl⟩))))
    | hexFloat | hexInteger =>
      obtain h | h := mem_hexForm.mpr ⟨_, _, hspelled, rfl⟩
      · exact .inl (.inl (.inl (.inr h)))
      · exact .inl (.inl (.inr h))
    | @integer negative digits _ hdigits hsuffix =>
      cases suffix with
      | none =>
        -- an integer without a suffix is the shortest of the decimal forms
        have hmantissa : IsDecimalMantissa digits none := hdigits
        refine .inr (mem_decimal.mpr ⟨negative, _, mem_mantissa.mpr ⟨digits, none, hmantissa, rfl⟩,
          [], .inl rfl, [], .inl rfl, ?_⟩)
        simp [pointText]
      | some c =>
        exact .inl (.inr (mem_integerForm.mpr ⟨negative, digits, _, hdigits,
          ⟨c, mem_longSuffixes.mpr (hsuffix c rfl), rfl⟩, rfl⟩))
    | decimalFloat negative hmantissa hexponent hsuffix =>
      have htail := mem_optional_floatSuffix.mpr ⟨suffix, hsuffix, rfl⟩
      exact .inr (mem_decimal.mpr ⟨negative, _, mem_mantissa.mpr ⟨_, _, hmantissa, rfl⟩,
        _, mem_optional_exponent.mpr ⟨_, hexponent, rfl⟩, _, htail, rfl⟩)

/-! ### Types and bases -/

/-- A floating point number is a `double` unless its suffix says otherwise. -/
theorem not_single_iff {suffix : Option Char} (h : ∀ c ∈ suffix, isFloatSuffix c) :
    (!suffix.any isSingleSuffix) = true ↔ ∀ c ∈ suffix, c ∈ "dD".toList := by
  cases suffix with
  | none => simp
  | some c =>
    have hc := h c rfl
    simp only [isFloatSuffix, isSingleSuffix, Bool.or_eq_true, beq_iff_eq] at hc
    simp only [Option.any_some, Option.mem_some_iff, forall_eq']
    rcases hc with ((rfl | rfl) | rfl) | rfl <;> decide

/-- Wide are the integers with a suffix, and the floating point numbers with no suffix or with
that of doubles. -/
theorem Spells.isWide_iff {suffix : Option Char} {numeral : Numeral}
    (h : Spells text suffix numeral) :
    numeral.isWide ↔ numeral.isFloating = false ∧ suffix.isSome
      ∨ numeral.isFloating ∧ ∀ c ∈ suffix, c ∈ "dD".toList := by
  cases h with
  | named _ hsuffix => simpa [isWide, isFloating] using not_single_iff hsuffix
  | hexFloat _ _ _ _ _ _ hsuffix => simpa [isWide, isFloating] using not_single_iff hsuffix
  | hexInteger => simp [isWide, isFloating]
  | integer => simp [isWide, isFloating]
  | decimalFloat _ _ _ hsuffix => simpa [isWide, isFloating] using not_single_iff hsuffix

/-- The wide forms are the spellings of wide numbers. -/
theorem mem_wideForm :
    text ∈ longForm + floatingForm "dD"
      ↔ ∃ suffix numeral, Spells text suffix numeral ∧ numeral.isWide := by
  have hdouble : ∀ c ∈ "dD".toList, isFloatSuffix c :=
    List.all_eq_true.mp (by decide : "dD".toList.all isFloatSuffix)
  rw [Language.mem_add, mem_longForm, mem_floatingForm hdouble]
  constructor
  · rintro (⟨suffix, numeral, hspells, hwide⟩ | ⟨suffix, numeral, hspells, hwide⟩)
    · exact ⟨suffix, numeral, hspells, hspells.isWide_iff.mpr (.inl hwide)⟩
    · exact ⟨suffix, numeral, hspells, hspells.isWide_iff.mpr (.inr hwide)⟩
  · rintro ⟨suffix, numeral, hspells, hwide⟩
    obtain hlong | hdouble := hspells.isWide_iff.mp hwide
    · exact .inl ⟨suffix, numeral, hspells, hlong⟩
    · exact .inr ⟨suffix, numeral, hspells, hdouble⟩

/-- A name is none of the texts that announce a hexadecimal number. -/
theorem hexBody?_of_named? {numeral : Numeral} (h : named? text = some numeral) :
    hexBody? (splitSign text).2 = none := by
  have hzero : '0' ∉ text := by
    intro hmem
    rw [named?_eq_none hmem (.inl rfl)] at h
    cases h
  have hbody : ∀ c ∈ (splitSign text).2, c ∈ text := by
    unfold splitSign
    split
    · exact fun c hc => List.mem_cons_of_mem _ hc
    · exact fun c hc => hc
  unfold hexBody?
  split
  · next heq => exact absurd (hbody '0' (by simp [heq])) hzero
  · next heq => exact absurd (hbody '0' (by simp [heq])) hzero
  · rfl

theorem radix_of_named? {numeral : Numeral} (h : named? text = some numeral) :
    numeral.radix = .decimal := by
  obtain ⟨_, -, rfl⟩ := (named?_eq_some_iff rfl).mp h
  rfl

theorem radix_of_hex? {negative : Bool} {numeral : Numeral}
    (h : hex? negative text = some numeral) : numeral.radix = .hex := by
  unfold hex? at h
  split at h
  · obtain ⟨-, ⟨⟩⟩ := Option.ite_none_right_eq_some.mp h
    rfl
  · obtain ⟨-, ⟨⟩⟩ := Option.ite_none_right_eq_some.mp h
    rfl

theorem radix_of_unsuffixed? {negative marked single : Bool} {numeral : Numeral}
    (h : unsuffixed? negative marked single text = some numeral) : numeral.radix = .decimal := by
  obtain ⟨whole, fraction, exponent, rfl, hmantissa, hexponent⟩ :=
    exists_parts_of_unsuffixed? (Option.isSome_of_mem h)
  rw [unsuffixed?_eq negative marked single hmantissa hexponent] at h
  cases h
  split <;> rfl

theorem radix_of_decimal? {negative : Bool} {numeral : Numeral}
    (h : decimal? negative text = some numeral) : numeral.radix = .decimal := by
  unfold decimal? at h
  split at h
  · obtain ⟨-, ⟨⟩⟩ := Option.ite_none_right_eq_some.mp h
    rfl
  · exact radix_of_unsuffixed? h

/-- The base that the front of a numeral announces is the one that its digits are read in. -/
theorem radixOf_eq {numeral : Numeral} (h : parse? text = some numeral) :
    radixOf text = numeral.radix := by
  unfold parse? at h
  unfold radixOf
  rcases hnamed : named? text with _ | named
  · rw [hnamed] at h
    rcases hbody : hexBody? (splitSign text).2 with _ | digits
    · simp only [hbody] at h
      exact (radix_of_decimal? h).symm
    · simp only [hbody] at h
      exact (radix_of_hex? h).symm
  · rw [hnamed] at h
    obtain rfl : named = numeral := by simpa using h
    rw [hexBody?_of_named? hnamed, radix_of_named? hnamed]
    rfl

end Numeral

/-! ### Values -/

namespace Number

/-- Whether this is a `float` or a `double`. -/
def isFloating : Number → Bool
  | int _ => false
  | long _ => false
  | float _ => true
  | double _ => true

/-- Whether this is a `long` or a `double`. -/
def isWide : Number → Bool
  | int _ => false
  | long _ => true
  | float _ => false
  | double _ => true

/-- A value has the type of a numeral. -/
def Fits (number : Number) (numeral : Numeral) : Prop :=
  number.isFloating = numeral.isFloating ∧ number.isWide = numeral.isWide

end Number

namespace Numeral

/-- The type of a floating point number is given by its suffix alone. -/
theorem type_ofDouble (single : Bool) (value : Float) :
    (ofDouble single value).isFloating = true ∧ (ofDouble single value).isWide = !single := by
  cases single <;> exact ⟨rfl, rfl⟩

/-- The value of an integer is of the type of its literal. -/
theorem fits_integerValue {negative long : Bool} {radix : Radix} {run : List Char} {value : Number}
    (h : integerValue negative radix run long = .ok value) :
    value.Fits (.integer negative radix run long) := by
  unfold integerValue at h
  cases long with
  | true =>
    rw [if_pos rfl] at h
    cases hread : integerOf negative radix run 64 with
    | error => simp [hread, Except.map] at h
    | ok n =>
      rw [hread] at h
      cases h
      exact ⟨rfl, rfl⟩
  | false =>
    rw [if_neg Bool.false_ne_true] at h
    cases hread : integerOf negative radix run 32 with
    | error => simp [hread, Except.map] at h
    | ok n =>
      rw [hread] at h
      cases h
      exact ⟨rfl, rfl⟩

/-- The value of a numeral has the type of the numeral. -/
theorem fits_value {numeral : Numeral} {value : Number}
    (h : numeral.value text = .ok value) : value.Fits numeral := by
  cases numeral with
  | named name single =>
    cases h
    exact type_ofDouble single _
  | integer negative radix digits long =>
    rw [Numeral.value] at h
    cases hread : integerValue negative radix digits long with
    | error => simp [hread, Except.mapError] at h
    | ok number =>
      rw [hread] at h
      cases h
      exact fits_integerValue hread
  | decimalFloat negative whole fraction exponent single =>
    cases h
    cases single <;> exact ⟨rfl, rfl⟩
  | hexFloat negative whole fraction exponent single =>
    rw [Numeral.value] at h
    split at h
    · cases h
    · cases h
      exact type_ofDouble single _

/-- What is said of a numeral in terms of its spelling is said of what is read. -/
theorem any_parse?_iff {p : Numeral → Bool} :
    (parse? text).any p ↔ ∃ suffix numeral, Spells text suffix numeral ∧ p numeral := by
  rw [Option.any_eq_true]
  simp only [parse?_eq_some_iff]
  constructor
  · rintro ⟨numeral, ⟨suffix, hspells⟩, hp⟩
    exact ⟨suffix, numeral, hspells, hp⟩
  · rintro ⟨suffix, numeral, hspells, hp⟩
    exact ⟨numeral, ⟨suffix, hspells⟩, hp⟩

/-- A word is a numeral exactly if it is of one of the forms. -/
theorem isNumeral_iff : isNumeral text ↔ text ∈ numeralForm := by
  rw [isNumeral, Option.isSome_iff_exists, mem_numeralForm, exists_comm]
  simp only [parse?_eq_some_iff]

theorem isFloatingNumeral_iff : isFloatingNumeral text ↔ text ∈ floatingForm "fFdD" := by
  have hfloat : ∀ c ∈ "fFdD".toList, isFloatSuffix c := fun c => mem_floatSuffixes.mp
  rw [isFloatingNumeral, any_parse?_iff, mem_floatingForm hfloat]
  constructor
  · rintro ⟨suffix, numeral, hspells, hfloating⟩
    exact ⟨suffix, numeral, hspells, hfloating, fun c hc =>
      mem_floatSuffixes.mpr (hspells.isFloatSuffix hfloating c hc)⟩
  · rintro ⟨suffix, numeral, hspells, hfloating, -⟩
    exact ⟨suffix, numeral, hspells, hfloating⟩

theorem isWideNumeral_iff : isWideNumeral text ↔ text ∈ longForm + floatingForm "dD" := by
  rw [isWideNumeral, any_parse?_iff, mem_wideForm]

/-- A numeral is in base 16 exactly if it is of a hexadecimal form. -/
theorem radixOf_eq_hex_iff (h : isNumeral text) : (radixOf text).base = 16 ↔ text ∈ hexForm := by
  obtain ⟨numeral, hread⟩ := Option.isSome_iff_exists.mp h
  obtain ⟨suffix, hspells⟩ := parse?_eq_some_iff.mp hread
  rw [radixOf_eq hread, mem_hexForm]
  constructor
  · intro hbase
    refine ⟨suffix, numeral, hspells, ?_⟩
    cases hradix : numeral.radix with
    | decimal => simp [hradix, Radix.base] at hbase
    | hex => rfl
  · rintro ⟨_, other, hother, hradix⟩
    obtain rfl : other = numeral := Option.some.inj (hother.parse?_eq.symm.trans hread)
    rw [hradix]
    rfl

/-- The value of a numeral is of the type that its text says. -/
theorem fits_numeralValue {value : Number} (h : numeralValue text = .ok value) :
    value.isFloating = isFloatingNumeral text ∧ value.isWide = isWideNumeral text := by
  unfold numeralValue at h
  unfold isFloatingNumeral isWideNumeral
  cases hread : parse? text with
  | none => simp [hread] at h
  | some numeral =>
    rw [hread] at h
    exact fits_value h

end Numeral

open Numeral

/-- Numerals are the texts of the grammar, and their types, bases and values follow its
productions. -/
theorem numerals_follow_grammar (text : List Char) :
    (isNumeral text ↔ text ∈ numeralForm)
      ∧ (isFloatingNumeral text ↔ text ∈ floatingForm "fFdD")
      ∧ (isWideNumeral text ↔ text ∈ longForm + floatingForm "dD")
      ∧ (isNumeral text → ((radixOf text).base = 16 ↔ text ∈ hexForm))
      ∧ ∀ value, numeralValue text = .ok value →
        value.isFloating = isFloatingNumeral text ∧ value.isWide = isWideNumeral text :=
  ⟨isNumeral_iff, isFloatingNumeral_iff, isWideNumeral_iff, radixOf_eq_hex_iff,
    fun _ => fits_numeralValue⟩

/-- A hexadecimal integer with a sign, an underscore and a long suffix is of its forms only. -/
theorem numerals_follow_grammar_sample :
    "-0x1_FL".toList ∈ numeralForm ∧ "-0x1_FL".toList ∈ hexForm
      ∧ "-0x1_FL".toList ∉ floatingForm "fFdD"
      ∧ "-0x1_FL".toList ∈ longForm + floatingForm "dD"
      ∧ (Number.long (-31)).isWide = isWideNumeral "-0x1_FL".toList := by
  obtain ⟨hnumeral, hfloating, hwide, hradix, hvalue⟩ := numerals_follow_grammar "-0x1_FL".toList
  exact ⟨hnumeral.mp (by decide), (hradix (by decide)).mp (by decide),
    fun h => absurd (hfloating.mpr h) (by decide), hwide.mp (by decide), (hvalue _ rfl).2⟩

end JvmAssembly
