/-
JvmAssembly/Proofs/NumeralFaults.lean

Which numerals have no value.

A text that is classified as a number should have a value, up to numbers that are too
large for their type.  This is true of names and of decimal floating point numbers,
which always have one.  A numeral without a value is one of

  * an integer that denotes a number outside the range of its form (`IsOversized`);
  * a hexadecimal floating point number whose exponent is no 32-bit integer
    (`HasWildExponent`);
  * a hexadecimal numeral without a single digit (`LacksDigits`), such as `0x_` or `0x.p0`:
    its runs may consist of underscores, or be empty on both sides of the point.

The last kind should not be there: a run of decimal digits begins with a digit, and a run
of hexadecimal ones does not have to.  There are no others (`numeral_valued_iff`).
-/
import JvmAssembly.Proofs.IntegerValues

namespace JvmAssembly

namespace Numeral

/-- The binary exponent of a hexadecimal floating point number, read off its text. -/
def binaryExponent (text : List Char) : Int :=
  let marked := text.dropWhile fun c => !isBinaryMark c
  signOf marked.tail * positional 10 (marked.filter Char.isDigit)

/-- An integer literal that denotes a number for which its form has no room. -/
def IsOversized (text : List Char) : Prop :=
  ¬ isFloatingNumeral text
    ∧ (radixOf text = .decimal
        ∧ (denoted text < -2 ^ (widthOf text - 1) ∨ 2 ^ (widthOf text - 1) - 1 < denoted text)
      ∨ radixOf text = .hex ∧ 2 ^ widthOf text ≤ writtenNumber text)

instance (text : List Char) : Decidable (IsOversized text) :=
  inferInstanceAs (Decidable (_ ∧ _))

/-- A hexadecimal floating point literal with an exponent that is no 32-bit integer. -/
def HasWildExponent (text : List Char) : Prop :=
  isFloatingNumeral text ∧ radixOf text = .hex
    ∧ (binaryExponent text < -2 ^ 31 ∨ 2 ^ 31 - 1 < binaryExponent text)

instance (text : List Char) : Decidable (HasWildExponent text) :=
  inferInstanceAs (Decidable (_ ∧ _))

/-- A hexadecimal literal without digits in front of its exponent. -/
def LacksDigits (text : List Char) : Prop :=
  radixOf text = .hex ∧ writtenDigits text = []

instance (text : List Char) : Decidable (LacksDigits text) :=
  inferInstanceAs (Decidable (_ ∧ _))

/-! ### Hexadecimal floating point numbers -/

/-- An exponent is a sign and a run of digits. -/
theorem exists_signedRun {exponent : List Char} (h : isExponent exponent) :
    ∃ negative run, exponent = signText negative ++ run ∧ isDigitRun run
      ∧ splitSign exponent = (negative, run) := by
  unfold isExponent at h
  unfold splitSign at h ⊢
  split at h
  · next run => exact ⟨true, run, rfl, h, rfl⟩
  · exact ⟨false, exponent, rfl, h, rfl⟩

theorem not_isDigit_of_isFloatSuffix {c : Char} (h : isFloatSuffix c) : ¬ c.isDigit := by
  intro hdigit
  exact apart_isFloatSuffix c (isPlain_of_digit (.inl hdigit)) h

/-- The exponent that is read off a text is the one behind the first mark. -/
theorem binaryExponent_eq {front exponent : List Char} {mark : Char} {suffix : Option Char}
    (hfront : ∀ c ∈ front, ¬ isBinaryMark c) (hmark : isBinaryMark mark)
    (hexponent : isExponent exponent) (hsuffix : ∀ c ∈ suffix, isFloatSuffix c) :
    binaryExponent (front ++ mark :: (exponent ++ suffix.toList)) = exponentValue exponent := by
  have hdrop : (front ++ mark :: (exponent ++ suffix.toList)).dropWhile (fun c => !isBinaryMark c)
      = mark :: (exponent ++ suffix.toList) := by
    rw [List.dropWhile_append_of_pos fun c hc => by simpa using hfront c hc]
    simp [hmark]
  have hdigit : ¬ mark.isDigit := by
    simp only [isBinaryMark, Bool.or_eq_true, beq_iff_eq] at hmark
    rcases hmark with rfl | rfl <;> decide
  obtain ⟨negative, run, rfl, hrun, hsplit⟩ := exists_signedRun hexponent
  have hsign : signOf (signText negative ++ run ++ suffix.toList) = if negative then -1 else 1 := by
    cases run with
    | nil => cases hrun
    | cons c run =>
      rw [List.append_assoc]
      refine signOf_signText negative ?_ _
      rintro rfl
      cases hrun
  have hdigits : (mark :: (signText negative ++ run ++ suffix.toList)).filter Char.isDigit
      = digitsOf run := by
    rw [List.filter_cons_of_neg hdigit, List.append_assoc]
    exact filter_signedRun hrun fun c hc => not_isDigit_of_isFloatSuffix (hsuffix c hc)
  rw [binaryExponent, hdrop, exponentValue, hsplit]
  show signOf (signText negative ++ run ++ suffix.toList) * positional 10 _ = _
  rw [hsign, hdigits, ← natOfDigits_of_isDigitRun hrun]
  cases negative <;> simp [signed]

/-- No mark of an exponent stands in front of the exponent. -/
theorem not_isBinaryMark_of_mem_body {whole : List Char} {fraction : Option (List Char)}
    (hwhole : isHexRun whole) (hfraction : ∀ run ∈ fraction, isHexRun run) :
    ∀ c ∈ whole ++ pointText fraction, ¬ isBinaryMark c := by
  refine List.forall_mem_append.mpr ⟨not_isBinaryMark_of_mem hwhole, ?_⟩
  cases fraction with
  | none => exact List.forall_mem_nil _
  | some run =>
    exact List.forall_mem_cons.mpr ⟨by decide, not_isBinaryMark_of_mem (hfraction run rfl)⟩

/-- The digits of a hexadecimal floating point number are those on both sides of its point. -/
theorem filter_hexFloat {negative : Bool} {x mark : Char} {whole rest : List Char}
    {fraction : Option (List Char)} (hx : x = 'x' ∨ x = 'X') (hwhole : isHexRun whole)
    (hfraction : ∀ run ∈ fraction, isHexRun run) (hmark : isBinaryMark mark) :
    (hexMantissa
        (signText negative ++ '0' :: x :: (whole ++ pointText fraction ++ mark :: rest))).filter
          isHexDigit
      = digitsOf whole ++ digitsOf (fraction.getD []) := by
  have hrest : ∀ c ∈ (mark :: rest).head?, isBinaryMark c := by
    rintro _ ⟨⟩
    exact hmark
  rw [hexMantissa_eq negative hx (not_isBinaryMark_of_mem_body hwhole hfraction) hrest,
    List.filter_cons_of_neg (not_isHexDigit_of_hexMark hx), List.filter_append,
    filter_run (by decide) (isHexRun_iff.mp hwhole)]
  congr 1
  cases fraction with
  | none => rfl
  | some run =>
    show ('.' :: run).filter isHexDigit = digitsOf run
    have hrun : isHexRun run := hfraction run rfl
    rw [List.filter_cons_of_neg (by decide), filter_run (by decide) (isHexRun_iff.mp hrun)]

/-- A hexadecimal floating point number has a value exactly if its exponent is a 32-bit integer
and it has digits. -/
theorem exists_hexFloatValue_iff {whole fraction exponent : List Char} :
    (∃ value, hexFloatValue whole fraction exponent = .ok value)
      ↔ (-2 ^ 31 ≤ exponentValue exponent ∧ exponentValue exponent ≤ 2 ^ 31 - 1)
        ∧ digitsOf whole ++ digitsOf fraction ≠ [] := by
  have hbinary : ∀ binary,
      decimalInteger (splitSign exponent).1 (splitSign exponent).2 32 = .ok binary
        ↔ (-2 ^ 31 ≤ exponentValue exponent ∧ exponentValue exponent ≤ 2 ^ 31 - 1)
          ∧ exponentValue exponent = binary :=
    fun binary => decimalInteger_eq_ok_iff rfl
  unfold hexFloatValue
  dsimp only
  constructor
  · rintro ⟨value, hvalue⟩
    split at hvalue
    · cases hvalue
    · next binary hread =>
      refine ⟨((hbinary binary).mp hread).1, fun hempty => ?_⟩
      rw [hempty] at hvalue
      cases hvalue
  · rintro ⟨hfits, hdigits⟩
    rw [(hbinary _).mpr ⟨hfits, rfl⟩]
    dsimp only
    rw [if_neg (mt List.isEmpty_iff.mp hdigits)]
    exact ⟨_, rfl⟩

/-! ### Literals -/

/-- A hexadecimal floating point literal has a value exactly if its exponent is a 32-bit integer
and digits are written in front of it. -/
theorem hexFloat_valued_iff {text whole fraction exponent : List Char} {suffix : Option Char}
    {negative single : Bool}
    (h : Spells text suffix (.hexFloat negative whole fraction exponent single)) :
    (∃ value, numeralValue text = .ok value) ↔ ¬ HasWildExponent text ∧ ¬ LacksDigits text := by
  have hread : parse? text = some (.hexFloat negative whole fraction exponent single) := h.parse?_eq
  have hradix : radixOf text = .hex := radixOf_eq hread
  have hfloating : isFloatingNumeral text := by
    rw [isFloatingNumeral, hread]
    rfl
  have hvalued : (∃ value, numeralValue text = .ok value)
      ↔ ∃ value, hexFloatValue whole fraction exponent = .ok value := by
    rw [numeralValue, hread]
    dsimp only [Numeral.value]
    cases hexFloatValue whole fraction exponent <;> simp
  have hparts : binaryExponent text = exponentValue exponent
      ∧ writtenDigits text = digitsOf whole ++ digitsOf fraction := by
    rw [writtenDigits, hradix]
    cases h with
    | @hexFloat _ x _ _ _ fraction _ hx hwhole hfraction hmark hexponent hsuffix =>
      refine ⟨?_, filter_hexFloat hx hwhole hfraction hmark⟩
      have hfront : ∀ c ∈ signText negative ++ '0' :: x :: (whole ++ pointText fraction),
          ¬ isBinaryMark c := by
        rw [List.forall_mem_append, List.forall_mem_cons, List.forall_mem_cons]
        refine ⟨?_, by decide, ?_, not_isBinaryMark_of_mem_body hwhole hfraction⟩
        · cases negative <;> simp [signText, isBinaryMark]
        · rcases hx with rfl | rfl <;> decide
      have hexp := binaryExponent_eq hfront hmark hexponent hsuffix
      simpa using hexp
  rw [hvalued, exists_hexFloatValue_iff, HasWildExponent, LacksDigits, hparts.1, hparts.2]
  simp only [hfloating, hradix, true_and, ne_eq, not_or, not_lt]

/-- Decimal floating point literals have none of the faults. -/
theorem faultless_of_decimal {text : List Char} (hradix : radixOf text = .decimal)
    (hfloating : isFloatingNumeral text) :
    ¬ IsOversized text ∧ ¬ HasWildExponent text ∧ ¬ LacksDigits text := by
  simp [IsOversized, HasWildExponent, LacksDigits, hradix, hfloating]

end Numeral

open Numeral

/-- **Which numerals have a value.**  A text that is classified as a number has a value exactly if
it is no integer that is too large for its form, no hexadecimal floating point number with an
exponent that is too large, and no hexadecimal number without digits. -/
theorem numeral_valued_iff {text : List Char} (h : isNumeral text) :
    (∃ value, numeralValue text = .ok value)
      ↔ ¬ IsOversized text ∧ ¬ HasWildExponent text ∧ ¬ LacksDigits text := by
  obtain ⟨numeral, hread⟩ := Option.isSome_iff_exists.mp h
  obtain ⟨suffix, hspells⟩ := parse?_eq_some_iff.mp hread
  have hradix : radixOf text = numeral.radix := radixOf_eq hread
  have hfloating : isFloatingNumeral text ↔ numeral.isFloating := by
    rw [isFloatingNumeral, hread]
    rfl
  cases numeral with
  | named name single =>
    refine iff_of_true ⟨ofDouble single (namedValue name), ?_⟩
      (faultless_of_decimal hradix (hfloating.mpr rfl))
    rw [numeralValue, hread]
    rfl
  | decimalFloat negative whole fraction exponent single =>
    refine iff_of_true ⟨decimalFloatValue negative whole fraction exponent single, ?_⟩
      (faultless_of_decimal hradix (hfloating.mpr rfl))
    rw [numeralValue, hread]
    rfl
  | hexFloat negative whole fraction exponent single =>
    have hnot : ¬ IsOversized text := fun hoversized => hoversized.1 (hfloating.mpr rfl)
    rw [hexFloat_valued_iff hspells, and_iff_right hnot]
  | integer negative radix run long =>
    have hinteger : ¬ isFloatingNumeral text := mt hfloating.mp Bool.false_ne_true
    have hnot : ¬ HasWildExponent text := fun hwild => hinteger hwild.1
    have hreads := hspells.readsInteger
    cases radix with
    | decimal =>
      rw [(hreads.decimal hread).1]
      simp [IsOversized, LacksDigits, hreads.radix_eq, hnot, hinteger]
    | hex =>
      rw [(hreads.hex hread).1]
      simp [IsOversized, LacksDigits, hreads.radix_eq, hnot, hinteger, and_comm]

/-- The least exponent, and the largest digits that fit into an `int`. -/
theorem extremes_valued :
    (isNumeral "-0x.8p-2_147_483_648f".toList
        ∧ ∃ value, numeralValue "-0x.8p-2_147_483_648f".toList = .ok value)
      ∧ isNumeral "-0xFFFF_FFFF".toList
        ∧ ∃ value, numeralValue "-0xFFFF_FFFF".toList = .ok value := by
  refine ⟨⟨by decide, ?_⟩, by decide, ?_⟩
  · exact (numeral_valued_iff (by decide)).mpr (by decide)
  · exact (numeral_valued_iff (by decide)).mpr (by decide)

/-- Numbers by classification, with nothing out of range in them, that have no value. -/
theorem digitless_unvalued :
    (isNumeral "0x_".toList ∧ ¬ IsOversized "0x_".toList ∧ ¬ HasWildExponent "0x_".toList
        ∧ ∀ value, numeralValue "0x_".toList ≠ .ok value)
      ∧ isNumeral "0x.p0".toList ∧ ¬ IsOversized "0x.p0".toList
        ∧ ¬ HasWildExponent "0x.p0".toList ∧ ∀ value, numeralValue "0x.p0".toList ≠ .ok value := by
  have hinteger : numeralValue "0x_".toList = .error (.integer "0x_".toList .noDigits) := rfl
  have hfloat : numeralValue "0x.p0".toList = .error (.floating "0x.p0".toList .noDigits) := rfl
  refine ⟨⟨by decide, by decide, by decide, ?_⟩, by decide, by decide, by decide, ?_⟩
  · intro value hvalue
    rw [hinteger] at hvalue
    cases hvalue
  · intro value hvalue
    rw [hfloat] at hvalue
    cases hvalue

end JvmAssembly
