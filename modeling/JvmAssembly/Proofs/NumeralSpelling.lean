/-
JvmAssembly/Proofs/NumeralSpelling.lean

How numerals are spelled, and that they are read as they are spelled.

`Spells text suffix numeral` puts a text together from the parts of a numeral: a sign,
the mark of hexadecimal numbers, runs of digits, a point, an exponent and a suffix.
`Numeral.parse?` goes the other way and cuts a text at the first mark of an exponent,
at the first point, and in front of its last character.  That these cuts find the parts
again is shown here,

    parse? text = some numeral ↔ ∃ suffix, Spells text suffix numeral,

and what is used for it is always the same: a part has none of the characters at which
the text is cut behind it.
-/
import JvmAssembly.Numeral.Value

namespace JvmAssembly

namespace Numeral

/-! ### Cuts and what they undo -/

/-- A cut is at the first mark. -/
theorem splitOnce_eq_some_iff {p : Char → Bool} {cs before after : List Char} :
    splitOnce p cs = some (before, after)
      ↔ ∃ mark, p mark ∧ cs = before ++ mark :: after ∧ ∀ c ∈ before, ¬ p c := by
  induction cs generalizing before with
  | nil => simp [splitOnce]
  | cons c cs ih =>
    rw [splitOnce]
    split
    · next hc =>
      constructor
      · rintro ⟨⟩
        exact ⟨c, hc, rfl, List.forall_mem_nil _⟩
      · rintro ⟨mark, -, heq, hbefore⟩
        cases before with
        | nil =>
          cases heq
          rfl
        | cons d before =>
          cases heq
          exact absurd hc (hbefore c List.mem_cons_self)
    · next hc =>
      rw [Option.map_eq_some_iff]
      constructor
      · rintro ⟨⟨before, after⟩, hsplit, ⟨⟩⟩
        obtain ⟨mark, hmark, rfl, hbefore⟩ := ih.mp hsplit
        exact ⟨mark, hmark, rfl, List.forall_mem_cons.mpr ⟨hc, hbefore⟩⟩
      · rintro ⟨mark, hmark, heq, hbefore⟩
        cases before with
        | nil =>
          cases heq
          exact absurd hmark hc
        | cons d before =>
          cases heq
          have hrest := (List.forall_mem_cons.mp hbefore).2
          exact ⟨(before, after), ih.mpr ⟨mark, hmark, rfl, hrest⟩, rfl⟩

theorem splitOnce_eq_none_iff {p : Char → Bool} {cs : List Char} :
    splitOnce p cs = none ↔ ∀ c ∈ cs, ¬ p c := by
  induction cs with
  | nil => simp [splitOnce]
  | cons c cs ih =>
    rw [splitOnce, List.forall_mem_cons]
    split
    · next hc => simp [hc]
    · next hc => rw [Option.map_eq_none_iff, ih, and_iff_right hc]

/-- No suffix can be taken off a text: it is empty, or its last character is none. -/
def EndsPlain (p : Char → Bool) (cs : List Char) : Prop :=
  ∀ c ∈ cs.getLast?, ¬ p c

/-- A suffix is split off again, if the rest does not end like one. -/
theorem splitSuffix_append {p : Char → Bool} {body : List Char} {suffix : Option Char}
    (hbody : EndsPlain p body) (hsuffix : ∀ c ∈ suffix, p c) :
    splitSuffix p (body ++ suffix.toList) = (body, suffix) := by
  cases suffix with
  | none =>
    rw [Option.toList_none, List.append_nil]
    unfold splitSuffix
    split
    · next c hlast => rw [if_neg (hbody c hlast)]
    · rfl
  | some c =>
    have hc : p c := hsuffix c rfl
    simp [splitSuffix, hc]

/-- What is split off as a suffix stands at the end of the text. -/
theorem of_splitSuffix_eq {p : Char → Bool} {cs body : List Char} {suffix : Option Char}
    (h : splitSuffix p cs = (body, suffix)) :
    cs = body ++ suffix.toList ∧ ∀ c ∈ suffix, p c := by
  unfold splitSuffix at h
  split at h
  · next c hlast =>
    split at h
    · next hc =>
      cases h
      refine ⟨?_, ?_⟩
      · obtain ⟨front, rfl⟩ := List.getLast?_eq_some_iff.mp hlast
        simp
      · rintro _ ⟨⟩
        exact hc
    · cases h
      simp
  · cases h
    simp

/-! ### Parts and their characters -/

/-- A sign as it is written. -/
def signText (negative : Bool) : List Char :=
  if negative then ['-'] else []

/-- A point and the digits behind it, if there is a point. -/
def pointText : Option (List Char) → List Char
  | none => []
  | some fraction => '.' :: fraction

/-- An exponent and the mark before it, if there is one. -/
def exponentText : Option (Char × List Char) → List Char
  | none => []
  | some (mark, exponent) => mark :: exponent

/-- The names of numbers, in small letters. -/
def names : List (List Char × NamedFloat) :=
  [("nan".toList, .nan), ("infinity".toList, .infinity false),
    ("+infinity".toList, .infinity false), ("-infinity".toList, .infinity true)]

/-- The digits of a decimal number before and behind its point, if it has one. -/
def IsDecimalMantissa (whole : List Char) : Option (List Char) → Prop
  | none => isDigitRun whole
  | some fraction => isMantissa whole fraction

instance (whole : List Char) (fraction : Option (List Char)) :
    Decidable (IsDecimalMantissa whole fraction) :=
  match fraction with
  | none => inferInstanceAs (Decidable (isDigitRun whole = true))
  | some fraction => inferInstanceAs (Decidable (isMantissa whole fraction = true))

/-- The characters of decimal numbers, but for marks and suffixes. -/
def isPlain (c : Char) : Bool :=
  c.isDigit || c == '_' || c == '-' || c == '.'

/-- A class of characters without plain ones. -/
def Apart (p : Char → Bool) : Prop :=
  ∀ c, isPlain c → ¬ p c

theorem apart_of_not_mem {p : Char → Bool} (marks : List Char) (hp : ∀ c, p c → c ∈ marks)
    (hmarks : marks.all fun c => !isPlain c) : Apart p := by
  intro c hplain hc
  have hmark := List.all_eq_true.mp hmarks c (hp c hc)
  rw [hplain] at hmark
  cases hmark

theorem apart_isDecimalMark : Apart isDecimalMark :=
  apart_of_not_mem ['e', 'E'] (by simp [isDecimalMark]) (by decide)

theorem apart_isLongSuffix : Apart isLongSuffix :=
  apart_of_not_mem ['l', 'L'] (by simp [isLongSuffix]) (by decide)

theorem apart_isFloatSuffix : Apart isFloatSuffix :=
  apart_of_not_mem ['f', 'F', 'd', 'D']
    (by simp [isFloatSuffix, isSingleSuffix, or_assoc]) (by decide)

theorem all_of_isDigitRun {run : List Char} (h : isDigitRun run) :
    ∀ c ∈ run, c.isDigit ∨ c = '_' := by
  cases run with
  | nil => cases h
  | cons c run =>
    simp only [isDigitRun, Bool.and_eq_true, List.all_eq_true, Bool.or_eq_true, beq_iff_eq] at h
    exact List.forall_mem_cons.mpr ⟨.inl h.1, h.2⟩

theorem isPlain_of_digit {c : Char} (h : c.isDigit ∨ c = '_') : isPlain c := by
  rcases h with h | rfl
  · simp [isPlain, h]
  · rfl

/-- A run of digits has no marks, points or suffixes in it. -/
theorem isPlain_of_isDigitRun {run : List Char} (h : isDigitRun run) : ∀ c ∈ run, isPlain c :=
  fun c hc => isPlain_of_digit (all_of_isDigitRun h c hc)

theorem isPlain_of_isExponent {exponent : List Char} (h : isExponent exponent) :
    ∀ c ∈ exponent, isPlain c := by
  unfold isExponent splitSign at h
  split at h
  · exact List.forall_mem_cons.mpr ⟨rfl, isPlain_of_isDigitRun h⟩
  · exact isPlain_of_isDigitRun h

/-- A mantissa has digits in front of the point, behind it or both. -/
theorem isMantissa_iff {whole fraction : List Char} :
    isMantissa whole fraction ↔ isDigitRun whole ∧ fraction = [] ∨ whole = [] ∧ isDigitRun fraction
      ∨ isDigitRun whole ∧ isDigitRun fraction := by
  simp [isMantissa, or_assoc]

/-- The digits in front of the point are digits, or there are none. -/
theorem IsDecimalMantissa.whole {whole : List Char} {fraction : Option (List Char)}
    (h : IsDecimalMantissa whole fraction) : ∀ c ∈ whole, c.isDigit ∨ c = '_' := by
  cases fraction with
  | none => exact all_of_isDigitRun h
  | some fraction =>
    obtain ⟨hwhole, -⟩ | ⟨rfl, -⟩ | ⟨hwhole, -⟩ := isMantissa_iff.mp h
    · exact all_of_isDigitRun hwhole
    · exact List.forall_mem_nil _
    · exact all_of_isDigitRun hwhole

theorem IsDecimalMantissa.isPlain {whole : List Char} {fraction : Option (List Char)}
    (h : IsDecimalMantissa whole fraction) :
    ∀ c ∈ whole ++ pointText fraction, Numeral.isPlain c := by
  rw [List.forall_mem_append]
  refine ⟨fun c hc => isPlain_of_digit (h.whole c hc), ?_⟩
  cases fraction with
  | none => exact List.forall_mem_nil _
  | some fraction =>
    refine List.forall_mem_cons.mpr ⟨rfl, ?_⟩
    obtain ⟨-, rfl⟩ | ⟨-, hfraction⟩ | ⟨-, hfraction⟩ := isMantissa_iff.mp h
    · exact List.forall_mem_nil _
    · exact isPlain_of_isDigitRun hfraction
    · exact isPlain_of_isDigitRun hfraction

theorem endsPlain_of_forall {p : Char → Bool} {cs : List Char} (h : ∀ c ∈ cs, ¬ p c) :
    EndsPlain p cs :=
  fun c hc => h c (List.mem_of_getLast? hc)

/-- Where the last part of a text is not empty, it decides how the text ends. -/
theorem EndsPlain.append {p : Char → Bool} {front back : List Char} (hback : EndsPlain p back)
    (hne : back ≠ []) : EndsPlain p (front ++ back) := by
  obtain ⟨last, hlast⟩ := Option.ne_none_iff_exists'.mp (mt List.getLast?_eq_none_iff.mp hne)
  intro c hc
  rw [List.getLast?_append, hlast, Option.some_or] at hc
  cases hc
  exact hback last hlast

/-! ### Spellings -/

/-- How a numeral is spelled, and with which suffix. -/
inductive Spells : List Char → Option Char → Numeral → Prop where
  | named {name : List Char} {value : NamedFloat} {suffix : Option Char}
      (hname : (name.map Char.toLower, value) ∈ names)
      (hsuffix : ∀ c ∈ suffix, isFloatSuffix c) :
      Spells (name ++ suffix.toList) suffix (.named value (suffix.any isSingleSuffix))
  | hexFloat (negative : Bool) {x mark : Char} {whole exponent : List Char}
      {fraction : Option (List Char)} {suffix : Option Char} (hx : x = 'x' ∨ x = 'X')
      (hwhole : isHexRun whole) (hfraction : ∀ run ∈ fraction, isHexRun run)
      (hmark : isBinaryMark mark) (hexponent : isExponent exponent)
      (hsuffix : ∀ c ∈ suffix, isFloatSuffix c) :
      Spells
        (signText negative
          ++ '0' :: x :: (whole ++ pointText fraction ++ mark :: (exponent ++ suffix.toList)))
        suffix
        (.hexFloat negative whole (fraction.getD []) exponent (suffix.any isSingleSuffix))
  | hexInteger (negative : Bool) {x : Char} {digits : List Char} {suffix : Option Char}
      (hx : x = 'x' ∨ x = 'X') (hne : digits ≠ []) (hdigits : isHexRun digits)
      (hsuffix : ∀ c ∈ suffix, isLongSuffix c) :
      Spells (signText negative ++ '0' :: x :: (digits ++ suffix.toList)) suffix
        (.integer negative .hex digits suffix.isSome)
  | integer (negative : Bool) {digits : List Char} {suffix : Option Char}
      (hdigits : isDigitRun digits) (hsuffix : ∀ c ∈ suffix, isLongSuffix c) :
      Spells (signText negative ++ (digits ++ suffix.toList)) suffix
        (.integer negative .decimal digits suffix.isSome)
  | decimalFloat (negative : Bool) {whole : List Char} {fraction : Option (List Char)}
      {exponent : Option (Char × List Char)} {suffix : Option Char}
      (hmantissa : IsDecimalMantissa whole fraction)
      (hexponent : ∀ marked ∈ exponent, isDecimalMark marked.1 ∧ isExponent marked.2)
      (hsuffix : ∀ c ∈ suffix, isFloatSuffix c)
      (hfloating : fraction.isSome ∨ exponent.isSome ∨ suffix.isSome) :
      Spells
        (signText negative
          ++ (whole ++ pointText fraction ++ exponentText exponent ++ suffix.toList))
        suffix
        (.decimalFloat negative whole (fraction.getD []) (exponent.map Prod.snd)
          (suffix.any isSingleSuffix))

/-! ### What is spelled is read -/

theorem isExponent_ne_nil {exponent : List Char} (h : isExponent exponent) : exponent ≠ [] := by
  rintro rfl
  cases h

/-- An exponent is cut off at its mark. -/
theorem splitOnce_exponentText {mantissa : List Char} {exponent : Option (Char × List Char)}
    (hmantissa : ∀ c ∈ mantissa, isPlain c)
    (hexponent : ∀ marked ∈ exponent, isDecimalMark marked.1 ∧ isExponent marked.2) :
    splitOnce isDecimalMark (mantissa ++ exponentText exponent)
      = exponent.map fun marked => (mantissa, marked.2) := by
  have hbefore : ∀ c ∈ mantissa, ¬ isDecimalMark c := fun c hc =>
    apart_isDecimalMark c (hmantissa c hc)
  cases exponent with
  | none =>
    rw [exponentText, List.append_nil]
    exact splitOnce_eq_none_iff.mpr hbefore
  | some marked =>
    obtain ⟨mark, exponent⟩ := marked
    exact splitOnce_eq_some_iff.mpr ⟨mark, (hexponent _ rfl).1, rfl, hbefore⟩

theorem splitOnce_pointText {whole : List Char} (h : ∀ c ∈ whole, c ≠ '.')
    (fraction : Option (List Char)) :
    splitOnce (· == '.') (whole ++ pointText fraction) = fraction.map fun run => (whole, run) := by
  have hbefore : ∀ c ∈ whole, ¬ (c == '.') = true := fun c hc => by simpa using h c hc
  cases fraction with
  | none =>
    rw [pointText, List.append_nil]
    exact splitOnce_eq_none_iff.mpr hbefore
  | some run => exact splitOnce_eq_some_iff.mpr ⟨'.', rfl, rfl, hbefore⟩

/-- Where the cuts of a decimal number without sign and suffix are known, what is left to
check are its parts. -/
theorem unsuffixed?_of_cuts {negative marked single : Bool} {whole : List Char}
    {fraction : Option (List Char)} {exponent : Option (Char × List Char)}
    (hexponent : splitOnce isDecimalMark (whole ++ pointText fraction ++ exponentText exponent)
      = exponent.map fun marked => (whole ++ pointText fraction, marked.2))
    (hpoint : splitOnce (· == '.') (whole ++ pointText fraction)
      = fraction.map fun run => (whole, run)) :
    unsuffixed? negative marked single (whole ++ pointText fraction ++ exponentText exponent)
      = if (∀ marked ∈ exponent, isExponent marked.2) ∧ IsDecimalMantissa whole fraction then
          some (if fraction.isSome ∨ exponent.isSome ∨ marked then
            .decimalFloat negative whole (fraction.getD []) (exponent.map Prod.snd) single
          else
            .integer negative .decimal whole false)
        else
          none := by
  unfold unsuffixed?
  rw [hexponent]
  cases exponent with
  | none =>
    rw [exponentText, List.append_nil]
    simp only [Option.map_none, Option.all_none, if_true, hpoint]
    cases fraction with
    | none => cases marked <;> simp [IsDecimalMantissa, pointText]
    | some run => simp [IsDecimalMantissa]
  | some marked =>
    simp only [Option.map_some, Option.all_some, hpoint]
    cases fraction with
    | none =>
      by_cases hdigits : isExponent marked.2 <;> simp [IsDecimalMantissa, pointText, hdigits]
    | some run => by_cases hdigits : isExponent marked.2 <;> simp [IsDecimalMantissa, hdigits]

/-- A decimal number without sign and suffix is read from its parts. -/
theorem unsuffixed?_eq (negative marked single : Bool) {whole : List Char}
    {fraction : Option (List Char)} {exponent : Option (Char × List Char)}
    (hmantissa : IsDecimalMantissa whole fraction)
    (hexponent : ∀ marked ∈ exponent, isDecimalMark marked.1 ∧ isExponent marked.2) :
    unsuffixed? negative marked single (whole ++ pointText fraction ++ exponentText exponent)
      = some (if fraction.isSome ∨ exponent.isSome ∨ marked then
          .decimalFloat negative whole (fraction.getD []) (exponent.map Prod.snd) single
        else
          .integer negative .decimal whole false) := by
  have hpoint : ∀ c ∈ whole, c ≠ '.' := by
    rintro c hc rfl
    exact absurd (hmantissa.whole '.' hc) (by decide)
  rw [unsuffixed?_of_cuts (splitOnce_exponentText hmantissa.isPlain hexponent)
    (splitOnce_pointText hpoint fraction)]
  exact if_pos ⟨fun marked hmarked => (hexponent marked hmarked).2, hmantissa⟩

/-- A decimal number ends with a digit, an underscore or a point. -/
theorem endsPlain_decimal {p : Char → Bool} (hp : Apart p) {whole : List Char}
    {fraction : Option (List Char)} {exponent : Option (Char × List Char)}
    (hmantissa : IsDecimalMantissa whole fraction)
    (hexponent : ∀ marked ∈ exponent, isDecimalMark marked.1 ∧ isExponent marked.2) :
    EndsPlain p (whole ++ pointText fraction ++ exponentText exponent) := by
  cases exponent with
  | none =>
    rw [exponentText, List.append_nil]
    exact endsPlain_of_forall fun c hc => hp c (hmantissa.isPlain c hc)
  | some marked =>
    obtain ⟨-, hdigits⟩ := hexponent marked rfl
    have hends : EndsPlain p marked.2 :=
      endsPlain_of_forall fun c hc => hp c (isPlain_of_isExponent hdigits c hc)
    have hmarked : EndsPlain p ([marked.1] ++ marked.2) := hends.append (isExponent_ne_nil hdigits)
    exact hmarked.append (List.cons_ne_nil _ _)

theorem splitSuffix_of_endsPlain {p : Char → Bool} {cs : List Char} (h : EndsPlain p cs) :
    splitSuffix p cs = (cs, none) := by
  have hnone : ∀ c ∈ (none : Option Char), p c := by simp
  have hsplit := splitSuffix_append h hnone
  rwa [Option.toList_none, List.append_nil] at hsplit

/-- What is spelled as a decimal floating point number is read back: it is one if it has a point,
an exponent or a suffix, and an integer otherwise. -/
theorem decimal?_eq (negative : Bool) {whole : List Char} {fraction : Option (List Char)}
    {exponent : Option (Char × List Char)} {suffix : Option Char}
    (hmantissa : IsDecimalMantissa whole fraction)
    (hexponent : ∀ marked ∈ exponent, isDecimalMark marked.1 ∧ isExponent marked.2)
    (hsuffix : ∀ c ∈ suffix, isFloatSuffix c) :
    decimal? negative (whole ++ pointText fraction ++ exponentText exponent ++ suffix.toList)
      = some (if fraction.isSome ∨ exponent.isSome ∨ suffix.isSome then
          .decimalFloat negative whole (fraction.getD []) (exponent.map Prod.snd)
            (suffix.any isSingleSuffix)
        else
          .integer negative .decimal whole false) := by
  have hlong : EndsPlain isLongSuffix
      (whole ++ pointText fraction ++ exponentText exponent ++ suffix.toList) := by
    cases suffix with
    | none =>
      rw [Option.toList_none, List.append_nil]
      exact endsPlain_decimal apart_isLongSuffix hmantissa hexponent
    | some c =>
      have hc : isFloatSuffix c := hsuffix c rfl
      have hends : EndsPlain isLongSuffix [c] := by
        rintro _ ⟨⟩ hlong
        simp only [isLongSuffix, Bool.or_eq_true, beq_iff_eq] at hlong
        rcases hlong with rfl | rfl <;> exact absurd hc (by decide)
      exact hends.append (List.cons_ne_nil _ _)
  unfold decimal?
  rw [splitSuffix_of_endsPlain hlong]
  simp only
  rw [splitSuffix_append (endsPlain_decimal apart_isFloatSuffix hmantissa hexponent) hsuffix]
  exact unsuffixed?_eq negative suffix.isSome _ hmantissa hexponent

/-- What is spelled as a decimal integer is read back, with its suffix. -/
theorem decimal?_integer (negative : Bool) {digits : List Char} {suffix : Option Char}
    (hdigits : isDigitRun digits) (hsuffix : ∀ c ∈ suffix, isLongSuffix c) :
    decimal? negative (digits ++ suffix.toList)
      = some (.integer negative .decimal digits suffix.isSome) := by
  cases suffix with
  | none =>
    have hmantissa : IsDecimalMantissa digits none := hdigits
    have hmarks : ∀ marked ∈ (none : Option (Char × List Char)),
        isDecimalMark marked.1 ∧ isExponent marked.2 := by simp
    have hnone : ∀ c ∈ (none : Option Char), isFloatSuffix c := by simp
    simpa [pointText, exponentText] using decimal?_eq negative hmantissa hmarks hnone
  | some c =>
    have hends : EndsPlain isLongSuffix digits := endsPlain_of_forall fun c hc =>
      apart_isLongSuffix c (isPlain_of_isDigitRun hdigits c hc)
    unfold decimal?
    rw [splitSuffix_append hends hsuffix]
    simp [hdigits]

theorem isHexRun_iff {run : List Char} : isHexRun run ↔ ∀ c ∈ run, isHexDigit c ∨ c = '_' := by
  simp [isHexRun]

/-- A run of hexadecimal digits has no mark in it, whichever marks these are. -/
theorem not_mem_hexRun {p : Char → Bool} {run : List Char} (marks : List Char)
    (hp : ∀ c, p c → c ∈ marks) (hmarks : marks.all fun c => !(isHexDigit c || c == '_'))
    (h : isHexRun run) : ∀ c ∈ run, ¬ p c := by
  intro c hc hpc
  have hmark := List.all_eq_true.mp hmarks c (hp c hpc)
  rw [List.all_eq_true.mp h c hc] at hmark
  cases hmark

theorem not_isBinaryMark_of_mem {run : List Char} (h : isHexRun run) :
    ∀ c ∈ run, ¬ isBinaryMark c :=
  not_mem_hexRun ['p', 'P'] (by simp [isBinaryMark]) (by decide) h

theorem not_isLongSuffix_of_mem {run : List Char} (h : isHexRun run) :
    ∀ c ∈ run, ¬ isLongSuffix c :=
  not_mem_hexRun ['l', 'L'] (by simp [isLongSuffix]) (by decide) h

theorem hex?_float (negative : Bool) {mark : Char} {whole exponent : List Char}
    {fraction : Option (List Char)} {suffix : Option Char} (hwhole : isHexRun whole)
    (hfraction : ∀ run ∈ fraction, isHexRun run) (hmark : isBinaryMark mark)
    (hexponent : isExponent exponent) (hsuffix : ∀ c ∈ suffix, isFloatSuffix c) :
    hex? negative (whole ++ pointText fraction ++ mark :: (exponent ++ suffix.toList))
      = some
        (.hexFloat negative whole (fraction.getD []) exponent (suffix.any isSingleSuffix)) := by
  have hmantissa : ∀ c ∈ whole ++ pointText fraction, ¬ isBinaryMark c := by
    rw [List.forall_mem_append]
    refine ⟨not_isBinaryMark_of_mem hwhole, ?_⟩
    cases fraction with
    | none => exact List.forall_mem_nil _
    | some run =>
      exact List.forall_mem_cons.mpr ⟨by decide, not_isBinaryMark_of_mem (hfraction run rfl)⟩
  have hpoint : ∀ c ∈ whole, c ≠ '.' := by
    rintro c hc rfl
    exact absurd (isHexRun_iff.mp hwhole '.' hc) (by decide)
  have hends : EndsPlain isFloatSuffix exponent := endsPlain_of_forall fun c hc =>
    apart_isFloatSuffix c (isPlain_of_isExponent hexponent c hc)
  have hsplit := splitOnce_pointText hpoint fraction
  unfold hex?
  rw [splitOnce_eq_some_iff.mpr ⟨mark, hmark, rfl, hmantissa⟩]
  simp only [splitSuffix_append hends hsuffix, hsplit]
  cases fraction with
  | none =>
    have hempty : isHexRun [] := rfl
    simp [pointText, hwhole, hempty, hexponent]
  | some run => simp [hwhole, hfraction run rfl, hexponent]

/-- What is spelled as a hexadecimal integer is read back, with its suffix. -/
theorem hex?_integer (negative : Bool) {digits : List Char} {suffix : Option Char}
    (hne : digits ≠ []) (hdigits : isHexRun digits) (hsuffix : ∀ c ∈ suffix, isLongSuffix c) :
    hex? negative (digits ++ suffix.toList)
      = some (.integer negative .hex digits suffix.isSome) := by
  have hbinary : ∀ c ∈ digits ++ suffix.toList, ¬ isBinaryMark c := by
    rw [List.forall_mem_append]
    refine ⟨not_isBinaryMark_of_mem hdigits, fun c hc hmark => ?_⟩
    have hlong := hsuffix c (Option.mem_toList.mp hc)
    simp only [isBinaryMark, Bool.or_eq_true, beq_iff_eq] at hmark
    rcases hmark with rfl | rfl <;> exact absurd hlong (by decide)
  have hends : EndsPlain isLongSuffix digits :=
    endsPlain_of_forall (not_isLongSuffix_of_mem hdigits)
  unfold hex?
  rw [splitOnce_eq_none_iff.mpr hbinary]
  simp [splitSuffix_append hends hsuffix, hne, hdigits]

/-- Names are looked up in the table, without their suffix. -/
theorem named?_eq_some_iff {cs body : List Char} {suffix : Option Char} {numeral : Numeral}
    (h : splitSuffix isFloatSuffix cs = (body, suffix)) :
    named? cs = some numeral
      ↔ ∃ value, (body.map Char.toLower, value) ∈ names
        ∧ numeral = .named value (suffix.any isSingleSuffix) := by
  unfold named?
  rw [h]
  simp only
  generalize body.map Char.toLower = name
  constructor
  · intro hread
    split at hread
    · next hname => exact ⟨.nan, by rw [hname]; decide, (Option.some.inj hread).symm⟩
    split at hread
    · next hname => exact ⟨.infinity false, by rw [hname]; decide, (Option.some.inj hread).symm⟩
    split at hread
    · next hname => exact ⟨.infinity false, by rw [hname]; decide, (Option.some.inj hread).symm⟩
    split at hread
    · next hname => exact ⟨.infinity true, by rw [hname]; decide, (Option.some.inj hread).symm⟩
    · cases hread
  · rintro ⟨value, hmem, rfl⟩
    simp only [names, List.mem_cons, Prod.mk.injEq, List.not_mem_nil, or_false] at hmem
    rcases hmem with ⟨rfl, rfl⟩ | ⟨rfl, rfl⟩ | ⟨rfl, rfl⟩ | ⟨rfl, rfl⟩ <;> rfl

/-- The last letter of a name is no suffix. -/
theorem endsPlain_name {name : List Char} {value : NamedFloat}
    (h : (name.map Char.toLower, value) ∈ names) : EndsPlain isFloatSuffix name := by
  have hlast : ∀ entry ∈ names, ¬ entry.1.getLast?.any isFloatSuffix := by decide
  intro c hc hsuffix
  have hlower : c.toLower ∈ (name.map Char.toLower).getLast? := by
    rw [List.getLast?_map]
    exact Option.mem_map_of_mem _ hc
  refine hlast _ h ((Option.any_eq_true _ _).mpr ⟨c.toLower, hlower, ?_⟩)
  simp only [isFloatSuffix, isSingleSuffix, Bool.or_eq_true, beq_iff_eq] at hsuffix
  rcases hsuffix with ((rfl | rfl) | rfl) | rfl <;> decide

/-- What is spelled as a named number is read back, in any case of its letters. -/
theorem named?_eq {name : List Char} {value : NamedFloat} {suffix : Option Char}
    (hname : (name.map Char.toLower, value) ∈ names) (hsuffix : ∀ c ∈ suffix, isFloatSuffix c) :
    named? (name ++ suffix.toList) = some (.named value (suffix.any isSingleSuffix)) :=
  (named?_eq_some_iff (splitSuffix_append (endsPlain_name hname) hsuffix)).mpr ⟨value, hname, rfl⟩

theorem toLower_of_digit {c : Char} (h : c.isDigit ∨ c = '.') : c.toLower = c := by
  rcases h with h | rfl
  · have hle : c.toNat ≤ 57 := (Char.isDigit_iff_toNat.mp h).2
    refine dif_neg fun hupper => ?_
    have hge : 65 ≤ c.toNat := hupper.1
    omega
  · rfl

theorem exists_spells_named {cs : List Char} {numeral : Numeral} (h : named? cs = some numeral) :
    ∃ suffix, Spells cs suffix numeral := by
  rcases hsplit : splitSuffix isFloatSuffix cs with ⟨body, suffix⟩
  obtain ⟨rfl, hsuffix⟩ := of_splitSuffix_eq hsplit
  obtain ⟨value, hname, rfl⟩ := (named?_eq_some_iff hsplit).mp h
  exact ⟨suffix, .named hname hsuffix⟩

/-- A name has no digit and no point in it. -/
theorem named?_eq_none {cs : List Char} {c : Char} (hmem : c ∈ cs) (h : c.isDigit ∨ c = '.') :
    named? cs = none := by
  have hletters : ∀ entry ∈ names, ¬ entry.1.any fun d => d.isDigit || d == '.' := by decide
  refine Option.eq_none_iff_forall_ne_some.mpr fun numeral hread => ?_
  rcases hsplit : splitSuffix isFloatSuffix cs with ⟨body, suffix⟩
  obtain ⟨rfl, hsuffix⟩ := of_splitSuffix_eq hsplit
  obtain ⟨value, hname, -⟩ := (named?_eq_some_iff hsplit).mp hread
  rcases List.mem_append.mp hmem with hbody | hlast
  · have hmem : c ∈ body.map Char.toLower := by
      rw [← toLower_of_digit h]
      exact List.mem_map_of_mem hbody
    exact hletters _ hname (List.any_eq_true.mpr ⟨c, hmem, by simpa using h⟩)
  · have hplain : isPlain c := by
      rcases h with h | rfl
      · exact isPlain_of_digit (.inl h)
      · rfl
    exact apart_isFloatSuffix c hplain (hsuffix c (Option.mem_toList.mp hlast))

theorem splitSign_signText (negative : Bool) {c : Char} (h : c ≠ '-') (cs : List Char) :
    splitSign (signText negative ++ c :: cs) = (negative, c :: cs) := by
  cases negative with
  | true => rfl
  | false =>
    show splitSign (c :: cs) = _
    rw [splitSign]
    rintro _ ⟨⟩
    exact h rfl

/-- After its sign, a number that begins with a digit or a point is hexadecimal or decimal. -/
theorem parse?_signed (negative : Bool) {c : Char} (h : c.isDigit ∨ c = '.') (cs : List Char) :
    parse? (signText negative ++ c :: cs)
      = match hexBody? (c :: cs) with
        | some digits => hex? negative digits
        | none => decimal? negative (c :: cs) := by
  have hsign : c ≠ '-' := by
    rintro rfl
    exact absurd h (by decide)
  unfold parse?
  rw [named?_eq_none (by simp) h, splitSign_signText negative hsign]
  rfl

/-- Behind a sign and `0x`, a text is read as hexadecimal. -/
theorem parse?_hex (negative : Bool) {x : Char} (hx : x = 'x' ∨ x = 'X') (cs : List Char) :
    parse? (signText negative ++ '0' :: x :: cs) = hex? negative cs := by
  rw [parse?_signed negative (.inl (by decide))]
  rcases hx with rfl | rfl <;> rfl

theorem hexBody?_eq_none {cs : List Char} (h : ∀ c ∈ cs, ¬ (c = 'x' ∨ c = 'X')) :
    hexBody? cs = none := by
  unfold hexBody?
  split
  · exact absurd (.inl rfl) (h 'x' (by simp))
  · exact absurd (.inr rfl) (h 'X' (by simp))
  · rfl

/-- Without the mark of a hexadecimal number, a number is read as a decimal one. -/
theorem parse?_decimal (negative : Bool) {body : List Char}
    (hfirst : ∃ c rest, body = c :: rest ∧ (c.isDigit ∨ c = '.'))
    (hx : ∀ c ∈ body, ¬ (c = 'x' ∨ c = 'X')) :
    parse? (signText negative ++ body) = decimal? negative body := by
  obtain ⟨c, rest, rfl, hc⟩ := hfirst
  rw [parse?_signed negative hc, hexBody?_eq_none hx]

/-- A decimal number begins with a digit or a point. -/
theorem IsDecimalMantissa.exists_first {whole : List Char} {fraction : Option (List Char)}
    (h : IsDecimalMantissa whole fraction) :
    ∃ c rest, whole ++ pointText fraction = c :: rest ∧ (c.isDigit ∨ c = '.') := by
  cases whole with
  | nil =>
    cases fraction with
    | none => cases h
    | some fraction => exact ⟨'.', fraction, rfl, .inr rfl⟩
  | cons c whole =>
    have hrun : isDigitRun (c :: whole) := by
      cases fraction with
      | none => exact h
      | some fraction =>
        obtain ⟨hwhole, -⟩ | ⟨⟨⟩, -⟩ | ⟨hwhole, -⟩ := isMantissa_iff.mp h <;> exact hwhole
    rw [isDigitRun, Bool.and_eq_true] at hrun
    exact ⟨c, whole ++ pointText fraction, rfl, .inl hrun.1⟩

/-- A character of a class without the mark of hexadecimal numbers is not this mark. -/
theorem not_hexMark {p : Char → Bool} {c : Char} (hp : ¬ p 'x' ∧ ¬ p 'X') (h : p c) :
    ¬ (c = 'x' ∨ c = 'X') := by
  rintro (rfl | rfl)
  · exact hp.1 h
  · exact hp.2 h

/-- What is spelled is read. -/
theorem Spells.parse?_eq {text : List Char} {suffix : Option Char} {numeral : Numeral}
    (h : Spells text suffix numeral) : parse? text = some numeral := by
  cases h with
  | named hname hsuffix =>
    unfold parse?
    rw [named?_eq hname hsuffix]
    rfl
  | hexFloat negative hx hwhole hfraction hmark hexponent hsuffix =>
    rw [parse?_hex negative hx, hex?_float negative hwhole hfraction hmark hexponent hsuffix]
  | hexInteger negative hx hne hdigits hsuffix =>
    rw [parse?_hex negative hx, hex?_integer negative hne hdigits hsuffix]
  | @integer negative digits suffix hdigits hsuffix =>
    have hmantissa : IsDecimalMantissa digits none := hdigits
    obtain ⟨c, rest, heq, hc⟩ := hmantissa.exists_first
    rw [pointText, List.append_nil] at heq
    have hx : ∀ c ∈ digits ++ suffix.toList, ¬ (c = 'x' ∨ c = 'X') := by
      rw [List.forall_mem_append]
      exact ⟨fun c hc => not_hexMark (by decide) (isPlain_of_isDigitRun hdigits c hc),
        fun c hc => not_hexMark (by decide) (hsuffix c (Option.mem_toList.mp hc))⟩
    rw [parse?_decimal negative ⟨c, rest ++ suffix.toList, by rw [heq]; rfl, hc⟩ hx,
      decimal?_integer negative hdigits hsuffix]
  | @decimalFloat negative whole fraction exponent suffix hmantissa hexponent hsuffix hfloating =>
    obtain ⟨c, rest, heq, hc⟩ := hmantissa.exists_first
    have hx : ∀ c ∈ whole ++ pointText fraction ++ exponentText exponent ++ suffix.toList,
        ¬ (c = 'x' ∨ c = 'X') := by
      rw [List.forall_mem_append, List.forall_mem_append]
      refine ⟨⟨fun c hc => not_hexMark (by decide) (hmantissa.isPlain c hc), ?_⟩,
        fun c hc => not_hexMark (by decide) (hsuffix c (Option.mem_toList.mp hc))⟩
      cases exponent with
      | none => exact List.forall_mem_nil _
      | some marked =>
        obtain ⟨hmark, hdigits⟩ := hexponent marked rfl
        exact List.forall_mem_cons.mpr ⟨not_hexMark (by decide) hmark,
          fun c hc => not_hexMark (by decide) (isPlain_of_isExponent hdigits c hc)⟩
    rw [parse?_decimal negative ⟨c, _, by rw [heq]; rfl, hc⟩ hx,
      decimal?_eq negative hmantissa hexponent hsuffix, if_pos hfloating]

/-! ### What is read is spelled -/

/-- Every text is digits with or without a point, as far as the first point goes. -/
theorem exists_pointText (mantissa : List Char) :
    ∃ whole fraction, mantissa = whole ++ pointText fraction
      ∧ splitOnce (· == '.') mantissa = fraction.map fun run => (whole, run) := by
  rcases hsplit : splitOnce (· == '.') mantissa with _ | ⟨whole, fraction⟩
  · exact ⟨mantissa, none, (List.append_nil mantissa).symm, rfl⟩
  · obtain ⟨mark, hmark, rfl, -⟩ := splitOnce_eq_some_iff.mp hsplit
    obtain rfl : mark = '.' := eq_of_beq hmark
    exact ⟨whole, some fraction, rfl, rfl⟩

/-- Every text is a number with or without an exponent, as far as the first mark goes. -/
theorem exists_exponentText (cs : List Char) :
    ∃ mantissa exponent, cs = mantissa ++ exponentText exponent
      ∧ splitOnce isDecimalMark cs = (exponent.map fun marked => (mantissa, marked.2))
      ∧ ∀ marked ∈ exponent, isDecimalMark marked.1 := by
  rcases hsplit : splitOnce isDecimalMark cs with _ | ⟨mantissa, digits⟩
  · exact ⟨cs, none, (List.append_nil cs).symm, rfl, fun _ h => nomatch h⟩
  · obtain ⟨mark, hmark, rfl, -⟩ := splitOnce_eq_some_iff.mp hsplit
    refine ⟨mantissa, some (mark, digits), rfl, rfl, ?_⟩
    rintro _ ⟨⟩
    exact hmark

theorem exists_spells_hex {negative : Bool} {x : Char} (hx : x = 'x' ∨ x = 'X') {cs : List Char}
    (h : (hex? negative cs).isSome) :
    ∃ suffix numeral, Spells (signText negative ++ '0' :: x :: cs) suffix numeral := by
  unfold hex? at h
  split at h
  · next mantissa rest hsplit =>
    obtain ⟨mark, hmark, rfl, -⟩ := splitOnce_eq_some_iff.mp hsplit
    rcases hrest : splitSuffix isFloatSuffix rest with ⟨exponent, suffix⟩
    obtain ⟨rfl, hsuffix⟩ := of_splitSuffix_eq hrest
    obtain ⟨whole, fraction, rfl, hpoint⟩ := exists_pointText mantissa
    simp only [hrest, hpoint] at h
    have hruns : isHexRun whole ∧ (∀ run ∈ fraction, isHexRun run) ∧ isExponent exponent := by
      cases fraction <;> simp_all [pointText]
    obtain ⟨hwhole, hfraction, hexponent⟩ := hruns
    exact ⟨suffix, _, .hexFloat negative hx hwhole hfraction hmark hexponent hsuffix⟩
  · rcases hsplit : splitSuffix isLongSuffix cs with ⟨digits, suffix⟩
    obtain ⟨rfl, hsuffix⟩ := of_splitSuffix_eq hsplit
    rw [hsplit] at h
    have hdigits : digits ≠ [] ∧ isHexRun digits := by simpa using h
    exact ⟨suffix, _, .hexInteger negative hx hdigits.1 hdigits.2 hsuffix⟩

/-- The parts of a decimal number without sign and suffix. -/
theorem exists_parts_of_unsuffixed? {negative marked single : Bool} {cs : List Char}
    (h : (unsuffixed? negative marked single cs).isSome) :
    ∃ whole fraction exponent, cs = whole ++ pointText fraction ++ exponentText exponent
      ∧ IsDecimalMantissa whole fraction
      ∧ ∀ marked ∈ exponent, isDecimalMark marked.1 ∧ isExponent marked.2 := by
  obtain ⟨mantissa, exponent, rfl, hsplit, hmarks⟩ := exists_exponentText cs
  obtain ⟨whole, fraction, rfl, hpoint⟩ := exists_pointText mantissa
  rw [unsuffixed?_of_cuts hsplit hpoint] at h
  split at h
  · next hparts =>
    exact ⟨whole, fraction, exponent, rfl, hparts.2, fun marked hmarked =>
      ⟨hmarks marked hmarked, hparts.1 marked hmarked⟩⟩
  · cases h

/-- Whatever parts a decimal number has, they spell one. -/
theorem exists_spells_of_parts (negative : Bool) {whole : List Char} {fraction : Option (List Char)}
    {exponent : Option (Char × List Char)} {suffix : Option Char}
    (hmantissa : IsDecimalMantissa whole fraction)
    (hexponent : ∀ marked ∈ exponent, isDecimalMark marked.1 ∧ isExponent marked.2)
    (hsuffix : ∀ c ∈ suffix, isFloatSuffix c) :
    ∃ numeral, Spells
      (signText negative ++ (whole ++ pointText fraction ++ exponentText exponent ++ suffix.toList))
      suffix numeral := by
  by_cases hfloating : fraction.isSome ∨ exponent.isSome ∨ suffix.isSome
  · exact ⟨_, .decimalFloat negative hmantissa hexponent hsuffix hfloating⟩
  · -- with none of the three it is an integer
    simp only [not_or, Option.not_isSome_iff_eq_none] at hfloating
    obtain ⟨rfl, rfl, rfl⟩ := hfloating
    have hnone : ∀ c ∈ (none : Option Char), isLongSuffix c := by simp
    refine ⟨.integer negative .decimal whole false, ?_⟩
    simpa [pointText, exponentText] using Spells.integer negative hmantissa hnone

theorem exists_spells_decimal {negative : Bool} {cs : List Char}
    (h : (decimal? negative cs).isSome) :
    ∃ suffix numeral, Spells (signText negative ++ cs) suffix numeral := by
  unfold decimal? at h
  split at h
  · next digits suffix hsplit =>
    obtain ⟨rfl, hsuffix⟩ := of_splitSuffix_eq hsplit
    have hdigits : isDigitRun digits := by simpa using h
    exact ⟨some suffix, _, .integer negative hdigits hsuffix⟩
  · rcases hsplit : splitSuffix isFloatSuffix cs with ⟨body, suffix⟩
    obtain ⟨rfl, hsuffix⟩ := of_splitSuffix_eq hsplit
    rw [hsplit] at h
    obtain ⟨whole, fraction, exponent, rfl, hmantissa, hexponent⟩ := exists_parts_of_unsuffixed? h
    exact ⟨suffix, exists_spells_of_parts negative hmantissa hexponent hsuffix⟩

/-- What is read has a spelling. -/
theorem exists_spells {text : List Char} (h : (parse? text).isSome) :
    ∃ suffix numeral, Spells text suffix numeral := by
  unfold parse? at h
  rcases hnamed : named? text with _ | numeral
  · rcases hsign : splitSign text with ⟨negative, body⟩
    have htext : text = signText negative ++ body := by
      unfold splitSign at hsign
      split at hsign <;> cases hsign <;> rfl
    rw [hnamed, hsign] at h
    rw [htext]
    rcases hbody : hexBody? body with _ | digits
    · simp only [hbody] at h
      exact exists_spells_decimal h
    · simp only [hbody] at h
      obtain ⟨x, hx, rfl⟩ : ∃ x, (x = 'x' ∨ x = 'X') ∧ body = '0' :: x :: digits := by
        unfold hexBody? at hbody
        split at hbody <;> cases hbody
        · exact ⟨'x', .inl rfl, rfl⟩
        · exact ⟨'X', .inr rfl, rfl⟩
      exact exists_spells_hex hx h
  · obtain ⟨suffix, hspells⟩ := exists_spells_named hnamed
    exact ⟨suffix, numeral, hspells⟩

/-- Numerals are read as they are spelled. -/
theorem parse?_eq_some_iff {text : List Char} {numeral : Numeral} :
    parse? text = some numeral ↔ ∃ suffix, Spells text suffix numeral := by
  constructor
  · intro h
    obtain ⟨suffix, other, hspells⟩ := exists_spells (Option.isSome_of_mem h)
    -- reading is a function, so there is no second numeral of this spelling
    obtain rfl : other = numeral := Option.some.inj (hspells.parse?_eq.symm.trans h)
    exact ⟨suffix, hspells⟩
  · rintro ⟨suffix, hspells⟩
    exact hspells.parse?_eq

end Numeral

end JvmAssembly
