/-
JvmAssembly/Proofs/PrintedTokens.lean

Scanning undoes printing.

What is read of a token is its kind and its content (`Lexeme.reading`).  `render`
writes readings back: words and operators as they are, string literals in quotes
with their quotes, backslashes and surrogates escaped, and one blank between two
tokens.  Scanning what was rendered gives the readings again,

    (scan source (render digits readings)).map Lexeme.reading = readings,

if each of them can be the reading of a token at all (`IsReading`), and whatever is
scanned can.  In particular every content is that of a string literal.

A printed token is one piece that has its end (`pieces_print`), and a blank ends
every word, so the pieces of a rendered text are found one token after the other by
`pieces_append`.
-/
import JvmAssembly.Proofs.LineComposition

namespace JvmAssembly

/-! ### Readings -/

/-- What is read of a token, wherever it stands. -/
abbrev Reading := TokenKind × Content

/-- The kind and the content of a lexeme. -/
def Lexeme.reading (lexeme : Lexeme) : Reading :=
  (lexeme.kind, lexeme.content)

/-- Characters that are scanned as one word: none of them separates words, and no comment
begins among them. -/
structure IsPlainWord (text : List Char) : Prop where
  nonempty : text ≠ []
  plain : ∀ c ∈ text, ¬ separates c
  noComment : ¬ ['/', '/'] <:+: text

/-- What can be read of a token. -/
inductive IsReading : Reading → Prop where
  | string (content : Content) : IsReading (.string, content)
  | operator {c : Char} (h : isOperatorChar c) : IsReading (.operator, Content.ofChars [c])
  | word {text : List Char} (h : IsPlainWord text) :
      IsReading (if isNumeral text then .number else .identifier, Content.ofChars text)

/-! ### Printing -/

/-- A way to write hexadecimal digits. -/
structure HexDigits where
  digit : Nat → Char
  isHexDigit : ∀ n < 16, Numeral.isHexDigit (digit n)
  digitValue : ∀ n < 16, Numeral.digitValue (digit n) = n

namespace HexDigits

/-- Digits with small letters. -/
def lower : HexDigits := ⟨Nat.digitChar, by decide, by decide⟩

/-- Digits with capital letters. -/
def upper : HexDigits := ⟨fun n => (Nat.digitChar n).toUpper, by decide, by decide⟩

/-- A number below `0x10000` in four digits. -/
def four (digits : HexDigits) (n : Nat) : List Char :=
  [digits.digit (n / 0x1000 % 16), digits.digit (n / 0x100 % 16), digits.digit (n / 0x10 % 16),
    digits.digit (n % 16)]

end HexDigits

/-- A code point as it is written in a string literal: quotes and backslashes behind a
backslash, surrogates by their numbers, and all others as themselves. -/
def Escape.encodePoint (digits : HexDigits) : CodePoint → List Char
  | .char c => if c = '"' ∨ c = '\\' then ['\\', c] else [c]
  | .surrogate index => '\\' :: 'u' :: digits.four (CodePoint.surrogate index).toNat

/-- The body of a string literal with the given content. -/
def Escape.encode (digits : HexDigits) (content : Content) : List Char :=
  content.flatMap (encodePoint digits)

/-- A token as it is written. -/
def Reading.print (digits : HexDigits) : Reading → List Char
  | (.string, content) => '"' :: (Escape.encode digits content ++ ['"'])
  | (_, content) => content.chars

/-- Tokens as they are written, with one blank between two of them. -/
def render (digits : HexDigits) (readings : List Reading) : String :=
  String.ofList ([' '].intercalate (readings.map (Reading.print digits)))

/-! ### Literals -/

namespace HexDigits

variable (digits : HexDigits) (n : Nat)

/-- The digits that are printed are hexadecimal. -/
theorem all_isHexDigit_four : (digits.four n).all Numeral.isHexDigit := by
  have hdigit : ∀ m, Numeral.isHexDigit (digits.digit (m % 16)) := fun m =>
    digits.isHexDigit _ (Nat.mod_lt m (by decide))
  simp [four, hdigit]

/-- Four digits are enough below `0x10000`. -/
theorem natOfDigits_four (h : n < 0x10000) : Numeral.natOfDigits 16 (digits.four n) = n := by
  have hdigit : ∀ m, Numeral.digitValue (digits.digit (m % 16)) = m % 16 := fun m =>
    digits.digitValue _ (Nat.mod_lt m (by decide))
  simp only [four, Numeral.natOfDigits, List.foldl_cons, List.foldl_nil, hdigit]
  omega

end HexDigits

namespace Escape

variable (digits : HexDigits)

/-- Hexadecimal digits are plain characters of a literal. -/
theorem splitLiteral_hexDigits {cs : List Char} (h : cs.all Numeral.isHexDigit)
    (rest : List Char) :
    Piece.splitLiteral (cs ++ rest)
      = (cs ++ (Piece.splitLiteral rest).1, (Piece.splitLiteral rest).2) := by
  induction cs with
  | nil => rfl
  | cons c cs ih =>
    rw [List.all_cons, Bool.and_eq_true] at h
    have hquote : c ≠ '"' := by
      rintro rfl
      exact absurd h.1 (by decide)
    have hbackslash : c ≠ '\\' := by
      rintro rfl
      exact absurd h.1 (by decide)
    rw [List.cons_append, Piece.splitLiteral_cons hquote hbackslash, ih h.2]
    rfl

/-- A written code point does not close the literal. -/
theorem splitLiteral_encodePoint (point : CodePoint) (rest : List Char) :
    Piece.splitLiteral (encodePoint digits point ++ rest)
      = (encodePoint digits point ++ (Piece.splitLiteral rest).1, (Piece.splitLiteral rest).2) := by
  cases point with
  | char c =>
    rw [encodePoint]
    split
    · rfl
    · next hplain =>
      obtain ⟨hquote, hbackslash⟩ := not_or.mp hplain
      exact Piece.splitLiteral_cons hquote hbackslash rest
  | surrogate index =>
    have hdigits := digits.all_isHexDigit_four (CodePoint.surrogate index).toNat
    show Piece.splitLiteral ('\\' :: 'u' :: (digits.four _ ++ rest)) = _
    rw [Piece.splitLiteral, splitLiteral_hexDigits hdigits]
    rfl

/-- The body of a written literal ends at its closing quote. -/
theorem splitLiteral_encode (content : Content) (rest : List Char) :
    Piece.splitLiteral (encode digits content ++ '"' :: rest)
      = (encode digits content, true, rest) := by
  induction content with
  | nil => rfl
  | cons point content ih =>
    have hcons : encode digits (point :: content)
        = encodePoint digits point ++ encode digits content := rfl
    rw [hcons, List.append_assoc, splitLiteral_encodePoint, ih]

/-- A written code point is read as itself. -/
theorem decode_encodePoint (point : CodePoint) (rest : List Char) :
    decode (encodePoint digits point ++ rest) = point :: decode rest := by
  cases point with
  | char c =>
    rw [encodePoint]
    split
    · next hescaped => obtain rfl | rfl := hescaped <;> rfl
    · next hplain => exact decode_plain (not_or.mp hplain).2 rest
  | surrogate index =>
    have hlt : (CodePoint.surrogate index).toNat < 0x10000 := by
      show 0xD800 + index.val < 0x10000
      omega
    have hunicode : unicode? (digits.four (CodePoint.surrogate index).toNat)
        = some (.surrogate index) :=
      (unicode?_eq_some_iff _ _).mpr
        ⟨digits.all_isHexDigit_four _, (digits.natOfDigits_four _ hlt).symm⟩
    unfold HexDigits.four at hunicode
    show decode ('\\' :: 'u' :: _ :: _ :: _ :: _ :: rest) = _
    rw [decode, hunicode]

/-- Reading escapes undoes writing them. -/
theorem decode_encode (content : Content) : decode (encode digits content) = content := by
  induction content with
  | nil => rfl
  | cons point content ih =>
    have hcons : encode digits (point :: content)
        = encodePoint digits point ++ encode digits content := rfl
    rw [hcons, decode_encodePoint, ih]

end Escape

/-! ### Words -/

theorem Content.chars_ofChars (cs : List Char) : (Content.ofChars cs).chars = cs := by
  simp [Content.chars, Content.ofChars, Function.comp_def, CodePoint.toChar]

namespace IsPlainWord

variable {text : List Char}

/-- A word that is printed does not end where it starts. -/
theorem not_endsWord {c : Char} {cs : List Char} (h : IsPlainWord (c :: cs)) :
    ¬ Piece.endsWord (c :: cs) := by
  intro hends
  obtain hnil | ⟨d, rest, heq, hsep⟩ | ⟨rest, heq⟩ := (Piece.endsWord_iff _).mp hends
  · cases hnil
  · cases heq
    exact h.plain c List.mem_cons_self hsep
  · apply h.noComment
    rw [heq]
    exact (List.prefix_append ['/', '/'] rest).isInfix

theorem tail {c d : Char} {cs : List Char} (h : IsPlainWord (c :: d :: cs)) :
    IsPlainWord (d :: cs) where
  nonempty := List.cons_ne_nil d cs
  plain e he := h.plain e (List.mem_cons_of_mem c he)
  noComment hinfix := h.noComment (List.infix_cons hinfix)

/-- Nothing is cut off a word. -/
theorem splitWord_eq (h : IsPlainWord text) : Piece.splitWord text = (text, []) := by
  induction text with
  | nil => exact absurd rfl h.nonempty
  | cons c cs ih =>
    have hrest : Piece.splitWord cs = (cs, []) := by
      cases cs with
      | nil => rfl
      | cons d cs => exact ih h.tail
    rw [Piece.splitWord, if_neg h.not_endsWord, hrest]

end IsPlainWord

/-! ### Printed tokens -/

/-- What is read of a piece. -/
def Piece.reading? : Piece → Option Reading
  | blank _ => none
  | comment _ => none
  | operator c => some (.operator, Content.ofChars [c])
  | word text => some (wordKind text, Content.ofChars text)
  | literal body _ => some (.string, Escape.decode body)

/-- What is read does not depend on where it stands. -/
theorem map_reading_lexemes (source : String) (cursor : Cursor) (ps : List Piece) :
    (lexemes source cursor ps).map Lexeme.reading = ps.filterMap Piece.reading? := by
  induction ps generalizing cursor with
  | nil => rfl
  | cons piece ps ih =>
    rw [lexemes, List.map_append, ih, List.filterMap_cons]
    cases piece <;> rfl

/-- A printed token is one piece, which has its end and is read as the token. -/
theorem pieces_print (digits : HexDigits) {reading : Reading} (h : IsReading reading) :
    ∃ piece, pieces (reading.print digits) = [piece] ∧ piece.isClosed
      ∧ piece.reading? = some reading := by
  cases h with
  | string content =>
    refine ⟨.literal (Escape.encode digits content) true, ?_, rfl, ?_⟩
    · show pieces ('"' :: (Escape.encode digits content ++ ['"'])) = _
      rw [pieces_cons, Piece.cut_quote, Escape.splitLiteral_encode, pieces]
    · rw [Piece.reading?, Escape.decode_encode]
  | @operator c hc =>
    refine ⟨.operator c, ?_, rfl, rfl⟩
    show pieces [c] = _
    rw [pieces_cons, Piece.cut_operator hc, pieces]
  | @word text htext =>
    refine ⟨.word text, ?_, rfl, rfl⟩
    have hprint : Reading.print digits
        (if isNumeral text then .number else .identifier, Content.ofChars text) = text := by
      split <;> exact Content.chars_ofChars text
    rw [hprint]
    cases text with
    | nil => exact absurd rfl htext.nonempty
    | cons c cs =>
      have hword := htext.splitWord_eq
      rw [Piece.splitWord, if_neg htext.not_endsWord] at hword
      obtain ⟨hcs, hrest⟩ := Prod.mk.inj hword
      rw [pieces_cons, Piece.cut_word htext.not_endsWord, hcs, hrest, pieces]

/-- The pieces of a rendered text are read as the tokens, one after the other. -/
theorem filterMap_reading?_pieces (digits : HexDigits) {readings : List Reading}
    (h : ∀ reading ∈ readings, IsReading reading) :
    (pieces ([' '].intercalate (readings.map (Reading.print digits)))).filterMap Piece.reading?
      = readings := by
  induction readings with
  | nil =>
    show (pieces []).filterMap Piece.reading? = []
    rw [pieces]
    rfl
  | cons reading readings ih =>
    obtain ⟨hfirst, hrest⟩ := List.forall_mem_cons.mp h
    obtain ⟨piece, hpieces, hclosed, hreading⟩ := pieces_print digits hfirst
    cases readings with
    | nil => simp [hpieces, hreading]
    | cons second readings =>
      have hblank : separates ' ' := rfl
      have htext : [' '].intercalate ((reading :: second :: readings).map (Reading.print digits))
          = reading.print digits
            ++ ' ' :: [' '].intercalate ((second :: readings).map (Reading.print digits)) := rfl
      have hall : ∀ other ∈ pieces (reading.print digits), other.isClosed := by
        simp [hpieces, hclosed]
      rw [htext, pieces_append hall (Piece.breaksWord_cons hblank _), pieces_cons,
        Piece.cut_blank (by decide), List.filterMap_append, hpieces,
        List.filterMap_cons_some hreading, List.filterMap_cons_none rfl, ih hrest]
      rfl

/-! ### Scanned tokens -/

/-- A word of a text can be printed without its surroundings. -/
theorem IsWord.isPlainWord {before text after : List Char} (h : IsWord before text after) :
    IsPlainWord text where
  nonempty := h.nonempty
  plain := h.plain
  noComment := by
    rintro ⟨front, back, rfl⟩
    have hle := h.noComment front (back ++ after) (by simp)
    simp only [List.length_append, List.length_cons, List.length_nil] at hle
    omega

/-- What is read from a text is printable. -/
theorem Lexeme.ReadFrom.isReading {lexeme : Lexeme} {before inside after : List Char}
    (h : lexeme.ReadFrom before inside after) : IsReading lexeme.reading := by
  cases h with
  | operator hc hkind hcontent =>
    rw [Lexeme.reading, hkind, hcontent]
    exact .operator hc
  | word hword hkind hcontent =>
    rw [Lexeme.reading, hkind, hcontent]
    exact .word hword.isPlainWord
  | literal hkind | openLiteral hkind =>
    rw [Lexeme.reading, hkind]
    exact .string _

/-- Whatever is scanned can be printed. -/
theorem isReading_of_mem_scan {source text : String} {lexeme : Lexeme}
    (h : lexeme ∈ scan source text) : IsReading lexeme.reading := by
  have htiled : Tiled [] (scan source text) text.toList :=
    tiled_lexemes_pieces source [] text.toList (.inl (.inl rfl))
  obtain ⟨front, back, heq⟩ := List.append_of_mem h
  rw [heq] at htiled
  obtain ⟨_, _, _, -, hread, -⟩ := htiled.exists_source
  exact hread.isReading

/-- Scanning what is printed gives the readings back. -/
theorem map_reading_scan_render (source : String) (digits : HexDigits) (readings : List Reading)
    (h : ∀ reading ∈ readings, IsReading reading) :
    (scan source (render digits readings)).map Lexeme.reading = readings := by
  unfold scan render
  rw [map_reading_lexemes, String.toList_ofList]
  exact filterMap_reading?_pieces digits h

/-- **Scanning undoes printing.**  Readings that tokens can have are found again in the text
that is rendered from them; all that is scanned has such readings, so that a scanned text
may be rendered and scanned again; and every content, surrogates included, is that of a
string literal. -/
theorem scan_undoes_render (source : String) (digits : HexDigits) :
    (∀ readings, (∀ reading ∈ readings, IsReading reading) →
        (scan source (render digits readings)).map Lexeme.reading = readings)
      ∧ (∀ text, ∀ lexeme ∈ scan source text, IsReading lexeme.reading)
      ∧ (∀ text, (scan source (render digits ((scan source text).map Lexeme.reading))).map
          Lexeme.reading = (scan source text).map Lexeme.reading)
      ∧ ∀ content,
        (scan source (String.ofList ('"' :: (Escape.encode digits content ++ ['"'])))).map
          Lexeme.reading = [(.string, content)] := by
  have hrender := map_reading_scan_render source digits
  refine ⟨hrender, fun text lexeme => isReading_of_mem_scan, fun text => ?_, fun content => ?_⟩
  · apply hrender
    intro reading hreading
    obtain ⟨lexeme, hlexeme, rfl⟩ := List.mem_map.mp hreading
    exact isReading_of_mem_scan hlexeme
  · -- a single reading is rendered without blanks
    have hsingle : render digits [(.string, content)]
        = String.ofList ('"' :: (Escape.encode digits content ++ ['"'])) :=
      congrArg String.ofList List.intercalate_singleton
    rw [← hsingle]
    exact hrender _ (List.forall_mem_singleton.mpr (.string content))

/-- Readings that are hard to write: a string in which a digit follows a surrogate and a `u`
follows a backslash, and a word with slashes at both ends. -/
def readingSample : List Reading :=
  [(.string, [.surrogate 0, .char '0', .char '"', .char '\\', .char 'u', .char '\n']),
    (.operator, Content.ofChars [':']), (.number, Content.ofString "-0x1_F"),
    (.identifier, Content.ofString "/a/")]

/-- The readings of the sample come back with digits of either case. -/
theorem scan_undoes_render_sample :
    (∀ reading ∈ readingSample, IsReading reading)
      ∧ (scan "t" (render .lower readingSample)).map Lexeme.reading = readingSample
      ∧ (scan "t" (render .upper readingSample)).map Lexeme.reading = readingSample := by
  have hplain : ∀ {text : List Char}, (text.all fun c => !separates c) →
      ∀ c ∈ text, ¬ separates c := by
    intro text h c hc
    simpa using List.all_eq_true.mp h c hc
  have hnumber : IsPlainWord "-0x1_F".toList := ⟨by decide, hplain (by decide), by decide⟩
  have hword : IsPlainWord "/a/".toList := ⟨by decide, hplain (by decide), by decide⟩
  have hreadings : ∀ reading ∈ readingSample, IsReading reading := by
    simp only [readingSample, List.forall_mem_cons]
    exact ⟨.string _, .operator (by decide), .word hnumber, .word hword, List.forall_mem_nil _⟩
  exact ⟨hreadings, (scan_undoes_render "t" .lower).1 readingSample hreadings,
    (scan_undoes_render "t" .upper).1 readingSample hreadings⟩

end JvmAssembly
