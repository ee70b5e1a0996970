/-
JvmAssembly/Proofs/TokenLocations.lean

The location of a token is its place in the text.

A place in a text is known by what stands before it.  Its line counts the newlines there,
and its column counts the characters behind the last of them:

    placeBehind source before = ⟨1 + before.count '\n', 1 + (lastLine before).length, source⟩.

The cursor of the scanner counts along, and it never goes back.  So it has to be shown of
one character what it does to the three numbers (`Cursor.advance_start`), and that every
lexeme is made with the cursor behind all that was cut off before it
(`exists_piece_of_mem_lexemes`), whatever pieces that were.

The place of a lexeme is given in bytes.  There is at most one way to cut a text in front
of a byte (`append_inj_of_byteLength`), so what stands before it is well defined.
-/
import JvmAssembly.Proofs.LineComposition
import Mathlib.Data.List.DropRight

namespace JvmAssembly

/-! ### Places -/

/-- What stands behind the last newline of a text. -/
def lastLine (text : List Char) : List Char :=
  text.rtakeWhile (· != '\n')

/-- The location behind some text. -/
def placeBehind (source : String) (before : List Char) : Location :=
  ⟨1 + before.count '\n', 1 + (lastLine before).length, source⟩

/-- The byte of a text at which the source of a lexeme begins: that of its span, or of the quote
in front of it. -/
def Lexeme.origin (lexeme : Lexeme) : Nat :=
  if lexeme.kind = .string then lexeme.span.start - 1 else lexeme.span.start

/-- A newline starts a line, and everything else goes on with it. -/
theorem lastLine_concat (text : List Char) (c : Char) :
    lastLine (text ++ [c]) = if c = '\n' then [] else lastLine text ++ [c] := by
  unfold lastLine
  rw [List.rtakeWhile_concat]
  split <;> simp_all

/-- The column counts the characters behind the last newline. -/
theorem Cursor.column_advance_start (cs : List Char) :
    (start.advance cs).column = 1 + (lastLine cs).length := by
  induction cs using List.reverseRecOn with
  | nil => rfl
  | append_singleton cs c ih =>
    rw [advance_append, advance_cons, advance_nil, lastLine_concat]
    unfold step
    split
    · rfl
    · rw [List.length_append, ← Nat.add_assoc, ← ih]
      rfl

/-- The cursor behind a text has counted its bytes, lines and characters. -/
theorem Cursor.location_advance_start (source : String) (cs : List Char) :
    (start.advance cs).location source = placeBehind source cs := by
  unfold location placeBehind
  rw [line_advance, column_advance_start]
  rfl

/-- A text is cut in front of a byte in one way. -/
theorem append_inj_of_byteLength {before after left right : List Char}
    (htext : before ++ after = left ++ right) (hbytes : byteLength before = byteLength left) :
    before = left ∧ after = right := by
  -- what one of the two parts has more than the other takes no bytes
  have hnil : ∀ {front more : List Char}, byteLength front = byteLength (front ++ more) →
      more = [] := by
    intro front more h
    by_contra hne
    have hpos := byteLength_pos hne
    rw [byteLength_append] at h
    omega
  obtain ⟨more, rfl, rfl⟩ | ⟨more, rfl, rfl⟩ := List.append_eq_append_iff.mp htext
  · obtain rfl := hnil hbytes
    simp
  · obtain rfl := hnil hbytes.symm
    simp

/-! ### Lexemes -/

/-- A lexeme is made where its piece begins; only the pieces of strings begin with a quote that
is not in the span. -/
theorem Piece.origin_of_lexeme? {source : String} {cursor : Cursor} {piece : Piece}
    {lexeme : Lexeme} (h : piece.lexeme? source cursor = some lexeme) :
    lexeme.location = cursor.location source ∧ lexeme.origin = cursor.offset
      ∧ (lexeme.kind = .string →
        lexeme.span.start = cursor.offset + 1 ∧ piece.source.head? = some '"') := by
  cases piece with
  | blank | comment => cases h
  | operator c =>
    cases h
    exact ⟨rfl, rfl, nofun⟩
  | word text =>
    cases h
    have hkind : wordKind text ≠ .string := by
      unfold wordKind
      split <;> exact nofun
    refine ⟨rfl, ?_, fun hstring => absurd hstring hkind⟩
    exact if_neg hkind
  | literal body closed =>
    cases h
    exact ⟨rfl, rfl, fun _ => ⟨rfl, rfl⟩⟩

/-- Every lexeme comes from a piece, with the cursor behind the pieces before it. -/
theorem exists_piece_of_mem_lexemes {source : String} {cursor : Cursor} {ps : List Piece}
    {lexeme : Lexeme} (h : lexeme ∈ lexemes source cursor ps) :
    ∃ front piece back, ps = front ++ piece :: back
      ∧ piece.lexeme? source (cursor.advance (front.flatMap Piece.source)) = some lexeme := by
  induction ps generalizing cursor with
  | nil => cases h
  | cons first ps ih =>
    rw [lexemes, List.mem_append, Option.mem_toList] at h
    rcases h with hfirst | hrest
    · exact ⟨[], first, ps, rfl, hfirst⟩
    · obtain ⟨front, piece, back, rfl, hpiece⟩ := ih hrest
      refine ⟨first :: front, piece, back, rfl, ?_⟩
      rw [List.flatMap_cons, Cursor.advance_append]
      exact hpiece

/-- **Tokens are located where they stand.**  The source of a token begins at a character of the
text, which is the opening quote if the token is a string.  The line of the token is one more
than the number of newlines in front of this character, and its column is one more than the
number of characters between the last of them and this one. -/
theorem scan_locations {source text : String} {lexeme : Lexeme} (h : lexeme ∈ scan source text) :
    (∃ before after, text.toList = before ++ after ∧ byteLength before = lexeme.origin
        ∧ (lexeme.kind = .string →
          lexeme.span.start = byteLength before + 1 ∧ after.head? = some '"'))
      ∧ ∀ before after, text.toList = before ++ after → byteLength before = lexeme.origin →
        lexeme.location = placeBehind source before := by
  obtain ⟨front, piece, back, hpieces, hpiece⟩ := exists_piece_of_mem_lexemes h
  obtain ⟨hlocation, horigin, hquote⟩ := Piece.origin_of_lexeme? hpiece
  rw [Cursor.location_advance_start] at hlocation
  rw [Cursor.offset_start_advance] at horigin hquote
  have htext : text.toList
      = front.flatMap Piece.source ++ (piece.source ++ back.flatMap Piece.source) := by
    rw [← flatMap_source_pieces text.toList, hpieces, List.flatMap_append, List.flatMap_cons]
  refine ⟨⟨_, _, htext, horigin.symm, fun hstring => ?_⟩, fun before after hcut hbytes => ?_⟩
  · obtain ⟨hspan, hhead⟩ := hquote hstring
    refine ⟨hspan, ?_⟩
    rw [List.head?_append, hhead]
    rfl
  · obtain ⟨rfl, -⟩ := append_inj_of_byteLength (hcut.symm.trans htext) (hbytes.trans horigin)
    exact hlocation

/-- A string with a newline, a backslash in front of another one and the first half of an escape,
behind a comment with a quote and right in front of a word. -/
def locationSample : String :=
  "é // ü\"\n  \"ö\n\\\n\\u00\"größe"

/-- On the fourth line, behind a string with a newline in it, columns count characters and not
bytes. -/
theorem locationSample_located :
    ∃ lexeme ∈ scan "t" locationSample, lexeme.content = Content.ofString "größe"
      ∧ lexeme.location = ⟨4, 6, "t"⟩ := by
  have hmem : (⟨⟨.identifier, Content.ofString "größe", ⟨4, 6, "t"⟩⟩, ⟨23, 30⟩⟩ : Lexeme)
      ∈ scan "t" locationSample := by decide +kernel
  have hcut : locationSample.toList
      = "é // ü\"\n  \"ö\n\\\n\\u00\"".toList ++ "größe".toList := by decide +kernel
  refine ⟨_, hmem, rfl, ?_⟩
  exact ((scan_locations hmem).2 _ _ hcut (by decide +kernel)).trans (by decide +kernel)

end JvmAssembly
