/-
JvmAssembly/Proofs/LineComposition.lean

Texts are scanned line by line.

If `a` does not end inside a string, the lexemes of `a ++ "\n" ++ b` are those of
`a`, and behind them those of `b`, moved past `a` and the newline:

    scan source (a ++ "\n" ++ b)
      = scan source a ++ (scan source b).map (Lexeme.moved bytes lines).

There are two parts to this.  Cutting: what is put behind a text leaves its first
piece as it is, if the piece has its end and no word can go on there (`cut_append`).
So every piece of `a` is a piece of the whole text, but for a comment that has no
newline yet (`cut_newline_of_comment`), and neither it nor the newline is a token.
Locating: a cursor only ever adds to its offset and its line, so lexemes that are read
from a moved cursor are moved in the same way (`lexemes_moved`).  A newline puts the
cursor into the first column, which is where every text starts.
-/
import JvmAssembly.Proofs.ScanCoverage

namespace JvmAssembly

namespace Piece

/-! ### Text behind a text -/

/-- No word can go on with this text, and no comment can begin right before it. -/
def BreaksWord (tail : List Char) : Prop :=
  tail = [] ∨ ∃ c rest, tail = c :: rest ∧ separates c

theorem breaksWord_cons {c : Char} (h : separates c) (rest : List Char) : BreaksWord (c :: rest) :=
  .inr ⟨c, rest, rfl, h⟩

variable {tail : List Char}

theorem startsComment_append (h : BreaksWord tail) (c : Char) (cs : List Char) :
    startsComment (c :: (cs ++ tail)) = startsComment (c :: cs) := by
  cases cs with
  | cons d cs =>
    -- two characters decide
    by_cases hc : c = '/' <;> by_cases hd : d = '/' <;> simp [startsComment, hc, hd]
  | nil =>
    obtain rfl | ⟨d, rest, rfl, hd⟩ := h
    · rfl
    · have hne : d ≠ '/' := by
        rintro rfl
        exact absurd hd (by decide)
      simp [startsComment, hne]

theorem endsWord_append (h : BreaksWord tail) (cs : List Char) :
    endsWord (cs ++ tail) = endsWord cs := by
  cases cs with
  | cons c cs =>
    show (_ || _ || _ || startsComment (c :: (cs ++ tail))) = _
    rw [startsComment_append h]
    rfl
  | nil =>
    have hends : EndsAfter tail := by
      obtain rfl | hsep := h
      · exact .inl rfl
      · exact .inr (.inl hsep)
    exact (endsWord_iff tail).mpr hends

/-- A word is cut off in the same way with something behind it that breaks words. -/
theorem splitWord_append_tail (h : BreaksWord tail) (cs : List Char) :
    splitWord (cs ++ tail) = ((splitWord cs).1, (splitWord cs).2 ++ tail) := by
  induction cs with
  | nil =>
    have hends : endsWord tail := endsWord_append h []
    show splitWord tail = ([], tail)
    cases tail with
    | nil => rfl
    | cons c rest => rw [splitWord, if_pos hends]
  | cons c cs ih =>
    have hends := endsWord_append h (c :: cs)
    rw [List.cons_append] at hends ⊢
    rw [splitWord, splitWord, hends, ih]
    split <;> rfl

theorem splitLiteral_cons {c : Char} (hquote : c ≠ '"') (hbackslash : c ≠ '\\') (cs : List Char) :
    splitLiteral (c :: cs)
      = (c :: (splitLiteral cs).1, (splitLiteral cs).2.1, (splitLiteral cs).2.2) := by
  rw [splitLiteral]
  · exact hquote
  · rintro d ds rfl
    exact absurd rfl hbackslash

/-- A literal that is closed ends where it did, whatever follows. -/
theorem splitLiteral_append_tail {cs : List Char} (h : (splitLiteral cs).2.1 = true)
    (tail : List Char) :
    splitLiteral (cs ++ tail) = ((splitLiteral cs).1, true, (splitLiteral cs).2.2 ++ tail) := by
  fun_induction splitLiteral cs with
  | case1 => cases h
  | case2 cs => rfl
  | case3 c cs body closed rest heq ih =>
    rw [heq] at ih
    show splitLiteral ('\\' :: c :: (cs ++ tail)) = _
    rw [splitLiteral, ih h]
  | case4 c cs hquote hescape body closed rest heq ih =>
    have hbackslash : c ≠ '\\' := by
      rintro rfl
      cases cs with
      | nil =>
        -- a backslash at the end closes nothing
        cases heq
        cases h
      | cons d ds => exact hescape d ds rfl rfl
    rw [heq] at ih
    rw [List.cons_append, splitLiteral_cons hquote hbackslash, ih h]

/-- A line that ends is cut off in the same way, whatever stands behind it. -/
theorem splitLine_append_tail {cs : List Char} (h : '\n' ∈ (splitLine cs).1) (tail : List Char) :
    splitLine (cs ++ tail) = ((splitLine cs).1, (splitLine cs).2 ++ tail) := by
  induction cs with
  | nil => cases h
  | cons c cs ih =>
    rw [List.cons_append, splitLine, splitLine]
    rw [splitLine] at h
    split
    · rfl
    · next hc =>
      rw [if_neg hc] at h
      rw [ih (List.mem_of_ne_of_mem (Ne.symm hc) h)]

/-- A line without its newline takes what follows, up to the newline that comes. -/
theorem splitLine_newline {line : List Char} (h : '\n' ∉ line) (rest : List Char) :
    splitLine (line ++ '\n' :: rest) = (line ++ ['\n'], rest) := by
  induction line with
  | nil => rfl
  | cons c line ih =>
    obtain ⟨hc, hline⟩ := List.ne_and_not_mem_of_not_mem_cons h
    rw [List.cons_append, splitLine, if_neg (Ne.symm hc), ih hline]
    rfl

/-! ### Cutting one piece -/

theorem cut_blank {c : Char} (h : isBlank c) (cs : List Char) : cut c cs = (blank c, cs) := by
  rw [cut, if_pos h]

theorem cut_operator {c : Char} (h : isOperatorChar c) (cs : List Char) :
    cut c cs = (operator c, cs) := by
  have hblank : ¬ isBlank c := by
    simp only [isOperatorChar, Bool.or_eq_true, beq_iff_eq] at h
    rcases h with ((rfl | rfl) | rfl) | rfl <;> decide
  rw [cut, if_neg hblank, if_pos h]

theorem cut_quote (cs : List Char) :
    cut '"' cs = (literal (splitLiteral cs).1 (splitLiteral cs).2.1, (splitLiteral cs).2.2) := rfl

/-- A comment is cut off up to and with its newline. -/
theorem cut_comment {c : Char} {cs : List Char} (h : startsComment (c :: cs)) :
    cut c cs = (comment (splitLine (c :: cs)).1, (splitLine (c :: cs)).2) := by
  obtain ⟨rest, heq⟩ := (startsComment_iff _).mp h
  cases heq
  rfl

/-- A word is cut off up to the next character that ends words. -/
theorem cut_word {c : Char} {cs : List Char} (h : ¬ endsWord (c :: cs)) :
    cut c cs = (word (c :: (splitWord cs).1), (splitWord cs).2) := by
  simp only [endsWord, Bool.or_eq_true, beq_iff_eq, not_or] at h
  obtain ⟨⟨⟨hblank, hoperator⟩, hquote⟩, hcomment⟩ := h
  rw [cut, if_neg hblank, if_neg hoperator, if_neg hquote, if_neg hcomment]

/-- What comes first decides what is cut off. -/
theorem first_cases (c : Char) (cs : List Char) :
    isBlank c ∨ isOperatorChar c ∨ c = '"' ∨ startsComment (c :: cs) ∨ ¬ endsWord (c :: cs) := by
  by_cases hends : endsWord (c :: cs)
  · simp only [endsWord, Bool.or_eq_true, beq_iff_eq] at hends
    obtain ((hc | hc) | hc) | hc := hends <;> simp [hc]
  · exact .inr (.inr (.inr (.inr hends)))

/-- Whether a piece has its end: a literal its closing quote, and a comment its newline. -/
def isClosed : Piece → Bool
  | comment text => text.contains '\n'
  | literal _ closed => closed
  | _ => true

/-- A piece that has its end is cut off in the same way, whatever follows. -/
theorem cut_append (h : BreaksWord tail) {c : Char} {cs : List Char}
    (hclosed : (cut c cs).1.isClosed) :
    cut c (cs ++ tail) = ((cut c cs).1, (cut c cs).2 ++ tail) := by
  obtain hc | hc | rfl | hc | hc := first_cases c cs
  · rw [cut_blank hc, cut_blank hc]
  · rw [cut_operator hc, cut_operator hc]
  · rw [cut_quote] at hclosed
    have hclosed : (splitLiteral cs).2.1 = true := hclosed
    rw [cut_quote, cut_quote, splitLiteral_append_tail hclosed, hclosed]
  · have hlonger : startsComment (c :: (cs ++ tail)) := (startsComment_append h c cs).trans hc
    rw [cut_comment hc] at hclosed
    have hline : '\n' ∈ (splitLine (c :: cs)).1 := List.contains_iff_mem.mp hclosed
    rw [cut_comment hc, cut_comment hlonger, ← List.cons_append, splitLine_append_tail hline]
  · have hlonger : ¬ endsWord (c :: (cs ++ tail)) := by
      rw [← List.cons_append, endsWord_append h]
      exact hc
    rw [cut_word hc, cut_word hlonger, splitWord_append_tail h]

/-- Of the pieces that are not literals, only a comment at the end of the text can lack its
end, and the next newline gives it one. -/
theorem cut_newline_of_comment {c : Char} {cs line : List Char}
    (h : (cut c cs).1 = comment line) (hopen : '\n' ∉ line) (rest : List Char) :
    line = c :: cs ∧ (cut c cs).2 = []
      ∧ cut c (cs ++ '\n' :: rest) = (comment (line ++ ['\n']), rest) := by
  obtain hc | hc | rfl | hc | hc := first_cases c cs
  · rw [cut_blank hc] at h
    cases h
  · rw [cut_operator hc] at h
    cases h
  · rw [cut_quote] at h
    cases h
  · have hlonger : startsComment (c :: (cs ++ '\n' :: rest)) :=
      (startsComment_append (breaksWord_cons (by decide) rest) c cs).trans hc
    rw [cut_comment hc] at h ⊢
    rw [cut_comment hlonger]
    obtain rfl : (splitLine (c :: cs)).1 = line := by
      cases h
      rfl
    have hrest : (splitLine (c :: cs)).2 = [] := by
      obtain ⟨line, -, hline⟩ | ⟨-, hrest⟩ := splitLine_cases (c :: cs)
      · rw [hline] at hopen
        exact absurd (List.mem_append_right line List.mem_cons_self) hopen
      · exact hrest
    have hline : (splitLine (c :: cs)).1 = c :: cs := by
      have hall := splitLine_append (c :: cs)
      rw [hrest, List.append_nil] at hall
      exact hall
    rw [hline] at hopen ⊢
    refine ⟨rfl, hrest, ?_⟩
    rw [← List.cons_append, splitLine_newline hopen]
  · rw [cut_word hc] at h
    cases h

/-- Whether a piece is a literal without a closing quote. -/
def isOpenLiteral : Piece → Bool
  | literal _ closed => !closed
  | _ => false

/-- A piece that is no open literal is closed, or a comment without its newline. -/
theorem isClosed_or_comment {piece : Piece} (h : ¬ piece.isOpenLiteral) :
    piece.isClosed ∨ ∃ line, piece = comment line ∧ '\n' ∉ line := by
  cases piece with
  | blank | operator | word => exact .inl rfl
  | literal body closed =>
    left
    simpa [isOpenLiteral, isClosed] using h
  | comment line =>
    by_cases hline : '\n' ∈ line
    · exact .inl (List.contains_iff_mem.mpr hline)
    · exact .inr ⟨line, rfl, hline⟩

end Piece

open Piece

/-- The pieces of a text are its first piece and the pieces of the rest. -/
theorem pieces_cons (c : Char) (cs : List Char) :
    pieces (c :: cs) = (cut c cs).1 :: pieces (cut c cs).2 := by
  rw [pieces]

/-- Where all pieces of a text have their ends, what is put behind it is cut on its own. -/
theorem pieces_append {text tail : List Char} (hclosed : ∀ piece ∈ pieces text, piece.isClosed)
    (htail : BreaksWord tail) : pieces (text ++ tail) = pieces text ++ pieces tail := by
  fun_induction pieces text with
  | case1 => rfl
  | case2 c cs ih =>
    obtain ⟨hfirst, hrest⟩ := List.forall_mem_cons.mp hclosed
    rw [List.cons_append, pieces_cons, cut_append htail hfirst, ih hrest, List.cons_append]

/-- Whether a text ends inside a string, because one of its literals is not closed. -/
def endsInString (text : List Char) : Bool :=
  (pieces text).any isOpenLiteral

/-- The lexemes of two lines are those of the first line and, from the cursor behind the
newline on, those of the second. -/
theorem lexemes_pieces_newline (source : String) (cursor : Cursor) {first : List Char}
    (second : List Char) (h : ¬ endsInString first) :
    lexemes source cursor (pieces (first ++ '\n' :: second))
      = lexemes source cursor (pieces first)
        ++ lexemes source ((cursor.advance first).step '\n') (pieces second) := by
  have hnewline : BreaksWord ('\n' :: second) := breaksWord_cons (by decide) second
  unfold endsInString at h
  fun_induction pieces first generalizing cursor with
  | case1 =>
    -- the newline is a blank
    rw [List.nil_append, pieces_cons, cut_blank (by decide)]
    rfl
  | case2 c cs ih =>
    rw [List.any_cons, Bool.or_eq_true, not_or] at h
    obtain ⟨hpiece, hrest⟩ := h
    have hcursor : (cursor.advance (cut c cs).1.source).advance (cut c cs).2
        = cursor.advance (c :: cs) := by
      rw [← Cursor.advance_append, source_cut]
    rw [List.cons_append, pieces_cons]
    obtain hclosed | ⟨line, hcomment, hopen⟩ := isClosed_or_comment hpiece
    · rw [cut_append hnewline hclosed]
      simp only [lexemes]
      rw [ih _ hrest, hcursor, List.append_assoc]
    · -- a comment without its newline is the last piece of the first line
      obtain ⟨hline, hnil, hcut⟩ := cut_newline_of_comment hcomment hopen second
      have hsource : cursor.advance (comment (line ++ ['\n'])).source
          = (cursor.advance (c :: cs)).step '\n' := by
        rw [← hline]
        exact Cursor.advance_append cursor line ['\n']
      rw [hcut, hcomment, hnil, pieces]
      simp only [lexemes, lexeme?, Option.toList_none, List.nil_append, hsource]

/-! ### Moving -/

/-- A cursor that has `bytes` bytes and `lines` lines more behind it. -/
def Cursor.moved (bytes lines : Nat) (cursor : Cursor) : Cursor :=
  { cursor with offset := cursor.offset + bytes, line := cursor.line + lines }

/-- A lexeme that stands so many bytes and lines further on, in the same column. -/
def Lexeme.moved (bytes lines : Nat) (lexeme : Lexeme) : Lexeme :=
  { lexeme with
    location := { lexeme.location with line := lexeme.location.line + lines }
    span := ⟨lexeme.span.start + bytes, lexeme.span.stop + bytes⟩ }

variable {bytes lines : Nat}

theorem Cursor.step_moved (cursor : Cursor) (c : Char) :
    (cursor.moved bytes lines).step c = (cursor.step c).moved bytes lines := by
  unfold step
  split <;> simp [moved, Nat.add_right_comm]

/-- A cursor that starts further down stays as much further down. -/
theorem Cursor.advance_moved (cursor : Cursor) (cs : List Char) :
    (cursor.moved bytes lines).advance cs = (cursor.advance cs).moved bytes lines := by
  induction cs generalizing cursor with
  | nil => rfl
  | cons c cs ih => rw [advance_cons, advance_cons, step_moved, ih]

/-- A piece that stands further down is the same lexeme, moved. -/
theorem Piece.lexeme?_moved (source : String) (cursor : Cursor) (piece : Piece) :
    piece.lexeme? source (cursor.moved bytes lines)
      = (piece.lexeme? source cursor).map (Lexeme.moved bytes lines) := by
  cases piece with
  | blank | comment => rfl
  | operator c =>
    simp only [lexeme?, Cursor.step_moved]
    rfl
  | word text =>
    simp only [lexeme?, Cursor.advance_moved]
    rfl
  | literal body closed =>
    simp only [lexeme?, Cursor.step_moved, Cursor.advance_moved]
    rfl

/-- Lexemes that are read from a moved cursor on are moved in the same way. -/
theorem lexemes_moved (source : String) (cursor : Cursor) (ps : List Piece) :
    lexemes source (cursor.moved bytes lines) ps
      = (lexemes source cursor ps).map (Lexeme.moved bytes lines) := by
  induction ps generalizing cursor with
  | nil => rfl
  | cons piece ps ih =>
    simp only [lexemes, Piece.lexeme?_moved, Cursor.advance_moved, ih, List.map_append]
    cases piece.lexeme? source cursor <;> rfl

/-- The line of a cursor is counted by newlines. -/
theorem Cursor.line_advance (cursor : Cursor) (cs : List Char) :
    (cursor.advance cs).line = cursor.line + cs.count '\n' := by
  induction cs generalizing cursor with
  | nil => rfl
  | cons c cs ih =>
    rw [advance_cons, ih, List.count_cons]
    unfold step
    split
    · next hc =>
      simp [hc]
      omega
    · next hc => simp [hc]

/-- Behind a newline the cursor is where every text starts, but for what it has counted. -/
theorem Cursor.step_newline_advance (cs : List Char) :
    (start.advance cs).step '\n' = start.moved (byteLength cs + 1) (cs.count '\n' + 1) := by
  have hstep : (start.advance cs).step '\n'
      = ⟨(start.advance cs).offset + 1, (start.advance cs).line + 1, 1⟩ := rfl
  rw [hstep, offset_advance, line_advance]
  simp [start, moved]
  omega

/-! ### Lines -/

/-- **Scanning is compositional in lines.**  If a text does not end inside a string, then a
newline and more text behind it leave its lexemes as they are, and add the lexemes of the
other text, moved by the bytes and the lines in front of them. -/
theorem scan_lines (source first second : String) (h : ¬ endsInString first.toList) :
    scan source (first ++ "\n" ++ second)
      = scan source first
        ++ (scan source second).map
          (Lexeme.moved (first.utf8ByteSize + 1) (first.toList.count '\n' + 1)) := by
  have htext : (first ++ "\n" ++ second).toList = first.toList ++ '\n' :: second.toList := by
    simp
  have hbytes : first.utf8ByteSize = byteLength first.toList := by
    rw [byteLength, String.ofList_toList]
  unfold scan
  rw [htext, lexemes_pieces_newline source Cursor.start second.toList h,
    Cursor.step_newline_advance, lexemes_moved, hbytes]

/-- The first text has a string over two lines with an escaped quote in it, and ends in a
comment that holds a quote; the second text starts with a slash. -/
theorem scan_lines_sample :
    ¬ endsInString "a \"é\\\"\n\" // it's \"".toList
      ∧ scan "t" ("a \"é\\\"\n\" // it's \"" ++ "\n" ++ "/ \"b\"")
        = scan "t" "a \"é\\\"\n\" // it's \""
          ++ (scan "t" "/ \"b\"").map (Lexeme.moved 20 2) := by
  have hclosed : ¬ endsInString "a \"é\\\"\n\" // it's \"".toList := by decide +kernel
  exact ⟨hclosed, scan_lines "t" _ "/ \"b\"" hclosed⟩

end JvmAssembly
