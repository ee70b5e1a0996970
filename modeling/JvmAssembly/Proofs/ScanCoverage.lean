/-
JvmAssembly/Proofs/ScanCoverage.lean

Scanning loses nothing and invents nothing.

A text is tiled by the sources of its lexemes and the gaps around them (`Tiled`).
A gap is made of blanks and comments (`IsGap`); the source of a lexeme is an
operator, a word that is as long as it can be on both sides (`IsWord`), or a
string literal with its quotes (`Lexeme.ReadFrom`).  The tiling follows the pieces
of the text: what is carried along is that a word can only begin where the text
before it has ended one (`EndsBefore`).

Places are counted in bytes.  The span of what stands between two parts of a text
is `spanOf`, so a span of this form is in bounds and on character boundaries.
That a scan `Covers` its text is put together from the tiling.
-/
import JvmAssembly.Token.Scan
import JvmAssembly.Proofs.EscapeRules

namespace JvmAssembly

/-! ### Bytes -/

/-- How many bytes a text takes. -/
def byteLength (cs : List Char) : Nat :=
  (String.ofList cs).utf8ByteSize

@[simp] theorem byteLength_nil : byteLength [] = 0 := rfl

@[simp] theorem byteLength_append (cs ds : List Char) :
    byteLength (cs ++ ds) = byteLength cs + byteLength ds := by
  unfold byteLength
  rw [String.ofList_append, String.utf8ByteSize_append]

@[simp] theorem byteLength_cons (c : Char) (cs : List Char) :
    byteLength (c :: cs) = c.utf8Size + byteLength cs := by
  have h : byteLength [c] = c.utf8Size := by
    unfold byteLength
    rw [← String.singleton_eq_ofList, String.utf8ByteSize_singleton]
  rw [← h, ← byteLength_append]
  rfl

theorem byteLength_pos {cs : List Char} (h : cs ≠ []) : 0 < byteLength cs := by
  cases cs with
  | nil => exact absurd rfl h
  | cons c cs =>
    have hc := c.utf8Size_pos
    rw [byteLength_cons]
    omega

theorem Cursor.offset_step (cursor : Cursor) (c : Char) :
    (cursor.step c).offset = cursor.offset + c.utf8Size := by
  unfold Cursor.step
  split <;> rfl

/-- A cursor counts bytes. -/
theorem Cursor.offset_advance (cursor : Cursor) (cs : List Char) :
    (cursor.advance cs).offset = cursor.offset + byteLength cs := by
  induction cs generalizing cursor with
  | nil => rfl
  | cons c cs ih =>
    rw [advance_cons, ih, offset_step, byteLength_cons]
    omega

/-- The cursor behind a text has counted its bytes. -/
theorem Cursor.offset_start_advance (cs : List Char) :
    (start.advance cs).offset = byteLength cs := by
  rw [offset_advance]
  exact Nat.zero_add _

/-- The span of `inside` in a text that begins with `before` and goes on with `inside`. -/
def spanOf (before inside : List Char) : Span :=
  ⟨byteLength before, byteLength (before ++ inside)⟩

theorem span_advance (before inside : List Char) :
    (⟨(Cursor.start.advance before).offset,
      ((Cursor.start.advance before).advance inside).offset⟩ : Span) = spanOf before inside := by
  rw [← Cursor.advance_append, Cursor.offset_start_advance, Cursor.offset_start_advance]
  rfl

/-! ### Gaps -/

/-- Blanks and comments, in front of `after`.  A comment runs up to its newline, and only
the last one of a text may have none. -/
inductive IsGap (after : List Char) : List Char → Prop where
  | nil : IsGap after []
  | blank {c gap} (hc : isBlank c) (hrest : IsGap after gap) : IsGap after (c :: gap)
  | comment {line gap} (hline : '\n' ∉ line) (hrest : IsGap after gap) :
      IsGap after ('/' :: '/' :: line ++ '\n' :: gap)
  | lastComment {line} (hline : '\n' ∉ line) (hafter : after = []) :
      IsGap after ('/' :: '/' :: line)

/-! ### Words -/

/-- Whether a character is never part of a word. -/
def separates (c : Char) : Bool :=
  isBlank c || isOperatorChar c || c == '"'

/-- No word can end in `before` and go on behind it. -/
def EndsBefore (before : List Char) : Prop :=
  before = [] ∨ ∃ front c, before = front ++ [c] ∧ separates c

/-- No word that ends in front of `after` could go on with it. -/
def EndsAfter (after : List Char) : Prop :=
  after = [] ∨ (∃ c rest, after = c :: rest ∧ separates c) ∨ ∃ rest, after = '/' :: '/' :: rest

/-- A word between `before` and `after`: without separating characters, without comments
and as long as it can be on both sides. -/
structure IsWord (before text after : List Char) : Prop where
  nonempty : text ≠ []
  plain : ∀ c ∈ text, ¬ separates c
  /-- The two characters that open a comment do not begin in the word. -/
  noComment : ∀ front rest, text ++ after = front ++ '/' :: '/' :: rest →
    text.length ≤ front.length
  left : EndsBefore before
  right : EndsAfter after

/-! ### Sources of lexemes -/

/-- What a lexeme says of its source, which stands behind `before`. -/
inductive Lexeme.ReadFrom (lexeme : Lexeme) (before : List Char) :
    List Char → List Char → Prop where
  | operator {c after} (hc : isOperatorChar c) (hkind : lexeme.kind = .operator)
      (hcontent : lexeme.content = Content.ofChars [c])
      (hspan : lexeme.span = spanOf before [c]) : lexeme.ReadFrom before [c] after
  | word {text after} (hword : IsWord before text after)
      (hkind : lexeme.kind = if isNumeral text then .number else .identifier)
      (hcontent : lexeme.content = Content.ofChars text)
      (hspan : lexeme.span = spanOf before text) : lexeme.ReadFrom before text after
  | literal {body after} (hkind : lexeme.kind = .string)
      (hcontent : ∀ content, Escape.Decodes true body content ↔ content = lexeme.content)
      (hspan : lexeme.span = spanOf (before ++ ['"']) body) :
      lexeme.ReadFrom before ('"' :: body ++ ['"']) after
  -- without a closing quote, a literal takes all that is left
  | openLiteral {body} (hkind : lexeme.kind = .string)
      (hcontent : ∀ content, Escape.Decodes false body content ↔ content = lexeme.content)
      (hspan : lexeme.span = spanOf (before ++ ['"']) body) :
      lexeme.ReadFrom before ('"' :: body) []

/-- What stands behind `before` is a gap, and a lexeme with its source and again a gap, and
so on to the end. -/
inductive Tiled : List Char → List Lexeme → List Char → Prop where
  | finish {before gap} (hgap : IsGap [] gap) : Tiled before [] gap
  | next {before gap inside after lexeme rest} (hgap : IsGap (inside ++ after) gap)
      (hlexeme : lexeme.ReadFrom (before ++ gap) inside after)
      (hrest : Tiled (before ++ gap ++ inside) rest after) :
      Tiled before (lexeme :: rest) (gap ++ (inside ++ after))

/-! ### The pieces of a text tile it -/

namespace Piece

/-- A comment starts with two slashes. -/
theorem startsComment_iff (cs : List Char) :
    startsComment cs ↔ ∃ rest, cs = '/' :: '/' :: rest := by
  unfold startsComment
  split <;> simp_all

/-- A word ends where the text does, at a blank, an operator or a quote, or in front of a
comment. -/
theorem endsWord_iff (cs : List Char) : endsWord cs ↔ EndsAfter cs := by
  cases cs with
  | nil => simp [endsWord, EndsAfter]
  | cons c cs =>
    simp only [endsWord, EndsAfter, separates, Bool.or_eq_true, startsComment_iff]
    simp [or_assoc]

/-- Up to the place where a word is cut, it could go on. -/
theorem not_endsWord_of_splitWord {cs front back : List Char}
    (h : (splitWord cs).1 = front ++ back) (hback : back ≠ []) :
    ¬ endsWord (back ++ (splitWord cs).2) := by
  induction cs generalizing front with
  | nil =>
    obtain ⟨-, rfl⟩ := List.append_eq_nil_iff.mp h.symm
    exact absurd rfl hback
  | cons c cs ih =>
    by_cases hend : endsWord (c :: cs)
    · rw [splitWord, if_pos hend] at h
      obtain ⟨-, rfl⟩ := List.append_eq_nil_iff.mp h.symm
      exact absurd rfl hback
    · rw [splitWord, if_neg hend] at h ⊢
      cases front with
      | nil =>
        -- the whole word: what follows is the text that was cut
        obtain rfl : c :: (splitWord cs).1 = back := h
        show ¬ endsWord (c :: ((splitWord cs).1 ++ (splitWord cs).2))
        rw [splitWord_append]
        exact hend
      | cons d front => exact ih (List.cons.inj h).2

theorem endsAfter_splitWord (cs : List Char) : EndsAfter (splitWord cs).2 := by
  rw [← endsWord_iff]
  induction cs with
  | nil => rfl
  | cons c cs ih =>
    rw [splitWord]
    split
    · assumption
    · exact ih

/-- A line ends with its only newline, or it is the last one and has none. -/
theorem splitLine_cases (cs : List Char) :
    (∃ line, '\n' ∉ line ∧ (splitLine cs).1 = line ++ ['\n'])
      ∨ '\n' ∉ (splitLine cs).1 ∧ (splitLine cs).2 = [] := by
  induction cs with
  | nil => exact .inr ⟨List.not_mem_nil, rfl⟩
  | cons c cs ih =>
    rw [splitLine]
    split
    · next hc => exact .inl ⟨[], List.not_mem_nil, by rw [hc]; rfl⟩
    · next hc =>
      have hc : '\n' ≠ c := fun h => hc h.symm
      obtain ⟨line, hline, heq⟩ | ⟨hline, hrest⟩ := ih
      · refine .inl ⟨c :: line, List.not_mem_cons_of_ne_of_not_mem hc hline, ?_⟩
        exact congrArg (c :: ·) heq
      · exact .inr ⟨List.not_mem_cons_of_ne_of_not_mem hc hline, hrest⟩

/-- A literal that is not closed takes the whole text. -/
theorem splitLiteral_of_open {cs : List Char} (h : (splitLiteral cs).2.1 = false) :
    (splitLiteral cs).2.2 = [] := by
  fun_induction splitLiteral cs with
  | case1 => rfl
  | case2 cs => cases h
  | case3 c cs body closed rest heq ih =>
    rw [heq] at ih
    exact ih h
  | case4 c cs _ _ body closed rest heq ih =>
    rw [heq] at ih
    exact ih h

/-- The word that is cut off a text which goes on with a word. -/
theorem isWord_splitWord {before cs : List Char} {c : Char} (hbefore : EndsBefore before)
    (hc : ¬ endsWord (c :: cs)) :
    IsWord before (c :: (splitWord cs).1) (splitWord cs).2 := by
  have hcut : splitWord (c :: cs) = (c :: (splitWord cs).1, (splitWord cs).2) := by
    rw [splitWord, if_neg hc]
  have hinside : ∀ front back, c :: (splitWord cs).1 = front ++ back → back ≠ [] →
      ¬ EndsAfter (back ++ (splitWord cs).2) := by
    intro front back h hback
    rw [← endsWord_iff]
    have hword : (splitWord (c :: cs)).1 = front ++ back → back ≠ [] →
        ¬ endsWord (back ++ (splitWord (c :: cs)).2) := not_endsWord_of_splitWord
    rw [hcut] at hword
    exact hword h hback
  refine ⟨List.cons_ne_nil _ _, ?_, ?_, hbefore, endsAfter_splitWord cs⟩
  · intro d hd hsep
    obtain ⟨front, back, hsplit⟩ := List.append_of_mem hd
    exact hinside front (d :: back) hsplit (List.cons_ne_nil _ _) (.inr (.inl ⟨d, _, rfl, hsep⟩))
  · intro front rest h
    -- otherwise the comment would begin inside the word
    refine Nat.le_of_not_lt fun hlt => ?_
    obtain ⟨back, hsplit, hrest⟩ : ∃ back, c :: (splitWord cs).1 = front ++ back
        ∧ '/' :: '/' :: rest = back ++ (splitWord cs).2 := by
      obtain ⟨back, hfront, -⟩ | ⟨back, hsplit, hrest⟩ := List.append_eq_append_iff.mp h
      · rw [hfront, List.length_append] at hlt
        omega
      · exact ⟨back, hsplit, hrest⟩
    have hback : back ≠ [] := by
      rintro rfl
      rw [hsplit, List.append_nil] at hlt
      exact Nat.lt_irrefl _ hlt
    exact hinside front back hsplit hback (.inr (.inr ⟨rest, hrest.symm⟩))

end Piece

/-- Puts more text into the first gap. -/
theorem Tiled.widen {before text rest : List Char} {lexemes : List Lexeme}
    (htext : ∀ after gap, IsGap after gap → IsGap after (text ++ gap))
    (h : Tiled (before ++ text) lexemes rest) : Tiled before lexemes (text ++ rest) := by
  cases h with
  | finish hgap => exact .finish (htext _ _ hgap)
  | next hgap hlexeme hrest =>
    rw [List.append_assoc before text] at hlexeme hrest
    rw [← List.append_assoc text]
    exact .next (htext _ _ hgap) hlexeme hrest

/-- A lexeme right at the front of the text. -/
theorem Tiled.cons {before inside after : List Char} {lexeme : Lexeme} {rest : List Lexeme}
    (hlexeme : lexeme.ReadFrom before inside after) (hrest : Tiled (before ++ inside) rest after) :
    Tiled before (lexeme :: rest) (inside ++ after) := by
  have hnil : before ++ [] = before := List.append_nil before
  refine .next (.nil : IsGap _ []) ?_ ?_
  · rw [hnil]
    exact hlexeme
  · rw [hnil]
    exact hrest

theorem endsBefore_append {before : List Char} {c : Char} (h : separates c) :
    EndsBefore (before ++ [c]) :=
  .inr ⟨before, c, rfl, h⟩

namespace Lexeme.ReadFrom

variable {lexeme : Lexeme} {before inside after : List Char}

theorem inside_ne_nil (h : lexeme.ReadFrom before inside after) : inside ≠ [] := by
  cases h with
  | word hword => exact hword.nonempty
  | operator | literal | openLiteral => exact List.cons_ne_nil _ _

end Lexeme.ReadFrom

/-- Where no text is left, no lexeme is. -/
theorem Tiled.eq_nil {before : List Char} {lexemes : List Lexeme} (h : Tiled before lexemes []) :
    lexemes = [] := by
  generalize hrest : ([] : List Char) = rest at h
  cases h with
  | finish => rfl
  | next hgap hlexeme _ =>
    obtain ⟨-, hinside⟩ := List.append_eq_nil_iff.mp hrest.symm
    exact absurd (List.append_eq_nil_iff.mp hinside).1 hlexeme.inside_ne_nil

/-- Behind the first piece of a text a word may begin, or none does. -/
theorem Piece.endsBefore_cut (before cs : List Char) (c : Char) :
    EndsBefore (before ++ (cut c cs).1.source) ∨ EndsAfter (cut c cs).2 := by
  unfold cut
  split
  · next hc => exact .inl (endsBefore_append (by simp [separates, hc]))
  split
  · next hc => exact .inl (endsBefore_append (by simp [separates, hc]))
  split
  · cases hclosed : (splitLiteral cs).2.1 with
    | true =>
      left
      refine .inr ⟨before ++ '"' :: (splitLiteral cs).1, '"', ?_, rfl⟩
      simp [source, hclosed]
    | false => exact .inr (.inl (splitLiteral_of_open hclosed))
  split
  · obtain ⟨line, -, hline⟩ | ⟨-, hrest⟩ := splitLine_cases (c :: cs)
    · left
      refine .inr ⟨before ++ line, '\n', ?_, rfl⟩
      show before ++ (splitLine (c :: cs)).1 = before ++ line ++ ['\n']
      rw [hline, List.append_assoc]
    · exact .inr (.inl hrest)
  · exact .inr (endsAfter_splitWord cs)

/-- The comment at the front of a text goes into the first gap. -/
theorem Tiled.of_splitLine {before cs : List Char} {lexemes : List Lexeme}
    (hcs : Piece.startsComment cs)
    (h : Tiled (before ++ (Piece.splitLine cs).1) lexemes (Piece.splitLine cs).2) :
    Tiled before lexemes cs := by
  obtain ⟨cs, rfl⟩ := (Piece.startsComment_iff cs).mp hcs
  have hsplit : Piece.splitLine ('/' :: '/' :: cs)
      = ('/' :: '/' :: (Piece.splitLine cs).1, (Piece.splitLine cs).2) := rfl
  have hcs : '/' :: '/' :: cs = '/' :: '/' :: (Piece.splitLine cs).1 ++ (Piece.splitLine cs).2 :=
    congrArg ('/' :: '/' :: ·) (Piece.splitLine_append cs).symm
  rw [hsplit] at h
  rw [hcs]
  obtain ⟨line, hline, heq⟩ | ⟨hline, hrest⟩ := Piece.splitLine_cases cs
  · refine h.widen fun after gap hgap => ?_
    rw [heq]
    have hcomment := IsGap.comment hline hgap
    simpa using hcomment
  · -- without a newline the comment ends the text
    rw [hrest] at h ⊢
    rw [h.eq_nil, List.append_nil]
    exact .finish (.lastComment hline rfl)

/-- The literal at the front of a text is the source of its lexeme. -/
theorem Tiled.of_splitLiteral (source : String) {before cs : List Char} {lexemes : List Lexeme}
    (h : Tiled
      (before ++ (Piece.literal (Piece.splitLiteral cs).1 (Piece.splitLiteral cs).2.1).source)
      lexemes (Piece.splitLiteral cs).2.2) :
    Tiled before
      (((Piece.literal (Piece.splitLiteral cs).1 (Piece.splitLiteral cs).2.1).lexeme? source
        (Cursor.start.advance before)).toList ++ lexemes) ('"' :: cs) := by
  have hcs := Piece.splitLiteral_append cs
  have hcontent := Escape.decodes_splitLiteral_iff cs
  have hopen := @Piece.splitLiteral_of_open cs
  generalize Piece.splitLiteral cs = parts at h hcs hcontent hopen ⊢
  obtain ⟨body, closed, rest⟩ := parts
  have hspan := span_advance (before ++ ['"']) body
  rw [Cursor.advance_append] at hspan
  rw [← hcs]
  cases closed with
  | true => exact .cons (.literal rfl hcontent hspan) h
  | false =>
    obtain rfl : rest = [] := hopen rfl
    have hsource : (Piece.literal body false).source = '"' :: body := List.append_nil _
    rw [hsource] at h
    show Tiled before _ ((Piece.literal body false).source ++ [])
    rw [hsource]
    exact .cons (.openLiteral rfl hcontent hspan) h

/-- The first piece of a text goes into the first gap, or it is the source of a lexeme. -/
theorem Tiled.of_cut (source : String) {before cs : List Char} {c : Char}
    {lexemes : List Lexeme} (hbefore : EndsBefore before ∨ EndsAfter (c :: cs))
    (h : Tiled (before ++ (Piece.cut c cs).1.source) lexemes (Piece.cut c cs).2) :
    Tiled before
      (((Piece.cut c cs).1.lexeme? source (Cursor.start.advance before)).toList ++ lexemes)
      (c :: cs) := by
  by_cases hblank : isBlank c
  · have hcut : Piece.cut c cs = (.blank c, cs) := if_pos hblank
    rw [hcut] at h ⊢
    exact h.widen fun after gap hgap => .blank hblank hgap
  by_cases hoperator : isOperatorChar c
  · have hcut : Piece.cut c cs = (.operator c, cs) := by
      rw [Piece.cut, if_neg hblank, if_pos hoperator]
    rw [hcut] at h ⊢
    exact .cons (.operator hoperator rfl rfl (span_advance before [c])) h
  by_cases hquote : c = '"'
  · subst hquote
    exact .of_splitLiteral source h
  by_cases hcomment : Piece.startsComment (c :: cs)
  · have hcut : Piece.cut c cs
        = (.comment (Piece.splitLine (c :: cs)).1, (Piece.splitLine (c :: cs)).2) := by
      rw [Piece.cut, if_neg hblank, if_neg hoperator, if_neg hquote, if_pos hcomment]
    rw [hcut] at h ⊢
    exact .of_splitLine hcomment h
  · have hcut : Piece.cut c cs
        = (.word (c :: (Piece.splitWord cs).1), (Piece.splitWord cs).2) := by
      rw [Piece.cut, if_neg hblank, if_neg hoperator, if_neg hquote, if_neg hcomment]
    have hgoes : ¬ Piece.endsWord (c :: cs) := by
      simp [Piece.endsWord, hblank, hoperator, hquote, hcomment]
    have hbefore : EndsBefore before :=
      hbefore.resolve_right fun hafter => hgoes ((Piece.endsWord_iff _).mpr hafter)
    have hcs : c :: cs = (c :: (Piece.splitWord cs).1) ++ (Piece.splitWord cs).2 :=
      congrArg (c :: ·) (Piece.splitWord_append cs).symm
    rw [hcut] at h ⊢
    rw [hcs]
    exact .cons (.word (Piece.isWord_splitWord hbefore hgoes) rfl rfl (span_advance before _)) h

/-- The lexemes of the rest of a text tile it, if a word may begin there or none does. -/
theorem tiled_lexemes_pieces (source : String) (before rest : List Char)
    (h : EndsBefore before ∨ EndsAfter rest) :
    Tiled before (lexemes source (Cursor.start.advance before) (pieces rest)) rest := by
  fun_induction pieces rest generalizing before with
  | case1 => exact .finish .nil
  | case2 c cs ih =>
    rw [lexemes, ← Cursor.advance_append]
    exact Tiled.of_cut source h (ih _ (Piece.endsBefore_cut before cs c))

/-! ### Spans -/

/-- What the source of a lexeme takes up in a text of `size` bytes: the span of the lexeme,
and for a string literal also the quotes, of which the second may be missing at the end. -/
def Lexeme.sourceSpan (size : Nat) (lexeme : Lexeme) : Span :=
  if lexeme.kind = .string then
    ⟨lexeme.span.start - 1, min (lexeme.span.stop + 1) size⟩
  else
    lexeme.span

/-- The spans between given ones, from the byte `start` on to the end of a text. -/
def gaps (size : Nat) : Nat → List Span → List Span
  | start, [] => [⟨start, size⟩]
  | start, span :: rest => ⟨start, span.start⟩ :: gaps size span.stop rest

/-- The span of the source of a lexeme is that of the text it was read from, with the quotes of a
literal. -/
theorem Lexeme.ReadFrom.sourceSpan_eq {lexeme : Lexeme} {before inside after text : List Char}
    (h : lexeme.ReadFrom before inside after) (htext : before ++ (inside ++ after) = text) :
    lexeme.sourceSpan (byteLength text) = spanOf before inside := by
  have hsize := congrArg byteLength htext
  have hquote : byteLength ['"'] = 1 := rfl
  unfold Lexeme.sourceSpan
  cases h with
  | operator _ hkind _ hspan =>
    rw [hkind, hspan]
    rfl
  | word _ hkind _ hspan =>
    have hstring : lexeme.kind ≠ .string := by
      rw [hkind]
      split <;> exact nofun
    rw [if_neg hstring, hspan]
  | literal hkind _ hspan =>
    rw [if_pos hkind, hspan]
    simp only [spanOf, byteLength_append, byteLength_cons, byteLength_nil] at hsize hquote ⊢
    congr 1
    omega
  | openLiteral hkind _ hspan =>
    rw [if_pos hkind, hspan]
    simp only [spanOf, byteLength_append, byteLength_cons, byteLength_nil] at hsize hquote ⊢
    congr 1
    omega

namespace Tiled

variable {before rest text : List Char} {lexemes : List Lexeme}

/-- The source of each lexeme, with the tiling behind it. -/
theorem exists_source {front back : List Lexeme} {lexeme : Lexeme}
    (h : Tiled before (front ++ lexeme :: back) rest) :
    ∃ left inside after, before ++ rest = left ++ (inside ++ after)
      ∧ lexeme.ReadFrom left inside after ∧ Tiled (left ++ inside) back after := by
  induction front generalizing before rest with
  | nil =>
    cases h with
    | @next _ gap inside after _ _ _ hlexeme hback =>
      exact ⟨before ++ gap, inside, after, (List.append_assoc _ _ _).symm, hlexeme, hback⟩
  | cons first front ih =>
    cases h with
    | @next _ gap inside after _ _ _ _ hrest =>
      obtain ⟨left, inside', after', heq, hlexeme, hback⟩ := ih hrest
      refine ⟨left, inside', after', ?_, hlexeme, hback⟩
      rw [← heq]
      simp only [List.append_assoc]

/-- The spans of the sources lie behind what was read before, and each behind the ones
before it. -/
theorem ordered (h : Tiled before lexemes rest) (htext : before ++ rest = text) :
    (∀ span ∈ lexemes.map (Lexeme.sourceSpan (byteLength text)), byteLength before ≤ span.start)
      ∧ (lexemes.map (Lexeme.sourceSpan (byteLength text))).Pairwise
        fun first second => first.stop ≤ second.start := by
  induction h with
  | finish => exact ⟨nofun, .nil⟩
  | @next before gap inside after lexeme rest _ hlexeme _ ih =>
    rw [← List.append_assoc] at htext
    have hsource := hlexeme.sourceSpan_eq htext
    obtain ⟨hbehind, hpairwise⟩ := ih ((List.append_assoc _ _ _).trans htext)
    rw [List.map_cons, hsource]
    refine ⟨?_, .cons hbehind hpairwise⟩
    intro span hspan
    rcases List.mem_cons.mp hspan with rfl | hspan
    · simp [spanOf]
    · have hle := hbehind span hspan
      simp only [byteLength_append] at hle
      omega

/-- What lies before, between and behind the sources is gaps. -/
theorem isGap_of_mem_gaps (h : Tiled before lexemes rest) (htext : before ++ rest = text)
    {gap : Span} (hgap : gap ∈ gaps (byteLength text) (byteLength before)
      (lexemes.map (Lexeme.sourceSpan (byteLength text)))) :
    ∃ left inside after, text = left ++ (inside ++ after) ∧ gap = spanOf left inside
      ∧ IsGap after inside := by
  induction h with
  | @finish before last hlast =>
    obtain rfl := List.mem_singleton.mp hgap
    refine ⟨before, last, [], ?_, ?_, hlast⟩
    · rw [List.append_nil, htext]
    · rw [← htext]
      rfl
  | @next before first inside after lexeme rest hfirst hlexeme _ ih =>
    have hassoc := (List.append_assoc before first (inside ++ after)).trans htext
    rw [List.map_cons, hlexeme.sourceSpan_eq hassoc] at hgap
    rcases List.mem_cons.mp hgap with rfl | hgap
    · exact ⟨before, first, inside ++ after, htext.symm, rfl, hfirst⟩
    · exact ih ((List.append_assoc _ _ _).trans hassoc) hgap

end Tiled

/-! ### Coverage -/

/-- The lexemes account for the whole text, and for nothing else. -/
structure Covers (lexemes : List Lexeme) (text : List Char) : Prop where
  /-- Every lexeme is what its source says, which is a part of the text. -/
  sources : ∀ front lexeme back, lexemes = front ++ lexeme :: back →
    ∃ before inside after, text = before ++ (inside ++ after)
      ∧ lexeme.sourceSpan (byteLength text) = spanOf before inside
      ∧ lexeme.ReadFrom before inside after ∧ (after = [] → back = [])
  /-- The sources are not empty and in bounds. -/
  bounds : ∀ span ∈ lexemes.map (Lexeme.sourceSpan (byteLength text)),
    span.start < span.stop ∧ span.stop ≤ byteLength text
  /-- The sources follow each other. -/
  order : (lexemes.map (Lexeme.sourceSpan (byteLength text))).Pairwise
    fun first second => first.stop ≤ second.start
  /-- Before, between and behind the sources are blanks and comments. -/
  gaps : ∀ gap ∈ gaps (byteLength text) 0 (lexemes.map (Lexeme.sourceSpan (byteLength text))),
    ∃ before inside after, text = before ++ (inside ++ after) ∧ gap = spanOf before inside
      ∧ IsGap after inside

/-- **Scanning covers the text.**  Whatever the text is, its lexemes are read from
nonempty parts of it, in order and without overlap, each is of the kind and has the
content that its source has, and what is left over is blanks and comments. -/
theorem scan_covers (source text : String) : Covers (scan source text) text.toList := by
  have htiled : Tiled [] (scan source text) text.toList :=
    tiled_lexemes_pieces source [] text.toList (.inl (.inl rfl))
  have hsources : ∀ front lexeme back, scan source text = front ++ lexeme :: back →
      ∃ before inside after, text.toList = before ++ (inside ++ after)
        ∧ lexeme.sourceSpan (byteLength text.toList) = spanOf before inside
        ∧ lexeme.ReadFrom before inside after ∧ (after = [] → back = []) := by
    intro front lexeme back heq
    rw [heq] at htiled
    obtain ⟨before, inside, after, htext, hlexeme, hback⟩ := htiled.exists_source
    refine ⟨before, inside, after, htext, hlexeme.sourceSpan_eq htext.symm, hlexeme, ?_⟩
    rintro rfl
    exact hback.eq_nil
  refine ⟨hsources, ?_, (htiled.ordered rfl).2, fun gap hgap => htiled.isGap_of_mem_gaps rfl hgap⟩
  intro span hspan
  obtain ⟨lexeme, hmem, rfl⟩ := List.mem_map.mp hspan
  obtain ⟨front, back, heq⟩ := List.append_of_mem hmem
  obtain ⟨before, inside, after, htext, hspan, hlexeme, -⟩ := hsources front lexeme back heq
  have hpos := byteLength_pos hlexeme.inside_ne_nil
  rw [hspan, htext]
  simp only [spanOf, byteLength_append]
  omega

end JvmAssembly
