/-
JvmAssembly/Token/Piece.lean

The first step of scanning: a text cut into pieces.

A piece is a blank character, a comment, an operator, a word or a string literal
as it is written.  Pieces are cut from the front, each as long as it can be, and
nothing is thrown away: the sources of the pieces, in order, are the text again
(`flatMap_source_pieces`).  What is a token, and where it stands, is decided later
and piece by piece, in `JvmAssembly.Token.Scan`.

A string literal runs to the first quote that has no backslash of its own before
it; if there is none, it runs to the end of the text and is not `closed`.
-/
import JvmAssembly.Text.Blank
import JvmAssembly.Token.Basic

namespace JvmAssembly

/-- A part of a source text that is scanned as a whole. -/
inductive Piece where
  | blank (c : Char)
  | comment (text : List Char)
  | operator (c : Char)
  | word (text : List Char)
  | literal (body : List Char) (closed : Bool)
deriving DecidableEq, Repr

namespace Piece

/-- The text that a piece was cut from. -/
def source : Piece → List Char
  | blank c => [c]
  | comment text => text
  | operator c => [c]
  | word text => text
  | literal body closed => '"' :: body ++ if closed then ['"'] else []

/-! ### Cutting one piece -/

/-- Whether a text goes on with a comment. -/
def startsComment : List Char → Bool
  | '/' :: '/' :: _ => true
  | _ => false

/-- Whether a text goes on with anything that a word cannot hold. -/
def endsWord : List Char → Bool
  | [] => true
  | c :: cs => isBlank c || isOperatorChar c || c == '"' || startsComment (c :: cs)

/-- Cuts a text in front of what ends a word. -/
def splitWord : List Char → List Char × List Char
  | [] => ([], [])
  | c :: cs =>
    if endsWord (c :: cs) then
      ([], c :: cs)
    else
      let (text, rest) := splitWord cs
      (c :: text, rest)

/-- Cuts a text behind its first newline. -/
def splitLine : List Char → List Char × List Char
  | [] => ([], [])
  | c :: cs =>
    if c = '\n' then
      ([c], cs)
    else
      let (line, rest) := splitLine cs
      (c :: line, rest)

/-- The body of a string literal whose opening quote was just read, whether a closing
quote follows it, and the text after that. -/
def splitLiteral : List Char → List Char × Bool × List Char
  | [] => ([], false, [])
  | '"' :: cs => ([], true, cs)
  -- the character after a backslash never closes the literal
  | '\\' :: c :: cs =>
    let (body, closed, rest) := splitLiteral cs
    ('\\' :: c :: body, closed, rest)
  | c :: cs =>
    let (body, closed, rest) := splitLiteral cs
    (c :: body, closed, rest)

/-- Cuts the first piece off a text that starts with `c` and goes on with `cs`. -/
def cut (c : Char) (cs : List Char) : Piece × List Char :=
  if isBlank c then
    (blank c, cs)
  else if isOperatorChar c then
    (operator c, cs)
  else if c = '"' then
    let (body, closed, rest) := splitLiteral cs
    (literal body closed, rest)
  else if startsComment (c :: cs) then
    let (line, rest) := splitLine (c :: cs)
    (comment line, rest)
  else
    let (text, rest) := splitWord cs
    (word (c :: text), rest)

/-! ### Nothing is lost -/

theorem splitWord_append (cs : List Char) : (splitWord cs).1 ++ (splitWord cs).2 = cs := by
  induction cs with
  | nil => rfl
  | cons c cs ih =>
    unfold splitWord
    split
    · rfl
    · exact congrArg (c :: ·) ih

theorem splitLine_append (cs : List Char) : (splitLine cs).1 ++ (splitLine cs).2 = cs := by
  induction cs with
  | nil => rfl
  | cons c cs ih =>
    unfold splitLine
    split
    · rfl
    · exact congrArg (c :: ·) ih

theorem splitLiteral_append (cs : List Char) :
    (splitLiteral cs).1 ++ (if (splitLiteral cs).2.1 then ['"'] else []) ++ (splitLiteral cs).2.2
      = cs := by
  fun_induction splitLiteral cs with
  | case1 => rfl
  | case2 cs => rfl
  | case3 c cs body closed rest h ih =>
    rw [h] at ih
    exact congrArg ('\\' :: c :: ·) ih
  | case4 c cs _ _ body closed rest h ih =>
    rw [h] at ih
    exact congrArg (c :: ·) ih

theorem length_splitLine_pos (c : Char) (cs : List Char) :
    0 < (splitLine (c :: cs)).1.length := by
  unfold splitLine
  split <;> exact Nat.succ_pos _

/-- The source of the first piece and the text after it make up the whole text. -/
theorem source_cut (c : Char) (cs : List Char) :
    (cut c cs).1.source ++ (cut c cs).2 = c :: cs := by
  unfold cut
  split
  · rfl
  split
  · rfl
  split
  · next h =>
    subst h
    exact congrArg ('"' :: ·) (splitLiteral_append cs)
  split
  · exact splitLine_append (c :: cs)
  · exact congrArg (c :: ·) (splitWord_append cs)

/-- A piece is never empty. -/
theorem length_source_cut_pos (c : Char) (cs : List Char) : 0 < (cut c cs).1.source.length := by
  unfold cut
  split
  · exact Nat.one_pos
  split
  · exact Nat.one_pos
  split
  · exact Nat.succ_pos _
  split
  · exact length_splitLine_pos c cs
  · exact Nat.succ_pos _

theorem length_cut_lt (c : Char) (cs : List Char) : (cut c cs).2.length < (c :: cs).length := by
  have h := congrArg List.length (source_cut c cs)
  have hpos := length_source_cut_pos c cs
  rw [List.length_append] at h
  omega

end Piece

/-- Cuts a whole text into pieces. -/
def pieces (text : List Char) : List Piece :=
  match text with
  | [] => []
  | c :: cs => (Piece.cut c cs).1 :: pieces (Piece.cut c cs).2
termination_by text.length
decreasing_by exact Piece.length_cut_lt c cs

/-- The sources of the pieces are the text, in order and without gaps. -/
theorem flatMap_source_pieces (text : List Char) : (pieces text).flatMap Piece.source = text := by
  fun_induction pieces text with
  | case1 => rfl
  | case2 c cs ih =>
    rw [List.flatMap_cons, ih]
    exact Piece.source_cut c cs

end JvmAssembly
