/-
JvmAssembly/Location.lean

Places in a source text.  A `Location` is what diagnostics show; a `Cursor` is
the place of the scanner, which also counts bytes.  Lines and columns start at 1,
and a column counts code points and not bytes.
-/

namespace JvmAssembly

/-- A place in a named source text. -/
structure Location where
  line : Nat
  column : Nat
  source : String
deriving DecidableEq, Repr

/-- A location as it is written in front of a message. -/
def Location.render (location : Location) : String :=
  s!"{location.source}:{location.line}:{location.column}"

/-- How far a text has been read: the bytes so far, and the line and column that come next. -/
structure Cursor where
  offset : Nat
  line : Nat
  column : Nat
deriving DecidableEq, Repr

namespace Cursor

/-- The cursor in front of a text. -/
def start : Cursor := ⟨0, 1, 1⟩

/-- Moves past one character: a newline opens the next line, any other takes one column. -/
def step (cursor : Cursor) (c : Char) : Cursor :=
  if c = '\n' then
    ⟨cursor.offset + c.utf8Size, cursor.line + 1, 1⟩
  else
    ⟨cursor.offset + c.utf8Size, cursor.line, cursor.column + 1⟩

/-- Moves past some text. -/
def advance (cursor : Cursor) (cs : List Char) : Cursor :=
  cs.foldl step cursor

/-- The location at the cursor in the source of the given name. -/
def location (cursor : Cursor) (source : String) : Location :=
  ⟨cursor.line, cursor.column, source⟩

@[simp] theorem advance_nil (cursor : Cursor) : cursor.advance [] = cursor := rfl

@[simp] theorem advance_cons (cursor : Cursor) (c : Char) (cs : List Char) :
    cursor.advance (c :: cs) = (cursor.step c).advance cs := rfl

theorem advance_append (cursor : Cursor) (cs ds : List Char) :
    cursor.advance (cs ++ ds) = (cursor.advance cs).advance ds :=
  List.foldl_append

end Cursor

end JvmAssembly
