/-
JvmAssembly/Element/Container.lean

The containers of source trees, for any kind `α` of element.

A slot of a container may be a hole, where the source has nothing to show.  A
group is a list of slots.  An object is a list of entries in source order, whose
keys may repeat: the first entry with a key is the entry for that key, and the
others are its duplicates.  The pairs are kept as they are written, and the
entries, the duplicates and the look-up are views of them.  `Object.Parts.ofPairs`
is the loop that parts them when an object is read.

Two keys are the same if their texts are.
-/
import JvmAssembly.Token.Basic

namespace JvmAssembly

variable {α : Type}

/-- Slots in a row, in braces or brackets that open at `location`. -/
structure Group (α : Type) where
  slots : List (Option α)
  location : Location
deriving DecidableEq, Repr

namespace Group

/-- The number of slots, holes included. -/
def size (group : Group α) : Nat :=
  group.slots.length

/-- Whether there are no slots. -/
def isEmpty (group : Group α) : Bool :=
  group.slots.isEmpty

/-- The element in a slot; `none` if the slot is a hole or does not exist. -/
def get? (group : Group α) (index : Nat) : Option α :=
  group.slots[index]?.join

/-- The element in the last slot; `none` if it is a hole or there are no slots. -/
def last? (group : Group α) : Option α :=
  group.slots.getLast?.join

end Group

/-- A key and its value, which may be a hole. -/
structure Entry (α : Type) where
  key : Token
  value : Option α
deriving DecidableEq, Repr

/-- The text of the key of a pair. -/
def Entry.keyText (pair : Entry α) : String :=
  pair.key.text

/-- Keys and values, in source order and with repeated keys. -/
structure Object (α : Type) where
  pairs : List (Entry α)
  location : Location
deriving DecidableEq, Repr

namespace Object

/-- The entries whose key is neither in `seen` nor the key of an earlier entry. -/
def firstsAfter (seen : List String) : List (Entry α) → List (Entry α)
  | [] => []
  | pair :: rest =>
    if pair.key.text ∈ seen then
      firstsAfter seen rest
    else
      pair :: firstsAfter (pair.key.text :: seen) rest

/-- The entries whose key is in `seen` or the key of an earlier entry. -/
def repeatsAfter (seen : List String) : List (Entry α) → List (Entry α)
  | [] => []
  | pair :: rest =>
    if pair.key.text ∈ seen then
      pair :: repeatsAfter seen rest
    else
      repeatsAfter (pair.key.text :: seen) rest

/-- The first entry of each key, in source order. -/
def entries (object : Object α) : List (Entry α) :=
  firstsAfter [] object.pairs

/-- The entries that repeat a key, in source order. -/
def duplicates (object : Object α) : List (Entry α) :=
  repeatsAfter [] object.pairs

/-- The keys, each once and in the order of their first entries. -/
def keys (object : Object α) : List String :=
  object.entries.map fun entry => entry.key.text

/-- The number of keys. -/
def size (object : Object α) : Nat :=
  object.entries.length

/-- Whether there are no keys. -/
def isEmpty (object : Object α) : Bool :=
  object.entries.isEmpty

/-- The entry for a key. -/
def get? (object : Object α) (key : String) : Option (Entry α) :=
  object.pairs.find? fun pair => pair.key.text == key

/-- The value for a key; `none` if it is a hole or there is no such key. -/
def value? (object : Object α) (key : String) : Option α :=
  (object.get? key).bind Entry.value

/-- Whether there is an entry for a key. -/
def contains (object : Object α) (key : String) : Bool :=
  (object.get? key).isSome

/-- What is built from the pairs of an object: the entries and the duplicates so far. -/
structure Parts (α : Type) where
  entries : List (Entry α) := []
  duplicates : List (Entry α) := []

namespace Parts

/-- One more pair is an entry, unless there is an entry with its key. -/
def insert (parts : Parts α) (pair : Entry α) : Parts α :=
  if parts.entries.any fun entry => entry.keyText == pair.keyText then
    { parts with duplicates := parts.duplicates ++ [pair] }
  else
    { parts with entries := parts.entries ++ [pair] }

/-- What is built when all pairs are read in order. -/
def ofPairs (pairs : List (Entry α)) : Parts α :=
  pairs.foldl insert {}

end Parts

end Object

/-- Slots behind a keyword, such as `.field public a I`.  Without a keyword they are a body,
such as the members of a class. -/
structure Declaration (α : Type) where
  keyword : Option Token
  slots : List (Option α)
  location : Location
deriving DecidableEq, Repr

namespace Declaration

/-- A text without one leading dot. -/
def dropDot (text : String) : String :=
  match text.toList with
  | '.' :: rest => String.ofList rest
  | _ => text

/-- The keyword without its leading dot. -/
def keywordName? (declaration : Declaration α) : Option String :=
  declaration.keyword.map fun keyword => dropDot keyword.text

/-- The number of slots, holes included. -/
def size (declaration : Declaration α) : Nat :=
  declaration.slots.length

/-- Whether there are no slots. -/
def isEmpty (declaration : Declaration α) : Bool :=
  declaration.slots.isEmpty

/-- The element in a slot; `none` if the slot is a hole or does not exist. -/
def get? (declaration : Declaration α) (index : Nat) : Option α :=
  declaration.slots[index]?.join

end Declaration

/-- A mnemonic and its arguments. -/
structure Instruction (α : Type) where
  mnemonic : Token
  arguments : List (Option α)
deriving DecidableEq, Repr

/-- An instruction stands where its mnemonic does. -/
def Instruction.location (instruction : Instruction α) : Location :=
  instruction.mnemonic.location

end JvmAssembly
