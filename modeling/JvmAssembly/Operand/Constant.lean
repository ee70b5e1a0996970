/-
JvmAssembly/Operand/Constant.lean

Checks of loadable constants.

A constant may be a handle or a dynamic constant, which are both written as
arrays; a dynamic constant is `[name, type, handle, args]`, and its arguments are
constants again.  What an array is meant to be shows in its last slot: an array or
empty braces are the arguments of a dynamic constant, an identifier is the
descriptor of a handle.

A constant that is an array takes one nesting level, and so do arguments.  Every
part is checked, also after a part that is wrong.
-/
import JvmAssembly.Expect
import JvmAssembly.Handle

namespace JvmAssembly

namespace Check

/-- Checks that an identifier is the keyword of a kind of handle. -/
def handleKeyword (token : Token) : Check Unit :=
  onlyIf (HandleKind.ofKeyword? token.text).isNone <|
    error (.unexpectedElement "kind, name and descriptor" .identifier) token.location

/-- Checks a handle that is written as an array. -/
def handleGroup (group : Group Element) : Check Unit :=
  match group.slots with
  | [kindPart, namePart, descriptorPart] => do
    let kind ← (identifierSlot "handle element" kindPart group.location).run
    let _ ← (identifierSlot "handle element" namePart group.location).run
    let _ ← (identifierSlot "handle element" descriptorPart group.location).run
    kind.forM handleKeyword
  | _ => error (.unexpectedElement "kind, name and descriptor" .array) group.location

/-- Checks a handle. -/
def handle : Element → Check Unit
  | .array group => handleGroup group
  | element => unexpected "handle" element

/-- Checks that a slot of a dynamic constant at `location` holds a handle. -/
def handleSlot (slot : Option Element) (location : Location) : Check Unit :=
  match slot with
  | some element => handle element
  | none => missing "bootstrap handle" location

/-- Whether a content starts like the descriptor of a class, a method or an array. -/
def isDescriptor (content : Content) : Bool :=
  content.startsWith 'L' || content.startsWith '(' || content.startsWith '['

mutual

/-- Checks a constant. -/
def constant : Element → Check Unit
  | .number _ => return
  | .string _ => return
  | .identifier token =>
    onlyIf (!isDescriptor token.content) <|
      unexpected "class, method or array descriptor" (.identifier token)
  | .array group => do
    let _ ← nested "constant" group.location <|
      match group.last? with
      | some (.array _) => constantDynamic group
      | some (.empty _) => constantDynamic group
      | some (.identifier _) => handleGroup group
      | _ => unexpected "constant" (.array group)
  | element => unexpected "constant" element
termination_by structural element => element

/-- Checks a dynamic constant, which is written as an array. -/
def constantDynamic (group : Group Element) : Check Unit :=
  match group with
  | ⟨[namePart, typePart, handlePart, argsPart], location⟩ => do
    let _ ← (identifierSlot "constant dynamic name" namePart location).run
    let _ ← (identifierSlot "constant dynamic type" typePart location).run
    handleSlot handlePart location
    match argsPart with
    | some element => args element
    | none => missing "bootstrap arguments" location
  | group => error (.unexpectedElement "name, type, handle and args" .array) group.location
termination_by structural group

/-- Checks an array of constants.  Empty braces are no arguments. -/
def args : Element → Check Unit
  | .array ⟨slots, location⟩ => do
    let _ ← nested "args" location (argSlots location slots)
  | .empty location => do
    let _ ← nested "args" location (return)
  | element => unexpected "args" element
termination_by structural element => element

/-- Checks the slots of an array of constants. -/
def argSlots (location : Location) : List (Option Element) → Check Unit
  | [] => return
  | none :: rest => do
    missing "args element" location
    argSlots location rest
  | some element :: rest => do
    constant element
    argSlots location rest
termination_by structural slots => slots

end

end Check

end JvmAssembly
