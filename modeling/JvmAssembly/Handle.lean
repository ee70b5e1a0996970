/-
JvmAssembly/Handle.lean

Method handles, written as an array `[kind, Owner.member, descriptor]`.

There are nine kinds, with the reference kinds 1 to 9 of a class file; the first
four refer to fields.  `Handle.ofGroup` reads a handle from an array, and a
`HandleFault` says why an array is none.
-/
import JvmAssembly.Element.Basic
import JvmAssembly.Text.Quoted

namespace JvmAssembly

/-- What a method handle does. -/
inductive HandleKind where
  | getField
  | getStatic
  | putField
  | putStatic
  | invokeVirtual
  | invokeStatic
  | invokeSpecial
  | newInvokeSpecial
  | invokeInterface
deriving DecidableEq, Repr

namespace HandleKind

/-- All kinds of handles, in the order of their reference kinds. -/
def all : List HandleKind :=
  [getField, getStatic, putField, putStatic, invokeVirtual, invokeStatic, invokeSpecial,
    newInvokeSpecial, invokeInterface]

/-- The spelling of a kind. -/
def keyword : HandleKind → String
  | getField => "getfield"
  | getStatic => "getstatic"
  | putField => "putfield"
  | putStatic => "putstatic"
  | invokeVirtual => "invokevirtual"
  | invokeStatic => "invokestatic"
  | invokeSpecial => "invokespecial"
  | newInvokeSpecial => "newinvokespecial"
  | invokeInterface => "invokeinterface"

/-- The kind with the given spelling, in exactly this case of letters. -/
def ofKeyword? (keyword : String) : Option HandleKind :=
  all.find? fun kind => kind.keyword == keyword

/-- The number of a kind in a class file. -/
def referenceKind : HandleKind → UInt8
  | getField => 1
  | getStatic => 2
  | putField => 3
  | putStatic => 4
  | invokeVirtual => 5
  | invokeStatic => 6
  | invokeSpecial => 7
  | newInvokeSpecial => 8
  | invokeInterface => 9

/-- Whether handles of this kind refer to fields. -/
def isField : HandleKind → Bool
  | getField => true
  | getStatic => true
  | putField => true
  | putStatic => true
  | _ => false

/-- Every kind is found by its spelling. -/
theorem ofKeyword?_keyword (kind : HandleKind) : ofKeyword? kind.keyword = some kind := by
  cases kind <;> decide

end HandleKind

/-- A method handle.  The name holds the owner and the member, divided by the last dot. -/
structure Handle where
  kind : HandleKind
  name : Content
  descriptor : Content
deriving DecidableEq, Repr

/-- The parts of a handle. -/
inductive HandlePart where
  | kind
  | name
  | descriptor
deriving DecidableEq, Repr

/-- The name of a part in messages. -/
def HandlePart.word : HandlePart → String
  | kind => "kind"
  | name => "name"
  | descriptor => "descriptor"

/-- Why something is no method handle, or a handle has no owner. -/
inductive HandleFault where
  | size (found : Nat)
  | part (which : HandlePart) (found : Option ElementKind)
  | unknownKind (kind : Content) (location : Location)
  | noOwner (name : Content)
deriving DecidableEq, Repr

/-- The wording of a `HandleFault`. -/
def HandleFault.message : HandleFault → String
  | size found => s!"expected kind, name and descriptor for a handle, got {found} elements"
  | part which found =>
    let actual := (found.map ElementKind.name).getD "nothing"
    s!"expected identifier for handle {which.word}, got {actual}"
  | unknownKind kind location => s!"unknown handle kind {kind.quoted} at {location.render}"
  | noOwner name => s!"handle name {name.quoted} has no owner, expected `Owner.member`"

namespace Handle

/-- The content of the identifier that a part of a handle is. -/
def partOf (part : HandlePart) : Option Element → Except HandleFault Content
  | some (.identifier token) => .ok token.content
  | some element => .error (.part part (some element.kind))
  | none => .error (.part part none)

/-- Reads a handle from an array. -/
def ofGroup (group : Group Element) : Except HandleFault Handle :=
  match group.slots with
  | [kindPart, namePart, descriptorPart] => do
    let content ← partOf .kind kindPart
    -- a content with a surrogate is the keyword of no kind
    match content.string?.bind HandleKind.ofKeyword? with
    | none => .error (.unknownKind content group.location)
    | some kind =>
      let name ← partOf .name namePart
      let descriptor ← partOf .descriptor descriptorPart
      return { kind, name, descriptor }
  | slots => .error (.size slots.length)

/-- Cuts a content at its last dot, which is dropped. -/
def splitLastDot : Content → Option (Content × Content)
  | [] => none
  | point :: rest =>
    match splitLastDot rest with
    | some (before, after) => some (point :: before, after)
    | none => if point = .char '.' then some ([], rest) else none

/-- The owner and the member that a handle refers to. -/
def ownerAndMember (handle : Handle) : Except HandleFault (Content × Content) :=
  match splitLastDot handle.name with
  | some parts => .ok parts
  | none => .error (.noOwner handle.name)

end Handle

end JvmAssembly
