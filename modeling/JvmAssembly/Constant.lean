/-
JvmAssembly/Constant.lean

The values of loadable constants.

`Constant.ofElement` computes what an element denotes, or the first fault that it
meets from left to right.  It does not bound the nesting: an element that is too
deep is refused earlier, by the check of the operand.
-/
import JvmAssembly.Handle
import JvmAssembly.Numeral.Value

namespace JvmAssembly

/-- A loadable constant. -/
inductive Constant where
  | number (value : Number)
  | string (content : Content)
  | type (descriptor : Content)
  | methodType (descriptor : Content)
  | handle (handle : Handle)
  | dynamic (name descriptor : Content) (bootstrap : Handle) (arguments : List Constant)

/-- Why an element is no constant. -/
inductive ConstantFault where
  | numeral (fault : NumeralFault)
  | descriptor (text : String) (location : Location)
  | arrayShape (location : Location)
  | element (kind : ElementKind) (location : Location)
  | handle (fault : HandleFault)
  | dynamicSize (found : Nat)
  | dynamicPart (index : Nat) (location : Location)
  | bootstrap (name : Content) (fault : HandleFault)
  | noBootstrap (name : Content)
  | argumentHole (name : Content)
  | noArguments (name : Content)
deriving DecidableEq, Repr

namespace ConstantFault

/-- The wording of a `ConstantFault`. -/
def message : ConstantFault → String
  | numeral fault => fault.message
  | descriptor text location =>
    s!"expected class, method or array descriptor, got {quoted text} at {location.render}"
  | arrayShape location => s!"expected constant dynamic or handle at {location.render}"
  | element kind location => s!"expected constant, got {kind.name} at {location.render}"
  | handle fault => fault.message
  | dynamicSize found =>
    s!"expected name, type, handle and args for a constant dynamic, got {found} elements"
  | dynamicPart index location =>
    s!"expected identifier at index {index} of constant dynamic at {location.render}"
  | bootstrap name _ => s!"invalid bootstrap handle of constant dynamic {name.quoted}"
  | noBootstrap name => s!"expected bootstrap handle of constant dynamic {name.quoted}"
  | argumentHole name => s!"hole in the arguments of constant dynamic {name.quoted}"
  | noArguments name => s!"expected arguments of constant dynamic {name.quoted}"

/-- The wording of what is behind a `ConstantFault`, the innermost cause last. -/
def causes : ConstantFault → List String
  | numeral fault => fault.causes
  | bootstrap _ fault => [fault.message]
  | _ => []

end ConstantFault

namespace Constant

/-- The constant that an identifier denotes: a descriptor of a method or of a type. -/
def ofIdentifier (token : Token) : Except ConstantFault Constant :=
  if token.content.startsWith '(' then
    .ok (methodType token.content)
  else if token.content.startsWith 'L' || token.content.startsWith '[' then
    .ok (type token.content)
  else
    .error (.descriptor token.text token.location)

/-- The content of the identifier in a slot of a dynamic constant. -/
def dynamicPart (index : Nat) (location : Location) :
    Option Element → Except ConstantFault Content
  | some (.identifier token) => .ok token.content
  | _ => .error (.dynamicPart index location)

/-- The bootstrap handle of the dynamic constant `name`. -/
def bootstrapOf (name : Content) : Option Element → Except ConstantFault Handle
  | some (.array group) => (Handle.ofGroup group).mapError (.bootstrap name)
  | _ => .error (.noBootstrap name)

mutual

/-- The constant that an element denotes. -/
def ofElement : Element → Except ConstantFault Constant
  | .number token =>
    match numeralValue token.chars with
    | .ok value => .ok (number value)
    | .error fault => .error (.numeral fault)
  | .string token => .ok (string token.content)
  | .identifier token => ofIdentifier token
  | .array group =>
    match group.last? with
    | some (.array _) => dynamicOf group
    | some (.empty _) => dynamicOf group
    | some (.identifier _) =>
      match Handle.ofGroup group with
      | .ok value => .ok (handle value)
      | .error fault => .error (.handle fault)
    | _ => .error (.arrayShape group.location)
  | other => .error (.element other.kind other.location)
termination_by structural element => element

/-- The dynamic constant that an array denotes. -/
def dynamicOf (group : Group Element) : Except ConstantFault Constant :=
  match group with
  | ⟨[namePart, typePart, handlePart, argsPart], location⟩ => do
    let name ← dynamicPart 0 location namePart
    let descriptor ← dynamicPart 1 location typePart
    let bootstrap ← bootstrapOf name handlePart
    match argsPart with
    | some element =>
      let arguments ← argumentsOf name element
      return dynamic name descriptor bootstrap arguments
    | none => .error (.noArguments name)
  | group => .error (.dynamicSize group.slots.length)
termination_by structural group

/-- The arguments of the dynamic constant `name`. -/
def argumentsOf (name : Content) : Element → Except ConstantFault (List Constant)
  | .array ⟨slots, _⟩ => argumentSlots name slots
  | .empty _ => .ok []
  | _ => .error (.noArguments name)
termination_by structural element => element

/-- The constants in the slots of the arguments of the dynamic constant `name`. -/
def argumentSlots (name : Content) :
    List (Option Element) → Except ConstantFault (List Constant)
  | [] => .ok []
  | none :: _ => .error (.argumentHole name)
  | some element :: rest => do
    let first ← ofElement element
    let others ← argumentSlots name rest
    return first :: others
termination_by structural slots => slots

end

end Constant

end JvmAssembly
