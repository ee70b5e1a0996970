/-
JvmAssembly/Resolve/Members.lean

Fields and methods.

The parts of a declaration are counted from its end, since any number of modifiers
may stand in front:
  * `.field <modifiers> <name> <descriptor> [<value>]`, where the value is a number, a
    string, or an object whose only key `value` has one of these;
  * `.method <modifiers> <name> <descriptor> <body>`, where the body is an object that
    may have `parameters` (an array of identifiers) and `code`.
A part that is wrong is reported, and the other parts are checked all the same.
-/
import JvmAssembly.Expect
import JvmAssembly.InstructionSet.Basic
import JvmAssembly.Resolve.Annotations
import JvmAssembly.Resolve.Pending

namespace JvmAssembly

/-- A resolved member of a class. -/
inductive Member where
  | field (node : FieldNode)
  | method (node : MethodNode Element)

namespace Resolve

variable {κ : Type} [OperandKind κ]

/-! ### Modifiers -/

/-- Resolves the modifiers in slots of a declaration at `location`, after those found
before.  A repeated modifier is recorded again, with a warning. -/
def modifiersAfter (target : ModifierTarget) (location : Location) :
    Modifiers → List (Option Element) → Check Modifiers
  | found, [] => return found
  | found, slot :: rest => do
    match ← (Check.identifierSlot (target.name ++ " modifier") slot location).run with
    | none => modifiersAfter target location found rest
    | some token =>
      match (Modifier.ofKeyword? token.text).filter (·.isAllowedOn target) with
      | none =>
        Check.error (.invalidModifier token.text target) token.location
        modifiersAfter target location found rest
      | some modifier =>
        Check.onlyIf (found.contains modifier) <|
          Check.warn ("Repeated modifier: " ++ token.text) token.location
        modifiersAfter target location (found.add modifier token.location) rest

/-- Resolves the modifiers in slots of a declaration at `location`. -/
def modifiers (target : ModifierTarget) (location : Location) (slots : List (Option Element)) :
    Check Modifiers :=
  modifiersAfter target location {} slots

/-- Expects a slot to hold a name. -/
def nameSlot (expected : String) (slot : Option Element) (location : Location) :
    Attempt Token := do
  Expect.name expected (← Expect.present expected slot location)

/-! ### Fields -/

/-- The constant of a field that is written as an object. -/
def fieldValue (object : Object Element) : Attempt FieldValue := do
  Expect.distinctKeys "field value" object
  if ← Expect.keys "field value" object ["value"] then
    match object.get? "value" with
    | none => failure
    | some entry =>
      match ← Expect.present "field value" entry.value entry.key.location with
      | .number token => return .number token
      | .string token => return .string token
      | element => Expect.refuse "field value" element
  else
    failure

/-- The constant at the end of a field declaration, if there is one, and the slots before
it.  Both the given and the returned slots are in reverse order. -/
def splitFieldValue :
    List (Option Element) → Attempt (Option FieldValue × List (Option Element))
  | some (.object object) :: rest => return (some (← fieldValue object), rest)
  | some (.number token) :: rest => return (some (.number token), rest)
  | some (.string token) :: rest => return (some (.string token), rest)
  | slots => return (none, slots)

/-- Resolves a field, which takes the pending attributes. -/
def fieldNode (pending : Pending) (declaration : Declaration Element) : Attempt FieldNode := do
  let location := declaration.location
  pending.warnClassOnly "field"
  -- from the end: the value if there is one, the descriptor, the name, the modifiers
  let (value, slots) ← splitFieldValue declaration.slots.reverse
  match slots with
  | descriptorPart :: namePart :: rest =>
    let descriptor ←
      Attempt.optional (Check.identifierSlot "field descriptor" descriptorPart location)
    let name ← Attempt.optional (nameSlot "field name" namePart location)
    let modifiers ← modifiers .onField location rest.reverse
    let some name := name | failure
    let some descriptor := descriptor | failure
    return {
      modifiers, name, descriptor, value, location
      signature := pending.signature
      annotations := pending.annotations }
  | _ =>
    Check.missing "field name and descriptor" location
    failure

/-! ### Methods -/

/-- Checks the slots of code.  A hole is reported at the nearest element before it. -/
def codeSlots (set : InstructionSet κ) :
    List String → Location → List (Option Element) → Check Unit
  | _, _, [] => return
  | labels, previous, none :: rest => do
    Check.missing "instruction or label" previous
    codeSlots set labels previous rest
  | labels, _, some (.instruction instruction) :: rest => do
    set.verify instruction
    codeSlots set labels instruction.location rest
  | labels, _, some (.label name) :: rest => do
    Check.onlyIf (labels.contains name.text) <|
      Check.error (.duplicateLabel name.text) name.location
    codeSlots set (name.text :: labels) name.location rest
  | labels, _, some element :: rest => do
    Check.unexpected "instruction or label" element
    codeSlots set labels element.location rest

/-- Checks code: every instruction against the instruction set, and that no label is
defined twice. -/
def code (set : InstructionSet κ) (group : Group Element) : Check Unit :=
  codeSlots set [] group.location group.slots

/-- Warns about the keys that the body of a method has no use for. -/
def warnUnknownKeys (body : Object Element) : Check Unit :=
  body.entries.forM fun entry =>
    Check.onlyIf (!entry.key.is "parameters" && !entry.key.is "code") <|
      Check.warn ("Unknown method body key: " ++ entry.key.text) entry.key.location

/-- The parameters in the body of a method. -/
def parametersOf (body : Object Element) : Check (List Token) := do
  match body.get? "parameters" with
  | none => return []
  | some entry =>
    let parameters ← OptionT.run do
      Expect.identifiers "method parameters"
        (← Expect.present "method parameters" entry.value entry.key.location)
    return parameters.getD []

/-- The code in the body of a method. -/
def codeOf (set : InstructionSet κ) (body : Object Element) : Check (Option (Group Element)) := do
  match body.get? "code" with
  | none => return none
  | some entry =>
    let group ← OptionT.run do
      Expect.code "method code" (← Expect.present "method code" entry.value entry.key.location)
    group.forM (code set)
    return group

/-- Resolves a method, which takes the pending attributes. -/
def methodNode (set : InstructionSet κ) (pending : Pending) (declaration : Declaration Element) :
    Attempt (MethodNode Element) := do
  let location := declaration.location
  pending.warnClassOnly "method"
  -- from the end: the body, the descriptor, the name, the modifiers
  match declaration.slots.reverse with
  | bodyPart :: descriptorPart :: namePart :: rest =>
    let body ← Expect.object "method body" (← Expect.present "method body" bodyPart location)
    Expect.distinctKeys "method body" body
    warnUnknownKeys body
    let parameters ← parametersOf body
    let code ← OptionT.lift (codeOf set body)
    let descriptor ←
      Attempt.optional (Check.identifierSlot "method descriptor" descriptorPart location)
    let name ← Attempt.optional (nameSlot "method name" namePart location)
    let modifiers ← modifiers .onMethod location rest.reverse
    let some name := name | failure
    let some descriptor := descriptor | failure
    return {
      modifiers, name, descriptor, parameters, code, location
      signature := pending.signature
      annotations := pending.annotations }
  | _ =>
    Check.missing "method name, descriptor and body" location
    failure

/-! ### Members and their attributes -/

/-- Resolves a declaration that may stand in the body of a class.  A field or a method
takes what is pending; an annotation or a signature is added to it. -/
def member (set : InstructionSet κ) (pending : Pending) (declaration : Declaration Element) :
    MemberKind → Check (Option Member × Pending)
  | .fieldDecl => do
    let node ← (fieldNode pending declaration).run
    return (node.map .field, {})
  | .methodDecl => do
    let node ← (methodNode set pending declaration).run
    return (node.map .method, {})
  | .annotationDecl => do
    match ← annotationNode declaration with
    | some node => return (none, pending.addAnnotation node)
    | none => return (none, pending)
  | .signatureDecl => do
    match ← (singleIdentifier declaration "signature").run with
    | some token => return (none, ← pending.addSignature token)
    | none => return (none, pending)

end Resolve

end JvmAssembly
