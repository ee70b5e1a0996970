/-
JvmAssembly/Resolve/Program.lean

Classes, and whole programs.

A class is `.class <modifiers> <name> <body>`, where the body is a declaration
without a keyword that holds the members.  `resolve` takes the declarations of a
program in order and never fails: what cannot be resolved is reported and left
out, and the rest goes on.

What a program resolves to are nodes and not elements, so that each function says in
its type what it resolves to.  Of a format of bytecode, its instructions are all that
matters here.
-/
import JvmAssembly.Resolve.Members

namespace JvmAssembly

/-- A resolved declaration of the top level. -/
inductive Node where
  | ofClass (node : ClassNode Element)
  | ofMember (member : Member)

/-- What a program resolves to, and what was reported on the way. -/
structure Resolution where
  nodes : List Node
  report : Report

namespace Resolve

variable {κ : Type} [OperandKind κ]

/-! ### Classes -/

/-- Resolves an element of the body of a class. -/
def bodyItem (set : InstructionSet κ) (pending : Pending) (element : Element) :
    Check (Option Member × Pending) := do
  match ← (Expect.declaration "class member or member attribute" element).run with
  | none => return (none, pending)
  | some declaration =>
    match ← (kindOf declaration).run with
    | none => return (none, pending)
    | some (.member kind) => member set pending declaration kind
    | some kind =>
      notAllowed kind "class body" declaration.location
      return (none, pending)

/-- Resolves the slots of the body of a class.  A hole is reported at the nearest element
before it. -/
def bodySlots (set : InstructionSet κ) :
    Pending → Location → List (Option Element) → Check (List Member)
  | pending, _, [] => do
    pending.warnUnused
    return []
  | pending, previous, none :: rest => do
    Check.missing "class member or member attribute" previous
    bodySlots set pending previous rest
  | pending, _, some element :: rest => do
    let (member, pending) ← bodyItem set pending element
    let members ← bodySlots set pending element.location rest
    return member.toList ++ members

/-- The fields among members. -/
def fieldsOf (members : List Member) : List FieldNode :=
  members.filterMap fun
    | .field node => some node
    | .method _ => none

/-- The methods among members. -/
def methodsOf (members : List Member) : List (MethodNode Element) :=
  members.filterMap fun
    | .field _ => none
    | .method node => some node

/-- Expects a declaration without a keyword as the body of a class. -/
def classBody (slot : Option Element) (location : Location) : Attempt (Declaration Element) := do
  let body ← Expect.declaration "class body" (← Expect.present "class body" slot location)
  if body.keyword.isSome then
    Check.error (.unexpectedElement "class body" .declaration) body.location
    failure
  else
    return body

/-- Resolves a class, which takes the pending attributes. -/
def classNode (set : InstructionSet κ) (pending : Pending) (declaration : Declaration Element) :
    Attempt (ClassNode Element) := do
  let location := declaration.location
  -- from the end: the body, the name, the modifiers
  match declaration.slots.reverse with
  | [] =>
    Check.missing "class name and body" location
    failure
  | bodyPart :: front =>
    let body ← classBody bodyPart location
    match front with
    | [] =>
      Check.missing "class name" location
      failure
    | namePart :: rest =>
      let name ← Attempt.optional (nameSlot "class name" namePart location)
      let modifiers ← modifiers .onClass location rest.reverse
      let members ← bodySlots set {} body.location body.slots
      let some name := name | failure
      return {
        modifiers, name, location
        signature := pending.signature
        superName := pending.superName
        interfaces := pending.interfaces
        annotations := pending.annotations
        fields := fieldsOf members
        methods := methodsOf members }

/-! ### Programs -/

/-- Resolves a declaration of the top level. -/
def topLevel (set : InstructionSet κ) (pending : Pending) (declaration : Declaration Element) :
    DeclarationKind → Check (Option Node × Pending)
  | .classDecl => do
    let node ← (classNode set pending declaration).run
    return (node.map .ofClass, {})
  | .superDecl => do
    match ← (singleIdentifier declaration "super name").run with
    | some token => return (none, ← pending.addSuperName token)
    | none => return (none, pending)
  | .interfaceDecl => do
    match ← (singleIdentifier declaration "interface name").run with
    | some token => return (none, pending.addInterface token)
    | none => return (none, pending)
  | .enumDecl => do
    notAllowed .enumDecl "top level" declaration.location
    return (none, pending)
  | .member kind => do
    let (node, pending) ← member set pending declaration kind
    return (node.map .ofMember, pending)

/-- Resolves an element of the top level. -/
def topItem (set : InstructionSet κ) (pending : Pending) (element : Element) :
    Check (Option Node × Pending) := do
  match ← (Expect.declaration "declaration" element).run with
  | none => return (none, pending)
  | some declaration =>
    match ← (kindOf declaration).run with
    | none => return (none, pending)
    | some kind => topLevel set pending declaration kind

/-- Resolves the elements of the top level, with the attributes that are pending before
them. -/
def topSequence (set : InstructionSet κ) : Pending → List Element → Check (List Node)
  | pending, [] => do
    pending.warnUnused
    return []
  | pending, element :: rest => do
    let (node, pending) ← topItem set pending element
    let nodes ← topSequence set pending rest
    return node.toList ++ nodes

end Resolve

/-- Resolves a program, checking its code against an instruction set. -/
def resolve {κ : Type} [OperandKind κ] (set : InstructionSet κ) (program : List Element) :
    Resolution :=
  let (nodes, session) := (Resolve.topSequence set {} program).run {}
  { nodes, report := session.report }

namespace Resolution

/-- Whether there were no errors.  Warnings do not count. -/
def isOk (resolution : Resolution) : Bool :=
  !resolution.report.hasErrors

/-- The classes, in source order. -/
def classes (resolution : Resolution) : List (ClassNode Element) :=
  resolution.nodes.filterMap fun
    | .ofClass node => some node
    | .ofMember _ => none

end Resolution

end JvmAssembly
