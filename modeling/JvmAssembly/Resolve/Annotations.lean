/-
JvmAssembly/Resolve/Annotations.lean

Annotations and their values.

A value is brought into normal form: `true` and `false` become truth values, empty
braces become the empty array, and a body without a keyword that holds one value
becomes an array of that value.  Numbers, strings, class types, constants of
enumerations, arrays and annotations stay what they are.  What is no value is
reported and left out of the array or annotation around it.

Every value takes one nesting level, also a number or a string.
-/
import JvmAssembly.Resolve.Keyword

namespace JvmAssembly

namespace Resolve

/-- Runs a check of a value one level deeper than the value around it. -/
def level {α : Type} (location : Location) (body : Check (Option α)) : Check (Option α) :=
  return (← Check.nested "annotation value" location body).join

/-- The value that an identifier is: a truth value or the type of a class. -/
def identifierValue (token : Token) : Attempt AnnotationValue :=
  if token.is "true" || token.is "false" then
    return .bool token (token.is "true")
  else if token.content.startsWith 'L' then
    return .type token
  else
    Expect.refuse "class type or boolean" (.identifier token)

/-- Resolves a constant of an enumeration. -/
def enumNode (declaration : Declaration Element) : Attempt EnumNode := do
  let type ← Attempt.optional (identifierArgument declaration 0 "enum type")
  let name ← Attempt.optional (identifierArgument declaration 1 "enum name")
  noMore declaration 2
  let some type := type | failure
  let some name := name | failure
  return { type, name, location := declaration.location }

/-- The values of an annotation as they are written. -/
def valuesArgument (declaration : Declaration Element) : Attempt (Object Element) := do
  Expect.object "annotation values" (← argument declaration 1 "annotation values")

mutual

/-- Brings a value into normal form. -/
def annotationValue (element : Element) : Check (Option AnnotationValue) :=
  level element.location <|
    match element with
    | .number token => return some (.number token)
    | .string token => return some (.string token)
    | .identifier token => (identifierValue token).run
    | .empty location => return some (.array [] location)
    | .array ⟨slots, location⟩ =>
      return some (.array (← valueSlots location slots) location)
    | .declaration declaration => declaredValue declaration
    | element => (Expect.refuse "annotation value" element).run
termination_by structural element

/-- The value that a declaration is: by its keyword an annotation or a constant of an
enumeration, and without a keyword a body that holds one value. -/
def declaredValue (declaration : Declaration Element) : Check (Option AnnotationValue) :=
  match declaration with
  | ⟨some keyword, slots, location⟩ => do
    match ← (kindOf ⟨some keyword, slots, location⟩).run with
    | none => return none
    | some (.member .annotationDecl) =>
      return (← annotationSlots (some keyword) location slots).map .nested
    | some .enumDecl => return (← (enumNode ⟨some keyword, slots, location⟩).run).map .enum
    | some kind =>
      notAllowed kind "annotation value" location
      return none
  | ⟨none, [some element], location⟩ =>
    return (← annotationValue element).map fun value => .array [value] location
  | ⟨none, [none], location⟩ => do
    Check.missing "annotation value" location
    return none
  | declaration => (Expect.refuse "annotation value" (.declaration declaration)).run
termination_by structural declaration

/-- Resolves the slots of an array of values. -/
def valueSlots (location : Location) : List (Option Element) → Check (List AnnotationValue)
  | [] => return []
  | none :: rest => do
    Check.missing "annotation value" location
    valueSlots location rest
  | some element :: rest => do
    let value ← annotationValue element
    let values ← valueSlots location rest
    return value.toList ++ values
termination_by structural slots => slots

/-- Resolves the slots of an annotation. -/
def annotationSlots (keyword : Option Token) (location : Location)
    (slots : List (Option Element)) : Check (Option (AnnotationNode AnnotationValue)) := do
  let type ← (identifierArgument ⟨keyword, slots, location⟩ 0 "annotation type").run
  let object ← (valuesArgument ⟨keyword, slots, location⟩).run
  noMore ⟨keyword, slots, location⟩ 2
  match object with
  | none => return none
  | some object =>
    Expect.distinctKeys "annotation values" object
    let values ← (match slots with
      | _ :: some (.object ⟨pairs, _⟩) :: _ => entryValues [] pairs
      | _ => pure [])
    return type.map fun type => { type, values, location }
termination_by structural slots

/-- Resolves the entries of an annotation.  An entry whose key is in `seen` repeats a key,
which was reported before, and is skipped. -/
def entryValues (seen : List String) :
    List (Entry Element) → Check (List (Token × AnnotationValue))
  | [] => return []
  | entry :: rest =>
    if entry.key.text ∈ seen then
      entryValues seen rest
    else do
      let value ← entryValue entry
      let values ← entryValues (entry.key.text :: seen) rest
      return (value.map fun value => (entry.key, value)).toList ++ values
termination_by structural pairs => pairs

/-- Resolves one entry of an annotation, whose key has to be an identifier. -/
def entryValue : Entry Element → Check (Option AnnotationValue)
  | ⟨key, slot⟩ =>
    if key.kind = .identifier then
      match slot with
      | some element => annotationValue element
      | none => do
        Check.missing "annotation value" key.location
        return none
    else do
      Check.error (.unexpectedElement "annotation value key" key.kind.literalKind) key.location
      return none
termination_by structural entry => entry

end

/-- Resolves an annotation. -/
def annotationNode (declaration : Declaration Element) :
    Check (Option (AnnotationNode AnnotationValue)) :=
  annotationSlots declaration.keyword declaration.location declaration.slots

end Resolve

end JvmAssembly
