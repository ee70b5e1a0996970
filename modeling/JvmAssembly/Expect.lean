/-
JvmAssembly/Expect.lean

Checks of the shape of one element.

Each of these reports what it does not find under the name that the caller
`expected`, and gives no result then.  A pair of braces with nothing in it is an
array, an object or code, whichever is expected.
-/
import JvmAssembly.Session
import JvmAssembly.Numeral.Basic

namespace JvmAssembly

namespace Expect

/-- Expects a slot to be filled.  A hole is reported at `location`. -/
def present (expected : String) (slot : Option Element) (location : Location) :
    Attempt Element :=
  match slot with
  | some element => return element
  | none => do
    Check.missing expected location
    failure

/-- Reports an element of the wrong kind and stops. -/
def refuse {α : Type} (expected : String) (element : Element) : Attempt α := do
  Check.unexpected expected element
  failure

/-! ### Literals -/

/-- Expects an identifier. -/
def identifier (expected : String) : Element → Attempt Token
  | .identifier token => return token
  | element => refuse expected element

/-- Expects a name: an identifier, or a number that serves as one. -/
def name (expected : String) : Element → Attempt Token
  | .identifier token => return token
  | .number token => return token.toIdentifier
  | element => refuse expected element

/-- Expects a number. -/
def number (expected : String) : Element → Attempt Token
  | .number token => return token
  | element => refuse expected element

/-- Expects a number that is not floating point. -/
def integer (expected : String) (element : Element) : Attempt Token := do
  let token ← number expected element
  if isFloatingNumeral token.chars then
    refuse "integer" element
  else
    return token

/-- Expects a string. -/
def string (expected : String) : Element → Attempt Token
  | .string token => return token
  | element => refuse expected element

/-! ### Containers -/

/-- Expects an array. -/
def array (expected : String) : Element → Attempt (Group Element)
  | .array group => return group
  | .empty location => return ⟨[], location⟩
  | element => refuse expected element

/-- Expects an object. -/
def object (expected : String) : Element → Attempt (Object Element)
  | .object object => return object
  | .empty location => return ⟨[], location⟩
  | element => refuse expected element

/-- Expects code. -/
def code (expected : String) : Element → Attempt (Group Element)
  | .code group => return group
  | .empty location => return ⟨[], location⟩
  | element => refuse expected element

/-- Expects a declaration. -/
def declaration (expected : String) : Element → Attempt (Declaration Element)
  | .declaration declaration => return declaration
  | element => refuse expected element

/-- Expects an array of identifiers.  What is no identifier is reported and left out. -/
def identifiers (expected : String) (element : Element) : Attempt (List Token) := do
  let group ← array expected element
  Check.collect
    (fun slot => do identifier "identifier" (← present "identifier" slot group.location))
    group.slots

/-! ### Keys -/

/-- Expects an object to have exactly the given keys, and says whether it does. -/
def keys (context : String) (object : Object Element) (keys : List String) : Check Bool := do
  if object.size = keys.length ∧ ∀ key ∈ keys, object.contains key then
    return true
  else
    Check.error (.keyMismatch (", ".intercalate keys) context) object.location
    return false

/-- Reports every repeated key of an object. -/
def distinctKeys (context : String) (object : Object Element) : Check Unit :=
  object.duplicates.forM fun entry =>
    Check.error (.duplicateKey entry.key.text context) entry.key.location

end Expect

/-- Checks that a slot holds an identifier. -/
def Check.identifierSlot (expected : String) (slot : Option Element) (location : Location) :
    Attempt Token := do
  Expect.identifier expected (← Expect.present expected slot location)

end JvmAssembly
