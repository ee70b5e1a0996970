/-
JvmAssembly/Operand/Verify.lean

The checks of the kinds of arguments that every format has, and of those of the Java
virtual machine.  A check only reports: an argument of the right shape leaves the session
as it was.
-/
import JvmAssembly.Operand.Basic
import JvmAssembly.Operand.Kind
import JvmAssembly.Operand.Switch

namespace JvmAssembly

/-- The primitive types that an array can be made of. -/
def primitiveTypes : List String :=
  ["boolean", "byte", "char", "short", "int", "float", "long", "double"]

/-- Checks the element type of a primitive array. -/
def Check.newArrayType (element : Element) : Check Unit := do
  let some token ← (Expect.identifier "new array type" element).run | return
  onlyIf (!primitiveTypes.contains token.text) <|
    unexpected "boolean, byte, char, short, int, float, long or double" element

/-- Checks that an element is an argument of a kind that every format has. -/
def DefaultOperand.verify (operand : DefaultOperand) (element : Element) : Check Unit :=
  match operand with
  | string => do let _ ← (Expect.string "string" element).run
  | integer => do let _ ← (Expect.integer "integer" element).run
  | identifier => do let _ ← (Expect.identifier "identifier" element).run
  | literal => Check.onlyIf (!element.isLiteral) (Check.unexpected "literal" element)
  | label => do let _ ← (Expect.identifier "label" element).run

/-- Checks that an element is an argument of this kind. -/
def Operand.verify (operand : Operand) (element : Element) : Check Unit :=
  match operand with
  | default operand => operand.verify element
  | constant => Check.constant element
  | handle => Check.handle element
  | tableSwitch => Check.tableSwitch element
  | lookupSwitch => Check.lookupSwitch element
  | args => Check.args element
  | type => do let _ ← (Expect.identifier "type" element).run
  | newArrayType => Check.newArrayType element

instance : OperandKind DefaultOperand where
  name := DefaultOperand.name
  verify := DefaultOperand.verify

instance : OperandKind Operand where
  name := Operand.name
  verify := Operand.verify

end JvmAssembly
