/-
JvmAssembly/Operand/Switch.lean

Checks of the arguments of switches.

A table switch is an object with exactly the keys `min`, `max`, `default` and
`cases`.  A lookup switch maps keys to labels and has a `default` among its keys.
A repeated key is reported, and its first entry counts.
-/
import JvmAssembly.Operand.Constant

namespace JvmAssembly

namespace Check

/-- Checks that the value of a key is an integer. -/
def switchBound (object : Object Element) (key : String) : Attempt Token := do
  Expect.integer key (← Expect.present key (object.value? key) object.location)

/-- Checks that the cases of a table switch are identifiers. -/
def switchCases (object : Object Element) : Attempt (List Token) := do
  Expect.identifiers "cases" (← Expect.present "cases" (object.value? "cases") object.location)

/-- Checks the argument of a table switch. -/
def tableSwitch (element : Element) : Check Unit := do
  let some object ← (Expect.object "table switch" element).run | return
  Expect.distinctKeys "table switch" object
  if ← Expect.keys "table switch" object ["min", "max", "default", "cases"] then
    let _ ← (switchBound object "min").run
    let _ ← (switchBound object "max").run
    let _ ← (identifierSlot "default label" (object.value? "default") object.location).run
    let _ ← (switchCases object).run

/-- Checks the argument of a lookup switch. -/
def lookupSwitch (element : Element) : Check Unit := do
  let some object ← (Expect.object "lookup switch" element).run | return
  Expect.distinctKeys "lookup switch" object
  onlyIf (!object.contains "default") (missing "default label" object.location)
  object.entries.forM fun entry => do
    let _ ← (identifierSlot "label" entry.value entry.key.location).run

end Check

end JvmAssembly
