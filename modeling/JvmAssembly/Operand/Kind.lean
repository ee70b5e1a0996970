/-
JvmAssembly/Operand/Kind.lean

What a type of kinds of arguments has to offer.

A format of bytecode comes with kinds of arguments of its own.  All that the rest asks of
them is a name for messages and a check.  The check is a script like any other: it may
report, go down a nesting level and ask how deep it is, but it has no access to what was
reported before.
-/
import JvmAssembly.Session

namespace JvmAssembly

/-- A type of kinds of arguments of instructions. -/
class OperandKind (κ : Type) where
  /-- The name of a kind of argument in messages. -/
  name : κ → String
  /-- Checks that an element is an argument of a kind. -/
  verify : κ → Element → Check Unit

end JvmAssembly
