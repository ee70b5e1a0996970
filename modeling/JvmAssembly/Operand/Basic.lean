/-
JvmAssembly/Operand/Basic.lean

The kinds of arguments that instructions take.

Which kinds there are is up to the format of the bytecode.  Some kinds are common to all
formats, and the Java virtual machine adds kinds of its own.
-/

namespace JvmAssembly

/-- A kind of argument that every format has. -/
inductive DefaultOperand where
  /-- A string. -/
  | string
  /-- A number that is not floating point. -/
  | integer
  /-- An identifier. -/
  | identifier
  /-- A single value of any kind. -/
  | literal
  /-- The name of a label. -/
  | label
deriving DecidableEq, Repr

namespace DefaultOperand

/-- All kinds of arguments that every format has. -/
def all : List DefaultOperand :=
  [string, integer, identifier, literal, label]

/-- The name of a kind of argument in messages. -/
def name : DefaultOperand → String
  | string => "string"
  | integer => "integer"
  | identifier => "identifier"
  | literal => "literal"
  | label => "label"

end DefaultOperand

/-- A kind of argument of an instruction of the Java virtual machine. -/
inductive Operand where
  /-- A kind that every format has. -/
  | default (operand : DefaultOperand)
  /-- Anything that can be loaded: a number, a string, the descriptor of a type or of a
  method, a handle or a dynamic constant. -/
  | constant
  /-- A method handle. -/
  | handle
  /-- The bounds, the default label and the labels of the cases of a dense switch. -/
  | tableSwitch
  /-- The labels for keys, and a default label. -/
  | lookupSwitch
  /-- An array of constants. -/
  | args
  /-- The name or descriptor of a type. -/
  | type
  /-- A primitive type as the element type of an array. -/
  | newArrayType
deriving DecidableEq, Repr

namespace Operand

/-- All kinds of arguments. -/
def all : List Operand :=
  DefaultOperand.all.map default
    ++ [constant, handle, tableSwitch, lookupSwitch, args, type, newArrayType]

/-- The name of a kind of argument in messages. -/
def name : Operand → String
  | default operand => operand.name
  | constant => "constant"
  | handle => "handle"
  | tableSwitch => "table switch"
  | lookupSwitch => "lookup switch"
  | args => "args"
  | type => "type"
  | newArrayType => "new array type"

/-- The kind of argument with the given name. -/
def ofName? (name : String) : Option Operand :=
  all.find? fun operand => operand.name == name

end Operand

end JvmAssembly
