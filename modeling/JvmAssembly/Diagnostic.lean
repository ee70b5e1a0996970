/-
JvmAssembly/Diagnostic.lean

What is reported about a source text.

A `Problem` is a cause, and its wording is in one place, `Problem.message`.  An
error is a problem at a location.  A report lists errors and warnings in the order
in which they were found; the same problem may be reported twice.
-/
import JvmAssembly.Element.Basic
import JvmAssembly.Text.Quoted

namespace JvmAssembly

/-- What can be wrong with a source text. -/
inductive Problem where
  /-- An element of the wrong kind or shape. -/
  | unexpectedElement (expected : String) (actual : ElementKind)
  /-- Nothing, or a hole, where an element is required. -/
  | missingElement (expected : String)
  /-- A second attribute where one is allowed. -/
  | duplicateAttribute (what : String)
  /-- A key that an object had before. -/
  | duplicateKey (key context : String)
  /-- A label that the code had before. -/
  | duplicateLabel (label : String)
  /-- An identifier that is no modifier of the target. -/
  | invalidModifier (modifier : String) (target : ModifierTarget)
  /-- A declaration with a keyword that does not exist. -/
  | unknownDeclaration (keyword : String)
  /-- A declaration where it is not allowed. -/
  | unexpectedDeclaration (keyword context : String)
  /-- An object without exactly the required keys. -/
  | keyMismatch (expected context : String)
  /-- An instruction that the instruction set does not have. -/
  | unknownInstruction (mnemonic : String)
  /-- An argument that an instruction cannot take. -/
  | malformedOperand (operand reason : String)
deriving DecidableEq, Repr

/-- The wording of a problem. -/
def Problem.message : Problem → String
  | unexpectedElement expected actual => s!"Expected {expected} but got {actual.name}"
  | missingElement expected => s!"Expected {expected} but got nothing"
  | duplicateAttribute what => s!"{what} already defined"
  | duplicateKey key context => s!"Duplicate key {quoted key} in {context}"
  | duplicateLabel label => s!"Label {quoted label} already defined"
  | invalidModifier modifier target => s!"Invalid modifier for {target.name}: {modifier}"
  | unknownDeclaration keyword => s!"Unknown declaration: {keyword}"
  | unexpectedDeclaration keyword context => s!"Declaration {keyword} not allowed in {context}"
  | keyMismatch expected context => s!"Expected {context} to have the keys {expected}"
  | unknownInstruction mnemonic => s!"Unknown instruction: {mnemonic}"
  | malformedOperand operand reason => s!"Malformed {operand}: {reason}"

/-- A problem at a location. -/
structure Diagnostic where
  problem : Problem
  location : Location
deriving DecidableEq, Repr

/-- An error as one line. -/
def Diagnostic.render (error : Diagnostic) : String :=
  s!"{error.location.render}: {error.problem.message}"

/-- A message about something that is allowed but most likely not meant. -/
structure Warning where
  message : String
  location : Location
deriving DecidableEq, Repr

/-- A warning as one line. -/
def Warning.render (warning : Warning) : String :=
  s!"{warning.location.render}: warning: {warning.message}"

/-- Errors and warnings, each in the order in which they were found. -/
structure Report where
  errors : List Diagnostic := []
  warnings : List Warning := []
deriving DecidableEq, Repr

namespace Report

/-- Adds an error. -/
def addError (report : Report) (problem : Problem) (location : Location) : Report :=
  { report with errors := report.errors ++ [⟨problem, location⟩] }

/-- Adds a warning. -/
def addWarning (report : Report) (message : String) (location : Location) : Report :=
  { report with warnings := report.warnings ++ [⟨message, location⟩] }

/-- Adds everything that another report has. -/
protected def append (report other : Report) : Report :=
  ⟨report.errors ++ other.errors, report.warnings ++ other.warnings⟩

instance : Append Report := ⟨Report.append⟩

/-- Whether there is an error. -/
def hasErrors (report : Report) : Bool :=
  !report.errors.isEmpty

/-- Whether there is a warning. -/
def hasWarnings (report : Report) : Bool :=
  !report.warnings.isEmpty

@[simp] theorem errors_append (r₁ r₂ : Report) : (r₁ ++ r₂).errors = r₁.errors ++ r₂.errors := rfl

@[simp] theorem warnings_append (r₁ r₂ : Report) :
    (r₁ ++ r₂).warnings = r₁.warnings ++ r₂.warnings := rfl

end Report

end JvmAssembly
