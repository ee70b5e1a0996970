/-
JvmAssembly/InstructionSet/Basic.lean

Instruction sets: which mnemonics there are and what arguments they take.  The kinds of
arguments are those of any format.

A set keeps its mnemonics in the order in which they were registered first.
Registering a mnemonic again replaces its arguments and keeps its place.
-/
import JvmAssembly.Operand.Basic
import JvmAssembly.Operand.Kind

namespace JvmAssembly

/-- Mnemonics with the kinds of their arguments, which are those of the Java virtual machine
unless others are given. -/
structure InstructionSet (κ : Type := Operand) where
  table : List (String × List κ) := []
deriving DecidableEq, Repr

namespace InstructionSet

variable {κ : Type}

/-- The arguments of an instruction. -/
def get? (set : InstructionSet κ) (mnemonic : String) : Option (List κ) :=
  set.table.lookup mnemonic

/-- Whether there is an instruction with the given mnemonic. -/
def contains (set : InstructionSet κ) (mnemonic : String) : Bool :=
  (set.get? mnemonic).isSome

/-- The mnemonics, in the order of their first registration. -/
def mnemonics (set : InstructionSet κ) : List String :=
  set.table.map Prod.fst

/-- The number of instructions. -/
def size (set : InstructionSet κ) : Nat :=
  set.table.length

/-- Whether there are no instructions. -/
def isEmpty (set : InstructionSet κ) : Bool :=
  set.table.isEmpty

/-- Replaces the arguments of an instruction in a table, or adds it at the end. -/
def put (mnemonic : String) (operands : List κ) :
    List (String × List κ) → List (String × List κ)
  | [] => [(mnemonic, operands)]
  | entry :: rest =>
    if entry.1 = mnemonic then
      (mnemonic, operands) :: rest
    else
      entry :: put mnemonic operands rest

/-- Registers an instruction. -/
def register (set : InstructionSet κ) (mnemonic : String) (operands : List κ) :
    InstructionSet κ :=
  ⟨put mnemonic operands set.table⟩

/-- Registers several instructions with the same arguments. -/
def registerAll (set : InstructionSet κ) (mnemonics : List String) (operands : List κ) :
    InstructionSet κ :=
  mnemonics.foldl (fun set mnemonic => set.register mnemonic operands) set

/-! ### Registration -/

theorem lookup_put (mnemonic key : String) (operands : List κ)
    (table : List (String × List κ)) :
    (put mnemonic operands table).lookup key
      = if key = mnemonic then some operands else table.lookup key := by
  induction table with
  | nil => by_cases h : key = mnemonic <;> simp [put, h]
  | cons entry rest ih =>
    obtain ⟨name, old⟩ := entry
    unfold put
    by_cases hname : name = mnemonic
    · -- the entry is replaced
      subst hname
      by_cases hkey : key = name
      · simp [hkey]
      · have hbeq : (key == name) = false := beq_eq_false_iff_ne.mpr hkey
        simp [List.lookup_cons, hbeq, hkey]
    · -- the entry stays, and the rest is searched
      by_cases hkey : key = name
      · subst hkey
        simp [hname]
      · have hbeq : (key == name) = false := beq_eq_false_iff_ne.mpr hkey
        simp [List.lookup_cons, hname, hbeq, ih]

/-- Registering an instruction changes what is found under its mnemonic, and nothing else. -/
theorem get?_register (set : InstructionSet κ) (mnemonic key : String) (operands : List κ) :
    (set.register mnemonic operands).get? key
      = if key = mnemonic then some operands else set.get? key :=
  lookup_put mnemonic key operands set.table

/-! ### Checking instructions -/

variable [OperandKind κ]

/-- Checks that a slot of an instruction at `location` holds an argument of the given kind. -/
def verifySlot (location : Location) (operand : κ) : Option Element → Check Unit
  | some element => OperandKind.verify operand element
  | none => Check.missing (OperandKind.name operand) location

/-- Checks arguments against operands of the same number. -/
def verifyArguments (location : Location) : List κ → List (Option Element) → Check Unit
  | operand :: operands, slot :: slots => do
    verifySlot location operand slot
    verifyArguments location operands slots
  | _, _ => return

/-- Checks an instruction: the mnemonic is known, the number of arguments is right, and
every argument has the shape that its operand requires. -/
def verify (set : InstructionSet κ) (instruction : Instruction Element) : Check Unit := do
  let mnemonic := instruction.mnemonic.text
  match set.get? mnemonic with
  | none => Check.error (.unknownInstruction mnemonic) instruction.location
  | some operands =>
    let expected := operands.length
    let found := instruction.arguments.length
    if expected = found then
      verifyArguments instruction.location operands instruction.arguments
    else
      Check.malformed "instruction" s!"{mnemonic} takes {expected} arguments, got {found}"
        instruction.location

end InstructionSet

end JvmAssembly
