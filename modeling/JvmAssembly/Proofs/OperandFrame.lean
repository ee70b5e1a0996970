/-
JvmAssembly/Proofs/OperandFrame.lean

The frame law for the checks of arguments, up to whole instructions.

These checks report errors and never warn, so the law is shown in its strict form.
Constants and arguments call each other; their frame law is one induction along
these calls (`strict_constants`).  The frame law for an operand follows by cases.

Beyond that, nothing has to be known about operands.  `LawfulOperandKind` is the frame law
as what a format promises about its kinds of arguments, and from here on, instruction sets
are on any kinds that keep this promise.
-/
import JvmAssembly.InstructionSet.Basic
import JvmAssembly.Operand.Verify
import JvmAssembly.Proofs.Frame

namespace JvmAssembly

namespace Check

variable {depth : Nat}

/-! ### Handles -/

theorem identifierSlot_eq (expected : String) (slot : Option Element) (location : Location) :
    identifierSlot expected slot location
      = Expect.viewedSlot Element.identifier? expected slot location := by
  unfold identifierSlot Expect.viewedSlot
  exact congrArg _ (funext fun element => Expect.identifier_eq expected element)

@[simp] theorem orderly_identifierSlot (expected : String) (slot : Option Element)
    (location : Location) : (identifierSlot expected slot location).run.Orderly := by
  rw [identifierSlot_eq]
  exact Expect.orderly_viewedSlot expected slot location

@[simp] theorem value_identifierSlot (expected : String) (slot : Option Element)
    (location : Location) :
    (identifierSlot expected slot location).run.value depth
      = slot.bind Element.identifier? := by
  rw [identifierSlot_eq, Expect.value_viewedSlot]

theorem silent_identifierSlot (expected : String) (slot : Option Element)
    (location : Location) :
    (identifierSlot expected slot location).run.Silent depth
      ↔ ∃ token, slot = some (.identifier token) := by
  rw [identifierSlot_eq, Expect.silent_viewedSlot]
  constructor
  · rintro ⟨token, h⟩
    obtain ⟨element, rfl, helement⟩ := Option.bind_eq_some_iff.mp h
    cases element <;> cases helement
    exact ⟨token, rfl⟩
  · rintro ⟨token, rfl⟩
    exact ⟨token, rfl⟩

theorem strict_identifierSlot (expected : String) (slot : Option Element) (location : Location) :
    (identifierSlot expected slot location).run.Strict := by
  rw [identifierSlot_eq]
  exact Expect.strict_viewedSlot _ expected slot location

theorem strict_handleKeyword (token : Token) : (handleKeyword token).Strict :=
  (strict_error _ _).onlyIf _

theorem orderly_handleKeyword (token : Token) : (handleKeyword token).Orderly :=
  (strict_handleKeyword token).orderly

/-- The check of a handle looks at its parts and then at its keyword; each of the steps only
reports. -/
theorem strict_handleGroup (group : Group Element) : (handleGroup group).Strict := by
  unfold handleGroup
  split
  · exact (strict_identifierSlot _ _ _).bind fun kind =>
      (strict_identifierSlot _ _ _).bind fun _ =>
        (strict_identifierSlot _ _ _).bind fun _ => Strict.forM_option strict_handleKeyword
  · exact strict_error _ _

theorem orderly_handleGroup (group : Group Element) : (handleGroup group).Orderly :=
  (strict_handleGroup group).orderly

theorem strict_handle (element : Element) : (handle element).Strict := by
  unfold handle
  split
  · exact strict_handleGroup _
  · exact strict_error _ _

theorem orderly_handle (element : Element) : (handle element).Orderly :=
  (strict_handle element).orderly

theorem strict_handleSlot (slot : Option Element) (location : Location) :
    (handleSlot slot location).Strict := by
  cases slot with
  | none => exact strict_error _ _
  | some element => exact strict_handle element

theorem orderly_handleSlot (slot : Option Element) (location : Location) :
    (handleSlot slot location).Orderly :=
  (strict_handleSlot slot location).orderly

/-! ### Constants and arguments -/

/-- The frame law for constants, dynamic constants, arguments and slots of arguments. -/
theorem strict_constants :
    (∀ element, (constant element).Strict) ∧ (∀ group, (constantDynamic group).Strict)
      ∧ (∀ element, (args element).Strict)
      ∧ ∀ location slots, (argSlots location slots).Strict := by
  apply constant.mutual_induct (fun element => (constant element).Strict)
    (fun group => (constantDynamic group).Strict) (fun element => (args element).Strict)
    (fun location slots => (argSlots location slots).Strict)
  · intro token
    exact strict_pure ()
  · intro token
    exact strict_pure ()
  · intro token
    exact (strict_error _ _).onlyIf _
  · -- an array, by its last slot
    intro group ih
    unfold constant
    refine Strict.map (Strict.nested _ _ ?_) _
    split
    · exact ih
    · exact ih
    · exact strict_handleGroup group
    · exact strict_error _ _
  · intro element hnumber hstring hidentifier harray
    cases element
    case number token => exact absurd rfl (hnumber token)
    case string token => exact absurd rfl (hstring token)
    case identifier token => exact absurd rfl (hidentifier token)
    case array group => exact absurd rfl (harray group)
    all_goals exact strict_error _ _
  · intro slots location ih
    exact (ih.nested _ _).map _
  · intro location
    exact ((strict_pure ()).nested _ _).map _
  · intro element harray hempty
    cases element
    case array group => exact absurd rfl (harray group.slots group.location)
    case empty location => exact absurd rfl (hempty location)
    all_goals exact strict_error _ _
  · -- four slots
    intro namePart typePart handlePart argsPart location ih
    unfold constantDynamic
    refine (strict_identifierSlot _ _ _).bind fun _ =>
      (strict_identifierSlot _ _ _).bind fun _ => (strict_handleSlot _ _).bind fun _ => ?_
    cases argsPart with
    | none => exact strict_error _ _
    | some element => exact ih
  · intro group hsize
    unfold constantDynamic
    split
    · exact absurd rfl (hsize _ _ _ _ _)
    · exact strict_error _ _
  · intro location
    exact strict_pure ()
  · intro location rest ih
    exact (strict_error _ _).bind fun _ => ih
  · intro location element rest ihelement ihrest
    exact ihelement.bind fun _ => ihrest

theorem orderly_constant (element : Element) : (constant element).Orderly :=
  (strict_constants.1 element).orderly

theorem orderly_constantDynamic (group : Group Element) : (constantDynamic group).Orderly :=
  (strict_constants.2.1 group).orderly

theorem orderly_args (element : Element) : (args element).Orderly :=
  (strict_constants.2.2.1 element).orderly

theorem orderly_argSlots (location : Location) (slots : List (Option Element)) :
    (argSlots location slots).Orderly :=
  (strict_constants.2.2.2 location slots).orderly

/-! ### Switches and array types -/

theorem strict_switchBound (object : Object Element) (key : String) :
    (switchBound object key).run.Strict :=
  (Expect.strict_present _ _ _).bind_attempt fun _ => Expect.strict_integer _ _

theorem strict_switchCases (object : Object Element) : (switchCases object).run.Strict :=
  (Expect.strict_present _ _ _).bind_attempt fun _ => Expect.strict_identifiers _ _

/-- The check of a table switch only reports, whether its keys are complete or not. -/
theorem strict_tableSwitch (element : Element) : (tableSwitch element).Strict := by
  unfold tableSwitch
  rw [Expect.object_eq]
  refine (Expect.strict_viewed _ _ _).bind fun result => ?_
  cases result with
  | none => exact strict_pure ()
  | some object =>
    refine (Expect.strict_distinctKeys _ _).bind fun _ =>
      (Expect.strict_keys _ _ _).bind fun complete => ?_
    cases complete with
    | false => exact strict_pure ()
    | true =>
      exact (strict_switchBound _ _).bind fun _ => (strict_switchBound _ _).bind fun _ =>
        (strict_identifierSlot _ _ _).bind fun _ => (strict_switchCases _).map _

theorem strict_lookupSwitch (element : Element) : (lookupSwitch element).Strict := by
  unfold lookupSwitch
  rw [Expect.object_eq]
  refine (Expect.strict_viewed _ _ _).bind fun result => ?_
  cases result with
  | none => exact strict_pure ()
  | some object =>
    refine (Expect.strict_distinctKeys _ _).bind fun _ =>
      ((strict_error _ _).onlyIf _).bind fun _ => ?_
    exact Strict.forM fun entry => (strict_identifierSlot _ _ _).map _

theorem strict_newArrayType (element : Element) : (newArrayType element).Strict := by
  unfold newArrayType
  rw [Expect.identifier_eq]
  refine (Expect.strict_viewed _ _ _).bind fun result => ?_
  cases result with
  | none => exact strict_pure ()
  | some token => exact (strict_error _ _).onlyIf _

end Check

/-! ### Operands -/

open Check

theorem strict_identifier (expected : String) (element : Element) :
    (do let _ ← (Expect.identifier expected element).run : Check Unit).Strict := by
  rw [Expect.identifier_eq]
  exact (Expect.strict_viewed _ _ _).map _

/-- The kinds of arguments that every format has keep the contract. -/
theorem DefaultOperand.strict_verify (operand : DefaultOperand) (element : Element) :
    (operand.verify element).Strict := by
  cases operand with
  | string =>
    unfold verify
    rw [Expect.string_eq]
    exact (Expect.strict_viewed _ _ _).map _
  | integer => exact (Expect.strict_integer _ _).map _
  | identifier => exact strict_identifier _ element
  | literal => exact (strict_error _ _).onlyIf _
  | label => exact strict_identifier _ element

/-- The kinds of arguments of the Java virtual machine keep the contract. -/
theorem Operand.strict_verify (operand : Operand) (element : Element) :
    (operand.verify element).Strict := by
  cases operand with
  | default operand => exact operand.strict_verify element
  | constant => exact strict_constants.1 element
  | handle => exact strict_handle element
  | tableSwitch => exact strict_tableSwitch element
  | lookupSwitch => exact strict_lookupSwitch element
  | args => exact strict_constants.2.2.1 element
  | type => exact strict_identifier _ element
  | newArrayType => exact strict_newArrayType element

/-! ### Kinds of arguments of any format -/

/-- What a format promises about its kinds of arguments: the check of an argument only reports
errors, which depend on the argument and on the nesting depth but on nothing that was reported
before, and it comes back to the depth where it started. -/
class LawfulOperandKind (κ : Type) [OperandKind κ] : Prop where
  strict_verify (operand : κ) (element : Element) : (OperandKind.verify operand element).Strict

instance : LawfulOperandKind DefaultOperand where
  strict_verify := DefaultOperand.strict_verify

instance : LawfulOperandKind Operand where
  strict_verify := Operand.strict_verify

/-! ### Instructions -/

namespace InstructionSet

variable {κ : Type} [OperandKind κ] [LawfulOperandKind κ]

theorem strict_verifySlot (location : Location) (operand : κ) (slot : Option Element) :
    (verifySlot location operand slot).Strict := by
  cases slot with
  | none => exact strict_error _ _
  | some element => exact LawfulOperandKind.strict_verify operand element

theorem orderly_verifySlot (location : Location) (operand : κ) (slot : Option Element) :
    (verifySlot location operand slot).Orderly :=
  (strict_verifySlot location operand slot).orderly

/-- Arguments of any kinds are checked one after the other, so that the contract carries over to
them. -/
theorem strict_verifyArguments (location : Location) (operands : List κ)
    (slots : List (Option Element)) : (verifyArguments location operands slots).Strict := by
  induction operands generalizing slots with
  | nil => exact strict_pure ()
  | cons operand operands ih =>
    cases slots with
    | nil => exact strict_pure ()
    | cons slot slots => exact (strict_verifySlot _ _ _).bind fun _ => ih slots

theorem orderly_verifyArguments (location : Location) (operands : List κ)
    (slots : List (Option Element)) : (verifyArguments location operands slots).Orderly :=
  (strict_verifyArguments location operands slots).orderly

/-- The frame law for an instruction of any set. -/
theorem strict_verify (set : InstructionSet κ) (instruction : Instruction Element) :
    (set.verify instruction).Strict := by
  dsimp only [verify]
  split
  · exact strict_error _ _
  split
  · exact strict_verifyArguments _ _ _
  · exact strict_error _ _

theorem orderly_verify (set : InstructionSet κ) (instruction : Instruction Element) :
    (set.verify instruction).Orderly :=
  (strict_verify set instruction).orderly

end InstructionSet

/-- The set of a format that has no kinds of arguments but those that every format has. -/
def bipushSet : InstructionSet DefaultOperand :=
  ⟨[("bipush", [.integer])]⟩

end JvmAssembly
