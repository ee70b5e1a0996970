/-
JvmAssembly/Proofs/CodeReports.lean

What is reported about code, slot by slot.

The check of code goes through the slots once, with the labels that it has seen and the
place of the last element in hand, and the checks of the arguments share its session.
What it reports can be said without any of these: the errors about a slot are a function
of the slot and of the slots in front of it (`slotErrors`), and

    codeErrors set group

is their concatenation.  Of the slots in front only two things count, the labels among
them and the place of the last element (`slotErrors_congr`), and an instruction does not
even look at these.  So an item can be replaced by any other one at the same place and
with the same label, and the errors about all other items stay what they are.
-/
import Mathlib.Data.Finset.Card
import JvmAssembly.Proofs.AppendOnly
import JvmAssembly.Proofs.OperandProblems
import JvmAssembly.Proofs.ProgramGrammar

namespace JvmAssembly

open Check

variable {κ : Type} [OperandKind κ]

/-! ### Errors by slot -/

/-- The errors about an argument of an instruction at `location`: a hole is missing, and any
other argument has the errors that its operand reports in a session of its own. -/
def argumentErrors (location : Location) (operand : κ) : Option Element → List Diagnostic
  | none => [⟨.missingElement (OperandKind.name operand), location⟩]
  | some element => ((OperandKind.verify operand element).run {}).2.report.errors

/-- The errors about an instruction. -/
def instructionErrors (set : InstructionSet κ) (instruction : Instruction Element) :
    List Diagnostic :=
  let mnemonic := instruction.mnemonic.text
  match set.get? mnemonic with
  | none => [⟨.unknownInstruction mnemonic, instruction.location⟩]
  | some operands =>
    if operands.length = instruction.arguments.length then
      (operands.zip instruction.arguments).flatMap fun (operand, argument) =>
        argumentErrors instruction.location operand argument
    else
      let reason :=
        s!"{mnemonic} takes {operands.length} arguments, got {instruction.arguments.length}"
      [⟨.malformedOperand "instruction" reason, instruction.location⟩]

/-- The labels that slots of code define, in order. -/
def labelsOf (slots : List (Option Element)) : List String :=
  slots.filterMap labelOf

/-- The place of the last element of slots, or of the code around them if they are holes. -/
def placeOfHole (location : Location) (slots : List (Option Element)) : Location :=
  ((slots.filterMap id).getLast?.map Element.location).getD location

/-- The errors about a slot of code at `location`, behind the slots in `front`. -/
def slotErrors (set : InstructionSet κ) (location : Location) (front : List (Option Element)) :
    Option Element → List Diagnostic
  | none => [⟨.missingElement "instruction or label", placeOfHole location front⟩]
  | some (.instruction instruction) => instructionErrors set instruction
  | some (.label name) =>
    if name.text ∈ labelsOf front then [⟨.duplicateLabel name.text, name.location⟩] else []
  | some element => [⟨.unexpectedElement "instruction or label" element.kind, element.location⟩]

/-- The errors about code: those about its slots, in order. -/
def codeErrors (set : InstructionSet κ) (group : Group Element) : List Diagnostic :=
  group.slots.zipIdx.flatMap fun (slot, index) =>
    slotErrors set group.location (group.slots.take index) slot

/-- The errors about some slots of code, behind those in `front`. -/
def errorsBehind (set : InstructionSet κ) (location : Location)
    (front slots : List (Option Element)) : List Diagnostic :=
  slots.zipIdx.flatMap fun (slot, index) =>
    slotErrors set location (front ++ slots.take index) slot

variable {set : InstructionSet κ} {location : Location}

theorem codeErrors_eq (set : InstructionSet κ) (group : Group Element) :
    codeErrors set group = errorsBehind set group.location [] group.slots := rfl

/-- The first slot is judged by what stands in front of it, and the others have it in front of
them. -/
theorem errorsBehind_cons (front rest : List (Option Element)) (slot : Option Element) :
    errorsBehind set location front (slot :: rest)
      = slotErrors set location front slot ++ errorsBehind set location (front ++ [slot]) rest := by
  unfold errorsBehind
  rw [List.zipIdx_cons, List.flatMap_cons, List.zipIdx_succ, List.flatMap_map]
  simp

/-- Errors about slots in two parts: the second part has the first in front of it. -/
theorem errorsBehind_append (front first second : List (Option Element)) :
    errorsBehind set location front (first ++ second)
      = errorsBehind set location front first
        ++ errorsBehind set location (front ++ first) second := by
  induction first generalizing front with
  | nil => simp [errorsBehind]
  | cons slot first ih =>
    rw [List.cons_append, errorsBehind_cons, errorsBehind_cons, ih]
    simp

/-- A hole is placed at the last element in front of it. -/
theorem placeOfHole_concat (slots : List (Option Element)) (slot : Option Element) :
    placeOfHole location (slots ++ [slot])
      = (slot.map Element.location).getD (placeOfHole location slots) := by
  cases slot <;> simp [placeOfHole]

theorem labelsOf_append (first second : List (Option Element)) :
    labelsOf (first ++ second) = labelsOf first ++ labelsOf second :=
  List.filterMap_append

/-! ### The errors that are reported -/

section Reported

variable [LawfulOperandKind κ]

/-- The errors about arguments are those about each argument, in order. -/
theorem errors_verifyArguments (location : Location) (operands : List κ)
    (slots : List (Option Element)) :
    ((InstructionSet.verifyArguments location operands slots).found 0).errors
      = (operands.zip slots).flatMap fun (operand, argument) =>
        argumentErrors location operand argument := by
  induction operands generalizing slots with
  | nil => rfl
  | cons operand operands ih =>
    cases slots with
    | nil => rfl
    | cons slot slots =>
      have hslot : ((InstructionSet.verifySlot location operand slot).found 0).errors
          = argumentErrors location operand slot := by
        cases slot <;> rfl
      show ((InstructionSet.verifySlot location operand slot >>= fun _ =>
        InstructionSet.verifyArguments location operands slots).found 0).errors = _
      rw [found_bind (InstructionSet.orderly_verifySlot _ _ _)
        (InstructionSet.orderly_verifyArguments _ _ _), Report.errors_append, hslot, ih,
        List.zip_cons_cons, List.flatMap_cons]

theorem errors_verify (set : InstructionSet κ) (instruction : Instruction Element) :
    ((set.verify instruction).found 0).errors = instructionErrors set instruction := by
  dsimp only [InstructionSet.verify, instructionErrors]
  cases set.get? instruction.mnemonic.text with
  | none => rfl
  | some operands =>
    dsimp only
    split
    · exact errors_verifyArguments _ _ _
    · rfl

namespace Resolve

theorem strict_codeSlots (set : InstructionSet κ) (labels : List String) (previous : Location)
    (slots : List (Option Element)) : (codeSlots set labels previous slots).Strict := by
  induction slots generalizing labels previous with
  | nil => exact strict_pure ()
  | cons slot slots ih =>
    match slot with
    | none => exact (strict_error _ _).bind fun _ => ih _ _
    | some element =>
      cases element
      case instruction instruction => exact (set.strict_verify _).bind fun _ => ih _ _
      case label name => exact ((strict_error _ _).onlyIf _).bind fun _ => ih _ _
      all_goals exact (strict_error _ _).bind fun _ => ih _ _

/-- A check with the errors about a slot, and then the rest of the code. -/
theorem errors_codeSlots_cons {check : Check Unit} {front rest : List (Option Element)}
    {slot : Option Element} {labels : List String} {previous : Location} (h : check.Orderly)
    (hslot : (check.found 0).errors = slotErrors set location front slot)
    (hrest : ((codeSlots set labels previous rest).found 0).errors
      = errorsBehind set location (front ++ [slot]) rest) :
    ((check >>= fun _ => codeSlots set labels previous rest).found 0).errors
      = errorsBehind set location front (slot :: rest) := by
  rw [found_bind h (orderly_codeSlots _ _ _ _), Report.errors_append, hslot, hrest,
    errorsBehind_cons]

/-- Behind some slots, the errors about the rest are as they should be, if the labels in hand
are those of the slots, and the place in hand is that of the last element. -/
theorem errors_codeSlots {front : List (Option Element)} {labels : List String}
    (hlabels : ∀ label, label ∈ labels ↔ label ∈ labelsOf front)
    (slots : List (Option Element)) :
    ((codeSlots set labels (placeOfHole location front) slots).found 0).errors
      = errorsBehind set location front slots := by
  induction slots generalizing front labels with
  | nil => rfl
  | cons slot slots ih =>
    -- what defines no label leaves the labels as they are
    have hother : labelOf slot = none →
        ∀ label, label ∈ labels ↔ label ∈ labelsOf (front ++ [slot]) := by
      intro hslot label
      rw [labelsOf_append, hlabels]
      simp [labelsOf, hslot]
    have hrest := @ih (front ++ [slot])
    rw [placeOfHole_concat] at hrest
    match slot with
    | none =>
      exact errors_codeSlots_cons (orderly_error _ _) rfl (hrest (hother rfl))
    | some element =>
      cases element
      case instruction instruction =>
        exact errors_codeSlots_cons (set.orderly_verify _) (errors_verify set instruction)
          (hrest (hother rfl))
      case label name =>
        refine errors_codeSlots_cons ((orderly_error _ _).onlyIf _) ?_ (hrest fun label => ?_)
        · have hseen : labels.contains name.text ↔ name.text ∈ labelsOf front :=
            List.contains_iff_mem.trans (hlabels name.text)
          rw [found_onlyIf, slotErrors]
          by_cases hmem : name.text ∈ labelsOf front
          · rw [if_pos (hseen.mpr hmem), if_pos hmem]
            rfl
          · rw [if_neg (mt hseen.mp hmem), if_neg hmem]
        · rw [labelsOf_append, List.mem_cons, hlabels]
          simp [labelsOf, labelOf, or_comm]
      all_goals exact errors_codeSlots_cons (orderly_error _ _) rfl (hrest (hother rfl))

theorem errors_code (set : InstructionSet κ) (group : Group Element) :
    ((code set group).found 0).errors = codeErrors set group := by
  have hlabels : ∀ label, label ∈ [] ↔ label ∈ labelsOf [] := fun label => .rfl
  rw [codeErrors_eq]
  exact errors_codeSlots hlabels group.slots

/-- At depth 0, the check of code appends its errors and does nothing else. -/
theorem run_code (set : InstructionSet κ) (group : Group Element) (report : Report) :
    (code set group).run ⟨report, 0⟩
      = ((), ⟨⟨report.errors ++ codeErrors set group, report.warnings⟩, 0⟩) := by
  have hstrict : (code set group).Strict := strict_codeSlots _ _ _ _
  rw [hstrict.run_eq, errors_code]

end Resolve

end Reported

/-! ### Repeated labels -/

/-- Whether a problem is a label that is defined again. -/
def Problem.isDuplicateLabel : Problem → Bool
  | duplicateLabel _ => true
  | _ => false

/-- How often errors are about a label that is defined again. -/
def repeatedLabels (errors : List Diagnostic) : Nat :=
  errors.countP fun error => error.problem.isDuplicateLabel

theorem repeatedLabels_append (first second : List Diagnostic) :
    repeatedLabels (first ++ second) = repeatedLabels first + repeatedLabels second :=
  List.countP_append

theorem Problem.not_isDuplicateLabel_of_isOfShape {problem : Problem} (h : problem.isOfShape) :
    ¬ problem.isDuplicateLabel := by
  cases problem
  case duplicateLabel => cases h
  all_goals exact Bool.false_ne_true

/-- Instructions refer to labels and define none, so that nothing is reported about them. -/
theorem repeatedLabels_instructionErrors (set : InstructionSet Operand)
    (instruction : Instruction Element) :
    repeatedLabels (instructionErrors set instruction) = 0 := by
  unfold instructionErrors
  dsimp only
  split
  · rfl
  split
  · refine List.countP_eq_zero.mpr fun error herror => ?_
    obtain ⟨⟨operand, argument⟩, -, hargument⟩ := List.mem_flatMap.mp herror
    refine Problem.not_isDuplicateLabel_of_isOfShape ?_
    cases argument with
    | none =>
      obtain rfl := List.mem_singleton.mp hargument
      rfl
    | some element => exact (operand.reportsShape_verify element).of_mem_found hargument
  · rfl

/-- A slot is reported as a repeated label exactly if it defines a label that is not new. -/
theorem repeatedLabels_slotErrors {set : InstructionSet Operand} (front : List (Option Element))
    (slot : Option Element) :
    repeatedLabels (slotErrors set location front slot) + (labelsOf (front ++ [slot])).toFinset.card
      = (labelsOf front).toFinset.card + (labelsOf [slot]).length := by
  -- what defines no label
  have hother : ∀ errors, labelOf slot = none → repeatedLabels errors = 0 →
      repeatedLabels errors + (labelsOf (front ++ [slot])).toFinset.card
        = (labelsOf front).toFinset.card + (labelsOf [slot]).length := by
    intro errors hslot herrors
    rw [herrors, labelsOf_append]
    simp [labelsOf, hslot]
  match slot with
  | none => exact hother _ rfl rfl
  | some element =>
    cases element
    case instruction instruction =>
      exact hother _ rfl (repeatedLabels_instructionErrors set instruction)
    case label name =>
      have hlabels : labelsOf [some (Element.label name)] = [name.text] := rfl
      have hinsert : (labelsOf front ++ [name.text]).toFinset
          = insert name.text (labelsOf front).toFinset := by
        ext label
        simp [or_comm]
      rw [labelsOf_append, hlabels, slotErrors, hinsert]
      split
      · next hmem =>
        rw [Finset.card_insert_of_mem (List.mem_toFinset.mpr hmem), Nat.add_comm]
        rfl
      · next hmem =>
        rw [Finset.card_insert_of_notMem (mt List.mem_toFinset.mp hmem)]
        exact Nat.zero_add _
    all_goals exact hother _ rfl rfl

/-- Every label behind some slots is new or reported: the reports and the different labels
together are as many as the labels. -/
theorem repeatedLabels_errorsBehind {set : InstructionSet Operand}
    (front slots : List (Option Element)) :
    repeatedLabels (errorsBehind set location front slots)
        + (labelsOf (front ++ slots)).toFinset.card
      = (labelsOf front).toFinset.card + (labelsOf slots).length := by
  induction slots generalizing front with
  | nil => simp [errorsBehind, repeatedLabels, labelsOf]
  | cons slot slots ih =>
    have hslot : repeatedLabels (slotErrors set location front slot)
          + (labelsOf (front ++ [slot])).toFinset.card
        = (labelsOf front).toFinset.card + (labelsOf [slot]).length :=
      repeatedLabels_slotErrors front slot
    have hrest := ih (front ++ [slot])
    have hlength : (labelsOf (slot :: slots)).length
        = (labelsOf [slot]).length + (labelsOf slots).length := by
      rw [← List.singleton_append, labelsOf_append, List.length_append]
    rw [List.append_assoc, List.singleton_append] at hrest
    rw [errorsBehind_cons, repeatedLabels_append, hlength]
    omega

/-- There are as many errors about repeated labels as there are labels too many. -/
theorem repeatedLabels_codeErrors (set : InstructionSet Operand) (group : Group Element) :
    repeatedLabels (codeErrors set group) + (labelsOf group.slots).toFinset.card
      = (labelsOf group.slots).length := by
  have hbehind : repeatedLabels (codeErrors set group) + (labelsOf group.slots).toFinset.card
      = (labelsOf []).toFinset.card + (labelsOf group.slots).length :=
    repeatedLabels_errorsBehind [] group.slots
  rw [hbehind]
  exact Nat.zero_add _

/-! ### Independence -/

/-- What is reported about a slot depends on the labels in front of it and on the place of the
last element there. -/
theorem slotErrors_congr {front other : List (Option Element)}
    (hlabels : labelsOf front = labelsOf other)
    (hplace : placeOfHole location front = placeOfHole location other) (slot : Option Element) :
    slotErrors set location front slot = slotErrors set location other slot := by
  match slot with
  | none => simp [slotErrors, hplace]
  | some element =>
    cases element
    case label name => simp [slotErrors, hlabels]
    all_goals rfl

/-- What stands in front matters through its labels and through its last element only. -/
theorem errorsBehind_congr {front other : List (Option Element)}
    (hlabels : labelsOf front = labelsOf other)
    (hplace : placeOfHole location front = placeOfHole location other)
    (slots : List (Option Element)) :
    errorsBehind set location front slots = errorsBehind set location other slots := by
  induction slots generalizing front other with
  | nil => rfl
  | cons slot slots ih =>
    rw [errorsBehind_cons, errorsBehind_cons, slotErrors_congr hlabels hplace]
    congr 1
    refine ih ?_ ?_
    · rw [labelsOf_append, labelsOf_append, hlabels]
    · rw [placeOfHole_concat, placeOfHole_concat, hplace]

/-- The errors about a block fall into those in front of a slot, those about the slot, and those
behind it. -/
theorem codeErrors_split (front back : List (Option Element)) (slot : Option Element) :
    codeErrors set ⟨front ++ slot :: back, location⟩
      = errorsBehind set location [] front ++ slotErrors set location front slot
        ++ errorsBehind set location (front ++ [slot]) back := by
  rw [codeErrors_eq, errorsBehind_append, errorsBehind_cons, List.nil_append, List.append_assoc]

/-- Around an item that is replaced by another one at the same place and with the same label,
the errors stay as they are. -/
theorem codeErrors_replaced {slot other : Option Element} (hlabel : labelOf slot = labelOf other)
    (hplace : slot.map Element.location = other.map Element.location)
    (front back : List (Option Element)) :
    ∃ before after,
      codeErrors set ⟨front ++ slot :: back, location⟩
          = before ++ slotErrors set location front slot ++ after
        ∧ codeErrors set ⟨front ++ other :: back, location⟩
          = before ++ slotErrors set location front other ++ after := by
  have hlabels : labelsOf (front ++ [slot]) = labelsOf (front ++ [other]) := by
    rw [labelsOf_append, labelsOf_append]
    simp only [labelsOf, List.filterMap_cons, hlabel]
  have hplaces : placeOfHole location (front ++ [slot])
      = placeOfHole location (front ++ [other]) := by
    rw [placeOfHole_concat, placeOfHole_concat, hplace]
  refine ⟨_, _, codeErrors_split front back slot, ?_⟩
  rw [codeErrors_split, errorsBehind_congr hlabels hplaces]

end JvmAssembly
