/-
JvmAssembly/Proofs/ResolveFrame.lean

The frame law for resolving, up to whole programs.

Attributes of declarations are checked in silence or with errors: annotations,
signatures, super names and interfaces never cause a warning by themselves, so their
checks are strict.  Annotations and their values call each other; that they are
strict is one induction along these calls (`strict_annotationValue`).

The frame law for members, classes and programs follows function by function.  On the
way fields, methods and classes are cut into named parts (`fieldNode_parts`,
`methodNode_parts`, `classNode_parts`), which later proofs start from.  In the end,
what `resolve` gives is the value and the report of one check at depth 0
(`resolve_eq`).
-/
import JvmAssembly.Resolve.Program
import JvmAssembly.Proofs.OperandFrame

namespace JvmAssembly

variable {α β : Type}

namespace Resolve

open Check

/-! ### Keywords and arguments -/

theorem strict_kindOf (declaration : Declaration Element) : (kindOf declaration).run.Strict := by
  unfold kindOf
  split
  · exact (strict_error _ _).lift.bind_attempt fun _ => strict_pure none
  split
  · exact strict_pure _
  · exact (strict_error _ _).lift.bind_attempt fun _ => strict_pure none

theorem strict_identifierArgument (declaration : Declaration Element) (index : Nat)
    (expected : String) : (identifierArgument declaration index expected).run.Strict := by
  refine (Expect.strict_present _ _ _).bind_attempt fun element => ?_
  rw [Expect.identifier_eq]
  exact Expect.strict_viewed _ _ _

theorem strict_noMore (declaration : Declaration Element) (count : Nat) :
    (noMore declaration count).Strict := by
  refine Strict.forM fun slot => ?_
  cases slot with
  | none => exact strict_pure ()
  | some element => exact strict_error _ _

theorem strict_singleIdentifier (declaration : Declaration Element) (expected : String) :
    (singleIdentifier declaration expected).run.Strict := by
  refine (strict_identifierArgument _ _ _).optional.bind_attempt fun token =>
    (strict_noMore _ _).lift.bind_attempt fun _ => ?_
  cases token <;> exact strict_pure _

/-! ### Annotations -/

theorem strict_identifierValue (token : Token) : (identifierValue token).run.Strict := by
  unfold identifierValue
  split
  · exact strict_pure _
  split
  · exact strict_pure _
  · exact Expect.strict_refuse _ _

theorem strict_enumNode (declaration : Declaration Element) :
    (enumNode declaration).run.Strict := by
  refine (strict_identifierArgument _ _ _).optional.bind_attempt fun type =>
    (strict_identifierArgument _ _ _).optional.bind_attempt fun name =>
      (strict_noMore _ _).lift.bind_attempt fun _ => ?_
  cases type with
  | none => exact strict_pure _
  | some type => cases name <;> exact strict_pure _

theorem strict_valuesArgument (declaration : Declaration Element) :
    (valuesArgument declaration).run.Strict := by
  refine (Expect.strict_present _ _ _).bind_attempt fun element => ?_
  rw [Expect.object_eq]
  exact Expect.strict_viewed _ _ _

theorem strict_level {location : Location} {body : Check (Option α)} (h : body.Strict) :
    (level location body).Strict :=
  (h.nested _ _).map _

theorem entryValue_some (key : Token) (element : Element) :
    entryValue ⟨key, some element⟩
      = if key.kind = .identifier then
          annotationValue element
        else do
          Check.error (.unexpectedElement "annotation value key" key.kind.literalKind) key.location
          return none := rfl

theorem entryValue_none (key : Token) :
    entryValue ⟨key, none⟩
      = if key.kind = .identifier then do
          Check.missing "annotation value" key.location
          return none
        else do
          Check.error (.unexpectedElement "annotation value key" key.kind.literalKind) key.location
          return none := rfl

mutual

-- one theorem for each function, along the same recursion

/-- Values and annotations call each other, and each level of them only reports errors and gives
its depth back. -/
theorem strict_annotationValue (element : Element) : (annotationValue element).Strict := by
  unfold annotationValue
  refine strict_level ?_
  match element with
  | .number token => exact strict_pure _
  | .string token => exact strict_pure _
  | .identifier token => exact strict_identifierValue token
  | .empty location => exact strict_pure _
  | .array ⟨slots, location⟩ => exact (strict_valueSlots location slots).map _
  | .declaration declaration => exact strict_declaredValue declaration
  | .object _ | .label _ | .bool _ _ | .code _ | .instruction _ | .classNode _ | .fieldNode _
  | .methodNode _ | .annotationNode _ | .enumNode _ => exact Expect.strict_refuse _ _
termination_by structural element

theorem strict_declaredValue (declaration : Declaration Element) :
    (declaredValue declaration).Strict := by
  unfold declaredValue
  match declaration with
  | ⟨some keyword, slots, location⟩ =>
    refine (strict_kindOf _).bind fun kind => ?_
    match kind with
    | none => exact strict_pure none
    | some (.member .annotationDecl) =>
      exact (strict_annotationSlots (some keyword) location slots).map _
    | some .enumDecl => exact (strict_enumNode _).map _
    | some .classDecl | some .superDecl | some .interfaceDecl | some (.member .fieldDecl)
    | some (.member .methodDecl) | some (.member .signatureDecl) =>
      exact (strict_error _ _).map _
  | ⟨none, [some element], location⟩ => exact (strict_annotationValue element).map _
  | ⟨none, [none], location⟩ => exact (strict_error _ _).map _
  | ⟨none, [], location⟩ => exact Expect.strict_refuse _ _
  | ⟨none, some _ :: _ :: _, location⟩ => exact Expect.strict_refuse _ _
  | ⟨none, none :: _ :: _, location⟩ => exact Expect.strict_refuse _ _
termination_by structural declaration

theorem strict_valueSlots (location : Location) (slots : List (Option Element)) :
    (valueSlots location slots).Strict := by
  match slots with
  | [] => exact strict_pure []
  | none :: rest => exact (strict_error _ _).bind fun _ => strict_valueSlots location rest
  | some element :: rest =>
    exact (strict_annotationValue element).bind fun _ => (strict_valueSlots location rest).map _
termination_by structural slots

theorem strict_annotationSlots (keyword : Option Token) (location : Location)
    (slots : List (Option Element)) : (annotationSlots keyword location slots).Strict := by
  unfold annotationSlots
  refine (strict_identifierArgument _ _ _).bind fun type =>
    (strict_valuesArgument _).bind fun object => (strict_noMore _ _).bind fun _ => ?_
  match object with
  | none => exact strict_pure none
  | some object =>
    refine (Expect.strict_distinctKeys _ _).bind fun _ => Strict.map ?_ _
    match slots with
    | _ :: some (.object ⟨pairs, _⟩) :: _ => exact strict_entryValues [] pairs
    | [] | [_] | _ :: none :: _ => exact strict_pure []
    | _ :: some (.declaration _) :: _ | _ :: some (.identifier _) :: _
    | _ :: some (.number _) :: _ | _ :: some (.string _) :: _ | _ :: some (.array _) :: _
    | _ :: some (.label _) :: _ | _ :: some (.bool _ _) :: _ | _ :: some (.empty _) :: _
    | _ :: some (.code _) :: _ | _ :: some (.instruction _) :: _
    | _ :: some (.classNode _) :: _ | _ :: some (.fieldNode _) :: _
    | _ :: some (.methodNode _) :: _ | _ :: some (.annotationNode _) :: _
    | _ :: some (.enumNode _) :: _ => exact strict_pure []
termination_by structural slots

theorem strict_entryValues (seen : List String) (pairs : List (Entry Element)) :
    (entryValues seen pairs).Strict := by
  match pairs with
  | [] => exact strict_pure []
  | entry :: rest =>
    unfold entryValues
    split
    · exact strict_entryValues seen rest
    · exact (strict_entryValue entry).bind fun _ => (strict_entryValues _ rest).map _
termination_by structural pairs

theorem strict_entryValue (entry : Entry Element) : (entryValue entry).Strict := by
  match entry with
  | ⟨key, some element⟩ =>
    rw [entryValue_some]
    split
    · exact strict_annotationValue element
    · exact (strict_error _ _).map _
  | ⟨key, none⟩ =>
    rw [entryValue_none]
    split <;> exact (strict_error _ _).map _
termination_by structural entry

end

/-- An annotation of its own is resolved like one inside a value. -/
theorem strict_annotationNode (declaration : Declaration Element) :
    (annotationNode declaration).Strict :=
  strict_annotationSlots _ _ _

end Resolve

/-! ### Pending attributes -/

namespace Pending

open Check

theorem orderly_warnClassOnly (pending : Pending) (target : String) :
    (pending.warnClassOnly target).Orderly :=
  (Orderly.forM_option fun _ => orderly_warn _ _).bind fun _ =>
    Orderly.forM fun _ => orderly_warn _ _

theorem orderly_warnUnused (pending : Pending) : pending.warnUnused.Orderly :=
  (Orderly.forM_option fun _ => orderly_warn _ _).bind fun _ =>
    (Orderly.forM_option fun _ => orderly_warn _ _).bind fun _ =>
      (Orderly.forM fun _ => orderly_warn _ _).bind fun _ => Orderly.forM fun _ => orderly_warn _ _

theorem orderly_addSignature (pending : Pending) (token : Token) :
    (pending.addSignature token).Orderly := by
  unfold addSignature
  split
  · exact (orderly_error _ _).map _
  · exact orderly_pure _

theorem orderly_addSuperName (pending : Pending) (token : Token) :
    (pending.addSuperName token).Orderly := by
  unfold addSuperName
  split
  · exact (orderly_error _ _).map _
  · exact orderly_pure _

end Pending

namespace Resolve

open Check

variable {κ : Type} [OperandKind κ] [LawfulOperandKind κ]

/-! ### Members -/

theorem orderly_modifiersAfter (target : ModifierTarget) (location : Location) (found : Modifiers)
    (slots : List (Option Element)) : (modifiersAfter target location found slots).Orderly := by
  induction slots generalizing found with
  | nil => exact orderly_pure found
  | cons slot slots ih =>
    refine (orderly_identifierSlot _ _ _).bind fun result => ?_
    cases result with
    | none => exact ih found
    | some token =>
      dsimp only
      split
      · exact (orderly_error _ _).bind fun _ => ih found
      · exact ((orderly_warn _ _).onlyIf _).bind fun _ => ih _

/-- Modifiers may warn, so that they are orderly and not strict. -/
theorem orderly_modifiers (target : ModifierTarget) (location : Location)
    (slots : List (Option Element)) : (modifiers target location slots).Orderly :=
  orderly_modifiersAfter target location {} slots

/-- A name is expected like any other view of an element. -/
theorem nameSlot_eq (expected : String) (slot : Option Element) (location : Location) :
    nameSlot expected slot location = Expect.viewedSlot Element.name? expected slot location := by
  unfold nameSlot Expect.viewedSlot
  exact congrArg _ (funext fun element => Expect.name_eq expected element)

theorem orderly_nameSlot (expected : String) (slot : Option Element) (location : Location) :
    (nameSlot expected slot location).run.Orderly := by
  rw [nameSlot_eq]
  exact Expect.orderly_viewedSlot _ _ _

/-- The parts that fields and methods have in common: the modifiers, the name and the
descriptor, of which the last two come first. -/
def memberParts (target : ModifierTarget) (location : Location) (descriptorPart : Option Element)
    (namePart : Option Element) (rest : List (Option Element)) :
    Attempt (Modifiers × Token × Token) := do
  let descriptor ← Attempt.optional
    (Check.identifierSlot (target.name ++ " descriptor") descriptorPart location)
  let name ← Attempt.optional (nameSlot (target.name ++ " name") namePart location)
  let modifiers ← modifiers target location rest
  OptionT.mk (pure (name.bind fun name => descriptor.map fun descriptor =>
    (modifiers, name, descriptor)))

theorem orderly_memberParts (target : ModifierTarget) (location : Location)
    (descriptorPart namePart : Option Element) (rest : List (Option Element)) :
    (memberParts target location descriptorPart namePart rest).run.Orderly :=
  (orderly_identifierSlot _ _ _).optional.bind_attempt fun _ =>
    (orderly_nameSlot _ _ _).optional.bind_attempt fun _ =>
      (orderly_modifiers _ _ _).lift.bind_attempt fun _ => orderly_pure _

/-! ### Fields -/

/-- The frame law for what follows the keys of a field value. -/
theorem orderly_fieldEntry (object : Object Element) (complete : Bool) :
    (if complete then
        match object.get? "value" with
        | none => failure
        | some entry => do
          match ← Expect.present "field value" entry.value entry.key.location with
          | .number token => return .number token
          | .string token => return .string token
          | element => Expect.refuse "field value" element
      else
        failure : Attempt FieldValue).run.Orderly := by
  split
  · split
    · exact orderly_pure none
    · refine (Expect.orderly_present _ _ _).bind_attempt fun element => ?_
      split
      · exact orderly_pure _
      · exact orderly_pure _
      · exact Expect.orderly_refuse _ _
  · exact orderly_pure none

theorem orderly_fieldValue (object : Object Element) : (fieldValue object).run.Orderly :=
  (Expect.orderly_distinctKeys _ _).lift.bind_attempt fun _ =>
    (Expect.orderly_keys _ _ _).lift.bind_attempt (orderly_fieldEntry object)

theorem orderly_splitFieldValue (slots : List (Option Element)) :
    (splitFieldValue slots).run.Orderly := by
  unfold splitFieldValue
  split
  · exact (orderly_fieldValue _).bind_attempt fun _ => orderly_pure _
  · exact orderly_pure _
  · exact orderly_pure _
  · exact orderly_pure _

/-- The rest of a field, behind its value and in reverse order. -/
def fieldRest (pending : Pending) (location : Location) (value : Option FieldValue) :
    List (Option Element) → Attempt FieldNode
  | descriptorPart :: namePart :: rest => do
    let (modifiers, name, descriptor) ←
      memberParts .onField location descriptorPart namePart rest.reverse
    return {
      modifiers, name, descriptor, value, location
      signature := pending.signature
      annotations := pending.annotations }
  | _ => do
    Check.missing "field name and descriptor" location
    failure

theorem orderly_fieldRest (pending : Pending) (location : Location) (value : Option FieldValue)
    (slots : List (Option Element)) : (fieldRest pending location value slots).run.Orderly := by
  match slots with
  | _ :: _ :: _ => exact (orderly_memberParts _ _ _ _ _).bind_attempt fun _ => orderly_pure _
  | [] | [_] => exact (orderly_missing _ _).lift.bind_attempt fun _ => orderly_pure none

/-- A field is resolved in three steps: warnings about its attributes, its value, and the rest,
from behind. -/
theorem fieldNode_parts (pending : Pending) (declaration : Declaration Element) :
    fieldNode pending declaration = (do
      pending.warnClassOnly "field"
      let (value, slots) ← splitFieldValue declaration.slots.reverse
      fieldRest pending declaration.location value slots) := by
  have hdescriptor : ModifierTarget.onField.name ++ " descriptor" = "field descriptor" := rfl
  have hname : ModifierTarget.onField.name ++ " name" = "field name" := rfl
  unfold fieldNode fieldRest memberParts
  rw [hdescriptor, hname]
  refine bind_congr fun _ => bind_congr fun (value, slots) => ?_
  match slots with
  | descriptorPart :: namePart :: rest =>
    simp only [bind_assoc]
    refine bind_congr fun descriptor => bind_congr fun name => bind_congr fun modifiers => ?_
    cases name with
    | none => rfl
    | some name => cases descriptor <;> rfl
  | [] | [_] => rfl

theorem orderly_fieldNode (pending : Pending) (declaration : Declaration Element) :
    (fieldNode pending declaration).run.Orderly := by
  rw [fieldNode_parts]
  exact (pending.orderly_warnClassOnly _).lift.bind_attempt fun _ =>
    (orderly_splitFieldValue _).bind_attempt fun _ => orderly_fieldRest _ _ _ _

/-! ### Methods -/

theorem orderly_codeSlots (set : InstructionSet κ) (labels : List String) (previous : Location)
    (slots : List (Option Element)) : (codeSlots set labels previous slots).Orderly := by
  induction slots generalizing labels previous with
  | nil => exact orderly_pure ()
  | cons slot slots ih =>
    match slot with
    | none => exact (orderly_missing _ _).bind fun _ => ih _ _
    | some element =>
      cases element
      case instruction instruction => exact (set.orderly_verify _).bind fun _ => ih _ _
      case label name => exact ((orderly_error _ _).onlyIf _).bind fun _ => ih _ _
      all_goals exact (orderly_unexpected _ _).bind fun _ => ih _ _

theorem orderly_warnUnknownKeys (body : Object Element) : (warnUnknownKeys body).Orderly :=
  Orderly.forM fun _ => (orderly_warn _ _).onlyIf _

theorem orderly_parametersOf (body : Object Element) : (parametersOf body).Orderly := by
  unfold parametersOf
  split
  · exact orderly_pure []
  · refine Orderly.map ?_ _
    exact (Expect.orderly_present _ _ _).bind_attempt fun _ => Expect.orderly_identifiers _ _

theorem orderly_codeOf (set : InstructionSet κ) (body : Object Element) :
    (codeOf set body).Orderly := by
  unfold codeOf
  split
  · exact orderly_pure none
  · refine Orderly.bind ?_ fun group => ?_
    · refine (Expect.orderly_present _ _ _).bind_attempt fun element => ?_
      rw [Expect.code_eq]
      exact Expect.orderly_viewed _ _
    · exact (Orderly.forM_option fun _ => orderly_codeSlots _ _ _ _).map _

/-- The rest of a method whose body is an object, in reverse order. -/
def methodRest (set : InstructionSet κ) (pending : Pending) (location : Location)
    (body : Object Element) (descriptorPart namePart : Option Element)
    (rest : List (Option Element)) : Attempt (MethodNode Element) := do
  warnUnknownKeys body
  let parameters ← parametersOf body
  let code ← OptionT.lift (codeOf set body)
  let (modifiers, name, descriptor) ←
    memberParts .onMethod location descriptorPart namePart rest.reverse
  return {
    modifiers, name, descriptor, parameters, code, location
    signature := pending.signature
    annotations := pending.annotations }

theorem orderly_methodRest (set : InstructionSet κ) (pending : Pending) (location : Location)
    (body : Object Element) (descriptorPart namePart : Option Element)
    (rest : List (Option Element)) :
    (methodRest set pending location body descriptorPart namePart rest).run.Orderly :=
  (orderly_warnUnknownKeys body).lift.bind_attempt fun _ =>
    (orderly_parametersOf body).lift.bind_attempt fun _ =>
      (orderly_codeOf set body).lift.bind_attempt fun _ =>
        (orderly_memberParts _ _ _ _ _).bind_attempt fun _ => orderly_pure _

omit [LawfulOperandKind κ] in
/-- A method is resolved in three steps: warnings about its attributes, its body, and the rest,
from behind. -/
theorem methodNode_parts (set : InstructionSet κ) (pending : Pending)
    (declaration : Declaration Element) :
    methodNode set pending declaration = (do
      pending.warnClassOnly "method"
      match declaration.slots.reverse with
      | bodyPart :: descriptorPart :: namePart :: rest =>
        let body ← Expect.viewedSlot Element.object? "method body" bodyPart declaration.location
        Expect.distinctKeys "method body" body
        methodRest set pending declaration.location body descriptorPart namePart rest
      | _ =>
        Check.missing "method name, descriptor and body" declaration.location
        failure) := by
  have hdescriptor : ModifierTarget.onMethod.name ++ " descriptor" = "method descriptor" := rfl
  have hname : ModifierTarget.onMethod.name ++ " name" = "method name" := rfl
  unfold methodNode methodRest memberParts Expect.viewedSlot
  rw [hdescriptor, hname]
  refine bind_congr fun _ => ?_
  match declaration.slots.reverse with
  | bodyPart :: descriptorPart :: namePart :: rest =>
    simp only [bind_assoc, Expect.object_eq]
    refine bind_congr fun element => bind_congr fun body => bind_congr fun _ =>
      bind_congr fun _ => bind_congr fun parameters => bind_congr fun code =>
        bind_congr fun descriptor => bind_congr fun name => bind_congr fun modifiers => ?_
    cases name with
    | none => rfl
    | some name => cases descriptor <;> rfl
  | [] | [_] | [_, _] => rfl

theorem orderly_methodNode (set : InstructionSet κ) (pending : Pending)
    (declaration : Declaration Element) : (methodNode set pending declaration).run.Orderly := by
  rw [methodNode_parts]
  refine (pending.orderly_warnClassOnly _).lift.bind_attempt fun _ => ?_
  match declaration.slots.reverse with
  | _ :: _ :: _ :: _ =>
    exact (Expect.orderly_viewedSlot _ _ _).bind_attempt fun _ =>
      (Expect.orderly_distinctKeys _ _).lift.bind_attempt fun _ => orderly_methodRest _ _ _ _ _ _ _
  | [] | [_] | [_, _] => exact (orderly_missing _ _).lift.bind_attempt fun _ => orderly_pure none

/-! ### Members and their attributes -/

theorem orderly_member (set : InstructionSet κ) (pending : Pending)
    (declaration : Declaration Element) (kind : MemberKind) :
    (member set pending declaration kind).Orderly := by
  cases kind with
  | fieldDecl => exact (orderly_fieldNode _ _).map _
  | methodDecl => exact (orderly_methodNode _ _ _).map _
  | annotationDecl =>
    refine (strict_annotationNode _).orderly.bind fun node => ?_
    cases node <;> exact orderly_pure _
  | signatureDecl =>
    refine (strict_singleIdentifier _ _).orderly.bind fun token => ?_
    cases token with
    | none => exact orderly_pure _
    | some token => exact (pending.orderly_addSignature token).map _

/-! ### Classes and programs -/

theorem orderly_bodyItem (set : InstructionSet κ) (pending : Pending) (element : Element) :
    (bodyItem set pending element).Orderly := by
  unfold bodyItem
  rw [Expect.declaration_eq]
  refine (Expect.orderly_viewed _ _).bind fun declaration => ?_
  match declaration with
  | none => exact orderly_pure _
  | some declaration =>
    refine (strict_kindOf declaration).orderly.bind fun kind => ?_
    match kind with
    | none => exact orderly_pure _
    | some (.member kind) => exact orderly_member set pending declaration kind
    | some .classDecl | some .superDecl | some .interfaceDecl | some .enumDecl =>
      exact (orderly_error _ _).map _

theorem orderly_bodySlots (set : InstructionSet κ) (pending : Pending) (previous : Location)
    (slots : List (Option Element)) : (bodySlots set pending previous slots).Orderly := by
  induction slots generalizing pending previous with
  | nil => exact pending.orderly_warnUnused.map _
  | cons slot slots ih =>
    cases slot with
    | none => exact (orderly_missing _ _).bind fun _ => ih pending previous
    | some element => exact (orderly_bodyItem _ _ _).bind fun _ => (ih _ _).map _

theorem orderly_classBody (slot : Option Element) (location : Location) :
    (classBody slot location).run.Orderly := by
  refine (Expect.orderly_present _ _ _).bind_attempt fun element => ?_
  rw [Expect.declaration_eq]
  refine (Expect.orderly_viewed _ _).bind_attempt fun body => ?_
  split
  · exact (orderly_error _ _).lift.bind_attempt fun _ => orderly_pure none
  · exact orderly_pure _

/-- The rest of a class, in front of its body and in reverse order. -/
def classRest (set : InstructionSet κ) (pending : Pending) (location : Location)
    (body : Declaration Element) (namePart : Option Element) (rest : List (Option Element)) :
    Attempt (ClassNode Element) := do
  let name ← Attempt.optional (nameSlot "class name" namePart location)
  let modifiers ← modifiers .onClass location rest.reverse
  let members ← bodySlots set {} body.location body.slots
  OptionT.mk (pure (name.map fun name => {
    modifiers, name, location
    signature := pending.signature
    superName := pending.superName
    interfaces := pending.interfaces
    annotations := pending.annotations
    fields := fieldsOf members
    methods := methodsOf members }))

theorem orderly_classRest (set : InstructionSet κ) (pending : Pending) (location : Location)
    (body : Declaration Element) (namePart : Option Element) (rest : List (Option Element)) :
    (classRest set pending location body namePart rest).run.Orderly :=
  (orderly_nameSlot _ _ _).optional.bind_attempt fun _ =>
    (orderly_modifiers _ _ _).lift.bind_attempt fun _ =>
      (orderly_bodySlots _ _ _ _).lift.bind_attempt fun _ => orderly_pure _

omit [LawfulOperandKind κ] in
/-- A class is resolved in two steps: its body, and the rest, from behind. -/
theorem classNode_parts (set : InstructionSet κ) (pending : Pending)
    (declaration : Declaration Element) :
    classNode set pending declaration = (do
      match declaration.slots.reverse with
      | [] =>
        Check.missing "class name and body" declaration.location
        failure
      | [bodyPart] =>
        let _ ← classBody bodyPart declaration.location
        Check.missing "class name" declaration.location
        failure
      | bodyPart :: namePart :: rest =>
        let body ← classBody bodyPart declaration.location
        classRest set pending declaration.location body namePart rest) := by
  unfold classNode classRest
  match declaration.slots.reverse with
  | [] => rfl
  | [_] => rfl
  | bodyPart :: namePart :: rest =>
    refine bind_congr fun body => bind_congr fun name => bind_congr fun modifiers =>
      bind_congr fun members => ?_
    cases name <;> rfl

theorem orderly_classNode (set : InstructionSet κ) (pending : Pending)
    (declaration : Declaration Element) : (classNode set pending declaration).run.Orderly := by
  rw [classNode_parts]
  match declaration.slots.reverse with
  | [] => exact (orderly_missing _ _).lift.bind_attempt fun _ => orderly_pure none
  | [_] =>
    exact (orderly_classBody _ _).bind_attempt fun _ =>
      (orderly_missing _ _).lift.bind_attempt fun _ => orderly_pure none
  | _ :: _ :: _ =>
    exact (orderly_classBody _ _).bind_attempt fun _ => orderly_classRest _ _ _ _ _ _

theorem orderly_topLevel (set : InstructionSet κ) (pending : Pending)
    (declaration : Declaration Element) (kind : DeclarationKind) :
    (topLevel set pending declaration kind).Orderly := by
  cases kind with
  | classDecl => exact (orderly_classNode _ _ _).map _
  | superDecl =>
    refine (strict_singleIdentifier _ _).orderly.bind fun token => ?_
    cases token with
    | none => exact orderly_pure _
    | some token => exact (pending.orderly_addSuperName token).map _
  | interfaceDecl =>
    refine (strict_singleIdentifier _ _).orderly.bind fun token => ?_
    cases token <;> exact orderly_pure _
  | enumDecl => exact (orderly_error _ _).map _
  | member kind => exact (orderly_member _ _ _ _).map _

theorem orderly_topItem (set : InstructionSet κ) (pending : Pending) (element : Element) :
    (topItem set pending element).Orderly := by
  unfold topItem
  rw [Expect.declaration_eq]
  refine (Expect.orderly_viewed _ _).bind fun declaration => ?_
  cases declaration with
  | none => exact orderly_pure _
  | some declaration =>
    refine (strict_kindOf declaration).orderly.bind fun kind => ?_
    cases kind with
    | none => exact orderly_pure _
    | some kind => exact orderly_topLevel set pending declaration kind

theorem orderly_topSequence (set : InstructionSet κ) (pending : Pending) (program : List Element) :
    (topSequence set pending program).Orderly := by
  induction program generalizing pending with
  | nil => exact pending.orderly_warnUnused.map _
  | cons element program ih => exact (orderly_topItem _ _ _).bind fun _ => (ih _).map _

end Resolve

/-- A program is resolved by one check, run at depth 0 with nothing reported before. -/
theorem resolve_eq {κ : Type} [OperandKind κ] (set : InstructionSet κ) (program : List Element) :
    resolve set program
      = ⟨(Resolve.topSequence set {} program).value 0,
          (Resolve.topSequence set {} program).found 0⟩ := rfl

end JvmAssembly
