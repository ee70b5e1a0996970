/-
JvmAssembly/Proofs/CheckedCode.lean

Which code is checked in the run of a program, and what that adds to the errors.

The code that is checked can be read off a program: it is the `code` in the bodies of its
methods, at the top level and in the bodies of its classes (`checkedCode`).  All of it is
checked at depth 0 and once, in the order of the program, and the errors about a block
stand together,

    errors = first ++ (errors about the first block) ++ others ++ (errors about the second) ++ …

where neither `first` nor the `others` depend on the instruction set (`Weaves`).

`ChecksCode blocks` says this of checks that are given an instruction set.  It is a frame
law for depth 0, in which the set may change errors about the blocks and nothing else, so
it composes along sequences as the frame law does.
-/
import JvmAssembly.Proofs.CodeReports
import JvmAssembly.Proofs.SetIndependence

namespace JvmAssembly

open Check

variable {α β : Type}

/-! ### Errors about blocks of code, in order -/

/-- Errors among which those about some blocks of code stand in order.  The other errors are
the same for all instruction sets. -/
def Weaves (blocks : List (Group Element)) (errors : InstructionSet Operand → List Diagnostic) :
    Prop :=
  ∃ (first : List Diagnostic) (rest : List (Group Element × List Diagnostic)),
    rest.map Prod.fst = blocks
      ∧ ∀ set, errors set
        = first ++ rest.flatMap fun (group, others) => codeErrors set group ++ others

theorem weaves_const (errors : List Diagnostic) : Weaves [] fun _ => errors :=
  ⟨errors, [], rfl, fun _ => (List.append_nil errors).symm⟩

theorem weaves_code (group : Group Element) : Weaves [group] fun set => codeErrors set group :=
  ⟨[], [(group, [])], rfl, fun set => by simp⟩

/-- Errors about some blocks in front of errors about others are errors about all of them. -/
theorem Weaves.append {blocks more : List (Group Element)}
    {errors others : InstructionSet Operand → List Diagnostic} (h : Weaves blocks errors)
    (hmore : Weaves more others) : Weaves (blocks ++ more) fun set => errors set ++ others set := by
  obtain ⟨first, rest, rfl, herrors⟩ := h
  obtain ⟨next, last, rfl, hothers⟩ := hmore
  -- what comes first in the second part goes behind the last block of the first part
  obtain rfl | ⟨rest, ⟨group, between⟩, rfl⟩ := List.eq_nil_or_concat rest
  · refine ⟨first ++ next, last, rfl, fun set => ?_⟩
    simp [herrors, hothers]
  · refine ⟨first, rest ++ (group, between ++ next) :: last, by simp, fun set => ?_⟩
    simp [herrors, hothers]

/-! ### Checks of blocks of code, in order -/

/-- Checks that are the same for all instruction sets, except that they check some blocks of code
in order: run at depth 0, they come back to it with the same result and, up to errors about the
blocks, the same report. -/
def ChecksCode (blocks : List (Group Element)) (check : InstructionSet Operand → Check α) : Prop :=
  ∃ (result : α) (found : InstructionSet Operand → Report),
    (Weaves blocks fun set => (found set).errors)
      ∧ ∀ set report, (check set).run ⟨report, 0⟩ = (result, ⟨report ++ found set, 0⟩)

namespace ChecksCode

variable {blocks more : List (Group Element)} {check : InstructionSet Operand → Check α}
  {next : InstructionSet Operand → α → Check β}
  {following : InstructionSet Operand → α → Attempt β}

theorem of_orderly {check : Check α} (h : check.Orderly) : ChecksCode [] fun _ => check :=
  ⟨check.value 0, fun _ => check.found 0, weaves_const _, fun _ report => h.run_eq ⟨report, 0⟩⟩

/-- Steps after each other check the blocks of the first in front of those of the second. -/
theorem bind (h : ChecksCode blocks check) (hnext : ∀ a, ChecksCode more fun set => next set a) :
    ChecksCode (blocks ++ more) fun set => check set >>= next set := by
  obtain ⟨result, found, hweaves, hrun⟩ := h
  obtain ⟨result', found', hweaves', hrun'⟩ := hnext result
  refine ⟨result', fun set => found set ++ found' set, hweaves.append hweaves', ?_⟩
  intro set report
  rw [run_bind, hrun, hrun', Report.append_assoc]

/-- What follows and needs no instruction set adds no code. -/
theorem before {next : α → Check β} (h : ChecksCode blocks check) (hnext : ∀ a, (next a).Orderly) :
    ChecksCode blocks fun set => check set >>= next := by
  have hbind : ChecksCode (blocks ++ []) fun set => check set >>= next :=
    h.bind fun a => of_orderly (hnext a)
  rwa [List.append_nil] at hbind

/-- What is done with the result of a check does not matter for the blocks that are checked. -/
theorem map (h : ChecksCode blocks check) (f : α → β) :
    ChecksCode blocks fun set => check set >>= fun a => pure (f a) :=
  h.before fun a => orderly_pure (f a)

/-- Behind a check that needs no instruction set, only its result counts. -/
theorem after {check : Check α} (h : check.Orderly)
    (hnext : ChecksCode blocks fun set => next set (check.value 0)) :
    ChecksCode blocks fun set => check >>= next set := by
  obtain ⟨result, found, hweaves, hrun⟩ := hnext
  refine ⟨result, fun set => check.found 0 ++ found set, ?_, ?_⟩
  · exact (weaves_const (check.found 0).errors).append hweaves
  · intro set report
    rw [run_bind, h.run_eq]
    show (next set (check.value 0)).run ⟨report ++ check.found 0, 0⟩ = _
    rw [hrun, Report.append_assoc]

/-- An attempt that needs no instruction set, and the code that belongs to its result. -/
theorem after_attempt {attempt : Attempt α} {code : α → List (Group Element)}
    (h : attempt.run.Orderly) (hnext : ∀ a, ChecksCode (code a) fun set => (following set a).run) :
    ChecksCode ((attempt.run.value 0).elim [] code) fun set =>
      (attempt >>= following set).run := by
  simp only [run_bind_attempt]
  refine after h ?_
  cases attempt.run.value 0 with
  | none => exact of_orderly (orderly_pure none)
  | some a => exact hnext a

theorem run_lift_bind (check : Check α) (following : α → Attempt β) :
    (liftM check >>= following : Attempt β).run = check >>= fun a => (following a).run := by
  rw [run_bind_attempt, run_lift_check, bind_assoc]
  rfl

theorem after_lift {check : Check α} (h : check.Orderly)
    (hnext : ∀ a, ChecksCode blocks fun set => (following set a).run) :
    ChecksCode blocks fun set => (liftM check >>= following set).run := by
  simp only [run_lift_bind]
  exact after h (hnext _)

theorem lift_before {following : α → Attempt β} (h : ChecksCode blocks check)
    (hnext : ∀ a, (following a).run.Orderly) :
    ChecksCode blocks fun set => (liftM (check set) >>= following).run := by
  simp only [run_lift_bind]
  exact h.before hnext

end ChecksCode

/-! ### The code of a program -/

/-- The code in the body of a method, if it has some. -/
def Object.code (body : Object Element) : List (Group Element) :=
  ((body.value? "code").bind Element.code?).toList

/-- The code of a method.  A method has a name, a descriptor and a body at least. -/
def Declaration.methodCode (declaration : Declaration Element) : List (Group Element) :=
  if 3 ≤ declaration.slots.length then
    (declaration.last?.bind Element.object?).elim [] Object.code
  else
    []

/-- The code of the method that a slot declares. -/
def slotCode (slot : Option Element) : List (Group Element) :=
  (declaredMethod? slot).elim [] Declaration.methodCode

/-- The body of a class: a declaration without a keyword. -/
def Element.classBody? : Element → Option (Declaration Element)
  | declaration body => if body.keyword.isSome then none else some body
  | _ => none

/-- The code of the methods of a class.  A class has a name and a body at least. -/
def Declaration.classCode (declaration : Declaration Element) : List (Group Element) :=
  if 2 ≤ declaration.slots.length then
    (declaration.last?.bind Element.classBody?).elim [] fun body => body.slots.flatMap slotCode
  else
    []

/-- The code that an element of the top level declares: its own if it is a method, and that of
its methods if it is a class. -/
def Element.declaredCode (element : Element) : List (Group Element) :=
  match element.declared? with
  | some (.classDecl, owner) => owner.classCode
  | _ => slotCode (some element)

/-- The code in a program that is checked, in order. -/
def checkedCode (program : List Element) : List (Group Element) :=
  program.flatMap Element.declaredCode

theorem Declaration.last?_of_reverse {declaration : Declaration Element} {last : Option Element}
    {rest : List (Option Element)} (h : declaration.slots.reverse = last :: rest) :
    declaration.last? = last ∧ declaration.slots.length = rest.length + 1 := by
  have hlength := congrArg List.length h
  rw [List.length_reverse] at hlength
  refine ⟨?_, hlength⟩
  unfold Declaration.last?
  rw [List.getLast?_eq_head?_reverse, h]
  rfl

/-- The code that a declaration of a kind has itself. -/
def kindCode (kind : DeclarationKind) (declaration : Declaration Element) :
    List (Group Element) :=
  if kind = .member .methodDecl then declaration.methodCode else []

theorem slotCode_of_declared {element : Element} {kind : DeclarationKind}
    {declaration : Declaration Element} (h : element.declared? = some (kind, declaration)) :
    slotCode (some element) = kindCode kind declaration := by
  unfold slotCode declaredMethod? kindCode
  rw [Option.bind_some, h, Option.bind_some]
  split <;> rfl

/-- A slot that declares no member has no code that is checked. -/
theorem slotCode_of_none {slot : Option Element} (h : Resolve.memberDeclared? slot = none) :
    slotCode slot = [] := by
  cases slot with
  | none => rfl
  | some element =>
    cases hdeclared : element.declared? with
    | none => simp [slotCode, declaredMethod?, hdeclared]
    | some declared =>
      rw [slotCode_of_declared hdeclared, kindCode, if_neg]
      intro hmethod
      simp [Resolve.memberDeclared?, hdeclared, hmethod, DeclarationKind.isMember] at h

/-- An element that declares nothing at the top level has no code that is checked. -/
theorem declaredCode_of_none {element : Element} (h : Resolve.topDeclares element = none) :
    element.declaredCode = [] := by
  cases hdeclared : element.declared? with
  | none => simp [Element.declaredCode, slotCode, declaredMethod?, hdeclared]
  | some declared =>
    obtain ⟨kind, declaration⟩ := declared
    have htop : kind.isTopLevel = false := by
      simpa [Resolve.topDeclares, hdeclared] using h
    cases kind with
    | enumDecl => simp [Element.declaredCode, hdeclared, slotCode_of_declared hdeclared, kindCode]
    | classDecl | superDecl | interfaceDecl | member => cases htop

namespace Resolve

theorem checksCode_code (group : Group Element) : ChecksCode [group] fun set => code set group := by
  refine ⟨(), fun set => ⟨codeErrors set group, []⟩, weaves_code group, fun set report => ?_⟩
  have happend : report ++ ⟨codeErrors set group, []⟩
      = ⟨report.errors ++ codeErrors set group, report.warnings⟩ := by
    show (⟨_, report.warnings ++ []⟩ : Report) = _
    rw [List.append_nil]
  rw [run_code, happend]

theorem checksCode_codeOf (body : Object Element) :
    ChecksCode body.code fun set => codeOf set body := by
  cases hget : body.get? "code" with
  | none =>
    have hcode : body.code = [] := by simp [Object.code, Object.value?, hget]
    have hnone : ∀ set : InstructionSet Operand, codeOf set body = pure none := by
      intro set
      unfold codeOf
      rw [hget]
    simp only [hcode, hnone]
    exact .of_orderly (orderly_pure none)
  | some pair =>
    have hcode : body.code = (pair.value.bind Element.code?).elim [] fun group => [group] := by
      unfold Object.code Object.value?
      rw [hget, Option.bind_some]
      cases pair.value.bind Element.code? <;> rfl
    simp only [codeOf_eq_run hget]
    rw [hcode, ← Expect.value_viewedSlot "method code" pair.value pair.key.location]
    exact .after_attempt (Expect.orderly_viewedSlot _ _ _) fun group =>
      (checksCode_code group).lift_before fun _ => orderly_pure _

/-! ### Methods, classes and programs -/

theorem checksCode_methodRest (pending : Pending) (location : Location) (body : Object Element)
    (descriptorPart namePart : Option Element) (rest : List (Option Element)) :
    ChecksCode body.code fun set =>
      (methodRest set pending location body descriptorPart namePart rest).run := by
  refine .after_lift (orderly_warnUnknownKeys body) fun _ =>
    .after_lift (orderly_parametersOf body) fun parameters => ?_
  exact (checksCode_codeOf body).lift_before fun code =>
    (orderly_memberParts _ _ _ _ _).bind_attempt fun _ => orderly_pure _

/-- Resolving a method checks its code and no other, also if the method is dropped. -/
theorem checksCode_methodNode (pending : Pending) (declaration : Declaration Element) :
    ChecksCode declaration.methodCode fun set => (methodNode set pending declaration).run := by
  simp only [methodNode_parts]
  refine .after_lift (pending.orderly_warnClassOnly _) fun _ => ?_
  unfold Declaration.methodCode
  match hslots : declaration.slots.reverse with
  | bodyPart :: descriptorPart :: namePart :: rest =>
    obtain ⟨hlast, hlength⟩ := Declaration.last?_of_reverse hslots
    have hthree : 3 ≤ declaration.slots.length := by simp [hlength]
    rw [if_pos hthree, hlast, ← Expect.value_viewedSlot "method body" bodyPart declaration.location]
    exact .after_attempt (Expect.orderly_viewedSlot _ _ _) fun body =>
      .after_lift (Expect.orderly_distinctKeys _ _) fun _ => checksCode_methodRest _ _ _ _ _ _
  | [] | [_] | [_, _] =>
    have hlength := congrArg List.length hslots
    rw [List.length_reverse] at hlength
    have hfew : ¬ 3 ≤ declaration.slots.length := by simp [hlength]
    rw [if_neg hfew]
    exact .of_orderly ((orderly_missing _ _).lift.bind_attempt fun _ => orderly_pure none)

/-- Only methods have code, and each has its own. -/
theorem checksCode_member (pending : Pending) (declaration : Declaration Element)
    (kind : MemberKind) :
    ChecksCode (kindCode (.member kind) declaration) fun set =>
      member set pending declaration kind := by
  -- only methods look at the set, so that for the others any set will do
  have horderly := orderly_member ({} : InstructionSet Operand) pending declaration kind
  cases kind with
  | methodDecl => exact (checksCode_methodNode pending declaration).map _
  | fieldDecl | annotationDecl | signatureDecl => exact .of_orderly horderly

/-- Items in a row have their code checked in a row. -/
theorem checksCode_sequence {ι ν : Type}
    {item : InstructionSet Operand → Pending → ι → Check (Option ν × Pending)}
    {itemCode : ι → List (Group Element)}
    (h : ∀ i pending, ChecksCode (itemCode i) fun set => item set pending i) (items : List ι)
    (pending : Pending) :
    ChecksCode (items.flatMap itemCode) fun set => sequence (item set) pending items := by
  induction items generalizing pending with
  | nil => exact .of_orderly (pending.orderly_warnUnused.map _)
  | cons i items ih => exact (h i pending).bind fun result => (ih result.2).map _

theorem checksCode_bodySlot (slot : Location × Option Element) (pending : Pending) :
    ChecksCode (slotCode slot.2) fun set => bodySlot set pending slot := by
  obtain ⟨previous, part⟩ := slot
  cases hdeclares : bodyDeclares (previous, part) with
  | none =>
    obtain ⟨problem, location, hslot⟩ := bodySlot_of_none hdeclares
    have hcode : slotCode part = [] := slotCode_of_none hdeclares
    simp only [hslot, hcode]
    exact .of_orderly ((orderly_error problem location).map _)
  | some declared =>
    obtain ⟨kind, declaration⟩ := declared
    obtain ⟨rfl, hkind, hmember⟩ := bodyDeclares_eq_some_iff.mp hdeclares
    cases kind with
    | member kind =>
      have hcode := slotCode_of_declared (Element.declared?_eq_some_iff.mpr ⟨rfl, hkind⟩)
      simp only [bodySlot, bodyItem_of_kind hkind, hcode]
      exact checksCode_member pending declaration kind
    | classDecl | superDecl | interfaceDecl | enumDecl => cases hmember

/-- The members of a class are checked in the order of their slots. -/
theorem checksCode_bodySlots (pending : Pending) (location : Location)
    (slots : List (Option Element)) :
    ChecksCode (slots.flatMap slotCode) fun set => bodySlots set pending location slots := by
  simp only [bodySlots_eq]
  have hcode : slots.flatMap slotCode
      = (located location slots).flatMap fun slot => slotCode slot.2 := by
    rw [← List.flatMap_map Prod.snd, located_map_snd]
  rw [hcode]
  exact checksCode_sequence checksCode_bodySlot _ pending

/-- A class body is taken from exactly the slots that hold a declaration without a keyword. -/
theorem value_classBody (slot : Option Element) (location : Location) :
    (classBody slot location).run.value 0 = slot.bind Element.classBody? := by
  match slot with
  | none => rfl
  | some element =>
    cases element
    case declaration body =>
      show (if body.keyword.isSome then _ else _ : Attempt _).run.value 0
        = if body.keyword.isSome then none else some body
      split <;> rfl
    all_goals rfl

/-- Resolving a class checks the code of its methods in order, also if the class is dropped for
its name. -/
theorem checksCode_classNode (pending : Pending) (declaration : Declaration Element) :
    ChecksCode declaration.classCode fun set => (classNode set pending declaration).run := by
  simp only [classNode_parts]
  unfold Declaration.classCode
  match hslots : declaration.slots.reverse with
  | bodyPart :: namePart :: rest =>
    obtain ⟨hlast, hlength⟩ := Declaration.last?_of_reverse hslots
    have htwo : 2 ≤ declaration.slots.length := by simp [hlength]
    rw [if_pos htwo, hlast, ← value_classBody bodyPart declaration.location]
    exact .after_attempt (orderly_classBody _ _) fun body =>
      .after_lift (orderly_nameSlot _ _ _) fun name =>
        .after_lift (orderly_modifiers _ _ _) fun modifiers =>
          (checksCode_bodySlots {} body.location body.slots).lift_before fun _ => orderly_pure _
  | [bodyPart] =>
    obtain ⟨-, hlength⟩ := Declaration.last?_of_reverse hslots
    have hfew : ¬ 2 ≤ declaration.slots.length := by simp [hlength]
    rw [if_neg hfew]
    exact .of_orderly ((orderly_classBody _ _).bind_attempt fun _ =>
      (orderly_missing _ _).lift.bind_attempt fun _ => orderly_pure none)
  | [] =>
    have hfew : ¬ 2 ≤ declaration.slots.length := by simp [List.reverse_eq_nil_iff.mp hslots]
    rw [if_neg hfew]
    exact .of_orderly ((orderly_missing _ _).lift.bind_attempt fun _ => orderly_pure none)

theorem checksCode_topItem (element : Element) (pending : Pending) :
    ChecksCode element.declaredCode fun set => topItem set pending element := by
  cases hdeclares : topDeclares element with
  | none =>
    obtain ⟨problem, hitem⟩ := topItem_of_none hdeclares
    simp only [hitem, declaredCode_of_none hdeclares]
    exact .of_orderly ((orderly_error problem element.location).map _)
  | some declared =>
    obtain ⟨kind, declaration⟩ := declared
    obtain ⟨rfl, hkind, -⟩ := topDeclares_eq_some_iff.mp hdeclares
    have hdeclared := Element.declared?_eq_some_iff.mpr ⟨rfl, hkind⟩
    have horderly := orderly_topLevel ({} : InstructionSet Operand) pending declaration kind
    simp only [topItem_of_kind hkind, Element.declaredCode, hdeclared]
    cases kind with
    | classDecl => exact (checksCode_classNode pending declaration).map _
    | member kind =>
      rw [slotCode_of_declared hdeclared]
      exact (checksCode_member pending declaration kind).map _
    | superDecl | interfaceDecl | enumDecl =>
      rw [slotCode_of_declared hdeclared]
      exact .of_orderly horderly

/-- In the run of a program, its code is checked in order and nothing else depends on the
instruction set. -/
theorem weaves_resolve (program : List Element) :
    Weaves (checkedCode program) fun set => (resolve set program).report.errors := by
  have hchecks : ChecksCode (checkedCode program) fun set => topSequence set {} program := by
    simp only [topSequence_eq]
    exact checksCode_sequence checksCode_topItem program {}
  obtain ⟨nodes, found, hweaves, hrun⟩ := hchecks
  have herrors : ∀ set, (resolve set program).report.errors = (found set).errors := by
    intro set
    have hfound : (topSequence set {} program).found 0 = {} ++ found set :=
      congrArg (fun result => result.2.report) (hrun set {})
    rw [resolve_eq, hfound]
    rfl
  simp only [herrors]
  exact hweaves

end Resolve

/-- **Code is checked item by item, without interference.**  At depth 0, and so in the run of a
program, the check of code appends the errors about its slots in order and does nothing else.
The errors about an instruction are those that its check reports in a session of its own.
There are as many errors about repeated labels as there are labels that are not the first of
their name.  An item that is replaced by another one, at the same place and with the same
label, takes its own errors with it and leaves all others as they are.  In the errors about a
program, the errors about its code stand in the order of the code, and no other error depends
on the instruction set. -/
theorem code_checked_by_items :
    (∀ (set : InstructionSet Operand) (group : Group Element) (report : Report),
        (Resolve.code set group).run ⟨report, 0⟩
          = ((), ⟨⟨report.errors ++ codeErrors set group, report.warnings⟩, 0⟩))
      ∧ (∀ (set : InstructionSet Operand) (instruction : Instruction Element),
        ((set.verify instruction).run {}).2.report.errors = instructionErrors set instruction)
      ∧ (∀ (set : InstructionSet Operand) (group : Group Element),
        repeatedLabels (codeErrors set group) + (labelsOf group.slots).toFinset.card
          = (labelsOf group.slots).length)
      ∧ (∀ (set : InstructionSet Operand) (location : Location) (front back : List (Option Element))
          (slot other : Option Element), labelOf slot = labelOf other →
          slot.map Element.location = other.map Element.location →
          ∃ before after,
            codeErrors set ⟨front ++ slot :: back, location⟩
                = before ++ slotErrors set location front slot ++ after
              ∧ codeErrors set ⟨front ++ other :: back, location⟩
                = before ++ slotErrors set location front other ++ after)
      ∧ ∀ program : List Element,
        Weaves (checkedCode program) fun set => (resolve set program).report.errors := by
  refine ⟨Resolve.run_code, errors_verify, repeatedLabels_codeErrors, ?_, Resolve.weaves_resolve⟩
  intro set location front back slot other hlabel hplace
  exact codeErrors_replaced hlabel hplace front back

/-- Code in which everything is wrong but for one label and, if there is such an instruction, the
instruction with the given mnemonic: a hole in front, a hole behind the instruction, the label
once more, and a number. -/
def faultyCode (mnemonic : String) : Group Element :=
  let token (kind : TokenKind) (text : String) (line : Nat) : Token :=
    ⟨kind, Content.ofString text, ⟨line, 1, "t"⟩⟩
  ⟨[none, some (.label (token .identifier "a" 2)),
      some (.instruction ⟨token .identifier mnemonic 3, []⟩), none,
      some (.label (token .identifier "a" 4)), some (.number (token .number "5" 5))],
    ⟨1, 1, "t"⟩⟩

/-- One error more if the instruction does not exist, and the other four as before. -/
theorem faultyCode_reports :
    ((Resolve.code nopSet (faultyCode "frob")).run {}).2.report.errors.length = 5
      ∧ repeatedLabels (codeErrors nopSet (faultyCode "frob")) = 1
      ∧ ∃ before after,
        codeErrors nopSet (faultyCode "frob")
            = before ++ [⟨.unknownInstruction "frob", ⟨3, 1, "t"⟩⟩] ++ after
          ∧ codeErrors nopSet (faultyCode "nop") = before ++ [] ++ after := by
  obtain ⟨hrun, -, hcount, hreplaced, -⟩ := code_checked_by_items
  refine ⟨?_, ?_, ?_⟩
  · rw [hrun]
    decide
  · have hlabels := hcount nopSet (faultyCode "frob")
    have hdistinct : (labelsOf (faultyCode "frob").slots).toFinset.card = 1 := by decide
    have hall : (labelsOf (faultyCode "frob").slots).length = 2 := by decide
    omega
  · exact hreplaced nopSet ⟨1, 1, "t"⟩ ((faultyCode "frob").slots.take 2)
      ((faultyCode "frob").slots.drop 3) _ _ rfl rfl

end JvmAssembly
