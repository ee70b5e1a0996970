/-
JvmAssembly/Proofs/NothingDropped.lean

Nothing is dropped without an error.

The resolvers of declarations have some thirty ways to end without a result, and on each
of them an error was reported before (`reportsUnless_fieldNode`, `reportsUnless_classNode`
and their like).  An item of a sequence that does not yield a node can also add an
attribute to those that are pending, and then it adds exactly one (`Yields`).  So an item
that yields neither has an error (`reportsUnless_topItem`, `reportsUnless_bodySlot`).

From this follows, by the laws of sequences, that classes, fields and methods without a
node can be counted against the errors (`length_ownersOf_le`): what is pending is taken by
an owner also if it has no node, so that an owner never adds an attribute instead.
-/
import JvmAssembly.Proofs.AnnotationAccounts
import JvmAssembly.Proofs.ObjectKeys
import JvmAssembly.Proofs.ProgramAcceptance

namespace JvmAssembly

/-- Exactly one attribute more than before. -/
inductive Pending.GainsOne (pending : Pending) : Pending → Prop
  | signature (token : Token) (first : pending.signature = none) :
      GainsOne pending { pending with signature := some token }
  | superName (token : Token) (first : pending.superName = none) :
      GainsOne pending { pending with superName := some token }
  | interface (token : Token) :
      GainsOne pending { pending with interfaces := pending.interfaces ++ [token] }
  | annotated (node : AnnotationNode AnnotationValue) :
      GainsOne pending { pending with annotations := pending.annotations ++ [node] }

/-- What an item of a sequence yields: a node, which takes what is pending, or one attribute
more. -/
inductive Yields {ν : Type} (pending : Pending) : Option ν × Pending → Prop
  | node (node : ν) : Yields pending (some node, {})
  | attribute {after : Pending} : pending.GainsOne after → Yields pending (none, after)

namespace Resolve

open Check Attempt

variable {κ : Type} [OperandKind κ]

/-! ### Keywords and identifiers -/

/-- A declaration without a known keyword has been reported. -/
theorem reportsUnless_kindOf (declaration : Declaration Element) :
    (kindOf declaration).ReportsUnless fun _ => True := by
  unfold kindOf
  split
  · exact reportsUnless_stop _ _
  split
  · exact Attempt.reportsUnless_pure trivial
  · exact reportsUnless_stop _ _

theorem reportsUnless_singleIdentifier (declaration : Declaration Element) (expected : String) :
    (singleIdentifier declaration expected).ReportsUnless fun _ => True := by
  refine (reportsUnless_identifierArgument declaration 0 expected).optional.bind ?_
  rintro _ ⟨token, rfl, -⟩
  exact reportsUnless_lift_bind fun _ => Attempt.reportsUnless_pure trivial

/-! ### Members and classes -/

theorem reportsUnless_fieldValue (object : Object Element) :
    (fieldValue object).ReportsUnless fun _ => True := by
  refine (orderly_fieldValue object).reportsUnless fun depth hbad hsilent => ?_
  obtain ⟨value, -, hvalue⟩ := (silent_fieldValue object).mp hsilent
  exact hbad ⟨value, hvalue, trivial⟩

theorem reportsUnless_splitFieldValue (slots : List (Option Element)) :
    (splitFieldValue slots).ReportsUnless fun _ => True := by
  unfold splitFieldValue
  split
  · next object _ =>
    exact (reportsUnless_fieldValue object).bind fun _ _ => Attempt.reportsUnless_pure trivial
  all_goals exact Attempt.reportsUnless_pure trivial

theorem reportsUnless_memberParts (target : ModifierTarget) (location : Location)
    (descriptorPart namePart : Option Element) (rest : List (Option Element)) :
    (memberParts target location descriptorPart namePart rest).ReportsUnless fun _ => True :=
  (reportsUnless_of_accepts fun _ => accepts_memberParts target location descriptorPart namePart
    rest).mono fun _ _ => trivial

theorem reportsUnless_fieldNode (pending : Pending) (declaration : Declaration Element) :
    (fieldNode pending declaration).ReportsUnless fun _ => True := by
  rw [fieldNode_parts]
  refine reportsUnless_lift_bind fun _ => (reportsUnless_splitFieldValue _).bind ?_
  rintro ⟨value, slots⟩ -
  match slots with
  | _ :: _ :: _ =>
    exact (reportsUnless_memberParts _ _ _ _ _).bind fun _ _ => Attempt.reportsUnless_pure trivial
  | [] | [_] => exact reportsUnless_stop _ _

theorem reportsUnless_methodNode (set : InstructionSet κ) (pending : Pending)
    (declaration : Declaration Element) :
    (methodNode set pending declaration).ReportsUnless fun _ => True := by
  rw [methodNode_parts]
  refine reportsUnless_lift_bind fun _ => ?_
  match declaration.slots.reverse with
  | bodyPart :: _ :: _ :: _ =>
    have hbody := reportsUnless_of_accepts fun _ =>
      Expect.accepts_viewedSlot Element.object? "method body" bodyPart declaration.location
    refine hbody.bind fun body _ => reportsUnless_lift_bind fun _ => ?_
    exact reportsUnless_lift_bind fun _ => reportsUnless_lift_bind fun _ =>
      reportsUnless_lift_bind fun _ => (reportsUnless_memberParts _ _ _ _ _).bind fun _ _ =>
        Attempt.reportsUnless_pure trivial
  | [] | [_] | [_, _] => exact reportsUnless_stop _ _

/-- A class that is dropped has been reported. -/
theorem reportsUnless_classNode (set : InstructionSet κ) (pending : Pending)
    (declaration : Declaration Element) :
    (classNode set pending declaration).ReportsUnless fun _ => True := by
  rw [classNode_parts]
  have hbody : ∀ bodyPart, (classBody bodyPart declaration.location).ReportsUnless _ :=
    fun bodyPart =>
      reportsUnless_of_accepts fun _ => accepts_classBody bodyPart declaration.location
  match declaration.slots.reverse with
  | [] => exact reportsUnless_stop _ _
  | [bodyPart] => exact (hbody bodyPart).bind fun _ _ => reportsUnless_stop _ _
  | bodyPart :: namePart :: _ =>
    have hname := reportsUnless_of_accepts fun _ =>
      accepts_nameSlot "class name" namePart declaration.location
    -- a class without a name stops only behind its members, but the error is there by then
    refine (hbody bodyPart).bind fun body _ => hname.optional.bind ?_
    rintro _ ⟨name, rfl, -⟩
    exact reportsUnless_lift_bind fun _ => reportsUnless_lift_bind fun _ =>
      Attempt.reportsUnless_pure trivial

/-! ### Items of sequences -/

/-- A signature is either added or reported as a second one. -/
theorem reportsUnless_addSignature (pending : Pending) (token : Token) :
    (pending.addSignature token).ReportsUnless pending.GainsOne := by
  unfold Pending.addSignature
  split
  · exact reportsUnless_error_bind _ _ _
  · next h =>
    exact Check.reportsUnless_pure (.signature token (Option.not_isSome_iff_eq_none.mp h))

theorem reportsUnless_addSuperName (pending : Pending) (token : Token) :
    (pending.addSuperName token).ReportsUnless pending.GainsOne := by
  unfold Pending.addSuperName
  split
  · exact reportsUnless_error_bind _ _ _
  · next h =>
    exact Check.reportsUnless_pure (.superName token (Option.not_isSome_iff_eq_none.mp h))

/-- An owner yields its node, if it has one. -/
theorem reportsUnless_owner {μ ν : Type} {attempt : Attempt μ} {good : μ → Prop}
    (h : attempt.ReportsUnless good) (pending : Pending) (wrap : μ → ν) :
    (do return ((← attempt.run).map wrap, {}) : Check (Option ν × Pending)).ReportsUnless
      (Yields pending) := by
  refine Check.ReportsUnless.bind h ?_
  rintro _ ⟨node, rfl, -⟩
  exact Check.reportsUnless_pure (.node (wrap node))

/-- A member of a class that is neither a node nor a new attribute has been reported. -/
theorem reportsUnless_member (set : InstructionSet κ) (pending : Pending)
    (declaration : Declaration Element) (kind : MemberKind) :
    (member set pending declaration kind).ReportsUnless (Yields pending) := by
  cases kind with
  | fieldDecl => exact reportsUnless_owner (reportsUnless_fieldNode pending declaration) _ _
  | methodDecl => exact reportsUnless_owner (reportsUnless_methodNode set pending declaration) _ _
  | annotationDecl =>
    refine (explainsNone_annotationNode declaration).reportsUnless.bind ?_
    rintro _ ⟨node, rfl⟩
    exact Check.reportsUnless_pure (.attribute (.annotated node))
  | signatureDecl =>
    refine Check.ReportsUnless.bind (reportsUnless_singleIdentifier declaration "signature") ?_
    rintro _ ⟨token, rfl, -⟩
    exact (reportsUnless_addSignature pending token).bind fun _ h =>
      Check.reportsUnless_pure (.attribute h)

theorem reportsUnless_topLevel (set : InstructionSet κ) (pending : Pending)
    (declaration : Declaration Element) (kind : DeclarationKind) :
    (topLevel set pending declaration kind).ReportsUnless (Yields pending) := by
  cases kind with
  | classDecl => exact reportsUnless_owner (reportsUnless_classNode set pending declaration) _ _
  | superDecl =>
    refine Check.ReportsUnless.bind (reportsUnless_singleIdentifier declaration "super name") ?_
    rintro _ ⟨token, rfl, -⟩
    exact (reportsUnless_addSuperName pending token).bind fun _ h =>
      Check.reportsUnless_pure (.attribute h)
  | interfaceDecl =>
    refine Check.ReportsUnless.bind
      (reportsUnless_singleIdentifier declaration "interface name") ?_
    rintro _ ⟨token, rfl, -⟩
    exact Check.reportsUnless_pure (.attribute (.interface token))
  | enumDecl => exact reportsUnless_error_bind _ _ _
  | member kind =>
    refine (reportsUnless_member set pending declaration kind).bind ?_
    rintro _ (⟨node⟩ | ⟨hgains⟩)
    · exact Check.reportsUnless_pure (.node (Node.ofMember node))
    · exact Check.reportsUnless_pure (.attribute hgains)

/-- An element of a program that is neither a node nor a new attribute has been reported. -/
theorem reportsUnless_topItem (set : InstructionSet κ) (pending : Pending) (element : Element) :
    (topItem set pending element).ReportsUnless (Yields pending) := by
  rcases topItem_cases set element with ⟨problem, location, hitem⟩ | ⟨declaration, kind, hitem⟩
  · rw [hitem]
    exact reportsUnless_error_bind _ _ _
  · rw [hitem]
    exact reportsUnless_topLevel set pending declaration kind

theorem reportsUnless_bodySlot (set : InstructionSet κ) (pending : Pending)
    (slot : Location × Option Element) :
    (bodySlot set pending slot).ReportsUnless (Yields pending) := by
  rcases bodySlot_cases set slot with ⟨problem, location, hslot⟩ | ⟨declaration, kind, hslot⟩
  · rw [hslot]
    exact reportsUnless_error_bind _ _ _
  · rw [hslot]
    exact reportsUnless_member set pending declaration kind

/-! ### Counting nodes -/

section Counting

variable {ι ν : Type} {item : Pending → ι → Check (Option ν × Pending)}
  {declares : ι → Option Declared} {give : Pending → ν → ν}

/-- The classes, fields and methods that items declare. -/
def ownersOf (declares : ι → Option Declared) (items : List ι) : List Declared :=
  (items.filterMap declares).filter fun declared => declared.1.isOwner

theorem ownersOf_cons_of_owns {i : ι} (h : Owns declares i) (items : List ι) :
    (ownersOf declares (i :: items)).length = (ownersOf declares items).length + 1 := by
  obtain ⟨declared, hdeclares, howner⟩ := h
  simp [ownersOf, hdeclares, howner]

theorem ownersOf_cons_of_not_owns {i : ι} (h : ¬ Owns declares i) (items : List ι) :
    ownersOf declares (i :: items) = ownersOf declares items := by
  cases hdeclares : declares i with
  | none => simp [ownersOf, hdeclares]
  | some declared =>
    have howner : ¬ declared.1.isOwner := fun howner => h ⟨declared, hdeclares, howner⟩
    simp [ownersOf, hdeclares, howner]

/-- Only owners have nodes, and each of them has at most one. -/
theorem ItemLaw.length_nodesOf_le (law : ItemLaw item declares give) (pending : Pending)
    (items : List ι) :
    (nodesOf item pending items).length ≤ (ownersOf declares items).length := by
  induction items generalizing pending with
  | nil => exact Nat.le_refl 0
  | cons i items ih =>
    have hrest := ih ((item pending i).value 0).2
    show (((item pending i).value 0).1.toList ++ nodesOf item _ items).length ≤ _
    rw [List.length_append]
    by_cases h : Owns declares i
    · have hnode : ((item pending i).value 0).1.toList.length ≤ 1 := by
        cases ((item pending i).value 0).1 <;> simp
      rw [ownersOf_cons_of_owns h]
      omega
    · have hnode : ((item pending i).value 0).1 = none := by
        rw [(law.of_not_owns h).1]
      rw [ownersOf_cons_of_not_owns h, hnode]
      simpa using hrest

theorem not_gainsOne_empty (pending : Pending) : ¬ pending.GainsOne {} := by
  intro h
  generalize hafter : ({} : Pending) = after at h
  cases h with
  | signature token =>
    have hsignature := congrArg Pending.signature hafter
    simp at hsignature
  | superName token =>
    have hsuperName := congrArg Pending.superName hafter
    simp at hsuperName
  | interface token =>
    have hinterfaces := congrArg Pending.interfaces hafter
    simp at hinterfaces
  | annotated node =>
    have hnodes := congrArg Pending.annotations hafter
    simp at hnodes

/-- An owner without a node has an error. -/
theorem ItemLaw.errors_of_owner (law : ItemLaw item declares give) {pending : Pending} {i : ι}
    (h : (item pending i).ReportsUnless (Yields pending)) (howns : Owns declares i)
    (hnone : ((item pending i).value 0).1 = none) :
    ((item pending i).found 0).errors ≠ [] := by
  obtain ⟨declared, hdeclares, howner⟩ := howns
  have hafter : ((item pending i).value 0).2 = {} := by
    rw [(law.owner hdeclares howner pending).1]
  have hvalue : (item pending i).value 0 = (none, {}) := Prod.ext hnone hafter
  refine (h.good_or_errors 0).resolve_left ?_
  -- what is pending is taken, so that no attribute can have been added
  rw [hvalue]
  rintro (_ | ⟨hgains⟩)
  exact not_gainsOne_empty pending hgains

/-- Each owner has a node or an error. -/
theorem ItemLaw.length_ownersOf_le (law : ItemLaw item declares give)
    (h : ∀ pending i, (item pending i).ReportsUnless (Yields pending)) (pending : Pending)
    (items : List ι) :
    (ownersOf declares items).length
      ≤ (nodesOf item pending items).length + (reportOf item pending items).errors.length := by
  induction items generalizing pending with
  | nil => exact Nat.zero_le _
  | cons i items ih =>
    have hrest := ih ((item pending i).value 0).2
    show _ ≤ (((item pending i).value 0).1.toList ++ nodesOf item _ items).length
      + ((item pending i).found 0 ++ reportOf item _ items).errors.length
    rw [List.length_append, Report.errors_append, List.length_append]
    by_cases howns : Owns declares i
    · rw [ownersOf_cons_of_owns howns]
      cases hnode : ((item pending i).value 0).1 with
      | none =>
        have herrors := List.length_pos_iff.mpr (law.errors_of_owner (h pending i) howns hnode)
        omega
      | some node =>
        rw [Option.toList_some, List.length_singleton]
        omega
    · rw [ownersOf_cons_of_not_owns howns]
      omega

end Counting

/-- There are no more nodes than declarations that take attributes, and no more of those than
nodes and errors together. -/
theorem length_nodes_resolve [LawfulOperandKind κ] (set : InstructionSet κ)
    (program : List Element) :
    (resolve set program).nodes.length ≤ (ownersOf topDeclares program).length
      ∧ (ownersOf topDeclares program).length
        ≤ (resolve set program).nodes.length + (resolve set program).report.errors.length := by
  have law := top_law set
  have hnodes : (resolve set program).nodes = nodesOf (topItem set) {} program := by
    rw [resolve_eq, topSequence_eq, law.value_sequence]
  have herrors : (resolve set program).report.errors
      = (reportOf (topItem set) {} program).errors := by
    rw [resolve_eq, topSequence_eq, law.found_sequence, Report.errors_append]
    exact List.append_nil _
  rw [hnodes, herrors]
  exact ⟨law.length_nodesOf_le {} program,
    law.length_ownersOf_le (reportsUnless_topItem set) {} program⟩

end Resolve

open Resolve

/-- **Nothing is dropped without an error.**  In every session, the resolvers of classes,
fields, values of fields, methods, single identifiers, annotations, constants of enumerations,
values of annotations and keywords append an error if they have no result.  The elements of
the top level and the slots of the body of a class are taken one by one, and each of them
yields a node or exactly one more pending attribute, or appends an error.  What is appended for
an annotation, or for a value in one, accounts for everything that it lacks: on every level of
the result, each slot of an array and each entry has a share of the errors, with at least one
error in it if the slot or entry is missing; and an entry is the first of its key or a
duplicate, which has its error.  Of the classes, fields and methods that a program declares at
its top level, at most as many are without a node as there are errors. -/
theorem dropped_only_with_error {κ : Type} [OperandKind κ] [LawfulOperandKind κ]
    (set : InstructionSet κ) :
    (∀ (pending : Pending) (declaration : Declaration Element) (expected : String)
        (object : Object Element) (element : Element),
        (classNode set pending declaration).run.ExplainsNone
          ∧ (fieldNode pending declaration).run.ExplainsNone
          ∧ (fieldValue object).run.ExplainsNone
          ∧ (methodNode set pending declaration).run.ExplainsNone
          ∧ (singleIdentifier declaration expected).run.ExplainsNone
          ∧ (annotationNode declaration).ExplainsNone
          ∧ (enumNode declaration).run.ExplainsNone
          ∧ (annotationValue element).ExplainsNone
          ∧ (kindOf declaration).run.ExplainsNone)
      ∧ (∀ (pending : Pending) (program : List Element),
        topSequence set pending program = sequence (topItem set) pending program)
      ∧ (∀ (pending : Pending) (previous : Location) (slots : List (Option Element)),
        bodySlots set pending previous slots
          = sequence (bodySlot set) pending (located previous slots))
      ∧ (∀ (pending : Pending) (element : Element),
        (topItem set pending element).ReportsUnless (Yields pending))
      ∧ (∀ (pending : Pending) (slot : Location × Option Element),
        (bodySlot set pending slot).ReportsUnless (Yields pending))
      ∧ (∀ (element : Element) (session : Session), ∃ errors,
        ((annotationValue element).run session).2.report.errors = session.report.errors ++ errors
          ∧ AccountsFor (Accounts element) ((annotationValue element).run session).1 errors)
      ∧ (∀ (declaration : Declaration Element) (session : Session), ∃ errors,
        ((annotationNode declaration).run session).2.report.errors
            = session.report.errors ++ errors
          ∧ AccountsFor (AccountsNode declaration)
            ((annotationNode declaration).run session).1 errors)
      ∧ (∀ object : Object Element, (object.entries ++ object.duplicates).Perm object.pairs)
      ∧ ∀ program : List Element,
        (resolve set program).nodes.length ≤ (ownersOf topDeclares program).length
          ∧ (ownersOf topDeclares program).length - (resolve set program).nodes.length
            ≤ (resolve set program).report.errors.length := by
  refine ⟨?_, topSequence_eq set, bodySlots_eq set, reportsUnless_topItem set,
    reportsUnless_bodySlot set, ?_, ?_, Object.perm_entries_duplicates, ?_⟩
  · intro pending declaration expected object element
    exact ⟨(reportsUnless_classNode set pending declaration).explainsNone,
      (reportsUnless_fieldNode pending declaration).explainsNone,
      (reportsUnless_fieldValue object).explainsNone,
      (reportsUnless_methodNode set pending declaration).explainsNone,
      (reportsUnless_singleIdentifier declaration expected).explainsNone,
      explainsNone_annotationNode declaration,
      (reportsUnless_enumNode declaration).explainsNone,
      explainsNone_annotationValue element,
      (reportsUnless_kindOf declaration).explainsNone⟩
  · intro element session
    exact AccountsFor.run (strict_annotationValue element).orderly
      (fun depth => accountsLevel depth element) session
  · intro declaration session
    exact AccountsFor.run (strict_annotationNode declaration).orderly
      (fun depth => (accountsLevel depth).node declaration) session
  · intro program
    obtain ⟨hnodes, howners⟩ := length_nodes_resolve set program
    exact ⟨hnodes, Nat.sub_le_iff_le_add'.mpr howners⟩

/-- A class without a body, which is dropped, and a field. -/
def bodylessSample : List Element :=
  let token (text : String) : Token := ⟨.identifier, Content.ofString text, ⟨1, 1, "t"⟩⟩
  let item (keyword : String) (parts : List String) : Element :=
    .declaration ⟨some (token keyword), parts.map fun part => some (.identifier (token part)),
      ⟨1, 1, "t"⟩⟩
  [item ".class" ["A"], item ".field" ["x", "I"]]

/-- One of two nodes is missing, so there is an error. -/
theorem bodylessSample_reports :
    (ownersOf topDeclares bodylessSample).length = 2
      ∧ (resolve bipushSet bodylessSample).nodes.length = 1
      ∧ 1 ≤ (resolve bipushSet bodylessSample).report.errors.length := by
  obtain ⟨-, -, -, -, -, -, -, -, hcount⟩ := dropped_only_with_error bipushSet
  have howners : (ownersOf topDeclares bodylessSample).length = 2 := by decide
  have hnodes : (resolve bipushSet bodylessSample).nodes.length = 1 := by decide
  obtain ⟨-, herrors⟩ := hcount bodylessSample
  rw [howners, hnodes] at herrors
  exact ⟨howners, hnodes, herrors⟩

end JvmAssembly
