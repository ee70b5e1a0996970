/-
JvmAssembly/Proofs/WellTyped.lean

Every resolved node is well typed, whatever was wrong with the program.

What cannot be resolved is left out of the nodes around it.  What remains is in order:
modifiers are those that the target allows, names in an annotation are identifiers and all
different, and values are in normal form and not nested too deeply.

Nothing is supposed about the program, so this is about results alone.  `Gives good` says
that the result of a check is good in every session, and composes along sequences
(`Gives.bind`).  Annotations are pending for a while before they get into a node.  That
pending annotations are well typed is therefore an invariant of sequences, shown for one
item and then for all of them (`gives_sequence`).
-/
import JvmAssembly.InstructionSet.Jvm
import JvmAssembly.Proofs.NormalForm

namespace JvmAssembly

variable {α β : Type}

/-! ### Well-typed nodes -/

/-- Every recorded modifier is one that the target allows. -/
def Modifiers.AllowedOn (modifiers : Modifiers) (target : ModifierTarget) : Prop :=
  ∀ entry ∈ modifiers.entries, entry.1.isAllowedOn target

/-- An annotation under distinct names, with values in normal form of at most 64 levels. -/
structure AnnotationNode.WellTyped (node : AnnotationNode AnnotationValue) : Prop where
  keyed : node.IsKeyed
  normal : ∀ named ∈ node.values, named.2.IsNormal
  bounded : ∀ named ∈ node.values, named.2.height ≤ 64

/-- A field: its modifiers, its value and its annotations. -/
structure FieldNode.WellTyped (node : FieldNode) : Prop where
  modifiers : node.modifiers.AllowedOn .onField
  value : node.value = none ∨ (∃ token, node.value = some (.number token))
    ∨ ∃ token, node.value = some (.string token)
  annotations : ∀ annotation ∈ node.annotations, annotation.WellTyped

/-- A method: its modifiers and its annotations. -/
structure MethodNode.WellTyped (node : MethodNode Element) : Prop where
  modifiers : node.modifiers.AllowedOn .onMethod
  annotations : ∀ annotation ∈ node.annotations, annotation.WellTyped

/-- A class: its modifiers, its annotations and its members. -/
structure ClassNode.WellTyped (node : ClassNode Element) : Prop where
  modifiers : node.modifiers.AllowedOn .onClass
  annotations : ∀ annotation ∈ node.annotations, annotation.WellTyped
  fields : ∀ field ∈ node.fields, field.WellTyped
  methods : ∀ method ∈ node.methods, method.WellTyped

/-- A member is a well-typed field or method. -/
inductive Member.WellTyped : Member → Prop
  | field {node : FieldNode} : node.WellTyped → WellTyped (.field node)
  | method {node : MethodNode Element} : node.WellTyped → WellTyped (.method node)

/-- A node of the top level is a well-typed class, field or method. -/
inductive Node.WellTyped : Node → Prop
  | ofClass {node : ClassNode Element} : node.WellTyped → WellTyped (.ofClass node)
  | ofMember {member : Member} : member.WellTyped → WellTyped (.ofMember member)

/-- Pending annotations are well typed. -/
def Pending.WellTyped (pending : Pending) : Prop :=
  ∀ annotation ∈ pending.annotations, annotation.WellTyped

/-! ### Results in every session -/

namespace Check

/-- A check whose result is good in every session. -/
def Gives (check : Check α) (good : α → Prop) : Prop :=
  ∀ session, good (check.run session).1

variable {check : Check α} {next : α → Check β} {good : α → Prop} {goodNext : β → Prop}

/-- A check gives what the check behind it gives, which may rely on what the first one gives. -/
theorem Gives.bind (h : check.Gives good) (hnext : ∀ a, good a → (next a).Gives goodNext) :
    (check >>= next).Gives goodNext := by
  intro session
  rw [run_bind]
  exact hnext _ (h session) _

theorem gives_pure {a : α} (h : good a) : (pure a : Check α).Gives good :=
  fun _ => h

/-- Behind any check, a result is good if it always is. -/
theorem gives_bind (hnext : ∀ a, (next a).Gives goodNext) : (check >>= next).Gives goodNext := by
  intro session
  rw [run_bind]
  exact hnext _ _

end Check

/-- An attempt whose result, if there is one, is good in every session. -/
def Attempt.Gives (attempt : Attempt α) (good : α → Prop) : Prop :=
  attempt.run.Gives fun result => ∀ a ∈ result, good a

namespace Attempt

open Check

variable {attempt : Attempt α} {following : α → Attempt β} {good : α → Prop} {goodNext : β → Prop}

/-- An attempt gives what the attempt behind it gives, which may rely on what the first one
gives. -/
theorem Gives.bind (h : attempt.Gives good) (hnext : ∀ a, good a → (following a).Gives goodNext) :
    (attempt >>= following).Gives goodNext := by
  unfold Attempt.Gives
  rw [run_bind_attempt]
  refine Check.Gives.bind h fun result hresult => ?_
  cases result with
  | none => exact Check.gives_pure fun _ h => nomatch h
  | some a => exact hnext a (hresult a rfl)

theorem gives_pure {a : α} (h : good a) : (pure a : Attempt α).Gives good := by
  refine Check.gives_pure ?_
  rintro _ ⟨⟩
  exact h

theorem gives_failure : (failure : Attempt α).Gives good :=
  Check.gives_pure fun _ h => nomatch h

/-- Behind any attempt, a result is good if it always is. -/
theorem gives_bind (hnext : ∀ a, (following a).Gives goodNext) :
    (attempt >>= following).Gives goodNext := by
  have hattempt : attempt.Gives fun _ => True := fun _ _ _ => trivial
  exact hattempt.bind fun a _ => hnext a

theorem gives_lift {check : Check α} (h : check.Gives good) :
    (liftM check : Attempt α).Gives good := by
  refine Check.Gives.bind h fun a ha => Check.gives_pure ?_
  rintro _ ⟨⟩
  exact ha

end Attempt

namespace Resolve

open Check

variable {κ : Type} [OperandKind κ]

/-! ### Modifiers -/

/-- Only modifiers that are allowed are recorded. -/
theorem gives_modifiersAfter {target : ModifierTarget} {found : Modifiers}
    (h : found.AllowedOn target) (location : Location) (slots : List (Option Element)) :
    (modifiersAfter target location found slots).Gives (Modifiers.AllowedOn · target) := by
  induction slots generalizing found with
  | nil => exact Check.gives_pure h
  | cons slot slots ih =>
    refine Check.gives_bind fun result => ?_
    cases result with
    | none => exact ih h
    | some token =>
      dsimp only
      split
      · exact Check.gives_bind fun _ => ih h
      · next modifier hmodifier =>
        -- only what passes the filter is recorded, also if it is a repetition
        refine Check.gives_bind fun _ => ih ?_
        intro entry hentry
        rcases List.mem_append.mp hentry with hentry | hentry
        · exact h entry hentry
        · rw [List.mem_singleton.mp hentry]
          exact (Option.filter_eq_some_iff.mp hmodifier).2

theorem gives_modifiers (target : ModifierTarget) (location : Location)
    (slots : List (Option Element)) :
    (modifiers target location slots).Gives (Modifiers.AllowedOn · target) :=
  gives_modifiersAfter (List.forall_mem_nil _) location slots

/-! ### Annotations -/

/-- A resolved annotation is well typed, whatever was left out of it. -/
theorem gives_annotationNode (declaration : Declaration Element) :
    (annotationNode declaration).Gives fun result => ∀ node ∈ result, node.WellTyped := by
  intro session node hnode
  rw [(strict_annotationNode declaration).orderly.run_eq session] at hnode
  -- deeper down there is less room for the values, so no depth needs to be excluded
  obtain ⟨hkeyed, hvalues⟩ := (normalLevel session.depth).node declaration node hnode
  refine ⟨hkeyed, fun named hnamed => (hvalues named hnamed).1, fun named hnamed => ?_⟩
  exact Nat.le_trans (Nat.le_add_left _ _) (hvalues named hnamed).2

/-! ### Members -/

theorem gives_memberParts (target : ModifierTarget) (location : Location)
    (descriptorPart namePart : Option Element) (rest : List (Option Element)) :
    (memberParts target location descriptorPart namePart rest).Gives
      fun parts => parts.1.AllowedOn target := by
  refine Attempt.gives_bind fun descriptor => Attempt.gives_bind fun name =>
    (Attempt.gives_lift (gives_modifiers target location rest)).bind fun found hfound => ?_
  refine Check.gives_pure fun parts hparts => ?_
  obtain ⟨name, -, hname⟩ := Option.bind_eq_some_iff.mp hparts
  obtain ⟨descriptor, -, rfl⟩ := Option.map_eq_some_iff.mp hname
  exact hfound

/-- A field is well typed if the annotations that it takes are. -/
theorem gives_fieldNode {pending : Pending} (h : pending.WellTyped)
    (declaration : Declaration Element) :
    (fieldNode pending declaration).Gives FieldNode.WellTyped := by
  rw [fieldNode_parts]
  refine Attempt.gives_bind fun _ => Attempt.gives_bind ?_
  rintro ⟨value, slots⟩
  match slots with
  | _ :: _ :: _ =>
    refine (gives_memberParts _ _ _ _ _).bind fun parts hparts => Attempt.gives_pure ?_
    refine ⟨hparts, ?_, h⟩
    match value with
    | none => exact .inl rfl
    | some (.number token) => exact .inr (.inl ⟨token, rfl⟩)
    | some (.string token) => exact .inr (.inr ⟨token, rfl⟩)
  | [] | [_] => exact Attempt.gives_bind fun _ => Attempt.gives_failure

theorem gives_methodNode (set : InstructionSet κ) {pending : Pending} (h : pending.WellTyped)
    (declaration : Declaration Element) :
    (methodNode set pending declaration).Gives MethodNode.WellTyped := by
  rw [methodNode_parts]
  refine Attempt.gives_bind fun _ => ?_
  match declaration.slots.reverse with
  | _ :: _ :: _ :: _ =>
    refine Attempt.gives_bind fun body => Attempt.gives_bind fun _ => Attempt.gives_bind fun _ =>
      Attempt.gives_bind fun parameters => Attempt.gives_bind fun code => ?_
    exact (gives_memberParts _ _ _ _ _).bind fun parts hparts => Attempt.gives_pure ⟨hparts, h⟩
  | [] | [_] | [_, _] => exact Attempt.gives_bind fun _ => Attempt.gives_failure

/-! ### Sequences -/

/-- What an item may yield: a well-typed node, if it yields one, and well-typed annotations. -/
def WellTypedItem {ν : Type} (good : ν → Prop) (result : Option ν × Pending) : Prop :=
  (∀ node ∈ result.1, good node) ∧ result.2.WellTyped

theorem wellTyped_empty : ({} : Pending).WellTyped :=
  List.forall_mem_nil _

/-- Whatever keeps pending annotations well typed from item to item yields well-typed nodes. -/
theorem gives_sequence {ι ν : Type} {item : Pending → ι → Check (Option ν × Pending)}
    {good : ν → Prop}
    (h : ∀ pending i, pending.WellTyped → (item pending i).Gives (WellTypedItem good))
    {pending : Pending} (hpending : pending.WellTyped) (items : List ι) :
    (sequence item pending items).Gives fun nodes => ∀ node ∈ nodes, good node := by
  induction items generalizing pending with
  | nil => exact Check.gives_bind fun _ => Check.gives_pure (List.forall_mem_nil _)
  | cons i items ih =>
    refine (h pending i hpending).bind fun result hresult =>
      (ih hresult.2).bind fun nodes hnodes => Check.gives_pure ?_
    intro node hnode
    rcases List.mem_append.mp hnode with hnode | hnode
    · exact hresult.1 node (Option.mem_toList.mp hnode)
    · exact hnodes node hnode

/-- An owner takes what is pending. -/
theorem gives_owner {μ ν : Type} {attempt : Attempt μ} {goodBefore : μ → Prop} {good : ν → Prop}
    {wrap : μ → ν} (h : attempt.Gives goodBefore)
    (hwrap : ∀ a, goodBefore a → good (wrap a)) :
    (do return ((← attempt.run).map wrap, {}) : Check (Option ν × Pending)).Gives
      (WellTypedItem good) := by
  refine Check.Gives.bind h fun result hresult => Check.gives_pure ⟨?_, wellTyped_empty⟩
  intro node hnode
  obtain ⟨before, hbefore, rfl⟩ := Option.map_eq_some_iff.mp hnode
  exact hwrap before (hresult before hbefore)

/-- What yields no node and leaves the annotations as they are. -/
theorem wellTypedItem_none {ν : Type} {good : ν → Prop} {pending after : Pending}
    (h : pending.WellTyped) (hafter : after.annotations = pending.annotations) :
    WellTypedItem good ((none, after) : Option ν × Pending) := by
  refine ⟨(fun _ hnode => nomatch hnode), ?_⟩
  show ∀ annotation ∈ after.annotations, annotation.WellTyped
  rw [hafter]
  exact h

theorem gives_addSignature (pending : Pending) (token : Token) :
    (pending.addSignature token).Gives fun after => after.annotations = pending.annotations := by
  unfold Pending.addSignature
  split
  · exact Check.gives_bind fun _ => Check.gives_pure rfl
  · exact Check.gives_pure rfl

theorem gives_addSuperName (pending : Pending) (token : Token) :
    (pending.addSuperName token).Gives fun after => after.annotations = pending.annotations := by
  unfold Pending.addSuperName
  split
  · exact Check.gives_bind fun _ => Check.gives_pure rfl
  · exact Check.gives_pure rfl

/-- A member is well typed, and so are the annotations that it leaves pending. -/
theorem gives_member (set : InstructionSet κ) {pending : Pending} (h : pending.WellTyped)
    (declaration : Declaration Element) (kind : MemberKind) :
    (member set pending declaration kind).Gives (WellTypedItem Member.WellTyped) := by
  cases kind with
  | fieldDecl => exact gives_owner (gives_fieldNode h declaration) fun _ => .field
  | methodDecl => exact gives_owner (gives_methodNode set h declaration) fun _ => .method
  | annotationDecl =>
    refine (gives_annotationNode declaration).bind fun result hresult => ?_
    cases result with
    | none => exact Check.gives_pure (wellTypedItem_none h rfl)
    | some node =>
      refine Check.gives_pure ⟨(fun _ hnode => nomatch hnode), ?_⟩
      exact List.forall_mem_append.mpr ⟨h, List.forall_mem_singleton.mpr (hresult node rfl)⟩
  | signatureDecl =>
    refine Check.gives_bind fun result => ?_
    cases result with
    | none => exact Check.gives_pure (wellTypedItem_none h rfl)
    | some token =>
      exact (gives_addSignature pending token).bind fun _ hafter =>
        Check.gives_pure (wellTypedItem_none h hafter)

/-! ### Classes -/

theorem gives_bodySlot (set : InstructionSet κ) (pending : Pending)
    (slot : Location × Option Element) (h : pending.WellTyped) :
    (bodySlot set pending slot).Gives (WellTypedItem Member.WellTyped) := by
  rcases bodySlot_cases set slot with ⟨problem, location, hslot⟩ | ⟨declaration, kind, hslot⟩
  · rw [hslot]
    exact Check.gives_bind fun _ => Check.gives_pure (wellTypedItem_none h rfl)
  · rw [hslot]
    exact gives_member set h declaration kind

theorem gives_bodySlots (set : InstructionSet κ) (location : Location)
    (slots : List (Option Element)) :
    (bodySlots set {} location slots).Gives fun members =>
      ∀ member ∈ members, member.WellTyped := by
  rw [bodySlots_eq]
  exact gives_sequence (gives_bodySlot set) wellTyped_empty _

theorem wellTyped_fieldsOf {members : List Member} (h : ∀ member ∈ members, member.WellTyped) :
    ∀ field ∈ fieldsOf members, field.WellTyped := by
  intro field hfield
  obtain ⟨member, hmember, heq⟩ := List.mem_filterMap.mp hfield
  cases h member hmember with
  | field hnode =>
    cases heq
    exact hnode
  | method => cases heq

theorem wellTyped_methodsOf {members : List Member} (h : ∀ member ∈ members, member.WellTyped) :
    ∀ method ∈ methodsOf members, method.WellTyped := by
  intro method hmethod
  obtain ⟨member, hmember, heq⟩ := List.mem_filterMap.mp hmethod
  cases h member hmember with
  | field => cases heq
  | method hnode =>
    cases heq
    exact hnode

/-- A class is well typed, with all its members. -/
theorem gives_classNode (set : InstructionSet κ) {pending : Pending} (h : pending.WellTyped)
    (declaration : Declaration Element) :
    (classNode set pending declaration).Gives ClassNode.WellTyped := by
  rw [classNode_parts]
  match declaration.slots.reverse with
  | [] => exact Attempt.gives_bind fun _ => Attempt.gives_failure
  | [_] => exact Attempt.gives_bind fun _ => Attempt.gives_bind fun _ => Attempt.gives_failure
  | _ :: _ :: rest =>
    refine Attempt.gives_bind fun body => Attempt.gives_bind fun name =>
      (Attempt.gives_lift (gives_modifiers .onClass declaration.location rest.reverse)).bind
        fun found hfound => (Attempt.gives_lift (gives_bodySlots set body.location body.slots)).bind
          fun members hmembers => Check.gives_pure ?_
    intro node hnode
    obtain ⟨name, -, rfl⟩ := Option.map_eq_some_iff.mp hnode
    exact ⟨hfound, h, wellTyped_fieldsOf hmembers, wellTyped_methodsOf hmembers⟩

/-! ### Programs -/

/-- A declaration at the top level is well typed, and so are the annotations that it leaves
pending. -/
theorem gives_topLevel (set : InstructionSet κ) {pending : Pending} (h : pending.WellTyped)
    (declaration : Declaration Element) (kind : DeclarationKind) :
    (topLevel set pending declaration kind).Gives (WellTypedItem Node.WellTyped) := by
  cases kind with
  | classDecl => exact gives_owner (gives_classNode set h declaration) fun _ => .ofClass
  | superDecl =>
    refine Check.gives_bind fun result => ?_
    cases result with
    | none => exact Check.gives_pure (wellTypedItem_none h rfl)
    | some token =>
      exact (gives_addSuperName pending token).bind fun _ hafter =>
        Check.gives_pure (wellTypedItem_none h hafter)
  | interfaceDecl =>
    refine Check.gives_bind fun result => ?_
    cases result <;> exact Check.gives_pure (wellTypedItem_none h rfl)
  | enumDecl => exact Check.gives_bind fun _ => Check.gives_pure (wellTypedItem_none h rfl)
  | member kind =>
    refine (gives_member set h declaration kind).bind fun result hresult =>
      Check.gives_pure ⟨fun node hnode => ?_, hresult.2⟩
    obtain ⟨member, hmember, rfl⟩ := Option.map_eq_some_iff.mp hnode
    exact .ofMember (hresult.1 member hmember)

theorem gives_topItem (set : InstructionSet κ) (pending : Pending) (element : Element)
    (h : pending.WellTyped) :
    (topItem set pending element).Gives (WellTypedItem Node.WellTyped) := by
  rcases topItem_cases set element with ⟨problem, location, hitem⟩ | ⟨declaration, kind, hitem⟩
  · rw [hitem]
    exact Check.gives_bind fun _ => Check.gives_pure (wellTypedItem_none h rfl)
  · rw [hitem]
    exact gives_topLevel set h declaration kind

end Resolve

/-- **Every resolved node is well typed, whatever was wrong with the program.**  The nodes of a
program are classes, fields and methods.  Of each of them, and of each member of a class, all
modifiers are allowed on its kind of declaration; a field has no value, a number or a string;
and annotations have distinct identifiers as names, under whose texts their values are found,
and values in normal form of at most 64 levels. -/
theorem resolved_nodes_wellTyped {κ : Type} [OperandKind κ] (set : InstructionSet κ)
    (program : List Element) :
    ∀ node ∈ (resolve set program).nodes, node.WellTyped := by
  have hnodes := Resolve.gives_sequence (Resolve.gives_topItem set) Resolve.wellTyped_empty program
  rw [← Resolve.topSequence_eq] at hnodes
  exact hnodes {}

/-- An annotation with a repeated key, a hole and a word that is no value, in front of a field
with a modifier that only classes and methods have. -/
def faultySample : List Element :=
  let location : Location := ⟨1, 1, "t"⟩
  let token (kind : TokenKind) (text : String) : Token := ⟨kind, Content.ofString text, location⟩
  let identifier (text : String) : Option Element := some (.identifier (token .identifier text))
  let number : Option Element := some (.number (token .number "1"))
  let array : Option Element := some (.array ⟨[number, none, identifier "true"], location⟩)
  let values : Option Element := some (.object ⟨[⟨token .identifier "a", array⟩,
    ⟨token .identifier "a", number⟩, ⟨token .identifier "b", identifier "word"⟩], location⟩)
  [.declaration ⟨some (token .identifier ".annotation"), [identifier "LA;", values], location⟩,
    .declaration ⟨some (token .identifier ".field"), [identifier "public", identifier "abstract",
      identifier "x", identifier "I", number], location⟩]

/-- There are four errors, and the field that is resolved all the same is well typed. -/
theorem faultySample_wellTyped :
    (resolve .jvm faultySample).report.errors.length = 4
      ∧ ∃ node, (resolve .jvm faultySample).nodes = [node] ∧ node.WellTyped := by
  obtain ⟨node, hnode⟩ := List.length_eq_one_iff.mp
    (show (resolve .jvm faultySample).nodes.length = 1 by decide)
  refine ⟨by decide, node, hnode, resolved_nodes_wellTyped .jvm faultySample node ?_⟩
  rw [hnode]
  exact List.mem_singleton_self node

end JvmAssembly
