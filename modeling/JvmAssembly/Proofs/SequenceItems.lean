/-
JvmAssembly/Proofs/SequenceItems.lean

The top level and the bodies of classes are sequences.

`top_law` and `body_law` are `ItemLaw` for the two kinds of items.  Both rest on the
same fact for fields, methods and classes: giving attributes to a declaration adds
warnings in front and fills in the attributes of the node, and does nothing else
(`fieldNode_eq`, `methodNode_eq`, `classNode_eq`).

The slots of a body are items together with the location of the nearest element
before them, where a hole is reported (`located`).
-/
import JvmAssembly.Proofs.Sequence

namespace JvmAssembly

/-! ### Giving attributes to nodes -/

/-- A field with the given attributes. -/
def FieldNode.give (pending : Pending) (node : FieldNode) : FieldNode :=
  { node with signature := pending.signature, annotations := pending.annotations }

/-- A method with the given attributes. -/
def MethodNode.give (pending : Pending) (node : MethodNode Element) : MethodNode Element :=
  { node with signature := pending.signature, annotations := pending.annotations }

/-- A class with the given attributes. -/
def ClassNode.give (pending : Pending) (node : ClassNode Element) : ClassNode Element :=
  { node with
    signature := pending.signature
    superName := pending.superName
    interfaces := pending.interfaces
    annotations := pending.annotations }

/-- A member with the given attributes. -/
def Member.give (pending : Pending) : Member → Member
  | field node => field (node.give pending)
  | method node => method (node.give pending)

/-- A node of the top level with the given attributes. -/
def Node.give (pending : Pending) : Node → Node
  | ofClass node => ofClass (node.give pending)
  | ofMember member => ofMember (member.give pending)

/-! ### What items declare -/

/-- What a declaration declares, by its keyword without one leading dot. -/
def Declaration.kind? (declaration : Declaration Element) : Option DeclarationKind :=
  declaration.keywordName?.bind DeclarationKind.ofKeyword?

/-- What an element declares, if it is a declaration with a keyword that exists. -/
def Element.declared? (element : Element) : Option Declared :=
  element.declaration?.bind fun declaration =>
    declaration.kind?.map fun kind => (kind, declaration)

theorem Element.declared?_eq_some_iff {element : Element} {declared : Declared} :
    element.declared? = some declared
      ↔ element = .declaration declared.2 ∧ declared.2.kind? = some declared.1 := by
  constructor
  · intro h
    obtain ⟨declaration, hdeclaration, hmap⟩ := Option.bind_eq_some_iff.mp h
    obtain ⟨kind, hkind, rfl⟩ := Option.map_eq_some_iff.mp hmap
    cases element <;> cases hdeclaration
    exact ⟨rfl, hkind⟩
  · rintro ⟨rfl, hkind⟩
    show declared.2.kind?.map _ = some declared
    rw [hkind]
    rfl

namespace Resolve

open Check

variable {κ : Type} [OperandKind κ]

variable {α : Type} {depth : Nat}

theorem kindOf_of_kind {declaration : Declaration Element} {kind : DeclarationKind}
    (h : declaration.kind? = some kind) : kindOf declaration = pure kind := by
  unfold Declaration.kind? Declaration.keywordName? at h
  unfold kindOf
  cases hkeyword : declaration.keyword with
  | none => rw [hkeyword] at h; cases h
  | some keyword =>
    rw [hkeyword, Option.map_some, Option.bind_some] at h
    dsimp only
    rw [h]

/-- A declaration without a kind is one error. -/
theorem kindOf_of_no_kind {declaration : Declaration Element} (h : declaration.kind? = none) :
    ∃ problem, kindOf declaration = (do
      Check.error problem declaration.location
      failure) := by
  unfold Declaration.kind? Declaration.keywordName? at h
  unfold kindOf
  cases hkeyword : declaration.keyword with
  | none => exact ⟨_, rfl⟩
  | some keyword =>
    rw [hkeyword, Option.map_some, Option.bind_some] at h
    dsimp only
    rw [h]
    exact ⟨_, rfl⟩

theorem value_identifierArgument (declaration : Declaration Element) (index : Nat)
    (expected : String) :
    (identifierArgument declaration index expected).run.value depth
      = (declaration.get? index).bind Element.identifier? := by
  show (Check.identifierSlot expected (declaration.get? index) declaration.location).run.value depth
    = _
  exact value_identifierSlot _ _ _

theorem value_singleIdentifier (declaration : Declaration Element) (expected : String) :
    (singleIdentifier declaration expected).run.value depth
      = (declaration.get? 0).bind Element.identifier? := by
  have hidentifier := (strict_identifierArgument declaration 0 expected).orderly
  have hnoMore := (strict_noMore declaration 1).orderly
  refine (value_lift_bind hidentifier ?_).trans ((value_lift_bind hnoMore ?_).trans ?_)
  · refine hnoMore.lift.bind_attempt fun _ => ?_
    cases (identifierArgument declaration 0 expected).run.value depth <;> exact orderly_pure _
  · cases (identifierArgument declaration 0 expected).run.value depth <;> exact orderly_pure _
  · rw [value_identifierArgument]
    cases (declaration.get? 0).bind Element.identifier? <;> rfl

/-! ### Owners -/

/-- An attempt behind warnings, whose result is completed. -/
theorem given_attempt {warning : Check Unit} {attempt : Attempt α} (f : α → α)
    (hwarning : warning.Orderly) (hattempt : attempt.run.Orderly) :
    (do warning; let a ← attempt; return f a : Attempt α).run.value depth
        = (attempt.run.value depth).map f
      ∧ (do warning; let a ← attempt; return f a : Attempt α).run.found depth
        = warning.found depth ++ attempt.run.found depth := by
  have hlast : ∀ a : α, (return f a : Attempt α).run.Orderly := fun a => orderly_pure (some (f a))
  have hrest := hattempt.bind_attempt hlast
  constructor
  · rw [value_bind_attempt hwarning.lift fun _ _ => hrest, value_lift hwarning, Option.bind_some,
      value_bind_attempt hattempt fun a _ => hlast a]
    cases attempt.run.value depth <;> rfl
  · rw [found_bind_attempt hwarning.lift fun _ _ => hrest, value_lift hwarning, Option.elim_some,
      found_lift hwarning, found_bind_attempt hattempt fun a _ => hlast a]
    cases attempt.run.value depth with
    | none => rw [Option.elim_none, Report.append_empty]
    | some a => exact congrArg _ (Report.append_empty _)

/-- A field takes its attributes when everything else is done. -/
theorem fieldRest_give (pending : Pending) (location : Location) (value : Option FieldValue)
    (slots : List (Option Element)) :
    fieldRest pending location value slots = (do
      let node ← fieldRest {} location value slots
      return node.give pending) := by
  match slots with
  | _ :: _ :: _ =>
    simp only [fieldRest, bind_assoc, pure_bind]
    rfl
  | [] | [_] => rfl

/-- The attributes of a field matter to its warnings and to the node, and to nothing else. -/
theorem fieldNode_eq (pending : Pending) (declaration : Declaration Element) :
    fieldNode pending declaration = (do
      pending.warnClassOnly "field"
      let node ← fieldNode {} declaration
      return node.give pending) := by
  have hnone : ({} : Pending).warnClassOnly "field" = pure () := rfl
  rw [fieldNode_parts pending, fieldNode_parts {}, hnone]
  simp only [liftM_pure, pure_bind, bind_assoc]
  exact bind_congr fun _ => bind_congr fun (value, slots) => fieldRest_give _ _ _ _

theorem methodRest_give (set : InstructionSet κ) (pending : Pending) (location : Location)
    (body : Object Element) (descriptorPart namePart : Option Element)
    (rest : List (Option Element)) :
    methodRest set pending location body descriptorPart namePart rest = (do
      let node ← methodRest set {} location body descriptorPart namePart rest
      return node.give pending) := by
  simp only [methodRest, bind_assoc, pure_bind]
  rfl

theorem methodNode_eq (set : InstructionSet κ) (pending : Pending)
    (declaration : Declaration Element) :
    methodNode set pending declaration = (do
      pending.warnClassOnly "method"
      let node ← methodNode set {} declaration
      return node.give pending) := by
  have hnone : ({} : Pending).warnClassOnly "method" = pure () := rfl
  rw [methodNode_parts set pending, methodNode_parts set {}, hnone]
  simp only [liftM_pure, pure_bind]
  refine bind_congr fun _ => ?_
  match declaration.slots.reverse with
  | _ :: _ :: _ :: _ =>
    simp only [bind_assoc]
    exact bind_congr fun _ => bind_congr fun _ => methodRest_give _ _ _ _ _ _ _
  | [] | [_] | [_, _] => rfl

theorem classRest_give (set : InstructionSet κ) (pending : Pending) (location : Location)
    (body : Declaration Element) (namePart : Option Element) (rest : List (Option Element)) :
    classRest set pending location body namePart rest = (do
      let node ← classRest set {} location body namePart rest
      return node.give pending) := by
  simp only [classRest, bind_assoc]
  refine bind_congr fun name => bind_congr fun modifiers => bind_congr fun members => ?_
  cases name <;> rfl

/-- The attributes of a class matter to the node, and to nothing else. -/
theorem classNode_eq (set : InstructionSet κ) (pending : Pending)
    (declaration : Declaration Element) :
    classNode set pending declaration = (do
      let node ← classNode set {} declaration
      return node.give pending) := by
  rw [classNode_parts set pending, classNode_parts set {}]
  match declaration.slots.reverse with
  | [] => rfl
  | [_] =>
    simp only [bind_assoc]
    rfl
  | _ :: _ :: _ =>
    simp only [bind_assoc]
    exact bind_congr fun _ => classRest_give _ _ _ _ _ _

/-- A field with attributes is the one without, given these, behind the warnings about them. -/
theorem given_fieldNode (pending : Pending) (declaration : Declaration Element) :
    (fieldNode pending declaration).run.value 0
        = ((fieldNode {} declaration).run.value 0).map (FieldNode.give pending)
      ∧ (fieldNode pending declaration).run.found 0
        = ⟨[], pending.classOnlyWarnings "field"⟩ ++ (fieldNode {} declaration).run.found 0 := by
  rw [fieldNode_eq pending, ← pending.found_warnClassOnly]
  exact given_attempt _ (pending.orderly_warnClassOnly "field") (orderly_fieldNode {} declaration)

theorem given_methodNode [LawfulOperandKind κ] (set : InstructionSet κ) (pending : Pending)
    (declaration : Declaration Element) :
    (methodNode set pending declaration).run.value 0
        = ((methodNode set {} declaration).run.value 0).map (MethodNode.give pending)
      ∧ (methodNode set pending declaration).run.found 0
        = ⟨[], pending.classOnlyWarnings "method"⟩
          ++ (methodNode set {} declaration).run.found 0 := by
  rw [methodNode_eq set pending, ← pending.found_warnClassOnly]
  exact given_attempt _ (pending.orderly_warnClassOnly "method")
    (orderly_methodNode set {} declaration)

/-- A class with attributes is the one without, given these; a class has no warnings about them. -/
theorem given_classNode [LawfulOperandKind κ] (set : InstructionSet κ) (pending : Pending)
    (declaration : Declaration Element) :
    (classNode set pending declaration).run.value 0
        = ((classNode set {} declaration).run.value 0).map (ClassNode.give pending)
      ∧ (classNode set pending declaration).run.found 0
        = ⟨[], []⟩ ++ (classNode set {} declaration).run.found 0 := by
  rw [classNode_eq set pending]
  exact given_attempt _ (orderly_pure ()) (orderly_classNode set {} declaration)

/-- Wrapping a node commutes with giving attributes to it. -/
theorem map_give {μ ν : Type} {giveBefore : Pending → μ → μ} {give : Pending → ν → ν} {wrap : μ → ν}
    (hwrap : ∀ pending a, give pending (wrap a) = wrap (giveBefore pending a)) (pending : Pending)
    (node : Option μ) :
    (node.map (giveBefore pending)).map wrap = (node.map wrap).map (give pending) := by
  cases node with
  | none => rfl
  | some a => exact congrArg some (hwrap pending a).symm

/-- The step of an owner, from what giving attributes does to its node. -/
theorem takesAll_of_given {μ ν : Type} {attempt : Pending → Attempt μ}
    {giveBefore : Pending → μ → μ} {give : Pending → ν → ν} {wrap : μ → ν} {kind : DeclarationKind}
    (horderly : ∀ pending, (attempt pending).run.Orderly)
    (hwrap : ∀ pending a, give pending (wrap a) = wrap (giveBefore pending a))
    (hgiven : ∀ pending, (attempt pending).run.value 0
          = ((attempt {}).run.value 0).map (giveBefore pending)
        ∧ (attempt pending).run.found 0
          = ⟨[], kind.ownerWarnings pending⟩ ++ (attempt {}).run.found 0) :
    TakesAll give kind fun pending => do
      let node ← (attempt pending).run
      return (node.map wrap, {}) := by
  intro pending
  obtain ⟨hvalue, hfound⟩ := hgiven pending
  rw [value_map (horderly pending), value_map (horderly {}), found_map (horderly pending),
    found_map (horderly {}), hvalue, hfound]
  exact ⟨Prod.ext (map_give hwrap pending _) rfl, rfl⟩

/-! ### Attributes -/

/-- A step adds attributes if it reports what a strict check does, and then what is
repeated. -/
theorem adds_of_found {ν : Type} {new : Pending} {check : Check α}
    {step : Pending → Check (Option ν × Pending)} (h : check.Strict)
    (hvalue : ∀ pending, (step pending).value 0 = (none, pending ++ new))
    (hfound : ∀ pending,
      (step pending).found 0 = check.found 0 ++ ⟨pending.duplicates new, []⟩) :
    Adds new step := by
  intro pending
  refine ⟨hvalue pending, ?_⟩
  rw [hfound pending, hfound {}, Pending.empty_duplicates]
  show (⟨_, (check.found 0).warnings ++ []⟩ : Report) = ⟨(check.found 0).errors ++ [] ++ _, []⟩
  rw [h.noWarnings, List.append_nil, List.append_nil]

/-- A step that reports the same whatever is pending, and changes nothing. -/
theorem adds_nothing {ν : Type} {check : Check Unit} (h : check.Strict) :
    Adds {} fun pending => (do check; return (none, pending) : Check (Option ν × Pending)) := by
  refine adds_of_found h (fun pending => ?_) fun pending => ?_
  · rw [value_map h.orderly, Pending.append_empty]
  · rw [found_map h.orderly, Pending.duplicates_empty]
    exact (Report.append_empty _).symm

/-- A step that adds what a check finds, if it finds anything. -/
theorem adds_of_check {ν : Type} {check : Check (Option α)} {add : Pending → α → Check Pending}
    {next : Pending → Option α → Check (Option ν × Pending)} {attributes : α → Pending}
    (h : check.Strict) (hnone : ∀ pending, next pending none = pure (none, pending))
    (hsome : ∀ pending a,
      next pending (some a) = add pending a >>= fun after => pure (none, after))
    (hadd : ∀ pending a, (add pending a).Orderly
      ∧ (add pending a).value 0 = pending ++ attributes a
      ∧ (add pending a).found 0 = ⟨pending.duplicates (attributes a), []⟩) :
    Adds (((check.value 0).map attributes).getD {}) fun pending => check >>= next pending := by
  have hnext : ∀ pending result, (next pending result).Orderly := by
    intro pending result
    cases result with
    | none =>
      rw [hnone]
      exact orderly_pure _
    | some a =>
      rw [hsome]
      exact (hadd pending a).1.map _
  -- with nothing found, `next` does nothing, and otherwise it adds what was found
  refine adds_of_found h (fun pending => ?_) fun pending => ?_
  · rw [value_bind h.orderly (hnext _ _)]
    cases check.value 0 with
    | none =>
      rw [hnone]
      exact congrArg (Prod.mk none) (Pending.append_empty pending).symm
    | some a =>
      obtain ⟨horderly, hvalue, -⟩ := hadd pending a
      rw [hsome, value_map horderly, hvalue]
      rfl
  · rw [found_bind h.orderly (hnext _ _)]
    cases check.value 0 with
    | none =>
      show _ = check.found 0 ++ ⟨pending.duplicates {}, []⟩
      rw [hnone, Pending.duplicates_empty]
      rfl
    | some a =>
      obtain ⟨horderly, -, hfound⟩ := hadd pending a
      rw [hsome, found_map horderly, hfound]
      rfl

theorem adds_signature (pending : Pending) (token : Token) :
    (pending.addSignature token).Orderly
      ∧ (pending.addSignature token).value 0 = pending ++ { signature := some token }
      ∧ (pending.addSignature token).found 0
        = ⟨pending.duplicates { signature := some token }, []⟩ := by
  refine ⟨pending.orderly_addSignature token, ?_⟩
  cases h : pending.signature with
  | none =>
    have hadd : pending.addSignature token = pure { pending with signature := some token } := by
      simp [Pending.addSignature, h]
    rw [hadd]
    simp [Pending.append_def, Pending.duplicates, Pending.repeated, h]
  | some held =>
    have hadd : pending.addSignature token = (do
        Check.error (.duplicateAttribute "Signature") token.location
        return pending) := by
      unfold Pending.addSignature
      rw [h]
      rfl
    obtain ⟨hduplicates, hafter⟩ := Pending.second_signature h token
    rw [hadd, value_map (orderly_error _ _), found_map (orderly_error _ _), hduplicates, hafter]
    exact ⟨rfl, rfl⟩

theorem adds_superName (pending : Pending) (token : Token) :
    (pending.addSuperName token).Orderly
      ∧ (pending.addSuperName token).value 0 = pending ++ { superName := some token }
      ∧ (pending.addSuperName token).found 0
        = ⟨pending.duplicates { superName := some token }, []⟩ := by
  refine ⟨pending.orderly_addSuperName token, ?_⟩
  cases h : pending.superName with
  | none =>
    have hadd : pending.addSuperName token = pure { pending with superName := some token } := by
      simp [Pending.addSuperName, h]
    rw [hadd]
    simp [Pending.append_def, Pending.duplicates, Pending.repeated, h]
  | some held =>
    have hadd : pending.addSuperName token = (do
        Check.error (.duplicateAttribute "Super name") token.location
        return pending) := by
      unfold Pending.addSuperName
      rw [h]
      rfl
    obtain ⟨hduplicates, hafter⟩ := Pending.second_superName h token
    rw [hadd, value_map (orderly_error _ _), found_map (orderly_error _ _), hduplicates, hafter]
    exact ⟨rfl, rfl⟩

/-- Attributes that may be repeated are added in silence. -/
theorem adds_pure {pending after new : Pending} (hafter : after = pending ++ new)
    (hsignature : new.signature = none) (hsuperName : new.superName = none) :
    (pure after : Check Pending).Orderly
      ∧ (pure after : Check Pending).value 0 = pending ++ new
      ∧ (pure after : Check Pending).found 0 = ⟨pending.duplicates new, []⟩ := by
  refine ⟨orderly_pure after, hafter, ?_⟩
  have hduplicates : pending.duplicates new = [] := by
    simp [Pending.duplicates, Pending.repeated, hsignature, hsuperName]
  rw [hduplicates]
  rfl

theorem adds_interface (pending : Pending) (token : Token) :
    (pure (pending.addInterface token) : Check Pending).Orderly
      ∧ (pure (pending.addInterface token) : Check Pending).value 0
        = pending ++ { interfaces := [token] }
      ∧ (pure (pending.addInterface token) : Check Pending).found 0
        = ⟨pending.duplicates { interfaces := [token] }, []⟩ :=
  adds_pure (by simp [Pending.append_def, Pending.addInterface]) rfl rfl

theorem adds_annotation (pending : Pending) (node : AnnotationNode AnnotationValue) :
    (pure (pending.addAnnotation node) : Check Pending).Orderly
      ∧ (pure (pending.addAnnotation node) : Check Pending).value 0
        = pending ++ { annotations := [node] }
      ∧ (pure (pending.addAnnotation node) : Check Pending).found 0
        = ⟨pending.duplicates { annotations := [node] }, []⟩ :=
  adds_pure (by simp [Pending.append_def, Pending.addAnnotation]) rfl rfl

/-! ### Members -/

theorem member_takesAll [LawfulOperandKind κ] (set : InstructionSet κ)
    (declaration : Declaration Element) {kind : MemberKind}
    (h : (DeclarationKind.member kind).isOwner) :
    TakesAll Member.give (.member kind) fun pending => member set pending declaration kind := by
  cases kind with
  | fieldDecl =>
    exact takesAll_of_given (fun pending => orderly_fieldNode pending declaration)
      (fun _ _ => rfl) fun pending => given_fieldNode pending declaration
  | methodDecl =>
    exact takesAll_of_given (fun pending => orderly_methodNode set pending declaration)
      (fun _ _ => rfl) fun pending => given_methodNode set pending declaration
  | annotationDecl => cases h
  | signatureDecl => cases h

theorem member_adds (set : InstructionSet κ) (declaration : Declaration Element)
    {kind : MemberKind} (h : ¬ (DeclarationKind.member kind).isOwner) :
    Adds (Declared.attributes [(.member kind, declaration)])
      fun pending => member set pending declaration kind := by
  cases kind with
  | fieldDecl => exact absurd rfl h
  | methodDecl => exact absurd rfl h
  | annotationDecl =>
    rw [Declared.attributes_annotation]
    exact adds_of_check (strict_annotationNode declaration) (fun _ => rfl) (fun _ _ => rfl)
      adds_annotation
  | signatureDecl =>
    rw [Declared.attributes_signature, ← value_singleIdentifier]
    exact adds_of_check (strict_singleIdentifier declaration "signature") (fun _ => rfl)
      (fun _ _ => rfl) adds_signature

/-- A node that is wrapped takes what it took before. -/
theorem TakesAll.wrap {μ ν : Type} {step : Pending → Check (Option μ × Pending)}
    {giveBefore : Pending → μ → μ} {give : Pending → ν → ν} {kind : DeclarationKind} {wrap : μ → ν}
    (h : TakesAll giveBefore kind step) (horderly : ∀ pending, (step pending).Orderly)
    (hwrap : ∀ pending a, give pending (wrap a) = wrap (giveBefore pending a)) :
    TakesAll give kind fun pending =>
      step pending >>= fun result => pure (result.1.map wrap, result.2) := by
  intro pending
  obtain ⟨hvalue, hfound⟩ := h pending
  rw [value_map (horderly pending), value_map (horderly {}), found_map (horderly pending),
    found_map (horderly {}), hvalue, hfound]
  exact ⟨Prod.ext (map_give hwrap pending _) rfl, rfl⟩

/-- Wrapping nodes does not matter to attributes, which have none. -/
theorem Adds.wrap {μ ν : Type} {step : Pending → Check (Option μ × Pending)} {new : Pending}
    (h : Adds new step) (horderly : ∀ pending, (step pending).Orderly) (wrap : μ → ν) :
    Adds new fun pending =>
      step pending >>= fun result => pure (result.1.map wrap, result.2) := by
  intro pending
  obtain ⟨hvalue, hfound⟩ := h pending
  rw [value_map (horderly pending), found_map (horderly pending), found_map (horderly {}), hvalue]
  exact ⟨rfl, hfound⟩

/-! ### The top level -/

/-- What an element declares at the top level, if that is allowed there. -/
def topDeclares (element : Element) : Option Declared :=
  element.declared?.filter fun declared => declared.1.isTopLevel

/-- At the top level, classes, fields and methods take what is pending. -/
theorem topLevel_takesAll [LawfulOperandKind κ] (set : InstructionSet κ)
    (declaration : Declaration Element) {kind : DeclarationKind} (h : kind.isOwner) :
    TakesAll Node.give kind fun pending => topLevel set pending declaration kind := by
  cases kind with
  | classDecl =>
    exact takesAll_of_given (fun pending => orderly_classNode set pending declaration)
      (fun _ _ => rfl) fun pending => given_classNode set pending declaration
  | member kind =>
    exact (member_takesAll set declaration h).wrap
      (fun pending => orderly_member set pending declaration kind) fun _ _ => rfl
  | superDecl => cases h
  | interfaceDecl => cases h
  | enumDecl => cases h

/-- At the top level, all other declarations add what they declare. -/
theorem topLevel_adds [LawfulOperandKind κ] (set : InstructionSet κ)
    (declaration : Declaration Element) {kind : DeclarationKind} (h : ¬ kind.isOwner)
    (htop : kind.isTopLevel) :
    Adds (Declared.attributes [(kind, declaration)])
      fun pending => topLevel set pending declaration kind := by
  cases kind with
  | classDecl => exact absurd rfl h
  | superDecl =>
    rw [Declared.attributes_superName, ← value_singleIdentifier]
    exact adds_of_check (strict_singleIdentifier declaration "super name") (fun _ => rfl)
      (fun _ _ => rfl) adds_superName
  | interfaceDecl =>
    rw [Declared.attributes_interface, ← value_singleIdentifier]
    exact adds_of_check (strict_singleIdentifier declaration "interface name") (fun _ => rfl)
      (fun _ _ => rfl) adds_interface
  | enumDecl => cases htop
  | member kind =>
    exact (member_adds set declaration h).wrap
      (fun pending => orderly_member set pending declaration kind) Node.ofMember

theorem topItem_of_kind {declaration : Declaration Element} {kind : DeclarationKind}
    (h : declaration.kind? = some kind) (set : InstructionSet κ) (pending : Pending) :
    topItem set pending (.declaration declaration) = topLevel set pending declaration kind := by
  simp only [topItem, Expect.declaration, kindOf_of_kind h, OptionT.run_pure, pure_bind]

/-- What declares nothing is one error where it stands, and changes nothing. -/
theorem topItem_of_none {element : Element} (h : topDeclares element = none) :
    ∃ problem, ∀ {κ : Type} [OperandKind κ] (set : InstructionSet κ) (pending : Pending),
      topItem set pending element = (do
        Check.error problem element.location
        return (none, pending)) := by
  cases element
  case declaration declaration =>
    cases hkind : declaration.kind? with
    | none =>
      obtain ⟨problem, hkindOf⟩ := kindOf_of_no_kind hkind
      refine ⟨problem, fun set pending => ?_⟩
      simp only [topItem, Expect.declaration, OptionT.run_pure, pure_bind, hkindOf]
      rfl
    | some kind =>
      -- only constants of enumerations are not allowed
      have hfilter : kind.isTopLevel = false := by
        simpa [topDeclares, Element.declared?, Element.declaration?, hkind] using h
      simp only [topItem_of_kind hkind]
      cases kind with
      | enumDecl => exact ⟨_, fun _ _ => rfl⟩
      | classDecl | superDecl | interfaceDecl | member => cases hfilter
  all_goals exact ⟨_, fun _ _ => rfl⟩

/-- What an element declares at the top level is its own declaration, if that is allowed there. -/
theorem topDeclares_eq_some_iff {element : Element} {declared : Declared} :
    topDeclares element = some declared
      ↔ element = .declaration declared.2 ∧ declared.2.kind? = some declared.1
        ∧ declared.1.isTopLevel := by
  unfold topDeclares
  rw [Option.filter_eq_some_iff, Element.declared?_eq_some_iff, and_assoc]

/-- An element of the top level is one error, or a declaration that is resolved by its kind. -/
theorem topItem_cases (set : InstructionSet κ) (element : Element) :
    (∃ problem location, ∀ pending, topItem set pending element = (do
        Check.error problem location
        return (none, pending)))
      ∨ ∃ declaration kind, ∀ pending,
        topItem set pending element = topLevel set pending declaration kind := by
  cases hdeclares : topDeclares element with
  | none =>
    obtain ⟨problem, hitem⟩ := topItem_of_none hdeclares
    exact .inl ⟨problem, element.location, hitem set⟩
  | some declared =>
    obtain ⟨rfl, hkind, -⟩ := topDeclares_eq_some_iff.mp hdeclares
    exact .inr ⟨declared.2, declared.1, topItem_of_kind hkind set⟩

/-- The law holds for the items of programs. -/
theorem top_law [LawfulOperandKind κ] (set : InstructionSet κ) :
    ItemLaw (topItem set) topDeclares Node.give where
  orderly := orderly_topItem set
  owner := by
    intro element declared hdeclares howner
    obtain ⟨rfl, hkind, -⟩ := topDeclares_eq_some_iff.mp hdeclares
    simp only [topItem_of_kind hkind]
    exact topLevel_takesAll set declared.2 howner
  other := by
    intro element hother
    cases hdeclares : topDeclares element with
    | none =>
      obtain ⟨problem, hitem⟩ := topItem_of_none hdeclares
      simp only [hitem]
      exact adds_nothing (strict_error problem element.location)
    | some declared =>
      obtain ⟨rfl, hkind, htop⟩ := topDeclares_eq_some_iff.mp hdeclares
      simp only [topItem_of_kind hkind]
      exact topLevel_adds set declared.2 (hother declared hdeclares) htop

/-- A program is a sequence of its elements. -/
theorem topSequence_eq (set : InstructionSet κ) (pending : Pending) (program : List Element) :
    topSequence set pending program = sequence (topItem set) pending program := by
  induction program generalizing pending with
  | nil => rfl
  | cons element program ih =>
    refine bind_congr fun (node, pending) => ?_
    show (topSequence set pending program >>= _) = _
    rw [ih]

/-! ### Bodies of classes -/

/-- Slots with the location of the nearest element before each. -/
def located : Location → List (Option Element) → List (Location × Option Element)
  | _, [] => []
  | previous, none :: rest => (previous, none) :: located previous rest
  | previous, some element :: rest => (previous, some element) :: located element.location rest

/-- Resolves a slot of the body of a class. -/
def bodySlot (set : InstructionSet κ) (pending : Pending) :
    Location × Option Element → Check (Option Member × Pending)
  | (previous, none) => do
    Check.missing "class member or member attribute" previous
    return (none, pending)
  | (_, some element) => bodyItem set pending element

/-- What a slot of the body of a class declares, if that is allowed there. -/
def memberDeclared? (slot : Option Element) : Option Declared :=
  slot.bind fun element => element.declared?.filter fun declared => declared.1.isMember

/-- What a slot declares, wherever the nearest element before it stands. -/
def bodyDeclares (slot : Location × Option Element) : Option Declared :=
  memberDeclared? slot.2

/-- A class body is a sequence of its slots, each with the place at which a hole in it is
reported. -/
theorem bodySlots_eq (set : InstructionSet κ) (pending : Pending) (previous : Location)
    (slots : List (Option Element)) :
    bodySlots set pending previous slots
      = sequence (bodySlot set) pending (located previous slots) := by
  induction slots generalizing pending previous with
  | nil => rfl
  | cons slot slots ih =>
    cases slot with
    | none =>
      show (Check.missing _ _ >>= fun _ => bodySlots set pending previous slots) = _
      rw [ih]
      simp [located, sequence, bodySlot]
    | some element =>
      refine bind_congr fun (member, pending) => ?_
      show (bodySlots set pending element.location slots >>= _) = _
      rw [ih]

/-- What a slot declares in a class body is its own declaration, if that is allowed there. -/
theorem memberDeclared?_eq_some_iff {slot : Option Element} {declared : Declared} :
    memberDeclared? slot = some declared
      ↔ slot = some (.declaration declared.2) ∧ declared.2.kind? = some declared.1
        ∧ declared.1.isMember := by
  cases slot with
  | none =>
    constructor
    · intro h
      cases h
    · rintro ⟨hslot, -⟩
      cases hslot
  | some element =>
    show element.declared?.filter _ = some declared ↔ _
    rw [Option.filter_eq_some_iff, Element.declared?_eq_some_iff, Option.some.injEq, and_assoc]

theorem bodyDeclares_eq_some_iff {previous : Location} {slot : Option Element}
    {declared : Declared} :
    bodyDeclares (previous, slot) = some declared
      ↔ slot = some (.declaration declared.2) ∧ declared.2.kind? = some declared.1
        ∧ declared.1.isMember :=
  memberDeclared?_eq_some_iff

theorem bodyItem_of_kind {declaration : Declaration Element} {kind : MemberKind}
    (h : declaration.kind? = some (.member kind)) (set : InstructionSet κ) (pending : Pending) :
    bodyItem set pending (.declaration declaration) = member set pending declaration kind := by
  simp only [bodyItem, Expect.declaration, kindOf_of_kind h, OptionT.run_pure, pure_bind]

/-- What declares nothing is one error and changes nothing, a hole included. -/
theorem bodySlot_of_none {slot : Location × Option Element} (h : bodyDeclares slot = none) :
    ∃ problem location, ∀ {κ : Type} [OperandKind κ] (set : InstructionSet κ) (pending : Pending),
      bodySlot set pending slot = (do
        Check.error problem location
        return (none, pending)) := by
  obtain ⟨previous, _ | element⟩ := slot
  · exact ⟨_, _, fun _ _ => rfl⟩
  cases element
  case declaration declaration =>
    cases hkind : declaration.kind? with
    | none =>
      obtain ⟨problem, hkindOf⟩ := kindOf_of_no_kind hkind
      refine ⟨problem, declaration.location, fun set pending => ?_⟩
      simp only [bodySlot, bodyItem, Expect.declaration, OptionT.run_pure, pure_bind, hkindOf]
      rfl
    | some kind =>
      have hkindOf := kindOf_of_kind hkind
      simp only [bodySlot, bodyItem, Expect.declaration, hkindOf, OptionT.run_pure, pure_bind]
      cases kind with
      | member kind =>
        have hsome : bodyDeclares (previous, some (.declaration declaration))
            = some (.member kind, declaration) :=
          bodyDeclares_eq_some_iff.mpr ⟨rfl, hkind, rfl⟩
        rw [hsome] at h
        cases h
      | classDecl | superDecl | interfaceDecl | enumDecl => exact ⟨_, _, fun _ _ => rfl⟩
  all_goals exact ⟨_, _, fun _ _ => rfl⟩

/-- A slot of a body is one error, or a member that is resolved by its kind. -/
theorem bodySlot_cases (set : InstructionSet κ) (slot : Location × Option Element) :
    (∃ problem location, ∀ pending, bodySlot set pending slot = (do
        Check.error problem location
        return (none, pending)))
      ∨ ∃ declaration kind, ∀ pending,
        bodySlot set pending slot = member set pending declaration kind := by
  cases hdeclares : bodyDeclares slot with
  | none =>
    obtain ⟨problem, location, hslot⟩ := bodySlot_of_none hdeclares
    exact .inl ⟨problem, location, hslot set⟩
  | some declared =>
    obtain ⟨previous, _⟩ := slot
    obtain ⟨kind, declaration⟩ := declared
    obtain ⟨rfl, hkind, hmember⟩ := bodyDeclares_eq_some_iff.mp hdeclares
    cases kind with
    | member kind => exact .inr ⟨declaration, kind, bodyItem_of_kind hkind set⟩
    | classDecl | superDecl | interfaceDecl | enumDecl => cases hmember

/-- The law holds for the items of class bodies. -/
theorem body_law [LawfulOperandKind κ] (set : InstructionSet κ) :
    ItemLaw (bodySlot set) bodyDeclares Member.give where
  orderly := by
    rintro pending ⟨previous, _ | element⟩
    · exact (orderly_missing _ _).map _
    · exact orderly_bodyItem set pending element
  owner := by
    rintro ⟨previous, slot⟩ ⟨kind, declaration⟩ hdeclares howner
    obtain ⟨rfl, hkind, hmember⟩ := bodyDeclares_eq_some_iff.mp hdeclares
    cases kind with
    | member kind =>
      simp only [bodySlot, bodyItem_of_kind hkind]
      exact member_takesAll set declaration howner
    | classDecl | superDecl | interfaceDecl | enumDecl => cases hmember
  other := by
    rintro ⟨previous, slot⟩ hother
    cases hdeclares : bodyDeclares (previous, slot) with
    | none =>
      obtain ⟨problem, location, hslot⟩ := bodySlot_of_none hdeclares
      simp only [hslot]
      exact adds_nothing (strict_error problem location)
    | some declared =>
      obtain ⟨kind, declaration⟩ := declared
      obtain ⟨rfl, hkind, hmember⟩ := bodyDeclares_eq_some_iff.mp hdeclares
      cases kind with
      | member kind =>
        simp only [bodySlot, bodyItem_of_kind hkind]
        exact member_adds set declaration (hother _ hdeclares)
      | classDecl | superDecl | interfaceDecl | enumDecl => cases hmember

end Resolve

end JvmAssembly
