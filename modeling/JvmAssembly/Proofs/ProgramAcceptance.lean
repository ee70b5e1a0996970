/-
JvmAssembly/Proofs/ProgramAcceptance.lean

Resolving accepts exactly the language of programs, and gives one node for each
declaration of a class, a field or a method.

Members, classes and whole programs are put together here.  The body of a class and
the top level are sequences, so `body_forms` and `top_forms` say what their items look
like, and the rest follows from `FormLaw`.  A class is accepted as its parts are; its
body is one of these parts.
-/
import JvmAssembly.Proofs.AttributeForms
import JvmAssembly.Proofs.MemberForms
import JvmAssembly.Proofs.SequenceForms

namespace JvmAssembly

namespace Resolve

open Check

variable {κ : Type} [OperandKind κ]

/-! ### Members -/

/-- What a member is does not depend on the attributes that it is given. -/
theorem isMember_give {set : InstructionSet κ} {declared : Declared} {member : Member}
    (h : IsMember set declared member) (pending : Pending) :
    IsMember set declared (member.give pending) := by
  cases member <;> exact h

theorem exists_isMember_field {set : InstructionSet κ} {declaration : Declaration Element} :
    (∃ member, IsMember set (.member .fieldDecl, declaration) member)
      ↔ ∃ node, IsField declaration node := by
  constructor
  · rintro ⟨node | node, hkind, h⟩
    · exact ⟨node, h⟩
    · cases hkind
  · rintro ⟨node, h⟩
    exact ⟨.field node, rfl, h⟩

theorem exists_isMember_method {set : InstructionSet κ} {declaration : Declaration Element} :
    (∃ member, IsMember set (.member .methodDecl, declaration) member)
      ↔ ∃ node, IsMethod set declaration node := by
  constructor
  · rintro ⟨node | node, hkind, h⟩
    · cases hkind
    · exact ⟨node, h⟩
  · rintro ⟨node, h⟩
    exact ⟨.method node, rfl, h⟩

variable [LawfulOperandKind κ]

/-- A declaration of the body of a class is accepted exactly if it is well formed. -/
theorem silent_member (set : InstructionSet κ) (declaration : Declaration Element)
    (kind : MemberKind) :
    (member set {} declaration kind).Silent 0
      ↔ IsBodyDeclaration set (.member kind, declaration) := by
  cases kind with
  | fieldDecl =>
    refine (silent_map (orderly_fieldNode {} declaration) _).trans
      ((accepts_fieldNode declaration).silent_iff.trans ?_)
    refine Iff.trans ?_ exists_isMember_field.symm
    exact ⟨fun ⟨node, h, _⟩ => ⟨node, h⟩, fun ⟨node, h⟩ => ⟨node.give {}, h, rfl⟩⟩
  | methodDecl =>
    refine (silent_map (orderly_methodNode set {} declaration) _).trans
      ((accepts_methodNode set declaration).silent_iff.trans ?_)
    refine Iff.trans ?_ exists_isMember_method.symm
    exact ⟨fun ⟨node, h, _⟩ => ⟨node, h⟩, fun ⟨node, h⟩ => ⟨node.give {}, h, rfl⟩⟩
  | annotationDecl =>
    refine (silent_bind_left (strict_annotationNode declaration).orderly fun node => ?_).trans
      (silent_annotationNode declaration)
    cases node <;> exact ⟨orderly_pure _, silent_pure _⟩
  | signatureDecl =>
    refine (silent_bind_left (strict_singleIdentifier declaration _).orderly fun token => ?_).trans
      (silent_singleIdentifier declaration _)
    cases token <;> exact ⟨orderly_pure _, silent_pure _⟩

/-- A field or a method that is accepted resolves to what it declares. -/
theorem value_member {set : InstructionSet κ} {declaration : Declaration Element}
    {kind : MemberKind} (h : (DeclarationKind.member kind).isOwner)
    (hform : IsBodyDeclaration set (.member kind, declaration)) :
    ∃ node, ((member set {} declaration kind).value 0).1 = some node
      ∧ IsMember set (.member kind, declaration) node := by
  have hsilent := (silent_member set declaration kind).mpr hform
  cases kind with
  | fieldDecl =>
    have hfield := orderly_fieldNode {} declaration
    obtain ⟨node, hvalue, hnode, -⟩ :=
      (accepts_fieldNode declaration).exists_value ((silent_map hfield _).mp hsilent)
    refine ⟨.field node, ?_, rfl, hnode⟩
    refine (congrArg Prod.fst (value_map hfield _)).trans ?_
    rw [hvalue]
    rfl
  | methodDecl =>
    have hmethod := orderly_methodNode set {} declaration
    obtain ⟨node, hvalue, hnode, -⟩ :=
      (accepts_methodNode set declaration).exists_value ((silent_map hmethod _).mp hsilent)
    refine ⟨.method node, ?_, rfl, hnode⟩
    refine (congrArg Prod.fst (value_map hmethod _)).trans ?_
    rw [hvalue]
    rfl
  | annotationDecl => cases h
  | signatureDecl => cases h

/-! ### Bodies of classes -/

/-- An item that is one error is not accepted. -/
theorem not_silent_of_eq_error {ν : Type} {check : Check (Option ν × Pending)} {problem : Problem}
    {location : Location} {result : Option ν × Pending}
    (h : check = (do Check.error problem location; return result)) : ¬ check.Silent 0 := by
  rw [h, silent_map (orderly_error _ _)]
  exact not_silent_error _ _

theorem get?_zero_of_isSingle {declaration : Declaration Element} (h : IsSingle declaration) :
    ∃ token, declaration.get? 0 = some (.identifier token) :=
  ((isSingle_iff declaration).mp h).1

/-- The law holds for the items of class bodies, by the grammar of what may stand there. -/
theorem body_forms (set : InstructionSet κ) :
    FormLaw (bodySlot set) bodyDeclares Member.give (IsBodyDeclaration set) (IsMember set) where
  toItemLaw := body_law set
  silent := by
    rintro ⟨previous, slot⟩
    cases hdeclares : bodyDeclares (previous, slot) with
    | none =>
      obtain ⟨problem, location, hslot⟩ := bodySlot_of_none hdeclares
      refine iff_of_false (not_silent_of_eq_error (hslot set {})) ?_
      rintro ⟨declared, hdeclared, -⟩
      cases hdeclared
    | some declared =>
      obtain ⟨kind, declaration⟩ := declared
      obtain ⟨rfl, hkind, hmember⟩ := bodyDeclares_eq_some_iff.mp hdeclares
      cases kind with
      | member kind =>
        simp only [bodySlot, bodyItem_of_kind hkind, silent_member, Option.some.injEq,
          exists_eq_left']
      | classDecl | superDecl | interfaceDecl | enumDecl => cases hmember
  identifier := by
    rintro ⟨_, declaration⟩ hform (rfl | rfl)
    · exact get?_zero_of_isSingle hform
    · -- a super name is not well formed in a body
      obtain ⟨_ | _, hkind, -⟩ := hform
      · cases hkind
      · cases hkind
  node := by
    rintro ⟨previous, slot⟩ ⟨kind, declaration⟩ hdeclares hform howner
    obtain ⟨rfl, hkind, hmember⟩ := bodyDeclares_eq_some_iff.mp hdeclares
    cases kind with
    | member kind =>
      obtain ⟨node, hvalue, hnode⟩ := value_member howner hform
      refine ⟨node, ?_, isMember_give hnode⟩
      simp only [bodySlot, bodyItem_of_kind hkind]
      exact hvalue
    | classDecl | superDecl | interfaceDecl | enumDecl => cases hmember

theorem located_map_snd (previous : Location) (slots : List (Option Element)) :
    (located previous slots).map Prod.snd = slots := by
  induction slots generalizing previous with
  | nil => rfl
  | cons slot slots ih => cases slot <;> exact congrArg _ (ih _)

theorem filterMap_located (previous : Location) (slots : List (Option Element)) :
    (located previous slots).filterMap bodyDeclares = slots.filterMap memberDeclared? := by
  conv_rhs => rw [← located_map_snd previous slots, List.filterMap_map]
  rfl

/-- In the body of a class there are no super names. -/
theorem apart_superDecl (slots : List (Option Element)) :
    Apart .superDecl (slots.filterMap memberDeclared?) := by
  intro before first between second after hsplit hfirst
  have hmem : first ∈ slots.filterMap memberDeclared? := by
    rw [hsplit]
    simp
  obtain ⟨slot, -, hslot⟩ := List.mem_filterMap.mp hmem
  obtain ⟨-, -, hmember⟩ := memberDeclared?_eq_some_iff.mp hslot
  rw [hfirst] at hmember
  cases hmember

omit [LawfulOperandKind κ] in
/-- The places of slots, which matter to what is reported about holes, do not matter to what is
accepted. -/
theorem forall_mem_located (set : InstructionSet κ) (location : Location)
    (slots : List (Option Element)) :
    (∀ item ∈ located location slots, ∃ declared,
        bodyDeclares item = some declared ∧ IsBodyDeclaration set declared)
      ↔ ∀ slot ∈ slots, ∃ declared,
        memberDeclared? slot = some declared ∧ IsBodyDeclaration set declared := by
  conv_rhs => rw [← located_map_snd location slots]
  simp only [List.forall_mem_map]
  rfl

/-- A body whose declarations are well formed resolves to what its fields and methods
declare. -/
theorem members_bodySlots {set : InstructionSet κ} {slots : List (Option Element)}
    (h : ∀ slot ∈ slots, ∃ declared,
      memberDeclared? slot = some declared ∧ IsBodyDeclaration set declared)
    (location : Location) :
    List.Forall₂ (IsMember set)
      ((slots.filterMap memberDeclared?).filter fun declared => declared.1.isOwner)
      ((bodySlots set {} location slots).value 0) := by
  have hmembers :=
    (body_forms set).owners_sequence ((forall_mem_located set location slots).mpr h)
  rw [filterMap_located] at hmembers
  rw [bodySlots_eq]
  exact hmembers

/-- The body of a class is accepted exactly if it is well formed. -/
theorem accepts_bodySlots (set : InstructionSet κ) (location : Location)
    (slots : List (Option Element)) :
    (bodySlots set {} location slots).Accepts 0 fun members =>
      IsClassBody set slots members ∧ (bodySlots set {} location slots).value 0 = members := by
  have hsilent := (body_forms set).silent_sequence (located location slots)
  rw [← bodySlots_eq, forall_mem_located, filterMap_located] at hsilent
  refine ⟨orderly_bodySlots set {} location slots, fun members => ?_⟩
  refine and_congr_left ?_
  rintro rfl
  rw [hsilent]
  -- that super names stand apart says nothing here, since there are none
  constructor
  · rintro ⟨hdeclarations, hsignatures, -⟩
    exact ⟨hdeclarations, hsignatures, members_bodySlots hdeclarations location⟩
  · intro hbody
    exact ⟨hbody.declarations, hbody.signatures, apart_superDecl slots⟩

/-! ### Classes -/

/-- A class body is accepted exactly if it is a declaration without a keyword. -/
theorem accepts_classBody {depth : Nat} (slot : Option Element) (location : Location) :
    (classBody slot location).Accepts depth
      fun body => slot = some (.declaration body) ∧ body.keyword = none := by
  have hkeyword : ∀ body : Declaration Element,
      (if body.keyword.isSome then do
          Check.error (.unexpectedElement "class body" .declaration) body.location
          failure
        else
          return body : Attempt (Declaration Element)).Accepts depth
        fun result => body.keyword = none ∧ result = body := by
    intro body
    split
    · next h =>
      refine (Attempt.Accepts.error _ _).congr fun result => ⟨False.elim, ?_⟩
      rintro ⟨hnone, -⟩
      rw [hnone] at h
      cases h
    · next h =>
      refine (Attempt.Accepts.pure body).congr fun result => ?_
      rw [Option.not_isSome_iff_eq_none.mp h]
      simp
  unfold classBody
  simp only [Expect.declaration_eq, ← bind_assoc]
  refine ((Expect.accepts_viewedSlot Element.declaration? _ slot location).bind hkeyword).congr ?_
  intro body
  constructor
  · rintro ⟨_, hslot, hnone, rfl⟩
    obtain ⟨element, rfl, helement⟩ := Option.bind_eq_some_iff.mp hslot
    cases element <;> cases helement
    exact ⟨rfl, hnone⟩
  · rintro ⟨rfl, hnone⟩
    exact ⟨body, rfl, hnone, rfl⟩

/-- What is accepted behind the body of a class, read from behind: its name and its modifiers,
and in the body its members. -/
theorem accepts_classRest (set : InstructionSet κ) (location : Location)
    (body : Declaration Element) (namePart : Option Element) (rest : List (Option Element)) :
    (classRest set {} location body namePart rest).Accepts 0 fun node =>
      ∃ members, namePart.bind Element.name? = some node.name
        ∧ AreModifiers .onClass rest.reverse node.modifiers ∧ IsClassBody set body.slots members
        ∧ (bodySlots set {} body.location body.slots).value 0 = members
        ∧ node = { node.give {} with
          location, fields := fieldsOf members, methods := methodsOf members } := by
  refine ((accepts_nameSlot _ _ _).optional_bind ?_ fun name =>
    (accepts_modifiers _ _ _).lift.bind fun found => (accepts_bodySlots set _ _).lift.bind
      fun members => Attempt.Accepts.pure _).congr ?_
  · exact fun _ => (orderly_modifiers _ _ _).lift.bind_attempt fun _ =>
      (orderly_bodySlots _ _ _ _).lift.bind_attempt fun _ => orderly_pure _
  intro node
  constructor
  · rintro ⟨name, hname, found, hfound, members, ⟨hbody, hmembers⟩, rfl⟩
    exact ⟨members, hname, hfound, hbody, hmembers, rfl⟩
  · rintro ⟨members, hname, hfound, hbody, hmembers, hnode⟩
    exact ⟨node.name, hname, node.modifiers, hfound, members, ⟨hbody, hmembers⟩, hnode⟩

/-- A class is accepted exactly in its form, with the members that its body resolves to. -/
theorem accepts_classNode (set : InstructionSet κ) (declaration : Declaration Element) :
    (classNode set {} declaration).Accepts 0 fun node =>
      ∃ modifiers name body members,
        declaration.slots = modifiers ++ [some name, some (.declaration body)]
          ∧ body.keyword = none ∧ AreModifiers .onClass modifiers node.modifiers
          ∧ name.name? = some node.name ∧ IsClassBody set body.slots members
          ∧ (bodySlots set {} body.location body.slots).value 0 = members
          ∧ node = { node.give {} with
            location := declaration.location
            fields := fieldsOf members
            methods := methodsOf members } := by
  rw [classNode_parts]
  match hslots : declaration.slots.reverse with
  | [] =>
    refine (Attempt.Accepts.error _ _).congr fun node => ⟨False.elim, ?_⟩
    rintro ⟨modifiers, name, body, members, hform, -⟩
    rw [hform] at hslots
    simp at hslots
  | [bodyPart] =>
    refine ((accepts_classBody _ _).bind fun _ => Attempt.Accepts.error _ _).congr fun node => ?_
    constructor
    · rintro ⟨_, -, hfalse⟩
      exact hfalse.elim
    · rintro ⟨modifiers, name, body, members, hform, -⟩
      rw [hform] at hslots
      simp at hslots
  | bodyPart :: namePart :: rest =>
    refine ((accepts_classBody _ _).bind fun body =>
      accepts_classRest set _ body namePart rest).congr fun node => ?_
    constructor
    · rintro ⟨body, ⟨rfl, hkeyword⟩, members, hname, hmodifiers, hbody, hmembers, hnode⟩
      obtain ⟨name, rfl, hname⟩ := Option.bind_eq_some_iff.mp hname
      refine ⟨rest.reverse, name, body, members, ?_, hkeyword, hmodifiers, hname, hbody, hmembers,
        hnode⟩
      rw [List.reverse_eq_iff.mp hslots]
      simp
    · rintro ⟨modifiers, name, body, members, hform, hkeyword, hmodifiers, hname, hbody, hmembers,
        hnode⟩
      rw [hform] at hslots
      obtain ⟨rfl, rfl, rfl⟩ : _ ∧ _ ∧ _ := by simpa using hslots
      refine ⟨body, ⟨rfl, hkeyword⟩, members, hname, ?_, hbody, hmembers, hnode⟩
      rw [List.reverse_reverse]
      exact hmodifiers

/-- A class that is accepted resolves to what it declares. -/
theorem value_classNode {set : InstructionSet κ} {declaration : Declaration Element}
    (h : (classNode set {} declaration).run.Silent 0) :
    ∃ node, (classNode set {} declaration).run.value 0 = some node
      ∧ IsClass set declaration node := by
  obtain ⟨node, hvalue, modifiers, name, body, members, hslots, hkeyword, hmodifiers, hname, hbody,
    -, hnode⟩ := (accepts_classNode set declaration).exists_value h
  refine ⟨node, hvalue, modifiers, name, body, members, hslots, hkeyword, hmodifiers, hname, hbody,
    ?_, ?_, ?_⟩
  all_goals rw [hnode]

/-- A class is accepted exactly if it is one by the grammar. -/
theorem silent_classNode (set : InstructionSet κ) (declaration : Declaration Element) :
    (classNode set {} declaration).run.Silent 0 ↔ ∃ node, IsClass set declaration node := by
  constructor
  · intro h
    obtain ⟨node, -, hnode⟩ := value_classNode h
    exact ⟨node, hnode⟩
  · rintro ⟨node, modifiers, name, body, members, hslots, hkeyword, hmodifiers, hname, hbody, -⟩
    -- the members in the rule may have other attributes than those the body gives them
    have hmembers : IsClassBody set body.slots
        ((bodySlots set {} body.location body.slots).value 0) :=
      ⟨hbody.declarations, hbody.signatures, members_bodySlots hbody.declarations _⟩
    refine (accepts_classNode set declaration).silent_iff.mpr ⟨{ node.give {} with
      location := declaration.location
      fields := fieldsOf ((bodySlots set {} body.location body.slots).value 0)
      methods := methodsOf ((bodySlots set {} body.location body.slots).value 0) }, ?_⟩
    exact ⟨modifiers, name, body, _, hslots, hkeyword, hmodifiers, hname, hmembers, rfl, rfl⟩

/-! ### Programs -/

omit [LawfulOperandKind κ] in
theorem isNode_give {set : InstructionSet κ} {declared : Declared} {node : Node}
    (h : IsNode set declared node) (pending : Pending) :
    IsNode set declared (node.give pending) := by
  cases node with
  | ofClass node => exact h
  | ofMember member => exact isMember_give h pending

omit [LawfulOperandKind κ] in
theorem exists_isNode_class {set : InstructionSet κ} {declaration : Declaration Element} :
    (∃ node, IsNode set (.classDecl, declaration) node)
      ↔ ∃ node, IsClass set declaration node := by
  constructor
  · rintro ⟨node | node | node, hkind, h⟩
    · exact ⟨node, h⟩
    · cases hkind
    · cases hkind
  · rintro ⟨node, h⟩
    exact ⟨.ofClass node, rfl, h⟩

omit [LawfulOperandKind κ] in
theorem exists_isNode_member {set : InstructionSet κ} {declaration : Declaration Element}
    {kind : MemberKind} :
    (∃ node, IsNode set (.member kind, declaration) node)
      ↔ ∃ member, IsMember set (.member kind, declaration) member := by
  constructor
  · rintro ⟨node | member, h⟩
    · cases h.1
    · exact ⟨member, h⟩
  · rintro ⟨member, h⟩
    exact ⟨.ofMember member, h⟩

/-- A declaration of the top level is accepted exactly if it is well formed. -/
theorem silent_topLevel (set : InstructionSet κ) (declaration : Declaration Element)
    {kind : DeclarationKind} (h : kind.isTopLevel) :
    (topLevel set {} declaration kind).Silent 0 ↔ IsTopDeclaration set (kind, declaration) := by
  have hsingle : ∀ (expected : String) (next : Option Token → Check (Option Node × Pending)),
      (∀ token, (next token).Orderly ∧ (next token).Silent 0) →
      (((singleIdentifier declaration expected).run >>= next).Silent 0 ↔ IsSingle declaration) :=
    fun expected next hnext =>
      (silent_bind_left (strict_singleIdentifier declaration expected).orderly hnext).trans
        (silent_singleIdentifier declaration expected)
  cases kind with
  | classDecl =>
    refine (silent_map (orderly_classNode set {} declaration) _).trans
      ((silent_classNode set declaration).trans exists_isNode_class.symm)
  | superDecl =>
    refine hsingle _ _ fun token => ?_
    cases token <;> exact ⟨orderly_pure _, silent_pure _⟩
  | interfaceDecl =>
    refine hsingle _ _ fun token => ?_
    cases token <;> exact ⟨orderly_pure _, silent_pure _⟩
  | enumDecl => cases h
  | member kind =>
    refine (silent_map (orderly_member set {} declaration kind) _).trans
      ((silent_member set declaration kind).trans ?_)
    cases kind with
    | fieldDecl => exact exists_isNode_member.symm
    | methodDecl => exact exists_isNode_member.symm
    | annotationDecl => exact Iff.rfl
    | signatureDecl => exact Iff.rfl

/-- A class, a field or a method of the top level that is accepted resolves to what it
declares. -/
theorem value_topLevel {set : InstructionSet κ} {declaration : Declaration Element}
    {kind : DeclarationKind} (h : kind.isOwner)
    (hform : IsTopDeclaration set (kind, declaration)) :
    ∃ node, ((topLevel set {} declaration kind).value 0).1 = some node
      ∧ IsNode set (kind, declaration) node := by
  cases kind with
  | classDecl =>
    have hsilent := (silent_classNode set declaration).mpr (exists_isNode_class.mp hform)
    obtain ⟨node, hvalue, hnode⟩ := value_classNode hsilent
    refine ⟨.ofClass node, ?_, rfl, hnode⟩
    refine (congrArg Prod.fst (value_map (orderly_classNode set {} declaration) _)).trans ?_
    rw [hvalue]
    rfl
  | member kind =>
    have hbody : IsBodyDeclaration set (.member kind, declaration) := by
      cases kind with
      | fieldDecl => exact exists_isNode_member.mp hform
      | methodDecl => exact exists_isNode_member.mp hform
      | annotationDecl => exact hform
      | signatureDecl => exact hform
    obtain ⟨node, hvalue, hnode⟩ := value_member h hbody
    refine ⟨.ofMember node, ?_, hnode⟩
    refine (congrArg Prod.fst (value_map (orderly_member set {} declaration kind) _)).trans ?_
    rw [hvalue]
    rfl
  | superDecl => cases h
  | interfaceDecl => cases h
  | enumDecl => cases h

/-- The law holds for the items of programs, by the grammar of what may stand at the top level. -/
theorem top_forms (set : InstructionSet κ) :
    FormLaw (topItem set) topDeclares Node.give (IsTopDeclaration set) (IsNode set) where
  toItemLaw := top_law set
  silent := by
    intro element
    cases hdeclares : topDeclares element with
    | none =>
      obtain ⟨problem, hitem⟩ := topItem_of_none hdeclares
      refine iff_of_false (not_silent_of_eq_error (hitem set {})) ?_
      rintro ⟨declared, hdeclared, -⟩
      cases hdeclared
    | some declared =>
      obtain ⟨rfl, hkind, htop⟩ := topDeclares_eq_some_iff.mp hdeclares
      rw [topItem_of_kind hkind, silent_topLevel set declared.2 htop]
      simp
  identifier := by
    rintro ⟨_, declaration⟩ hform (rfl | rfl)
    · exact get?_zero_of_isSingle hform
    · exact get?_zero_of_isSingle hform
  node := by
    intro element declared hdeclares hform howner
    obtain ⟨rfl, hkind, -⟩ := topDeclares_eq_some_iff.mp hdeclares
    obtain ⟨node, hvalue, hnode⟩ := value_topLevel howner hform
    refine ⟨node, ?_, isNode_give hnode⟩
    rw [topItem_of_kind hkind]
    exact hvalue

end Resolve

/-- Resolving a program is free of errors exactly if the program is well formed, and then it
gives what the program declares: one node for each class, field and method of the top level,
in order, and in each class one for each field and method of its body. -/
theorem resolve_accepts_programs {κ : Type} [OperandKind κ] [LawfulOperandKind κ]
    (set : InstructionSet κ) (program : List Element) :
    ((resolve set program).isOk ↔ IsProgram set program)
      ∧ ((resolve set program).isOk → DeclaresNodes set program (resolve set program).nodes) := by
  have hforms := Resolve.top_forms set
  have hok : (resolve set program).isOk ↔ IsProgram set program := by
    have hsilent : (resolve set program).isOk
        ↔ (Resolve.sequence (Resolve.topItem set) {} program).Silent 0 := by
      rw [resolve_eq, Resolve.topSequence_eq]
      simp [Resolution.isOk, Report.hasErrors, Check.Silent]
    rw [hsilent, hforms.silent_sequence]
    constructor
    · rintro ⟨hdeclarations, hsignatures, hsuperNames⟩
      exact ⟨hdeclarations, hsignatures, hsuperNames⟩
    · intro hprogram
      exact ⟨hprogram.declarations, hprogram.signatures, hprogram.superNames⟩
  refine ⟨hok, fun h => ?_⟩
  rw [resolve_eq, Resolve.topSequence_eq]
  exact hforms.owners_sequence (hok.mp h).declarations

/-- A method with a label and an instruction, and a field behind its signature. -/
def programSample : List Element :=
  let location : Location := ⟨1, 1, "t"⟩
  let token (kind : TokenKind) (text : String) : Token := ⟨kind, Content.ofString text, location⟩
  let word (text : String) : Option Element := some (.identifier (token .identifier text))
  let item (keyword : String) (slots : List (Option Element)) : Element :=
    .declaration ⟨some (token .identifier keyword), slots, location⟩
  let argument : Option Element := some (.number (token .number "5"))
  let code : Element := .code ⟨[some (.label (token .identifier "start")),
    some (.instruction ⟨token .identifier "bipush", [argument]⟩)], location⟩
  let body : Element := .object ⟨[⟨token .identifier "code", some code⟩], location⟩
  [item ".method" [word "static", word "m", word "()V", some body],
    item ".signature" [word "LA;"], item ".field" [word "x", word "I"]]

/-- The sample is a program that declares two nodes, but not if there are no instructions. -/
theorem programSample_accepted :
    IsProgram bipushSet programSample
      ∧ DeclaresNodes bipushSet programSample (resolve bipushSet programSample).nodes
      ∧ (resolve bipushSet programSample).nodes.length = 2
      ∧ ¬ IsProgram ({} : InstructionSet DefaultOperand) programSample := by
  obtain ⟨haccepts, hnodes⟩ := resolve_accepts_programs bipushSet programSample
  obtain ⟨hrefuses, -⟩ :=
    resolve_accepts_programs ({} : InstructionSet DefaultOperand) programSample
  have hok : (resolve bipushSet programSample).isOk := by decide
  exact ⟨haccepts.mp hok, hnodes hok, by decide, mt hrefuses.mpr (by decide)⟩

end JvmAssembly
