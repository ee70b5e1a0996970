/-
JvmAssembly/Proofs/AttributeOwner.lean

Pending attributes go to exactly one owner.

In a sequence, the window of an owner is what stands between the previous owner and
itself.  `OwnerLaw` says for a kind of sequence that the owner gets the attributes
of its window and nothing else: a sequence splits in front of a window and behind
its owner, what lies outside is resolved as if it stood alone, and the owner is
resolved as if it stood alone and then given the attributes.  Inside a window,
every item reports what it would report alone, and a second signature or super
name one error more.

The law holds for programs and for the bodies of classes, and a class starts its
body with nothing pending (`class_law`).
-/
import Mathlib.Data.List.Induction
import JvmAssembly.Proofs.SequenceItems

namespace JvmAssembly

namespace Resolve

open Check

variable {κ : Type} [OperandKind κ] [LawfulOperandKind κ]

variable {ι ν : Type} {item : Pending → ι → Check (Option ν × Pending)}
  {declares : ι → Option Declared} {give : Pending → ν → ν}

/-- Items behind which nothing is pending: there are none, or the last one is an owner. -/
def EndsOwned (declares : ι → Option Declared) (items : List ι) : Prop :=
  items = [] ∨ ∃ front owner, items = front ++ [owner] ∧ Owns declares owner

/-- Who gets the attributes of a kind of sequence, where `nodes` and `report` are what the
sequence of some items resolves to and what is reported about it. -/
structure OwnerLaw (nodes : List ι → List ν) (report : List ι → Report)
    (declares : ι → Option Declared) (give : Pending → ν → ν) : Prop where
  /-- What stands before an owner ends with its window. -/
  split : ∀ before, ∃ front window, before = front ++ window ∧ EndsOwned declares front
    ∧ ∀ i ∈ window, ¬ Owns declares i
  /-- The owner of a window gets its attributes. -/
  owner : ∀ front window owner after declared, EndsOwned declares front →
    (∀ i ∈ window, ¬ Owns declares i) → declares owner = some declared → declared.1.isOwner →
    nodes (front ++ window ++ owner :: after)
        = nodes front ++ (nodes [owner]).map (give (attributesOf declares window)) ++ nodes after
      ∧ (report (front ++ window ++ owner :: after)).errors
        = (report front).errors ++ (report window).errors ++ (report [owner]).errors
          ++ (report after).errors
      ∧ (report (front ++ window ++ owner :: after)).warnings
        = (report front).warnings ++ declared.1.ownerWarnings (attributesOf declares window)
          ++ (report [owner]).warnings ++ (report after).warnings
  /-- Attributes behind the last owner go to nobody, and each that was kept is warned of. -/
  unowned : ∀ front window, EndsOwned declares front → (∀ i ∈ window, ¬ Owns declares i) →
    nodes (front ++ window) = nodes front
      ∧ (report (front ++ window)).errors = (report front).errors ++ (report window).errors
      ∧ (report (front ++ window)).warnings
        = (report front).warnings ++ (attributesOf declares window).unusedWarnings
  /-- Inside a window, an item is reported as if it stood alone, and once more if it repeats
  an attribute. -/
  next : ∀ earlier i, (∀ j ∈ earlier ++ [i], ¬ Owns declares j) →
    (report (earlier ++ [i])).errors
      = (report earlier).errors ++ (report [i]).errors
        ++ (attributesOf declares earlier).duplicates (attributesOf declares [i])
  /-- A second signature or super name is one error at its identifier, and changes nothing. -/
  second : ∀ earlier i declared token, declares i = some declared →
    (declared.identifierOf (.member .signatureDecl) = some token →
      (attributesOf declares earlier).signature.isSome →
      (attributesOf declares earlier).duplicates (attributesOf declares [i])
          = [⟨.duplicateAttribute "Signature", token.location⟩]
        ∧ attributesOf declares (earlier ++ [i]) = attributesOf declares earlier)
    ∧ (declared.identifierOf .superDecl = some token →
      (attributesOf declares earlier).superName.isSome →
      (attributesOf declares earlier).duplicates (attributesOf declares [i])
          = [⟨.duplicateAttribute "Super name", token.location⟩]
        ∧ attributesOf declares (earlier ++ [i]) = attributesOf declares earlier)

/-- The window of an owner goes back to the owner before it, or to the start. -/
theorem exists_window (declares : ι → Option Declared) (before : List ι) :
    ∃ front window, before = front ++ window ∧ EndsOwned declares front
      ∧ ∀ i ∈ window, ¬ Owns declares i := by
  induction before using List.reverseRecOn with
  | nil => exact ⟨[], [], rfl, .inl rfl, by simp⟩
  | append_singleton before i ih =>
    -- behind an owner a new window begins, and any other item joins the window
    by_cases hi : Owns declares i
    · refine ⟨before ++ [i], [], (List.append_nil _).symm, .inr ⟨before, i, rfl, hi⟩, ?_⟩
      simp
    · obtain ⟨front, window, rfl, hfront, hwindow⟩ := ih
      refine ⟨front, window ++ [i], List.append_assoc _ _ _, hfront, ?_⟩
      intro j hj
      rcases List.mem_append.mp hj with hj | hj
      · exact hwindow j hj
      · rw [List.mem_singleton.mp hj]
        exact hi

namespace ItemLaw

/-! ### Splitting a sequence -/

/-- Nothing is pending behind a declaration that takes attributes. -/
theorem left_of_endsOwned (law : ItemLaw item declares give) {front : List ι}
    (h : EndsOwned declares front) : leftAfter item {} front = {} := by
  obtain rfl | ⟨items, owner, rfl, howner⟩ := h
  · rfl
  · exact law.left_owner howner items

/-- With nothing pending, a sequence goes on as if it began there. -/
theorem value_append (law : ItemLaw item declares give) {front : List ι}
    (h : leftAfter item {} front = {}) (rest : List ι) :
    (sequence item {} (front ++ rest)).value 0
      = (sequence item {} front).value 0 ++ (sequence item {} rest).value 0 := by
  rw [law.value_sequence, law.value_sequence, law.value_sequence, nodesOf_append, h]

/-- What is reported about a sequence is what is reported about two parts of it, if nothing is
pending between them. -/
theorem found_append (law : ItemLaw item declares give) {front : List ι}
    (h : leftAfter item {} front = {}) (rest : List ι) :
    (sequence item {} (front ++ rest)).found 0
      = (sequence item {} front).found 0 ++ (sequence item {} rest).found 0 := by
  have hunused : (⟨[], ({} : Pending).unusedWarnings⟩ : Report) = {} := rfl
  rw [law.found_sequence, law.found_sequence, law.found_sequence, reportOf_append,
    leftAfter_append, h, hunused, Report.append_empty, Report.append_assoc]

variable {window : List ι} {owner : ι} {declared : Declared}

/-! ### A window and its owner -/

/-- A window has no nodes: only declarations that take attributes become nodes. -/
theorem value_window (law : ItemLaw item declares give) (h : ∀ i ∈ window, ¬ Owns declares i) :
    (sequence item {} window).value 0 = [] := by
  rw [law.value_sequence, law.window_nodes h]

theorem errors_sequence (law : ItemLaw item declares give) (items : List ι) :
    ((sequence item {} items).found 0).errors = (reportOf item {} items).errors := by
  rw [law.found_sequence, Report.errors_append, List.append_nil]

/-- The warnings about a window without an owner are those about its unused attributes. -/
theorem warnings_window (law : ItemLaw item declares give)
    (h : ∀ i ∈ window, ¬ Owns declares i) :
    ((sequence item {} window).found 0).warnings
      = (attributesOf declares window).unusedWarnings := by
  rw [law.found_sequence, Report.warnings_append, law.window_warnings h, law.window_left h]
  rfl

/-- An owner behind its window is resolved as if alone, and then given the attributes. -/
theorem value_owner (law : ItemLaw item declares give) (h : ∀ i ∈ window, ¬ Owns declares i)
    (hdeclares : declares owner = some declared) (howner : declared.1.isOwner) :
    (sequence item {} (window ++ [owner])).value 0
      = ((sequence item {} [owner]).value 0).map (give (attributesOf declares window)) := by
  have hvalue := (law.owner hdeclares howner (attributesOf declares window)).1
  rw [law.value_sequence, law.value_sequence, nodesOf_append, law.window_nodes h,
    law.window_left h, Pending.empty_append]
  show [] ++ (((item (attributesOf declares window) owner).value 0).1.toList ++ []) = _
  rw [hvalue]
  show [] ++ ((((item {} owner).value 0).1.map _).toList ++ []) = (_ ++ []).map _
  cases ((item {} owner).value 0).1 <;> rfl

/-- What is reported about a window and its owner: the reports about the attributes, the warnings
about attributes that the owner cannot have, and what is reported about the owner by itself. -/
theorem found_owner (law : ItemLaw item declares give) (h : ∀ i ∈ window, ¬ Owns declares i)
    (hdeclares : declares owner = some declared) (howner : declared.1.isOwner) :
    (sequence item {} (window ++ [owner])).found 0
      = reportOf item {} window
        ++ (⟨[], declared.1.ownerWarnings (attributesOf declares window)⟩
          ++ (sequence item {} [owner]).found 0) := by
  have howns : Owns declares owner := ⟨declared, hdeclares, howner⟩
  have hfound := (law.owner hdeclares howner (attributesOf declares window)).2
  have hunused : (⟨[], ({} : Pending).unusedWarnings⟩ : Report) = {} := rfl
  have hleft : leftAfter item {} [owner] = {} := law.left_owner howns []
  rw [law.found_sequence, law.found_sequence, reportOf_append, law.left_owner howns, hleft,
    law.window_left h, Pending.empty_append, hunused, Report.append_empty, Report.append_empty]
  show _ ++ ((item (attributesOf declares window) owner).found 0 ++ {}) = _
  rw [hfound, Report.append_empty]
  show _ = _ ++ (_ ++ ((item {} owner).found 0 ++ {}))
  rw [Report.append_empty]

/-- One more item of a window is reported as if alone, and for what it repeats. -/
theorem errors_next (law : ItemLaw item declares give) {earlier : List ι}
    (h : ∀ j ∈ earlier, ¬ Owns declares j) (i : ι) :
    ((sequence item {} (earlier ++ [i])).found 0).errors
      = ((sequence item {} earlier).found 0).errors ++ ((sequence item {} [i]).found 0).errors
        ++ (attributesOf declares earlier).duplicates (attributesOf declares [i]) := by
  rw [law.errors_sequence, law.errors_sequence, law.errors_sequence, reportOf_append,
    law.window_left h, Pending.empty_append, Report.errors_append, List.append_assoc]
  show _ ++ ((item _ i).found 0 ++ {}).errors = _ ++ (((item {} i).found 0 ++ {}).errors ++ _)
  rw [Report.append_empty, Report.append_empty, law.errors_found_item]

end ItemLaw

theorem identifierOf_eq_some_iff {declared : Declared} {kind : DeclarationKind} {token : Token} :
    declared.identifierOf kind = some token
      ↔ declared.1 = kind ∧ (declared.2.get? 0).bind Element.identifier? = some token := by
  unfold Declared.identifierOf
  split
  · next h => exact ⟨fun htoken => ⟨h, htoken⟩, fun htoken => htoken.2⟩
  · next h => simp [h]

/-- An item with an identifier of its own adds the attribute that its kind names. -/
theorem attributesOf_identifier {kind : DeclarationKind} {new : Token → Pending} {i : ι}
    {declared : Declared} {token : Token} (hdeclares : declares i = some declared)
    (htoken : declared.identifierOf kind = some token)
    (hnew : ∀ declaration, Declared.attributes [(kind, declaration)]
      = (((declaration.get? 0).bind Element.identifier?).map new).getD {}) :
    attributesOf declares [i] = new token := by
  obtain ⟨_, declaration⟩ := declared
  obtain ⟨rfl, hidentifier⟩ := identifierOf_eq_some_iff.mp htoken
  rw [attributesOf_singleton, hdeclares]
  refine (hnew declaration).trans ?_
  rw [hidentifier]
  rfl

/-- The law of items gives the law of owners. -/
theorem ItemLaw.ownerLaw (law : ItemLaw item declares give) :
    OwnerLaw (fun items => (sequence item {} items).value 0)
      (fun items => (sequence item {} items).found 0) declares give where
  split := exists_window declares
  owner := by
    intro front window owner after declared hfront hwindow hdeclares howner
    have hfront : leftAfter item {} front = {} := law.left_of_endsOwned hfront
    have howned : leftAfter item {} (window ++ [owner]) = {} :=
      law.left_owner ⟨declared, hdeclares, howner⟩ window
    have hsplit : front ++ window ++ owner :: after = front ++ ((window ++ [owner]) ++ after) := by
      simp
    -- nothing is pending behind the front, nor behind the owner
    rw [hsplit, law.value_append hfront, law.value_append howned, law.found_append hfront,
      law.found_append howned, law.value_owner hwindow hdeclares howner,
      law.found_owner hwindow hdeclares howner, law.errors_sequence window]
    simp [law.window_warnings hwindow]
  unowned := by
    intro front window hfront hwindow
    have hfront : leftAfter item {} front = {} := law.left_of_endsOwned hfront
    rw [law.value_append hfront, law.found_append hfront, law.value_window hwindow,
      List.append_nil, Report.errors_append, Report.warnings_append, law.warnings_window hwindow]
    exact ⟨rfl, rfl, rfl⟩
  next := by
    intro earlier i hwindow
    exact law.errors_next (fun j hj => hwindow j (List.mem_append_left _ hj)) i
  second := by
    intro earlier i declared token hdeclares
    constructor
    · intro htoken hheld
      obtain ⟨held, hheld⟩ := Option.isSome_iff_exists.mp hheld
      rw [attributesOf_append,
        attributesOf_identifier hdeclares htoken Declared.attributes_signature]
      exact Pending.second_signature hheld token
    · intro htoken hheld
      obtain ⟨held, hheld⟩ := Option.isSome_iff_exists.mp hheld
      rw [attributesOf_append,
        attributesOf_identifier hdeclares htoken Declared.attributes_superName]
      exact Pending.second_superName hheld token

/-! ### Classes start their bodies afresh -/

omit [LawfulOperandKind κ] in
/-- A class with a name and a body checks these parts, whatever is pending before it. -/
theorem classNode_of_body {declaration body : Declaration Element} {front : List (Option Element)}
    {name : Option Element} (hslots : declaration.slots = front ++ [name, some (.declaration body)])
    (hkeyword : body.keyword = none) (set : InstructionSet κ) :
    classNode set {} declaration
      = classRest set {} declaration.location body name front.reverse := by
  have hreverse : declaration.slots.reverse
      = some (.declaration body) :: name :: front.reverse := by
    rw [hslots]
    simp
  have hbody : classBody (some (.declaration body)) declaration.location = pure body := by
    simp only [classBody, Expect.present, Expect.declaration, pure_bind, hkeyword]
    rfl
  rw [classNode_parts, hreverse]
  show (classBody (some (.declaration body)) _ >>= fun body => _) = _
  rw [hbody, pure_bind]

/-- What is reported about a class with a body: first its name, then its modifiers, then its
members. -/
theorem found_classRest (set : InstructionSet κ) (location : Location) (body : Declaration Element)
    (name : Option Element) (rest : List (Option Element)) :
    (classRest set {} location body name rest).run.found 0
      = (nameSlot "class name" name location).run.found 0
        ++ (modifiers .onClass location rest.reverse).found 0
        ++ (bodySlots set {} body.location body.slots).found 0 := by
  have hbody := orderly_bodySlots set {} body.location body.slots
  have hmodifiers := orderly_modifiers .onClass location rest.reverse
  refine (found_lift_bind (orderly_nameSlot _ name location) ?_).trans ?_
  · exact hmodifiers.lift.bind_attempt fun _ => hbody.lift.bind_attempt fun _ => orderly_pure _
  rw [found_lift_bind hmodifiers (hbody.lift.bind_attempt fun _ => orderly_pure _),
    found_lift_bind hbody (orderly_pure _)]
  show _ ++ (_ ++ (_ ++ ({} : Report))) = _
  rw [Report.append_empty, Report.append_assoc]

theorem members_of_classRest {set : InstructionSet κ} {location : Location}
    {body : Declaration Element} {name : Option Element} {rest : List (Option Element)}
    {node : ClassNode Element}
    (h : (classRest set {} location body name rest).run.value 0 = some node) :
    node.fields = fieldsOf ((bodySlots set {} body.location body.slots).value 0)
      ∧ node.methods = methodsOf ((bodySlots set {} body.location body.slots).value 0) := by
  have hbody := orderly_bodySlots set {} body.location body.slots
  have hmodifiers := orderly_modifiers .onClass location rest.reverse
  have hvalue := (value_lift_bind (orderly_nameSlot "class name" name location) ?_).symm.trans h
  · rw [value_lift_bind hmodifiers (hbody.lift.bind_attempt fun _ => orderly_pure _),
      value_lift_bind hbody (orderly_pure _)] at hvalue
    obtain ⟨token, -, rfl⟩ := Option.map_eq_some_iff.mp hvalue
    exact ⟨rfl, rfl⟩
  · exact hmodifiers.lift.bind_attempt fun _ => hbody.lift.bind_attempt fun _ => orderly_pure _

theorem body_of_classBody {slot : Option Element} {location : Location} {depth : Nat}
    {body : Declaration Element} (h : (classBody slot location).run.value depth = some body) :
    slot = some (.declaration body) ∧ body.keyword = none := by
  match slot with
  | none => cases h
  | some element =>
    cases element
    case declaration declaration =>
      have hbody : classBody (some (.declaration declaration)) location
          = (if declaration.keyword.isSome then do
              Check.error (.unexpectedElement "class body" .declaration) declaration.location
              failure
            else
              return declaration) := rfl
      rw [hbody] at h
      split at h
      · cases h
      · next hkeyword =>
        cases h
        exact ⟨rfl, Option.not_isSome_iff_eq_none.mp hkeyword⟩
    all_goals cases h

/-- Only a class with a body in its last slot resolves. -/
theorem body_of_classNode {set : InstructionSet κ} {declaration : Declaration Element}
    {node : ClassNode Element} (h : (classNode set {} declaration).run.value 0 = some node) :
    ∃ front name body, declaration.slots = front ++ [name, some (.declaration body)]
      ∧ body.keyword = none := by
  have hbody := fun slot => orderly_classBody slot declaration.location
  rw [classNode_parts] at h
  match hslots : declaration.slots.reverse with
  | [] =>
    rw [hslots] at h
    cases h
  | [bodyPart] =>
    -- without a name, the body is checked and the class is dropped
    rw [hslots] at h
    have hvalue := (value_bind_attempt (hbody bodyPart) fun _ _ =>
      (orderly_missing _ _).lift.bind_attempt fun _ => orderly_pure none).symm.trans h
    obtain ⟨_, -, hnone⟩ := Option.bind_eq_some_iff.mp hvalue
    cases hnone
  | bodyPart :: name :: rest =>
    rw [hslots] at h
    have hvalue := (value_bind_attempt (hbody bodyPart) fun _ _ =>
      orderly_classRest _ _ _ _ _ _).symm.trans h
    obtain ⟨body, hbodyPart, -⟩ := Option.bind_eq_some_iff.mp hvalue
    obtain ⟨rfl, hkeyword⟩ := body_of_classBody hbodyPart
    refine ⟨rest.reverse, name, body, ?_, hkeyword⟩
    rw [List.reverse_eq_iff.mp hslots]
    simp

/-- What happens inside of a class on its own: its body is a sequence that starts with nothing
pending. -/
structure ClassLaw (set : InstructionSet κ) : Prop where
  /-- What is reported about the body comes last, and is the same whether or not the class
  resolves. -/
  report : ∀ declaration front name body, declaration.kind? = some .classDecl →
    declaration.slots = front ++ [name, some (.declaration body)] → body.keyword = none →
    (resolve set [.declaration declaration]).report
      = (nameSlot "class name" name declaration.location).run.found 0
        ++ (modifiers .onClass declaration.location front).found 0
        ++ (sequence (bodySlot set) {} (located body.location body.slots)).found 0
  /-- A class that resolves has a body, and the members that the body resolves to. -/
  members : ∀ declaration node, declaration.kind? = some .classDecl →
    Node.ofClass node ∈ (resolve set [.declaration declaration]).nodes →
    ∃ front name body, declaration.slots = front ++ [name, some (.declaration body)]
      ∧ body.keyword = none
      ∧ node.fields = fieldsOf
        ((sequence (bodySlot set) {} (located body.location body.slots)).value 0)
      ∧ node.methods = methodsOf
        ((sequence (bodySlot set) {} (located body.location body.slots)).value 0)

/-- A class alone in a program. -/
theorem resolve_class {declaration : Declaration Element}
    (h : declaration.kind? = some .classDecl) (set : InstructionSet κ) :
    resolve set [.declaration declaration]
      = ⟨((classNode set {} declaration).run.value 0).toList.map .ofClass,
          (classNode set {} declaration).run.found 0⟩ := by
  have hclass := orderly_classNode set {} declaration
  have hsequence : topSequence set {} [.declaration declaration]
      = (classNode set {} declaration).run >>= fun node =>
        pure (node.toList.map Node.ofClass) := by
    unfold topSequence
    rw [topItem_of_kind h]
    refine (bind_assoc _ _ _).trans (bind_congr fun node => ?_)
    cases node <;> rfl
  rw [resolve_eq, hsequence, value_map hclass, found_map hclass]

/-- The law holds for every class: its body is a sequence of its own, to which nothing comes from
outside. -/
theorem class_law (set : InstructionSet κ) : ClassLaw set where
  report := by
    intro declaration front name body hkind hslots hkeyword
    rw [resolve_class hkind, classNode_of_body hslots hkeyword, ← bodySlots_eq, found_classRest,
      List.reverse_reverse]
  members := by
    intro declaration node hkind hnode
    rw [resolve_class hkind] at hnode
    obtain ⟨_, hvalue, ⟨⟩⟩ := List.mem_map.mp hnode
    rw [Option.mem_toList] at hvalue
    obtain ⟨front, name, body, hslots, hkeyword⟩ := body_of_classNode hvalue
    rw [classNode_of_body hslots hkeyword] at hvalue
    refine ⟨front, name, body, hslots, hkeyword, ?_⟩
    rw [← bodySlots_eq]
    exact members_of_classRest hvalue

end Resolve

open Resolve

/-- Pending attributes go to exactly one owner, at the top level and in the bodies of classes,
and a class takes nothing from outside into its body. -/
theorem attributes_have_one_owner {κ : Type} [OperandKind κ] [LawfulOperandKind κ]
    (set : InstructionSet κ) :
    OwnerLaw (fun program => (resolve set program).nodes)
        (fun program => (resolve set program).report) topDeclares Node.give
      ∧ OwnerLaw (fun items => (sequence (bodySlot set) {} items).value 0)
        (fun items => (sequence (bodySlot set) {} items).found 0) bodyDeclares Member.give
      ∧ ClassLaw set := by
  refine ⟨?_, (body_law set).ownerLaw, class_law set⟩
  have hprogram := (top_law set).ownerLaw
  simp only [← topSequence_eq] at hprogram
  exact hprogram

/-- Two signatures, and a field behind them. -/
def signatureSample : List Element × Element :=
  let token (text : String) (line : Nat) : Token :=
    ⟨.identifier, Content.ofString text, ⟨line, 1, "t"⟩⟩
  let item (keyword : String) (parts : List String) (line : Nat) : Element :=
    .declaration ⟨some (token keyword line), parts.map fun part =>
      some (.identifier (token part line)), ⟨line, 1, "t"⟩⟩
  ([item ".signature" ["LA;"] 1, item ".signature" ["LB;"] 2], item ".field" ["x", "I"] 3)

/-- The field has the first signature, and the second one is an error. -/
theorem signatureSample_owned :
    (resolve bipushSet (signatureSample.1 ++ [signatureSample.2])).nodes
        = (resolve bipushSet [signatureSample.2]).nodes.map
          (Node.give (attributesOf topDeclares signatureSample.1))
      ∧ (attributesOf topDeclares signatureSample.1).signature.map Token.text = some "LA;"
      ∧ (resolve bipushSet signatureSample.1).report.errors
        = [⟨.duplicateAttribute "Signature", ⟨2, 1, "t"⟩⟩] := by
  obtain ⟨htop, -, -⟩ := attributes_have_one_owner bipushSet
  have hkinds : ∀ i ∈ signatureSample.1,
      (topDeclares i).map Prod.fst = some (.member .signatureDecl) := by decide
  have hwindow : ∀ i ∈ signatureSample.1, ¬ Owns topDeclares i := by
    rintro i hi ⟨declared, hdeclares, howner⟩
    have hkind := hkinds i hi
    rw [hdeclares] at hkind
    rw [Option.some.inj hkind] at howner
    cases howner
  obtain ⟨hnodes, -, -⟩ := htop.owner [] signatureSample.1 signatureSample.2 [] _ (.inl rfl)
    hwindow rfl rfl
  exact ⟨hnodes.trans (List.append_nil _), by decide, by decide⟩

end JvmAssembly
