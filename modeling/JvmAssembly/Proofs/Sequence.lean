/-
JvmAssembly/Proofs/Sequence.lean

Sequences of declarations.

The top level and the bodies of classes are sequences: items are taken in order,
with the attributes that are pending between them, and what is left in the end is
warned of.  `sequence` is this loop for any kind of item.  At depth 0 it is three
plain functions of the items, `nodesOf`, `reportOf` and `leftAfter`, which compose
along `++`.

`ItemLaw` says all that an item can do.  A class, a field or a method owns what is
pending: it takes everything, and apart from that it resolves as it does on its
own.  Any other item adds its own attributes, reports what it reports on its own,
and is reported once more if it repeats an attribute (`errors_found_item`).  From
this alone follows what happens between two owners (`window_left`, `window_nodes`,
`window_warnings`) and that nothing is pending behind an owner (`left_owner`).
-/
import JvmAssembly.Proofs.ResolveFrame

namespace JvmAssembly

/-! ### Attributes in a row -/

namespace Pending

/-- The attributes of two stretches of declarations, where the first of two signatures and
of two super names stays. -/
protected def append (first second : Pending) : Pending where
  signature := first.signature.or second.signature
  superName := first.superName.or second.superName
  interfaces := first.interfaces ++ second.interfaces
  annotations := first.annotations ++ second.annotations

instance : Append Pending := ⟨Pending.append⟩

theorem append_def (first second : Pending) :
    first ++ second
      = ⟨first.signature.or second.signature, first.superName.or second.superName,
          first.interfaces ++ second.interfaces, first.annotations ++ second.annotations⟩ := rfl

@[simp] theorem empty_append (pending : Pending) : {} ++ pending = pending := rfl

@[simp] theorem append_empty (pending : Pending) : pending ++ {} = pending := by
  simp [append_def]

/-- Attributes in a row can be taken together in any way. -/
theorem append_assoc (first second third : Pending) :
    first ++ second ++ third = first ++ (second ++ third) := by
  simp [append_def, Option.or_assoc]

/-- The report of a second attribute where one is held. -/
def repeated (what : String) (held new : Option Token) : List Diagnostic :=
  if held.isSome then
    new.toList.map fun token => ⟨.duplicateAttribute what, token.location⟩
  else
    []

/-- What is reported when attributes are added to those that are pending. -/
def duplicates (pending new : Pending) : List Diagnostic :=
  repeated "Signature" pending.signature new.signature
    ++ repeated "Super name" pending.superName new.superName

@[simp] theorem duplicates_empty (pending : Pending) : pending.duplicates {} = [] := by
  simp [duplicates, repeated]

@[simp] theorem empty_duplicates (new : Pending) : ({} : Pending).duplicates new = [] := by
  simp [duplicates, repeated]

/-- A second signature is reported at its identifier and changes nothing. -/
theorem second_signature {pending : Pending} {held : Token} (h : pending.signature = some held)
    (token : Token) :
    pending.duplicates { signature := some token }
        = [⟨.duplicateAttribute "Signature", token.location⟩]
      ∧ pending ++ { signature := some token } = pending := by
  obtain ⟨_, superName, interfaces, annotations⟩ := pending
  obtain rfl : _ = some held := h
  simp [duplicates, repeated, append_def]

/-- A second super name is reported at its identifier and changes nothing. -/
theorem second_superName {pending : Pending} {held : Token} (h : pending.superName = some held)
    (token : Token) :
    pending.duplicates { superName := some token }
        = [⟨.duplicateAttribute "Super name", token.location⟩]
      ∧ pending ++ { superName := some token } = pending := by
  obtain ⟨signature, _, interfaces, annotations⟩ := pending
  obtain rfl : _ = some held := h
  simp [duplicates, repeated, append_def]

/-- The warnings about attributes that only a class can have. -/
def classOnlyWarnings (pending : Pending) (target : String) : List Warning :=
  pending.superName.toList.map
      (fun token => ⟨s!"Super name doesn't apply to a {target}", token.location⟩)
    ++ pending.interfaces.map
      fun token => ⟨s!"Interface doesn't apply to a {target}", token.location⟩

/-- The warnings about attributes that are left at the end of a sequence. -/
def unusedWarnings (pending : Pending) : List Warning :=
  pending.signature.toList.map
      (fun token => ⟨"Signature isn't followed by a declaration", token.location⟩)
    ++ pending.superName.toList.map
      (fun token => ⟨"Super name isn't followed by a declaration", token.location⟩)
    ++ pending.interfaces.map
      (fun token => ⟨"Interface isn't followed by a declaration", token.location⟩)
    ++ pending.annotations.map
      fun node => ⟨"Annotation isn't followed by a declaration", node.location⟩

end Pending

/-! ### What items declare -/

namespace DeclarationKind

/-- Whether a declaration takes the pending attributes. -/
def isOwner : DeclarationKind → Bool
  | classDecl => true
  | member .fieldDecl => true
  | member .methodDecl => true
  | _ => false

/-- The warnings about attributes that an owner of this kind cannot have. -/
def ownerWarnings (kind : DeclarationKind) (pending : Pending) : List Warning :=
  match kind with
  | member .fieldDecl => pending.classOnlyWarnings "field"
  | member .methodDecl => pending.classOnlyWarnings "method"
  | _ => []

end DeclarationKind

/-- A declaration together with what its keyword says it declares. -/
abbrev Declared := DeclarationKind × Declaration Element

namespace Declared

/-- The identifier in the first slot, if the declaration is of the given kind. -/
def identifierOf (kind : DeclarationKind) (declared : Declared) : Option Token :=
  if declared.1 = kind then (declared.2.get? 0).bind Element.identifier? else none

/-- The annotation, if the declaration is one that resolves. -/
def annotation? (declared : Declared) : Option (AnnotationNode AnnotationValue) :=
  if declared.1 = .member .annotationDecl then
    (Resolve.annotationNode declared.2).value 0
  else
    none

/-- The attributes of declarations in a row: the first signature and super name, and all
interfaces and annotations. -/
def attributes (declarations : List Declared) : Pending where
  signature := declarations.findSome? (identifierOf (.member .signatureDecl))
  superName := declarations.findSome? (identifierOf .superDecl)
  interfaces := declarations.filterMap (identifierOf .interfaceDecl)
  annotations := declarations.filterMap annotation?

@[simp] theorem attributes_nil : attributes [] = {} := rfl

/-- The attributes of two stretches are those of the first in front of those of the second. -/
theorem attributes_append (first second : List Declared) :
    attributes (first ++ second) = attributes first ++ attributes second := by
  simp [attributes, Pending.append_def, List.findSome?_append]

theorem attributes_signature (declaration : Declaration Element) :
    attributes [(.member .signatureDecl, declaration)]
      = (((declaration.get? 0).bind Element.identifier?).map fun token =>
          ({ signature := some token } : Pending)).getD {} := by
  cases h : (declaration.get? 0).bind Element.identifier? <;>
    simp [attributes, annotation?, identifierOf, h]

theorem attributes_superName (declaration : Declaration Element) :
    attributes [(.superDecl, declaration)]
      = (((declaration.get? 0).bind Element.identifier?).map fun token =>
          ({ superName := some token } : Pending)).getD {} := by
  cases h : (declaration.get? 0).bind Element.identifier? <;>
    simp [attributes, annotation?, identifierOf, h]

theorem attributes_interface (declaration : Declaration Element) :
    attributes [(.interfaceDecl, declaration)]
      = (((declaration.get? 0).bind Element.identifier?).map fun token =>
          ({ interfaces := [token] } : Pending)).getD {} := by
  cases h : (declaration.get? 0).bind Element.identifier? <;>
    simp [attributes, annotation?, identifierOf, h]

/-- An annotation is an attribute if it is resolved. -/
theorem attributes_annotation (declaration : Declaration Element) :
    attributes [(.member .annotationDecl, declaration)]
      = (((Resolve.annotationNode declaration).value 0).map fun node =>
          ({ annotations := [node] } : Pending)).getD {} := by
  cases h : (Resolve.annotationNode declaration).value 0 <;>
    simp [attributes, annotation?, identifierOf, h]

end Declared

namespace Resolve

open Check

variable {ι ν : Type}

/-! ### Sequences of any kind -/

/-- Resolves items in order, with the attributes that are pending before them. -/
def sequence (item : Pending → ι → Check (Option ν × Pending)) :
    Pending → List ι → Check (List ν)
  | pending, [] => do
    pending.warnUnused
    return []
  | pending, i :: rest => do
    let (node, pending) ← item pending i
    let nodes ← sequence item pending rest
    return node.toList ++ nodes

variable (item : Pending → ι → Check (Option ν × Pending))

/-- What is pending behind items. -/
def leftAfter : Pending → List ι → Pending
  | pending, [] => pending
  | pending, i :: rest => leftAfter ((item pending i).value 0).2 rest

/-- What items resolve to. -/
def nodesOf : Pending → List ι → List ν
  | _, [] => []
  | pending, i :: rest =>
    ((item pending i).value 0).1.toList ++ nodesOf ((item pending i).value 0).2 rest

/-- What is reported about items, before the end of their sequence. -/
def reportOf : Pending → List ι → Report
  | _, [] => {}
  | pending, i :: rest => (item pending i).found 0 ++ reportOf ((item pending i).value 0).2 rest

/-- What is left behind two parts is left by the second, from what the first left. -/
theorem leftAfter_append (pending : Pending) (first second : List ι) :
    leftAfter item pending (first ++ second)
      = leftAfter item (leftAfter item pending first) second := by
  induction first generalizing pending with
  | nil => rfl
  | cons i first ih => exact ih _

theorem nodesOf_append (pending : Pending) (first second : List ι) :
    nodesOf item pending (first ++ second)
      = nodesOf item pending first ++ nodesOf item (leftAfter item pending first) second := by
  induction first generalizing pending with
  | nil => rfl
  | cons i first ih =>
    show _ ++ nodesOf item _ (first ++ second) = _ ++ _ ++ _
    rw [ih, List.append_assoc]
    rfl

/-- The report of two parts: the second starts from what the first left. -/
theorem reportOf_append (pending : Pending) (first second : List ι) :
    reportOf item pending (first ++ second)
      = reportOf item pending first ++ reportOf item (leftAfter item pending first) second := by
  induction first generalizing pending with
  | nil => rfl
  | cons i first ih =>
    show _ ++ reportOf item _ (first ++ second) = _ ++ _ ++ _
    rw [ih, Report.append_assoc]
    rfl

/-- A step of an owner of the given kind: it takes what is pending, gives it to its node
and warns of what it cannot have. -/
def TakesAll (give : Pending → ν → ν) (kind : DeclarationKind)
    (step : Pending → Check (Option ν × Pending)) : Prop :=
  ∀ pending, (step pending).value 0 = (((step {}).value 0).1.map (give pending), {})
    ∧ (step pending).found 0 = ⟨[], kind.ownerWarnings pending⟩ ++ (step {}).found 0

/-- A step that adds attributes to what is pending, and reports those that are there
already. -/
def Adds (new : Pending) (step : Pending → Check (Option ν × Pending)) : Prop :=
  ∀ pending, (step pending).value 0 = (none, pending ++ new)
    ∧ (step pending).found 0 = ⟨((step {}).found 0).errors ++ pending.duplicates new, []⟩

/-- Says all that an item can do to a sequence.  `declares` is what the item declares, if
that is allowed in the sequence, and `give` gives attributes to a node. -/
structure ItemLaw (declares : ι → Option Declared) (give : Pending → ν → ν) : Prop where
  orderly : ∀ pending i, (item pending i).Orderly
  owner : ∀ {i declared}, declares i = some declared → declared.1.isOwner →
    TakesAll give declared.1 fun pending => item pending i
  other : ∀ {i}, (∀ declared, declares i = some declared → ¬ declared.1.isOwner) →
    Adds (Declared.attributes (declares i).toList) fun pending => item pending i

end Resolve

namespace Pending

open Check

/-- What warnings about the tokens of a list report. -/
theorem found_forM_warn {α : Type} (as : List α) (message : String) (place : α → Location) :
    (as.forM fun a => warn message (place a)).found 0
      = ⟨[], as.map fun a => ⟨message, place a⟩⟩ := by
  induction as with
  | nil => rfl
  | cons a as ih =>
    have hcons : ((a :: as).forM fun a => warn message (place a)).found 0
        = .ofWarning message (place a) ++ (as.forM fun a => warn message (place a)).found 0 :=
      found_bind (orderly_warn _ _) (Orderly.forM fun _ => orderly_warn _ _)
    rw [hcons, ih]
    rfl

theorem found_forM_option_warn (token : Option Token) (message : String) :
    (token.forM fun token => warn message token.location).found 0
      = ⟨[], token.toList.map fun token => ⟨message, token.location⟩⟩ := by
  cases token <;> rfl

theorem found_warnClassOnly (pending : Pending) (target : String) :
    (pending.warnClassOnly target).found 0 = ⟨[], pending.classOnlyWarnings target⟩ := by
  unfold warnClassOnly
  rw [found_bind (Orderly.forM_option fun _ => orderly_warn _ _)
      (Orderly.forM fun _ => orderly_warn _ _), found_forM_option_warn, found_forM_warn]
  rfl

/-- A warning for each attribute that nobody took. -/
theorem found_warnUnused (pending : Pending) :
    pending.warnUnused.found 0 = ⟨[], pending.unusedWarnings⟩ := by
  have hannotations : (pending.annotations.forM fun node =>
      warn "Annotation isn't followed by a declaration" node.location).Orderly :=
    Orderly.forM fun _ => orderly_warn _ _
  have hinterfaces : (pending.interfaces.forM fun token =>
      warn "Interface isn't followed by a declaration" token.location).Orderly :=
    Orderly.forM fun _ => orderly_warn _ _
  unfold warnUnused
  rw [found_bind (Orderly.forM_option fun _ => orderly_warn _ _)
      ((Orderly.forM_option fun _ => orderly_warn _ _).bind fun _ =>
        hinterfaces.bind fun _ => hannotations),
    found_bind (Orderly.forM_option fun _ => orderly_warn _ _)
      (hinterfaces.bind fun _ => hannotations),
    found_bind hinterfaces hannotations, found_forM_option_warn, found_forM_option_warn,
    found_forM_warn, found_forM_warn, ← Report.append_assoc, ← Report.append_assoc]
  rfl

end Pending

namespace Resolve

open Check

variable {ι ν : Type} {item : Pending → ι → Check (Option ν × Pending)}
  {declares : ι → Option Declared} {give : Pending → ν → ν}

theorem ItemLaw.orderly_sequence (law : ItemLaw item declares give) (pending : Pending)
    (items : List ι) : (sequence item pending items).Orderly := by
  induction items generalizing pending with
  | nil => exact pending.orderly_warnUnused.map _
  | cons i items ih => exact (law.orderly _ _).bind fun _ => (ih _).map _

/-- A sequence gives the nodes of its items, in order. -/
theorem ItemLaw.value_sequence (law : ItemLaw item declares give) (pending : Pending)
    (items : List ι) : (sequence item pending items).value 0 = nodesOf item pending items := by
  induction items generalizing pending with
  | nil => exact value_map pending.orderly_warnUnused fun _ => []
  | cons i items ih =>
    have hrest := law.orderly_sequence ((item pending i).value 0).2 items
    show (item pending i >>= fun _ => _ : Check (List ν)).value 0 = _
    rw [value_bind (law.orderly _ _) (hrest.map _), value_map hrest, ih]
    rfl

/-- A sequence reports what its items report, and then warns about what is left. -/
theorem ItemLaw.found_sequence (law : ItemLaw item declares give) (pending : Pending)
    (items : List ι) :
    (sequence item pending items).found 0
      = reportOf item pending items ++ ⟨[], (leftAfter item pending items).unusedWarnings⟩ := by
  induction items generalizing pending with
  | nil =>
    show (pending.warnUnused >>= fun _ => pure []).found 0 = _
    rw [found_map pending.orderly_warnUnused, Pending.found_warnUnused]
    rfl
  | cons i items ih =>
    have hrest := law.orderly_sequence ((item pending i).value 0).2 items
    show (item pending i >>= fun _ => _ : Check (List ν)).found 0 = _
    rw [found_bind (law.orderly _ _) (hrest.map _), found_map hrest, ih, ← Report.append_assoc]
    rfl

/-! ### Between two owners -/

/-- An item that takes what is pending. -/
def Owns (declares : ι → Option Declared) (i : ι) : Prop :=
  ∃ declared, declares i = some declared ∧ declared.1.isOwner

/-- The attributes of items in a row. -/
def attributesOf (declares : ι → Option Declared) (items : List ι) : Pending :=
  Declared.attributes (items.filterMap declares)

/-- The attributes that two parts declare are those of the first in front of those of the second. -/
theorem attributesOf_append (declares : ι → Option Declared) (first second : List ι) :
    attributesOf declares (first ++ second)
      = attributesOf declares first ++ attributesOf declares second := by
  unfold attributesOf
  rw [List.filterMap_append, Declared.attributes_append]

theorem attributesOf_singleton (declares : ι → Option Declared) (i : ι) :
    attributesOf declares [i] = Declared.attributes (declares i).toList := by
  unfold attributesOf
  cases h : declares i <;> simp [h]

/-- An owner has no attributes of its own. -/
theorem attributesOf_owner {i : ι} (h : Owns declares i) : attributesOf declares [i] = {} := by
  obtain ⟨⟨kind, declaration⟩, hdeclares, howner⟩ := h
  rw [attributesOf_singleton, hdeclares]
  rcases kind with _ | _ | _ | _ | kind
  case member => cases kind <;> first | rfl | cases howner
  all_goals first | rfl | cases howner

namespace ItemLaw

variable {pending : Pending} {window : List ι}

/-- What an item that is no owner does, whatever is pending: it has no node, adds its attributes
and reports those that are repeated. -/
theorem of_not_owns (law : ItemLaw item declares give) {i : ι} (h : ¬ Owns declares i) :
    (item pending i).value 0 = (none, pending ++ attributesOf declares [i])
      ∧ (item pending i).found 0
        = ⟨((item {} i).found 0).errors ++ pending.duplicates (attributesOf declares [i]), []⟩ := by
  rw [attributesOf_singleton]
  exact law.other (fun declared hdeclared howner => h ⟨declared, hdeclared, howner⟩) pending

/-- What one item reports as an error: what it reports on its own, and what it repeats. -/
theorem errors_found_item (law : ItemLaw item declares give) (i : ι) :
    ((item pending i).found 0).errors
      = ((item {} i).found 0).errors ++ pending.duplicates (attributesOf declares [i]) := by
  by_cases h : Owns declares i
  · rw [attributesOf_owner h]
    obtain ⟨declared, hdeclares, howner⟩ := h
    -- an owner has no attributes that could be repeated
    rw [(law.owner hdeclares howner pending).2, Pending.duplicates_empty, List.append_nil]
    rfl
  · rw [(law.of_not_owns h).2]

/-- Items that own nothing add their attributes to those that are pending. -/
theorem window_left (law : ItemLaw item declares give) (h : ∀ i ∈ window, ¬ Owns declares i) :
    leftAfter item pending window = pending ++ attributesOf declares window := by
  induction window generalizing pending with
  | nil => exact (Pending.append_empty pending).symm
  | cons i window ih =>
    obtain ⟨hi, hwindow⟩ := List.forall_mem_cons.mp h
    show leftAfter item ((item pending i).value 0).2 window = _
    rw [(law.of_not_owns hi).1, ih hwindow, Pending.append_assoc, ← attributesOf_append]
    rfl

/-- Items that own nothing resolve to nothing. -/
theorem window_nodes (law : ItemLaw item declares give) (h : ∀ i ∈ window, ¬ Owns declares i) :
    nodesOf item pending window = [] := by
  induction window generalizing pending with
  | nil => rfl
  | cons i window ih =>
    obtain ⟨hi, hwindow⟩ := List.forall_mem_cons.mp h
    show ((item pending i).value 0).1.toList ++ nodesOf item _ window = []
    rw [(law.of_not_owns hi).1, ih hwindow]
    rfl

/-- Items that own nothing cause no warnings. -/
theorem window_warnings (law : ItemLaw item declares give)
    (h : ∀ i ∈ window, ¬ Owns declares i) : (reportOf item pending window).warnings = [] := by
  induction window generalizing pending with
  | nil => rfl
  | cons i window ih =>
    obtain ⟨hi, hwindow⟩ := List.forall_mem_cons.mp h
    show ((item pending i).found 0 ++ reportOf item _ window).warnings = []
    rw [Report.warnings_append, (law.of_not_owns hi).2, ih hwindow]
    rfl

/-- Nothing is pending behind an owner. -/
theorem left_owner (law : ItemLaw item declares give) {owner : ι} (h : Owns declares owner)
    (front : List ι) : leftAfter item pending (front ++ [owner]) = {} := by
  obtain ⟨declared, hdeclares, howner⟩ := h
  rw [leftAfter_append]
  show ((item _ owner).value 0).2 = {}
  rw [(law.owner hdeclares howner _).1]

end ItemLaw

end Resolve

end JvmAssembly
