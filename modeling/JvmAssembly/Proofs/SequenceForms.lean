/-
JvmAssembly/Proofs/SequenceForms.lean

When a whole sequence of declarations is accepted.

`FormLaw` adds to `ItemLaw` what the items of a sequence look like: which items are
accepted on their own, and to what their owners resolve.  Then a sequence is accepted
exactly if each item is, and signatures and super names stand apart
(`FormLaw.silent_sequence`), and it resolves to one node for each owner, in order
(`FormLaw.owners_sequence`).

The invariant for the first part is `Clear`: what is held while the sequence runs
must not come again before the next owner.
-/
import JvmAssembly.Proofs.Acceptance

namespace JvmAssembly

/-! ### Attributes that stand apart -/

/-- Before the first declaration of a kind there is an owner. -/
def Fresh (kind : DeclarationKind) (declarations : List Declared) : Prop :=
  ∀ between second after, declarations = between ++ second :: after → second.1 = kind →
    ∃ owner ∈ between, owner.1.isOwner

/-- Declarations that repeat no attribute of a kind, nor the one that is `held` before them. -/
def Clear (kind : DeclarationKind) (held : Prop) (declarations : List Declared) : Prop :=
  (held → Fresh kind declarations) ∧ Apart kind declarations

variable {kind : DeclarationKind} {declared : Declared} {declarations : List Declared}
  {held : Prop}

theorem fresh_nil : Fresh kind [] := by
  intro between second after h
  simp at h

theorem apart_nil : Apart kind [] := by
  intro before first between second after h
  simp at h

theorem clear_nil : Clear kind held [] :=
  ⟨fun _ => fresh_nil, apart_nil⟩

/-- In front of the first of its kind, no other declaration of the kind may stand unless an owner
stands between them. -/
theorem fresh_cons :
    Fresh kind (declared :: declarations)
      ↔ declared.1 ≠ kind ∧ (¬ declared.1.isOwner → Fresh kind declarations) := by
  constructor
  · intro h
    refine ⟨fun hkind => ?_, fun howner between second after hsplit hsecond => ?_⟩
    · obtain ⟨owner, hmem, -⟩ := h [] declared declarations rfl hkind
      cases hmem
    · have hcons : declared :: declarations = (declared :: between) ++ second :: after := by
        rw [hsplit]
        rfl
      obtain ⟨owner, hmem, howns⟩ := h (declared :: between) second after hcons hsecond
      rcases List.mem_cons.mp hmem with rfl | hmem
      · exact absurd howns howner
      · exact ⟨owner, hmem, howns⟩
  · rintro ⟨hkind, hrest⟩ between second after hsplit hsecond
    obtain _ | ⟨first, between⟩ := between
    · -- nothing stands in between, so the first declaration is the one of this kind
      obtain ⟨rfl, -⟩ := List.cons_eq_cons.mp hsplit
      exact absurd hsecond hkind
    · obtain ⟨rfl, htail⟩ := List.cons_eq_cons.mp hsplit
      by_cases howner : declared.1.isOwner
      · exact ⟨declared, List.mem_cons_self, howner⟩
      · obtain ⟨owner, hmem, howns⟩ := hrest howner between second after htail hsecond
        exact ⟨owner, List.mem_cons_of_mem _ hmem, howns⟩

/-- Declarations of a kind stand apart if each of them is followed by an owner before the next. -/
theorem apart_cons :
    Apart kind (declared :: declarations)
      ↔ (declared.1 = kind → Fresh kind declarations) ∧ Apart kind declarations := by
  constructor
  · intro h
    refine ⟨fun hkind between second after hsplit => ?_,
      fun before first between second after hsplit => ?_⟩
    · refine h [] declared between second after ?_ hkind
      rw [hsplit]
      rfl
    · refine h (declared :: before) first between second after ?_
      rw [hsplit]
      rfl
  · rintro ⟨hfirst, hrest⟩ before first between second after hsplit hkind
    obtain _ | ⟨earlier, before⟩ := before
    · obtain ⟨rfl, htail⟩ := List.cons_eq_cons.mp hsplit
      exact hfirst hkind between second after htail
    · obtain ⟨-, htail⟩ := List.cons_eq_cons.mp hsplit
      exact hrest before first between second after htail hkind

/-- One declaration more: it must not repeat what is held, and then it is held itself, unless
an owner takes it. -/
theorem clear_cons (hkind : ¬ kind.isOwner) :
    Clear kind held (declared :: declarations)
      ↔ ¬ (held ∧ declared.1 = kind)
        ∧ Clear kind (¬ declared.1.isOwner ∧ (held ∨ declared.1 = kind)) declarations := by
  have howner : declared.1 = kind → ¬ declared.1.isOwner := by
    rintro rfl
    exact hkind
  unfold Clear
  rw [fresh_cons, apart_cons]
  constructor
  · rintro ⟨hheld, hfirst, hrest⟩
    refine ⟨fun h => (hheld h.1).1 h.2, ?_, hrest⟩
    rintro ⟨hnot, h | hsame⟩
    · exact (hheld h).2 hnot
    · exact hfirst hsame
  · rintro ⟨hnew, hnext, hrest⟩
    refine ⟨fun h => ⟨fun hsame => hnew ⟨h, hsame⟩, fun hnot => hnext ⟨hnot, .inl h⟩⟩, ?_, hrest⟩
    exact fun hsame => hnext ⟨howner hsame, .inr hsame⟩

namespace Resolve

open Check

variable {ι ν : Type} {item : Pending → ι → Check (Option ν × Pending)}
  {declares : ι → Option Declared} {give : Pending → ν → ν} {wellFormed : Declared → Prop}
  {rule : Declared → ν → Prop}

/-! ### Sequences of well-formed declarations -/

/-- Says which items of a sequence are accepted on their own, and what the owners among them
declare, with any attributes. -/
structure FormLaw (item : Pending → ι → Check (Option ν × Pending))
    (declares : ι → Option Declared) (give : Pending → ν → ν) (wellFormed : Declared → Prop)
    (rule : Declared → ν → Prop) : Prop extends ItemLaw item declares give where
  silent : ∀ i, (item {} i).Silent 0 ↔ ∃ declared, declares i = some declared ∧ wellFormed declared
  identifier : ∀ {declared}, wellFormed declared →
    declared.1 = .member .signatureDecl ∨ declared.1 = .superDecl →
    ∃ token, declared.2.get? 0 = some (.identifier token)
  node : ∀ {i declared}, declares i = some declared → wellFormed declared → declared.1.isOwner →
    ∃ node, ((item {} i).value 0).1 = some node ∧ ∀ pending, rule declared (give pending node)

/-- Declarations that repeat neither a signature nor a super name, nor what is pending. -/
def NoneRepeated (pending : Pending) (declarations : List Declared) : Prop :=
  Clear (.member .signatureDecl) pending.signature.isSome declarations
    ∧ Clear .superDecl pending.superName.isSome declarations

/-- An attribute that is well formed has an identifier. -/
theorem isSome_identifierOf {kind : DeclarationKind} {declared : Declared}
    (h : declared.1 = kind → ∃ token, declared.2.get? 0 = some (.identifier token)) :
    (declared.identifierOf kind).isSome ↔ declared.1 = kind := by
  unfold Declared.identifierOf
  split
  · next hkind =>
    obtain ⟨token, htoken⟩ := h hkind
    rw [htoken]
    exact iff_of_true rfl hkind
  · next hkind => exact iff_of_false Bool.false_ne_true hkind

/-- Something is repeated if it is there already and comes again. -/
theorem isSome_repeated {what : String} {held new : Option Token} :
    Pending.repeated what held new = [] ↔ ¬ (held.isSome ∧ new.isSome) := by
  cases held <;> cases new <;> simp [Pending.repeated]

theorem not_owns {i : ι} {declared : Declared} (hdeclares : declares i = some declared)
    (h : ¬ declared.1.isOwner) : ¬ Owns declares i := by
  rintro ⟨other, hother, howner⟩
  rw [hdeclares] at hother
  cases hother
  exact h howner

namespace FormLaw

variable {i : ι} {declared : Declared}

/-- Among well-formed declarations, a signature is declared by what is one, and so is a super
name. -/
theorem attributes_identifiers (law : FormLaw item declares give wellFormed rule)
    (hdeclares : declares i = some declared) (hform : wellFormed declared) :
    ((attributesOf declares [i]).signature.isSome ↔ declared.1 = .member .signatureDecl)
      ∧ ((attributesOf declares [i]).superName.isSome ↔ declared.1 = .superDecl) := by
  have hsignature : (attributesOf declares [i]).signature
      = declared.identifierOf (.member .signatureDecl) := by
    simp [attributesOf, Declared.attributes, hdeclares]
  have hsuperName : (attributesOf declares [i]).superName = declared.identifierOf .superDecl := by
    simp [attributesOf, Declared.attributes, hdeclares]
  rw [hsignature, hsuperName]
  exact ⟨isSome_identifierOf fun hkind => law.identifier hform (.inl hkind),
    isSome_identifierOf fun hkind => law.identifier hform (.inr hkind)⟩

/-- What is held behind an item: nothing if it is an owner, and else what was held before or
what the item adds. -/
theorem held_next (law : FormLaw item declares give wellFormed rule)
    (hdeclares : declares i = some declared) (hform : wellFormed declared) (pending : Pending) :
    (((item pending i).value 0).2.signature.isSome
        ↔ ¬ declared.1.isOwner
          ∧ (pending.signature.isSome ∨ declared.1 = .member .signatureDecl))
      ∧ (((item pending i).value 0).2.superName.isSome
        ↔ ¬ declared.1.isOwner ∧ (pending.superName.isSome ∨ declared.1 = .superDecl)) := by
  obtain ⟨hsignature, hsuperName⟩ := law.attributes_identifiers hdeclares hform
  by_cases howner : declared.1.isOwner
  -- an owner takes what is held, and anything else adds to it
  · rw [(law.owner hdeclares howner pending).1]
    simp [howner]
  · rw [(law.of_not_owns (not_owns hdeclares howner)).1, ← hsignature, ← hsuperName,
      Pending.append_def, Option.isSome_or, Option.isSome_or, Bool.or_eq_true, Bool.or_eq_true]
    exact ⟨(and_iff_right howner).symm, (and_iff_right howner).symm⟩

/-- One step of the invariant: an item repeats nothing, and the rest repeats nothing of what
is held then, exactly if the item and the rest together repeat nothing. -/
theorem noneRepeated_step (law : FormLaw item declares give wellFormed rule)
    (hdeclares : declares i = some declared) (hform : wellFormed declared) (pending : Pending)
    (declarations : List Declared) :
    pending.duplicates (attributesOf declares [i]) = []
        ∧ NoneRepeated ((item pending i).value 0).2 declarations
      ↔ NoneRepeated pending (declared :: declarations) := by
  obtain ⟨hsignature, hsuperName⟩ := law.attributes_identifiers hdeclares hform
  obtain ⟨hnextSignature, hnextSuperName⟩ := law.held_next hdeclares hform pending
  have hsignatureDecl : ¬ (DeclarationKind.member .signatureDecl).isOwner := Bool.false_ne_true
  have hsuperDecl : ¬ DeclarationKind.superDecl.isOwner := Bool.false_ne_true
  unfold NoneRepeated Pending.duplicates
  rw [clear_cons hsignatureDecl, clear_cons hsuperDecl, List.append_eq_nil_iff,
    isSome_repeated, isSome_repeated, hsignature, hsuperName, propext hnextSignature,
    propext hnextSuperName]
  exact and_and_and_comm

/-- The errors of a run: none exactly if every item is accepted on its own and nothing is
repeated. -/
theorem errors_reportOf_eq_nil_iff (law : FormLaw item declares give wellFormed rule)
    (pending : Pending) (items : List ι) :
    (reportOf item pending items).errors = []
      ↔ (∀ i ∈ items, (item {} i).Silent 0)
        ∧ NoneRepeated pending (items.filterMap declares) := by
  induction items generalizing pending with
  | nil => exact iff_of_true rfl ⟨by simp, clear_nil, clear_nil⟩
  | cons i items ih =>
    show ((item pending i).found 0 ++ reportOf item _ items).errors = [] ↔ _
    rw [Report.errors_append, List.append_eq_nil_iff, law.errors_found_item,
      List.append_eq_nil_iff, ih, List.forall_mem_cons]
    -- only an item that is accepted on its own is known to have its identifier
    by_cases hsilent : (item {} i).Silent 0
    · obtain ⟨declared, hdeclares, hform⟩ := (law.silent i).mp hsilent
      rw [List.filterMap_cons_some hdeclares, ← law.noneRepeated_step hdeclares hform]
      exact and_and_and_comm
    · exact iff_of_false (fun h => hsilent h.1.1) fun h => hsilent h.1.1

/-- A sequence is accepted exactly if its declarations are well formed, and signatures and
super names stand apart. -/
theorem silent_sequence (law : FormLaw item declares give wellFormed rule) (items : List ι) :
    (sequence item {} items).Silent 0
      ↔ (∀ i ∈ items, ∃ declared, declares i = some declared ∧ wellFormed declared)
        ∧ Apart (.member .signatureDecl) (items.filterMap declares)
        ∧ Apart .superDecl (items.filterMap declares) := by
  have hclear : ∀ kind declarations, Clear kind (none : Option Token).isSome declarations
      ↔ Apart kind declarations := fun kind declarations =>
    ⟨fun h => h.2, fun h => ⟨fun hheld => absurd hheld Bool.false_ne_true, h⟩⟩
  unfold Silent
  rw [law.found_sequence, Report.errors_append, List.append_nil, law.errors_reportOf_eq_nil_iff]
  refine and_congr ?_ (and_congr (hclear _ _) (hclear _ _))
  exact forall_congr' fun i => forall_congr' fun _ => law.silent i

/-- A sequence that is accepted resolves to one node for each owner, in order. -/
theorem owners_sequence (law : FormLaw item declares give wellFormed rule) {items : List ι}
    (h : ∀ i ∈ items, ∃ declared, declares i = some declared ∧ wellFormed declared) :
    List.Forall₂ rule ((items.filterMap declares).filter fun declared => declared.1.isOwner)
      ((sequence item {} items).value 0) := by
  have hnodes : ∀ pending, List.Forall₂ rule
      ((items.filterMap declares).filter fun declared => declared.1.isOwner)
      (nodesOf item pending items) := by
    induction items with
    | nil => exact fun _ => .nil
    | cons i items ih =>
      intro pending
      obtain ⟨⟨declared, hdeclares, hform⟩, hitems⟩ := List.forall_mem_cons.mp h
      rw [List.filterMap_cons_some hdeclares]
      show List.Forall₂ rule _ (((item pending i).value 0).1.toList ++ nodesOf item _ items)
      by_cases howner : declared.1.isOwner
      · obtain ⟨node, hnode, hrule⟩ := law.node hdeclares hform howner
        rw [List.filter_cons_of_pos (by exact howner), (law.owner hdeclares howner pending).1,
          hnode]
        exact .cons (hrule pending) (ih hitems _)
      · rw [List.filter_cons_of_neg (by exact howner),
          (law.of_not_owns (not_owns hdeclares howner)).1]
        exact ih hitems _
  rw [law.value_sequence]
  exact hnodes {}

end FormLaw

end Resolve

end JvmAssembly
