/-
JvmAssembly/Proofs/ValueForms.lean

The grammar of annotation values.

`IsValue` has one rule for each form that a value can be written in, however deeply it
is nested.  What the resolver of values does not report is of the grammar
(`isValue_of_silent`): on each level, a value without errors has one of the forms, and
its parts are values by induction on the levels that are left.
-/
import JvmAssembly.Proofs.AnnotationValues

namespace JvmAssembly

open Resolve

/-- A constant of an enumeration: a type and a name, and nothing behind them. -/
def IsEnumConstant (declaration : Declaration Element) : Prop :=
  ∃ type name rest,
    declaration.slots = some (.identifier type) :: some (.identifier name) :: rest
      ∧ ∀ slot ∈ rest, slot = none

/-- A value in an annotation. -/
inductive IsValue : Element → Prop
  | number (token : Token) : IsValue (.number token)
  | string (token : Token) : IsValue (.string token)
  | bool {token : Token} (h : token.is "true" ∨ token.is "false") : IsValue (.identifier token)
  | type {token : Token} (h : token.content.startsWith 'L') : IsValue (.identifier token)
  | empty (location : Location) : IsValue (.empty location)
  | array {group : Group Element} (hnone : none ∉ group.slots)
      (hsome : ∀ element, some element ∈ group.slots → IsValue element) : IsValue (.array group)
  | single {element : Element} (location : Location) (h : IsValue element) :
      IsValue (.declaration ⟨none, [some element], location⟩)
  | enum {declaration : Declaration Element} (kind : declaration.kind? = some .enumDecl)
      (h : IsEnumConstant declaration) : IsValue (.declaration declaration)
  | nested {declaration : Declaration Element} {type : Token} {values : Element}
      {object : Object Element} {rest : List (Option Element)}
      (kind : declaration.kind? = some (.member .annotationDecl))
      (hslots : declaration.slots = some (.identifier type) :: some values :: rest)
      (hrest : ∀ slot ∈ rest, slot = none) (hobject : values.object? = some object)
      (hdistinct : DistinctKeys object)
      (hkeys : ∀ pair ∈ object.pairs, pair.key.kind = .identifier)
      (hnone : ∀ pair ∈ object.pairs, pair.value ≠ none)
      (hsome : ∀ pair ∈ object.pairs, ∀ element, pair.value = some element → IsValue element) :
      IsValue (.declaration declaration)

/-- An annotation with values is a value. -/
theorem IsValue.of_hasValues {declaration : Declaration Element}
    (kind : declaration.kind? = some (.member .annotationDecl))
    (h : HasValues IsValue declaration) : IsValue (.declaration declaration) := by
  obtain ⟨type, values, object, rest, hslots, hrest, hobject, hdistinct, hpairs⟩ := h
  refine .nested kind hslots hrest hobject hdistinct (fun pair hpair => (hpairs pair hpair).1) ?_ ?_
  · intro pair hpair hnone
    obtain ⟨-, element, hvalue, -⟩ := hpairs pair hpair
    rw [hvalue] at hnone
    cases hnone
  · intro pair hpair element hvalue
    obtain ⟨-, element', hvalue', helement⟩ := hpairs pair hpair
    obtain rfl : element' = element := Option.some.inj (hvalue'.symm.trans hvalue)
    exact helement

namespace Resolve

open Check

variable {depth : Nat}

theorem accepts_identifierArgument (declaration : Declaration Element) (index : Nat)
    (expected : String) :
    (identifierArgument declaration index expected).Accepts depth
      fun token => declaration.get? index = some (.identifier token) :=
  (accepts_identifierSlot expected (declaration.get? index) declaration.location).congr
    fun _ => bind_identifier?_eq_some_iff

theorem accepts_noMore (declaration : Declaration Element) (count : Nat) :
    (noMore declaration count).Accepts depth
      fun _ => ∀ slot ∈ declaration.slots.drop count, slot = none :=
  ⟨(strict_noMore declaration count).orderly, fun _ =>
    (and_iff_left rfl).trans (silent_noMore declaration count)⟩

/-- A constant of an enumeration is accepted exactly in its form. -/
theorem accepts_enumNode (declaration : Declaration Element) :
    (enumNode declaration).Accepts depth fun node => ∃ type name rest,
      declaration.slots = some (.identifier type) :: some (.identifier name) :: rest
        ∧ (∀ slot ∈ rest, slot = none) ∧ node = ⟨type, name, declaration.location⟩ := by
  have hname := (strict_identifierArgument declaration 1 "enum name").orderly
  have hnoMore := (strict_noMore declaration 2).orderly
  have haccepts : (enumNode declaration).Accepts depth _ :=
    (accepts_identifierArgument declaration 0 "enum type").optional_bind
      (fun type => hname.optional.bind_attempt fun name => hnoMore.lift.bind_attempt fun _ => by
        cases type with
        | none => exact orderly_pure none
        | some type => cases name <;> exact orderly_pure _)
      fun type => (accepts_identifierArgument declaration 1 "enum name").optional_bind
        (fun name => hnoMore.lift.bind_attempt fun _ => by cases name <;> exact orderly_pure _)
        fun name => (accepts_noMore declaration 2).lift.bind fun _ =>
          Attempt.Accepts.pure (⟨type, name, declaration.location⟩ : EnumNode)
  refine haccepts.congr fun node => ?_
  constructor
  · rintro ⟨type, htype, name, hname, -, hrest, rfl⟩
    exact ⟨type, name, _, get?_zero_one_eq_some_iff.mp ⟨htype, hname⟩, hrest, rfl⟩
  · rintro ⟨type, name, rest, hslots, hrest, rfl⟩
    have hdrop : declaration.slots.drop 2 = rest := by
      rw [hslots]
      rfl
    rw [← hdrop] at hslots hrest
    obtain ⟨htype, hname⟩ := get?_zero_one_eq_some_iff.mpr hslots
    exact ⟨type, htype, name, hname, (), hrest, rfl⟩

/-- A constant of an enumeration is accepted exactly if it has a type and a name and nothing
behind them. -/
theorem silent_enumNode (declaration : Declaration Element) :
    (enumNode declaration).run.Silent depth ↔ IsEnumConstant declaration := by
  rw [(accepts_enumNode declaration).silent_iff]
  constructor
  · rintro ⟨-, type, name, rest, hslots, hrest, -⟩
    exact ⟨type, name, rest, hslots, hrest⟩
  · rintro ⟨type, name, rest, hslots, hrest⟩
    exact ⟨_, type, name, rest, hslots, hrest, rfl⟩

/-- A slot of an array that is not reported holds a value that is not reported. -/
theorem silent_slotValue {location : Location} {slot : Option Element}
    (h : ((slotValue location slot).run.found depth).errors = []) :
    ∃ element, slot = some element ∧ (annotationValue element).Silent depth := by
  rcases slotValue_case depth location slot with ⟨-, herrors⟩ | ⟨element, rfl, -, hfound⟩
  · exact absurd h herrors
  · rw [hfound] at h
    exact ⟨element, rfl, h⟩

/-- What is resolved without an error is a value. -/
theorem isValue_of_silent {element : Element} (h : (annotationValue element).Silent depth) :
    IsValue element := by
  revert h
  refine annotationValue_levels
    (motive := fun _ element _ errors => errors = [] → IsValue element) ?_ ?_ depth element
  · intro depth element error herror
    cases herror
  · intro depth _ ih element result errors hcase hsilent
    have hnext : ∀ element, (annotationValue element).Silent (depth + 1) → IsValue element :=
      fun element => ih element
    cases hcase with
    | refused _ error => cases hsilent
    | number token => exact .number token
    | string token => exact .string token
    | bool written => exact .bool written
    | type written => exact .type written
    | empty location => exact .empty location
    | array slots location =>
      have hslots := fun slot hslot =>
        silent_slotValue (List.flatMap_eq_nil_iff.mp hsilent slot hslot)
      refine .array (fun hnone => ?_) fun element helement => ?_
      · obtain ⟨element, helement, -⟩ := hslots none hnone
        cases helement
      · obtain ⟨_, ⟨⟩, hvalue⟩ := hslots (some element) helement
        exact hnext element hvalue
    | single element location => exact .single location (hnext element hsilent)
    | enum kind => exact .enum kind ((silent_enumNode _).mp hsilent)
    | nested kind => exact .of_hasValues kind (((silent_annotationNode_at _).mp hsilent).mono hnext)

end Resolve

end JvmAssembly
