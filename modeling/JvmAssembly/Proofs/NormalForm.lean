/-
JvmAssembly/Proofs/NormalForm.lean

Values of annotations are in normal form.

`IsNormal` says on all levels what a resolved value looks like, and `height` counts its
levels, one for each value.  A value that was resolved at a depth is normal, and its
height fits between this depth and the bound:

    depth + value.height ≤ maxNesting.

This is shown for all values of a level from what holds on the next (`normalLevel`), and
needs no word about the elements that were left out.
-/
import JvmAssembly.Proofs.AnnotationValues

namespace JvmAssembly

/-! ### Values in normal form -/

/-- The names of an annotation are identifiers, no two of them have the same text, and each
value is found under the text of its name. -/
structure AnnotationNode.IsKeyed {ν : Type} (node : AnnotationNode ν) : Prop where
  identifiers : ∀ named ∈ node.values, named.1.kind = .identifier
  distinct : (node.values.map fun named => named.1.text).Nodup
  stored : ∀ named ∈ node.values, node.get? named.1.text = some named.2

namespace AnnotationValue

/-- A value in normal form, on all levels. -/
inductive IsNormal : AnnotationValue → Prop
  | number (token : Token) : IsNormal (.number token)
  | string (token : Token) : IsNormal (.string token)
  | bool {token : Token} {value : Bool} (whenTrue : value = true ↔ token.is "true")
      (whenFalse : value = false ↔ token.is "false") : IsNormal (.bool token value)
  | type {token : Token} (written : token.content.startsWith 'L') : IsNormal (.type token)
  | enum (node : EnumNode) : IsNormal (.enum node)
  | array {values : List AnnotationValue} {location : Location}
      (normal : ∀ value ∈ values, IsNormal value) : IsNormal (.array values location)
  | nested {node : AnnotationNode AnnotationValue} (keyed : node.IsKeyed)
      (normal : ∀ named ∈ node.values, IsNormal named.2) : IsNormal (.nested node)

mutual

/-- How many levels a value has, counting one for each value. -/
def height : AnnotationValue → Nat
  | .number _ | .string _ | .bool _ _ | .type _ | .enum _ => 1
  | .array values _ => 1 + highest values
  | .nested ⟨_, values, _⟩ => 1 + highestNamed values
termination_by structural value => value

/-- The height of the highest of some values. -/
def highest : List AnnotationValue → Nat
  | [] => 0
  | value :: values => max value.height (highest values)
termination_by structural values => values

/-- The height of the highest of some named values. -/
def highestNamed : List (Token × AnnotationValue) → Nat
  | [] => 0
  | named :: values => max (heightNamed named) (highestNamed values)
termination_by structural values => values

/-- The height of a named value. -/
def heightNamed : Token × AnnotationValue → Nat
  | (_, value) => value.height
termination_by structural named => named

end

/-- A bound on the highest value is a bound on all values. -/
theorem highest_le_iff {values : List AnnotationValue} {bound : Nat} :
    highest values ≤ bound ↔ ∀ value ∈ values, value.height ≤ bound := by
  induction values with
  | nil => simp [highest]
  | cons value values ih => rw [highest, Nat.max_le, ih, List.forall_mem_cons]

theorem highestNamed_le_iff {values : List (Token × AnnotationValue)} {bound : Nat} :
    highestNamed values ≤ bound ↔ ∀ named ∈ values, named.2.height ≤ bound := by
  induction values with
  | nil => simp [highestNamed]
  | cons named values ih =>
    obtain ⟨name, value⟩ := named
    rw [highestNamed, heightNamed, Nat.max_le, ih, List.forall_mem_cons]

end AnnotationValue

/-! ### Keys -/

/-- What is kept of a list has a part of its keys, in their order. -/
theorem map_filterMap_sublist {α β κ : Type} {f : α → Option β} {key : α → κ} {keyOf : β → κ}
    (h : ∀ a b, f a = some b → keyOf b = key a) (as : List α) :
    ((as.filterMap f).map keyOf).Sublist (as.map key) := by
  induction as with
  | nil => exact .slnil
  | cons a as ih =>
    rw [List.filterMap_cons, List.map_cons]
    cases hresult : f a with
    | none => exact ih.cons _
    | some b =>
      rw [List.map_cons, h a b hresult]
      exact ih.cons_cons _

/-- An annotation whose names are distinct identifiers finds each value under its name. -/
theorem isKeyed_of_nodup {ν : Type} {node : AnnotationNode ν}
    (identifiers : ∀ named ∈ node.values, named.1.kind = .identifier)
    (distinct : (node.values.map fun named => named.1.text).Nodup) : node.IsKeyed := by
  refine ⟨identifiers, distinct, fun named hnamed => ?_⟩
  have hfind : node.values.find? (fun value => value.1.text == named.1.text) = some named :=
    Resolve.find?_eq_some_of_nodup distinct hnamed
  unfold AnnotationNode.get?
  rw [hfind]
  rfl

namespace Resolve

open Check

variable {depth : Nat}

/-! ### Values by level -/

/-- What is shown for all values of a level, to be used for the values around them. -/
def NormalLevel (depth : Nat) : Prop :=
  ∀ element, ∀ value ∈ (annotationValue element).value depth,
    value.IsNormal ∧ depth + value.height ≤ maxNesting

/-- The values of an array are in normal form and leave a level for the array. -/
theorem NormalLevel.slots (h : NormalLevel depth) (location : Location)
    (slots : List (Option Element)) :
    ∀ value ∈ slots.filterMap fun slot => (slotValue location slot).run.value depth,
      value.IsNormal ∧ depth + value.height ≤ maxNesting := by
  intro value hvalue
  obtain ⟨slot, -, hslot⟩ := List.mem_filterMap.mp hvalue
  rcases slotValue_case depth location slot with ⟨hnone, -⟩ | ⟨element, -, helement, -⟩
  · rw [hnone] at hslot
    cases hslot
  · exact h element value (helement ▸ hslot)

/-- A named value is a value under the name of its entry, which is an identifier. -/
theorem NormalLevel.named (h : NormalLevel depth) {entry : Entry Element}
    {named : Token × AnnotationValue} (hnamed : (namedValue entry).run.value depth = some named) :
    named.1 = entry.key ∧ named.1.kind = .identifier
      ∧ named.2.IsNormal ∧ depth + named.2.height ≤ maxNesting := by
  rcases namedValue_case depth entry with ⟨hnone, -⟩ | ⟨hkey, element, -, helement, -⟩
  · rw [hnone] at hnamed
    cases hnamed
  · rw [helement] at hnamed
    obtain ⟨value, hvalue, rfl⟩ := Option.map_eq_some_iff.mp hnamed
    exact ⟨rfl, hkey, h element value hvalue⟩

/-- So are the values of an annotation, and their names are distinct identifiers. -/
theorem NormalLevel.node (h : NormalLevel depth) (declaration : Declaration Element) :
    ∀ node ∈ (annotationNode declaration).value depth,
      node.IsKeyed ∧ ∀ named ∈ node.values,
        named.2.IsNormal ∧ depth + named.2.height ≤ maxNesting := by
  have hcase := annotationNode_case depth declaration
  generalize (annotationNode declaration).value depth = result at hcase ⊢
  generalize ((annotationNode declaration).found depth).errors = errors at hcase
  intro node hnode
  cases hcase with
  | noValues => cases hnode
  | @values object type front hwritten hreported =>
    obtain ⟨type, -, rfl⟩ := Option.map_eq_some_iff.mp hnode
    have hvalues : ∀ named ∈ object.entries.filterMap fun entry =>
          (namedValue entry).run.value depth,
        ∃ entry, (namedValue entry).run.value depth = some named := by
      intro named hnamed
      obtain ⟨entry, -, hentry⟩ := List.mem_filterMap.mp hnamed
      exact ⟨entry, hentry⟩
    refine ⟨isKeyed_of_nodup ?_ ?_, ?_⟩
    · intro named hnamed
      obtain ⟨entry, hentry⟩ := hvalues named hnamed
      exact (h.named hentry).2.1
    · have hsublist : ((object.entries.filterMap fun entry =>
            (namedValue entry).run.value depth).map fun named => named.1.text).Sublist
          (object.entries.map fun entry => entry.key.text) :=
        map_filterMap_sublist (fun _ _ hentry => congrArg Token.text (h.named hentry).1) _
      exact hsublist.nodup object.nodup_keys
    · intro named hnamed
      obtain ⟨entry, hentry⟩ := hvalues named hnamed
      exact (h.named hentry).2.2

/-- An array fits on a level if its values fit on the next. -/
theorem fits_array {values : List AnnotationValue} (hdepth : depth < maxNesting)
    (h : ∀ value ∈ values, value.IsNormal ∧ depth + 1 + value.height ≤ maxNesting)
    (location : Location) :
    (AnnotationValue.array values location).IsNormal
      ∧ depth + (AnnotationValue.array values location).height ≤ maxNesting := by
  refine ⟨.array fun value hvalue => (h value hvalue).1, ?_⟩
  have hhighest : AnnotationValue.highest values ≤ maxNesting - (depth + 1) := by
    apply AnnotationValue.highest_le_iff.mpr
    intro value hvalue
    have hvalue := (h value hvalue).2
    omega
  show depth + (1 + AnnotationValue.highest values) ≤ maxNesting
  omega

/-- An annotation fits on a level if its values fit on the next. -/
theorem fits_nested {node : AnnotationNode AnnotationValue} (hdepth : depth < maxNesting)
    (hkeyed : node.IsKeyed)
    (h : ∀ named ∈ node.values, named.2.IsNormal ∧ depth + 1 + named.2.height ≤ maxNesting) :
    (AnnotationValue.nested node).IsNormal
      ∧ depth + (AnnotationValue.nested node).height ≤ maxNesting := by
  refine ⟨.nested hkeyed fun named hnamed => (h named hnamed).1, ?_⟩
  have hhighest : AnnotationValue.highestNamed node.values ≤ maxNesting - (depth + 1) := by
    apply AnnotationValue.highestNamed_le_iff.mpr
    intro named hnamed
    have hnamed := (h named hnamed).2
    omega
  show depth + (1 + AnnotationValue.highestNamed node.values) ≤ maxNesting
  omega

/-- A truth value is one of two words, so its flag says which. -/
theorem isNormal_bool {token : Token} (h : token.is "true" ∨ token.is "false") :
    (AnnotationValue.bool token (token.is "true")).IsNormal := by
  have hne : Content.ofString "true" ≠ Content.ofString "false" := by decide
  refine .bool Iff.rfl ⟨fun hfalse => ?_, fun hfalse => ?_⟩
  · rcases h with htrue | hword
    · rw [hfalse] at htrue
      cases htrue
    · exact hword
  · have hcontent : token.content = Content.ofString "false" := eq_of_beq hfalse
    rw [Token.is, hcontent]
    exact beq_eq_false_iff_ne.mpr hne.symm

/-- Every value is in normal form, and its height fits between its depth and the bound. -/
theorem normalLevel (depth : Nat) : NormalLevel depth := by
  refine annotationValue_levels (motive := fun depth _ result _ =>
    ∀ value ∈ result, value.IsNormal ∧ depth + value.height ≤ maxNesting) ?_ ?_ depth
  · exact fun _ _ _ _ hvalue => nomatch hvalue
  · intro depth hdepth (ih : NormalLevel (depth + 1)) element result errors hcase value hvalue
    cases hcase with
    | refused => cases hvalue
    | number token =>
      cases hvalue
      exact ⟨.number token, hdepth⟩
    | string token =>
      cases hvalue
      exact ⟨.string token, hdepth⟩
    | bool hwritten =>
      cases hvalue
      exact ⟨isNormal_bool hwritten, hdepth⟩
    | type hwritten =>
      cases hvalue
      exact ⟨.type hwritten, hdepth⟩
    | empty location =>
      cases hvalue
      exact fits_array hdepth (List.forall_mem_nil _) location
    | array slots location =>
      cases hvalue
      exact fits_array hdepth (ih.slots location slots) location
    | single element location =>
      obtain ⟨inner, hinner, rfl⟩ := Option.map_eq_some_iff.mp hvalue
      refine fits_array hdepth (fun other hother => ?_) location
      rw [List.mem_singleton.mp hother]
      exact ih element inner hinner
    | enum hkind =>
      obtain ⟨node, -, rfl⟩ := Option.map_eq_some_iff.mp hvalue
      exact ⟨.enum node, hdepth⟩
    | nested hkind =>
      obtain ⟨node, hnode, rfl⟩ := Option.map_eq_some_iff.mp hvalue
      obtain ⟨hkeyed, hvalues⟩ := ih.node _ node hnode
      exact fits_nested hdepth hkeyed hvalues

end Resolve

end JvmAssembly
