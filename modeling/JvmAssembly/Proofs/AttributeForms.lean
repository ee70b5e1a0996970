/-
JvmAssembly/Proofs/AttributeForms.lean

Every check of an attribute accepts exactly its rule.

Signatures, super names and interfaces are declarations with a single identifier
(`silent_singleIdentifier`).  An annotation is a type and values under distinct keys
(`silent_annotationNode`); since a repeated key is an error, the entries that are
skipped because of one do not matter.
-/
import JvmAssembly.Proofs.Acceptance

namespace JvmAssembly

namespace Resolve

open Check

variable {depth : Nat}

/-! ### Single identifiers -/

/-- Nothing is reported behind the expected slots exactly if there are only holes; a hole there
is not reported. -/
theorem silent_noMore (declaration : Declaration Element) (count : Nat) :
    (noMore declaration count).Silent depth
      ↔ ∀ slot ∈ declaration.slots.drop count, slot = none := by
  unfold noMore
  rw [silent_forM]
  · refine forall_congr' fun slot => forall_congr' fun _ => ?_
    cases slot with
    | none => simp
    | some element => exact ⟨fun h => absurd h (not_silent_error _ _), fun h => nomatch h⟩
  · intro slot
    cases slot with
    | none => exact orderly_pure ()
    | some element => exact orderly_unexpected _ _

theorem silent_identifierArgument (declaration : Declaration Element) (index : Nat)
    (expected : String) :
    (identifierArgument declaration index expected).run.Silent depth
      ↔ ∃ token, declaration.get? index = some (.identifier token) :=
  silent_identifierSlot expected (declaration.get? index) declaration.location

/-- The first slot of a declaration, and the rest, if the first slot is filled. -/
theorem get?_zero_eq_some_iff {declaration : Declaration Element} {element : Element} :
    declaration.get? 0 = some element
      ↔ declaration.slots = some element :: declaration.slots.drop 1 := by
  unfold Declaration.get?
  cases declaration.slots with
  | nil => simp
  | cons slot rest => simp

/-- The form of a declaration with a single identifier, by its slots: an identifier at the front
and nothing but holes behind it. -/
theorem isSingle_iff (declaration : Declaration Element) :
    IsSingle declaration
      ↔ (∃ token, declaration.get? 0 = some (.identifier token))
        ∧ ∀ slot ∈ declaration.slots.drop 1, slot = none := by
  constructor
  · rintro ⟨token, rest, hslots, hrest⟩
    have hdrop : declaration.slots.drop 1 = rest := by
      rw [hslots]
      rfl
    refine ⟨⟨token, get?_zero_eq_some_iff.mpr ?_⟩, ?_⟩
    · rw [hdrop, hslots]
    · rw [hdrop]
      exact hrest
  · rintro ⟨⟨token, htoken⟩, hrest⟩
    exact ⟨token, _, get?_zero_eq_some_iff.mp htoken, hrest⟩

theorem silent_singleIdentifier (declaration : Declaration Element) (expected : String) :
    (singleIdentifier declaration expected).run.Silent depth ↔ IsSingle declaration := by
  have hidentifier := (strict_identifierArgument declaration 0 expected).orderly
  have hnoMore := (strict_noMore declaration 1).orderly
  rw [isSingle_iff]
  refine (silent_lift_bind hidentifier ?_).trans ?_
  · refine hnoMore.lift.bind_attempt fun _ => ?_
    cases (identifierArgument declaration 0 expected).run.value depth <;> exact orderly_pure _
  rw [silent_identifierArgument]
  refine and_congr_right fun ⟨token, htoken⟩ => ?_
  rw [value_identifierArgument, htoken]
  refine (silent_lift_bind hnoMore (orderly_pure _)).trans ?_
  rw [silent_noMore]
  exact and_iff_left (silent_pure _)

/-! ### Annotations -/

/-- The form of an annotation, with a rule for its values. -/
def HasValues (rule : Element → Prop) (declaration : Declaration Element) : Prop :=
  ∃ type values object rest,
    declaration.slots = some (.identifier type) :: some values :: rest
      ∧ (∀ slot ∈ rest, slot = none) ∧ values.object? = some object ∧ DistinctKeys object
      ∧ ∀ pair ∈ object.pairs, pair.key.kind = .identifier
        ∧ ∃ element, pair.value = some element ∧ rule element

theorem HasValues.mono {rule rule' : Element → Prop} {declaration : Declaration Element}
    (h : HasValues rule declaration) (hrule : ∀ element, rule element → rule' element) :
    HasValues rule' declaration := by
  obtain ⟨type, values, object, rest, hslots, hrest, hobject, hdistinct, hpairs⟩ := h
  refine ⟨type, values, object, rest, hslots, hrest, hobject, hdistinct, fun pair hpair => ?_⟩
  obtain ⟨hkey, element, hvalue, helement⟩ := hpairs pair hpair
  exact ⟨hkey, element, hvalue, hrule element helement⟩

/-- Resolves the entries in the second slot of an annotation. -/
def annotationEntries (slots : List (Option Element)) : Check (List (Token × AnnotationValue)) :=
  match slots with
  | _ :: some (.object ⟨pairs, _⟩) :: _ => entryValues [] pairs
  | _ => pure []

/-- Resolves what follows the slots of an annotation that are counted from its front. -/
def annotationRest (declaration : Declaration Element) (type : Option Token) :
    Option (Object Element) → Check (Option (AnnotationNode AnnotationValue))
  | none => return none
  | some object => do
    Expect.distinctKeys "annotation values" object
    let values ← annotationEntries declaration.slots
    return type.map fun type => { type, values, location := declaration.location }

/-- An annotation is resolved in three steps: its type, its values, and what it is made of. -/
theorem annotationNode_eq (declaration : Declaration Element) :
    annotationNode declaration = (do
      let type ← (identifierArgument declaration 0 "annotation type").run
      let object ← (valuesArgument declaration).run
      noMore declaration 2
      annotationRest declaration type object) := by
  unfold annotationNode annotationSlots annotationRest annotationEntries
  refine bind_congr fun type => bind_congr fun object => bind_congr fun _ => ?_
  cases object <;> rfl

theorem orderly_annotationRest (declaration : Declaration Element) (type : Option Token)
    (object : Option (Object Element)) : (annotationRest declaration type object).Orderly := by
  cases object with
  | none => exact orderly_pure none
  | some object =>
    refine (Expect.orderly_distinctKeys _ _).bind fun _ => Orderly.map ?_ _
    unfold annotationEntries
    split
    · exact (strict_entryValues _ _).orderly
    · exact orderly_pure []

/-- An entry is accepted if its key is an identifier and its value is one of the values that are
accepted. -/
theorem silent_entryValue (entry : Entry Element) :
    (entryValue entry).Silent depth
      ↔ entry.key.kind = .identifier
        ∧ ∃ element, entry.value = some element ∧ (annotationValue element).Silent depth := by
  have herror : ∀ (problem : Problem) (location : Location),
      ¬ (do Check.error problem location; return none : Check (Option AnnotationValue)).Silent
        depth := fun _ _ => not_silent_error _ _
  obtain ⟨key, _ | element⟩ := entry
  -- a hole is an error under any key
  · have hsilent : ¬ (entryValue ⟨key, none⟩).Silent depth := by
      rw [entryValue_none]
      split <;> exact herror _ _
    refine iff_of_false hsilent ?_
    rintro ⟨-, element, helement, -⟩
    cases helement
  · rw [entryValue_some]
    split
    · next hkey => simp [hkey]
    · next hkey => exact iff_of_false (herror _ _) fun h => hkey h.1

/-- Entries with distinct keys are checked one by one. -/
theorem silent_entryValues {seen : List String} {pairs : List (Entry Element)}
    (hnodup : (pairs.map fun pair => pair.key.text).Nodup)
    (hseen : ∀ pair ∈ pairs, pair.key.text ∉ seen) :
    (entryValues seen pairs).Silent depth ↔ ∀ pair ∈ pairs, (entryValue pair).Silent depth := by
  induction pairs generalizing seen with
  | nil => exact iff_of_true (silent_pure _) (by simp)
  | cons pair pairs ih =>
    obtain ⟨hpair, hpairs⟩ := List.forall_mem_cons.mp hseen
    rw [List.map_cons, List.nodup_cons] at hnodup
    have hrest := (strict_entryValues (pair.key.text :: seen) pairs).orderly
    rw [entryValues, if_neg hpair, silent_bind (strict_entryValue pair).orderly (hrest.map _),
      silent_map hrest, List.forall_mem_cons]
    -- the key that is seen now comes no more, so nothing is skipped
    refine and_congr_right fun _ => ih hnodup.2 fun other hother hmem => ?_
    rcases List.mem_cons.mp hmem with heq | hmem
    · exact hnodup.1 (List.mem_map.mpr ⟨other, hother, heq⟩)
    · exact hpairs other hother hmem

/-- The first two slots of a declaration, and the rest, if these two are filled. -/
theorem get?_zero_one_eq_some_iff {declaration : Declaration Element} {first second : Element} :
    declaration.get? 0 = some first ∧ declaration.get? 1 = some second
      ↔ declaration.slots = some first :: some second :: declaration.slots.drop 2 := by
  unfold Declaration.get?
  match declaration.slots with
  | [] => simp
  | [_] => simp
  | _ :: _ :: _ => simp

/-- The values of an annotation are an object, for which empty braces may stand. -/
theorem accepts_valuesArgument (declaration : Declaration Element) :
    (valuesArgument declaration).Accepts depth
      fun object => (declaration.get? 1).bind Element.object? = some object := by
  unfold valuesArgument
  simp only [Expect.object_eq]
  exact Expect.accepts_viewedSlot _ _ (declaration.get? 1) _

/-- The values of an annotation are accepted exactly if each of them is, under a key of its
own that is an identifier. -/
theorem silent_annotationRest {declaration : Declaration Element} {first : Option Element}
    {values : Element} {rest : List (Option Element)} {object : Object Element}
    (hslots : declaration.slots = first :: some values :: rest)
    (hobject : values.object? = some object) (type : Option Token) :
    (annotationRest declaration type (some object)).Silent depth
      ↔ DistinctKeys object ∧ ∀ pair ∈ object.pairs, pair.key.kind = .identifier
        ∧ ∃ element, pair.value = some element ∧ (annotationValue element).Silent depth := by
  have hentries : annotationEntries declaration.slots = entryValues [] object.pairs := by
    rw [hslots]
    -- empty braces are the object without entries
    cases values <;> cases hobject <;> rfl
  have horderly := (strict_entryValues [] object.pairs).orderly
  unfold annotationRest
  rw [hentries, silent_bind (Expect.orderly_distinctKeys _ _) (horderly.map _),
    silent_map horderly, silent_distinctKeys]
  refine and_congr_right fun hdistinct => ?_
  rw [silent_entryValues hdistinct fun _ _ => List.not_mem_nil]
  simp only [silent_entryValue]

/-- At any depth, an annotation is accepted exactly in its form, with values that are accepted
at this depth. -/
theorem silent_annotationNode_at (declaration : Declaration Element) :
    (annotationNode declaration).Silent depth
      ↔ HasValues (fun element => (annotationValue element).Silent depth) declaration := by
  have htype := (strict_identifierArgument declaration 0 "annotation type").orderly
  have hvalues := (strict_valuesArgument declaration).orderly
  have hnoMore := (strict_noMore declaration 2).orderly
  have hrest := orderly_annotationRest declaration
  rw [annotationNode_eq, silent_bind htype (hvalues.bind fun _ => hnoMore.bind fun _ => hrest _ _),
    silent_bind hvalues (hnoMore.bind fun _ => hrest _ _), silent_bind hnoMore (hrest _ _),
    silent_identifierArgument, silent_noMore]
  constructor
  · rintro ⟨⟨type, htype⟩, hsilent, hmore, hentries⟩
    obtain ⟨object, hvalue, hobject⟩ :=
      ((accepts_valuesArgument declaration).iff _).mp ⟨hsilent, rfl⟩
    obtain ⟨values, hvalues, hobject⟩ := Option.bind_eq_some_iff.mp hobject
    have hslots := get?_zero_one_eq_some_iff.mp ⟨htype, hvalues⟩
    rw [hvalue, silent_annotationRest hslots hobject] at hentries
    exact ⟨type, values, object, _, hslots, hmore, hobject, hentries⟩
  · rintro ⟨type, values, object, rest, hslots, hmore, hobject, hentries⟩
    have hdrop : declaration.slots.drop 2 = rest := by
      rw [hslots]
      rfl
    rw [← hdrop] at hslots hmore
    obtain ⟨htype, hvalues⟩ := get?_zero_one_eq_some_iff.mpr hslots
    obtain ⟨hsilent, hvalue⟩ := ((accepts_valuesArgument declaration).iff (some object)).mpr
      ⟨object, rfl, by rw [hvalues]; exact hobject⟩
    refine ⟨⟨type, htype⟩, hsilent, hmore, ?_⟩
    rw [hvalue, silent_annotationRest hslots hobject]
    exact hentries

/-- An annotation is accepted exactly in its form. -/
theorem silent_annotationNode (declaration : Declaration Element) :
    (annotationNode declaration).Silent 0 ↔ IsAnnotation declaration :=
  silent_annotationNode_at declaration

end Resolve

end JvmAssembly
