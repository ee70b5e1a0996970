/-
JvmAssembly/Proofs/ValueNormalization.lean

Which annotation values are accepted, and what they become.

`NormalizesTo` relates a value to its normal form, one rule for each form of a value:
`true` and `false` become truth values, empty braces become the empty array, a body without
a keyword becomes the array of the value in it, and all else stays what it is, on every level.
`valueHeight` counts levels, one for each value.  The resolver does what both say:

    (annotationValue element).Silent depth
      ↔ IsValue element ∧ depth + valueHeight element ≤ maxNesting,

and then the result is the normal form of the element, of which there is only one.

Acceptance carries the proof (`Accepts`): with `left` levels to go, a value is accepted with
the normal forms that are at most `left` levels high.  A level is described by what the next
accepts, so one induction on the levels that are left is all (`accepts_annotationValue`).
-/
import JvmAssembly.Proofs.ValueForms

namespace JvmAssembly

open Resolve

/-! ### Heights -/

mutual

/-- How many levels a value has, counting one for each value.  The values in an annotation are
those of the object in its second slot. -/
def valueHeight : Element → Nat
  | .array ⟨slots, _⟩ => 1 + highestSlot slots
  | .declaration ⟨none, slots, _⟩ => 1 + highestSlot slots
  | .declaration ⟨some _, _ :: some (.object ⟨pairs, _⟩) :: _, _⟩ => 1 + highestEntry pairs
  | _ => 1
termination_by structural element => element

/-- The height of the highest value in some slots. -/
def highestSlot : List (Option Element) → Nat
  | [] => 0
  | none :: slots => highestSlot slots
  | some element :: slots => max (valueHeight element) (highestSlot slots)
termination_by structural slots => slots

/-- The height of the highest value under some keys. -/
def highestEntry : List (Entry Element) → Nat
  | [] => 0
  | ⟨_, none⟩ :: pairs => highestEntry pairs
  | ⟨_, some element⟩ :: pairs => max (valueHeight element) (highestEntry pairs)
termination_by structural pairs => pairs

end

/-- Every value takes a level. -/
theorem valueHeight_pos (element : Element) : 0 < valueHeight element := by
  unfold valueHeight
  split <;> omega

/-! ### Normal forms -/

mutual

/-- A value and its normal form. -/
inductive NormalizesTo : Element → AnnotationValue → Prop
  | number (token : Token) : NormalizesTo (.number token) (.number token)
  | string (token : Token) : NormalizesTo (.string token) (.string token)
  | bool {token : Token} (h : token.is "true" ∨ token.is "false") :
      NormalizesTo (.identifier token) (.bool token (token.is "true"))
  | type {token : Token} (h : token.content.startsWith 'L') :
      NormalizesTo (.identifier token) (.type token)
  | empty (location : Location) : NormalizesTo (.empty location) (.array [] location)
  | array {slots : List (Option Element)} {values : List AnnotationValue} (location : Location)
      (h : SlotsNormalizeTo slots values) :
      NormalizesTo (.array ⟨slots, location⟩) (.array values location)
  | single {element : Element} {value : AnnotationValue} (location : Location)
      (h : NormalizesTo element value) :
      NormalizesTo (.declaration ⟨none, [some element], location⟩) (.array [value] location)
  | enum {declaration : Declaration Element} {type name : Token} {rest : List (Option Element)}
      (kind : declaration.kind? = some .enumDecl)
      (hslots : declaration.slots = some (.identifier type) :: some (.identifier name) :: rest)
      (hrest : ∀ slot ∈ rest, slot = none) :
      NormalizesTo (.declaration declaration) (.enum ⟨type, name, declaration.location⟩)
  | nested {declaration : Declaration Element} {type : Token} {element : Element}
      {object : Object Element} {rest : List (Option Element)}
      {values : List (Token × AnnotationValue)}
      (kind : declaration.kind? = some (.member .annotationDecl))
      (hslots : declaration.slots = some (.identifier type) :: some element :: rest)
      (hrest : ∀ slot ∈ rest, slot = none) (hobject : element.object? = some object)
      (hdistinct : DistinctKeys object) (h : EntriesNormalizeTo object.pairs values) :
      NormalizesTo (.declaration declaration) (.nested ⟨type, values, declaration.location⟩)

/-- Slots without holes, and the normal forms of what is in them. -/
inductive SlotsNormalizeTo : List (Option Element) → List AnnotationValue → Prop
  | nil : SlotsNormalizeTo [] []
  | cons {element : Element} {value : AnnotationValue} {slots : List (Option Element)}
      {values : List AnnotationValue} (h : NormalizesTo element value)
      (hslots : SlotsNormalizeTo slots values) :
      SlotsNormalizeTo (some element :: slots) (value :: values)

/-- Entries with identifiers as keys, and the normal forms of their values under these keys. -/
inductive EntriesNormalizeTo : List (Entry Element) → List (Token × AnnotationValue) → Prop
  | nil : EntriesNormalizeTo [] []
  | cons {key : Token} {element : Element} {value : AnnotationValue}
      {pairs : List (Entry Element)} {values : List (Token × AnnotationValue)}
      (hkey : key.kind = .identifier) (h : NormalizesTo element value)
      (hpairs : EntriesNormalizeTo pairs values) :
      EntriesNormalizeTo (⟨key, some element⟩ :: pairs) ((key, value) :: values)

end

namespace Resolve

open Check

variable {depth left : Nat}

/-! ### Values on one level -/

/-- With `left` levels to go, values are accepted with the normal forms that are not higher. -/
def AcceptsValues (depth left : Nat) : Prop :=
  ∀ element, Attempt.Accepts (OptionT.mk (annotationValue element)) depth fun value =>
    NormalizesTo element value ∧ valueHeight element ≤ left

/-- A slot is accepted if it holds a value, one level down. -/
theorem AcceptsValues.slot (h : AcceptsValues depth left) (location : Location)
    (slot : Option Element) :
    (slotValue location slot).Accepts depth fun value => ∃ element, slot = some element
      ∧ NormalizesTo element value ∧ valueHeight element ≤ left := by
  cases slot with
  | none =>
    refine (Attempt.Accepts.error _ _).congr fun value => ?_
    simp
  | some element =>
    refine (h element).congr fun value => ?_
    simp

/-- Slots are accepted if none is a hole and each holds a value that is accepted. -/
theorem forall₂_slots_iff {slots : List (Option Element)} {values : List AnnotationValue} :
    List.Forall₂ (fun slot value => ∃ element, slot = some element
        ∧ NormalizesTo element value ∧ valueHeight element ≤ left) slots values
      ↔ SlotsNormalizeTo slots values ∧ highestSlot slots ≤ left := by
  constructor
  · intro h
    induction h with
    | nil => exact ⟨.nil, Nat.zero_le left⟩
    | cons hslot _ ih =>
      obtain ⟨element, rfl, hvalue, hheight⟩ := hslot
      exact ⟨.cons hvalue ih.1, Nat.max_le.mpr ⟨hheight, ih.2⟩⟩
  · rintro ⟨h, hheight⟩
    induction slots generalizing values with
    | nil =>
      cases h
      exact .nil
    | cons slot slots ih =>
      cases h with
      | cons hvalue hslots =>
        obtain ⟨hfirst, hrest⟩ := Nat.max_le.mp hheight
        exact .cons ⟨_, rfl, hvalue, hfirst⟩ (ih hslots hrest)

/-- An array is accepted if all its slots are, and resolves to their normal forms. -/
theorem AcceptsValues.slots (h : AcceptsValues depth left) (location : Location)
    (slots : List (Option Element)) :
    (valueSlots location slots).Accepts depth fun values =>
      SlotsNormalizeTo slots values ∧ highestSlot slots ≤ left := by
  rw [valueSlots_eq]
  exact (Attempt.Accepts.collect (h.slot location) slots).congr fun _ => forall₂_slots_iff

/-- An entry is accepted if its key is an identifier and its value is one, a level down. -/
theorem AcceptsValues.entry (h : AcceptsValues depth left) (entry : Entry Element) :
    Attempt.Accepts (OptionT.mk (entryValue entry)) depth fun value =>
      entry.key.kind = .identifier ∧ ∃ element, entry.value = some element
        ∧ NormalizesTo element value ∧ valueHeight element ≤ left := by
  obtain ⟨key, _ | element⟩ := entry
  · rw [entryValue_none]
    split <;> exact (Attempt.Accepts.error _ _).congr fun _ => by simp
  · rw [entryValue_some]
    split
    · next hkey => exact (h element).congr fun _ => by simp [hkey]
    · next hkey => exact (Attempt.Accepts.error _ _).congr fun _ => by simp [hkey]

/-- An entry is accepted as its value under its key. -/
theorem AcceptsValues.named (h : AcceptsValues depth left) (entry : Entry Element) :
    (namedValue entry).Accepts depth fun named => entry.key.kind = .identifier ∧ named.1 = entry.key
      ∧ ∃ element, entry.value = some element
        ∧ NormalizesTo element named.2 ∧ valueHeight element ≤ left := by
  refine ((h.entry entry).map fun value => (entry.key, value)).congr fun named => ?_
  constructor
  · rintro ⟨value, ⟨hkey, hvalue⟩, rfl⟩
    exact ⟨hkey, rfl, hvalue⟩
  · obtain ⟨name, value⟩ := named
    rintro ⟨hkey, rfl, hvalue⟩
    exact ⟨value, ⟨hkey, hvalue⟩, rfl⟩

theorem forall₂_entries_iff {pairs : List (Entry Element)}
    {values : List (Token × AnnotationValue)} :
    List.Forall₂ (fun (entry : Entry Element) (named : Token × AnnotationValue) =>
        entry.key.kind = .identifier ∧ named.1 = entry.key
          ∧ ∃ element, entry.value = some element
            ∧ NormalizesTo element named.2 ∧ valueHeight element ≤ left) pairs values
      ↔ EntriesNormalizeTo pairs values ∧ highestEntry pairs ≤ left := by
  constructor
  · intro h
    induction h with
    | nil => exact ⟨.nil, Nat.zero_le left⟩
    | @cons entry named _ _ hnamed _ ih =>
      obtain ⟨key, slot⟩ := entry
      obtain ⟨name, value⟩ := named
      obtain ⟨hkey, rfl, element, rfl, hvalue, hheight⟩ := hnamed
      exact ⟨.cons hkey hvalue ih.1, Nat.max_le.mpr ⟨hheight, ih.2⟩⟩
  · rintro ⟨h, hheight⟩
    induction pairs generalizing values with
    | nil =>
      cases h
      exact .nil
    | cons pair pairs ih =>
      cases h with
      | cons hkey hvalue hpairs =>
        obtain ⟨hfirst, hrest⟩ := Nat.max_le.mp hheight
        exact .cons ⟨hkey, rfl, _, rfl, hvalue, hfirst⟩ (ih hpairs hrest)

/-- The entries of an annotation are accepted if no key is repeated and each holds a value that
is accepted. -/
theorem AcceptsValues.rest (h : AcceptsValues depth left) {declaration : Declaration Element}
    {object : Object Element} (hobject : (declaration.get? 1).bind Element.object? = some object)
    (type : Token) :
    Attempt.Accepts (OptionT.mk (annotationRest declaration (some type) (some object))) depth
      fun node => DistinctKeys object ∧ ∃ values,
        (EntriesNormalizeTo object.pairs values ∧ highestEntry object.pairs ≤ left)
          ∧ node = ⟨type, values, declaration.location⟩ := by
  have heq : (OptionT.mk (annotationRest declaration (some type) (some object)) : Attempt _) = (do
      Expect.distinctKeys "annotation values" object
      let values ← (Check.collect namedValue object.entries : Check _)
      return ⟨type, values, declaration.location⟩) := by
    apply OptionT.ext
    unfold annotationRest
    rw [annotationEntries_eq hobject]
    simp
  rw [heq]
  have hentries := Attempt.Accepts.collect h.named object.entries
  refine ((accepts_distinctKeys "annotation values" object).lift.bind fun _ =>
    hentries.lift.bind fun values => Attempt.Accepts.pure _).congr fun node => ?_
  constructor
  · rintro ⟨-, hdistinct, values, hvalues, rfl⟩
    rw [entries_of_distinctKeys hdistinct, forall₂_entries_iff] at hvalues
    exact ⟨hdistinct, values, hvalues, rfl⟩
  · rintro ⟨hdistinct, values, hvalues, rfl⟩
    rw [← forall₂_entries_iff, ← entries_of_distinctKeys hdistinct] at hvalues
    exact ⟨(), hdistinct, values, hvalues, rfl⟩

/-- An annotation is accepted in its form, with the values under its keys. -/
theorem AcceptsValues.node (h : AcceptsValues depth left) (declaration : Declaration Element) :
    Attempt.Accepts (OptionT.mk (annotationNode declaration)) depth fun node =>
      ∃ type element object rest values,
        declaration.slots = some (.identifier type) :: some element :: rest
          ∧ (∀ slot ∈ rest, slot = none) ∧ element.object? = some object ∧ DistinctKeys object
          ∧ (EntriesNormalizeTo object.pairs values ∧ highestEntry object.pairs ≤ left)
          ∧ node = ⟨type, values, declaration.location⟩ := by
  have hvalues := (strict_valuesArgument declaration).orderly
  have hnoMore := (strict_noMore declaration 2).orderly
  have hrest := orderly_annotationRest declaration
  have heq : (OptionT.mk (annotationNode declaration) : Attempt _) = (do
      let type ← Attempt.optional (identifierArgument declaration 0 "annotation type")
      let object ← Attempt.optional (valuesArgument declaration)
      noMore declaration 2
      OptionT.mk (annotationRest declaration type object)) := by
    apply OptionT.ext
    rw [annotationNode_eq]
    simp [Attempt.optional]
  rw [heq]
  refine ((accepts_identifierArgument declaration 0 "annotation type").optional_bind
    (fun type => hvalues.optional.bind_attempt fun object => hnoMore.lift.bind_attempt fun _ =>
      hrest type object)
    fun type => (accepts_valuesArgument declaration).optional_bind_of
      (fun object => hnoMore.lift.bind_attempt fun _ => hrest (some type) object)
      fun object hobject => (accepts_noMore declaration 2).lift.bind fun _ =>
        h.rest hobject type).congr fun node => ?_
  constructor
  · rintro ⟨type, htype, object, hobject, -, hmore, hdistinct, values, hvalues, rfl⟩
    obtain ⟨element, helement, hobject⟩ := Option.bind_eq_some_iff.mp hobject
    exact ⟨type, element, object, _, values, get?_zero_one_eq_some_iff.mp ⟨htype, helement⟩, hmore,
      hobject, hdistinct, hvalues, rfl⟩
  · rintro ⟨type, element, object, rest, values, hslots, hmore, hobject, hdistinct, hvalues, rfl⟩
    have hdrop : declaration.slots.drop 2 = rest := by
      rw [hslots]
      rfl
    rw [← hdrop] at hslots hmore
    obtain ⟨htype, helement⟩ := get?_zero_one_eq_some_iff.mpr hslots
    refine ⟨type, htype, object, ?_, (), hmore, hdistinct, values, hvalues, rfl⟩
    rw [helement, Option.bind_some, hobject]

/-! ### The forms of a value -/

/-- A word that begins like the type of a class is no truth value. -/
theorem not_truth_of_type {token : Token} (h : token.content.startsWith 'L') :
    ¬ (token.is "true" ∨ token.is "false") := by
  have hwords : ∀ word ∈ ["true", "false"], ¬ (Content.ofString word).startsWith 'L' := by decide
  rintro (hword | hword)
  · rw [show token.content = Content.ofString "true" from eq_of_beq hword] at h
    exact hwords "true" (by simp) h
  · rw [show token.content = Content.ofString "false" from eq_of_beq hword] at h
    exact hwords "false" (by simp) h

/-- An identifier is a truth value or a type, and nothing else. -/
theorem normalizesTo_identifier_iff {token : Token} {value : AnnotationValue} :
    NormalizesTo (.identifier token) value
      ↔ (token.is "true" ∨ token.is "false") ∧ value = .bool token (token.is "true")
        ∨ token.content.startsWith 'L' ∧ value = .type token := by
  constructor
  · intro h
    cases h with
    | bool hword => exact .inl ⟨hword, rfl⟩
    | type htype => exact .inr ⟨htype, rfl⟩
  · rintro (⟨hword, rfl⟩ | ⟨htype, rfl⟩)
    · exact .bool hword
    · exact .type htype

theorem accepts_identifierValue (token : Token) :
    (identifierValue token).Accepts depth fun value => NormalizesTo (.identifier token) value := by
  simp only [normalizesTo_identifier_iff]
  unfold identifierValue
  split
  · next hword =>
    rw [Bool.or_eq_true] at hword
    have htype : ¬ token.content.startsWith 'L' := fun htype => not_truth_of_type htype hword
    exact (Attempt.Accepts.pure _).congr fun value => by simp [hword, htype]
  · next hword =>
    rw [Bool.or_eq_true] at hword
    split
    · next htype => exact (Attempt.Accepts.pure _).congr fun value => by simp [hword, htype]
    · next htype => exact (Attempt.Accepts.error _ _).congr fun value => by simp [hword, htype]

/-- A body without a keyword is accepted if it holds one value, which is accepted. -/
theorem AcceptsValues.keywordless (h : AcceptsValues depth left) (slots : List (Option Element))
    (location : Location) :
    Attempt.Accepts (OptionT.mk (declaredValue ⟨none, slots, location⟩)) depth fun value =>
      NormalizesTo (.declaration ⟨none, slots, location⟩) value ∧ highestSlot slots ≤ left := by
  have hnone : ∀ {value}, NormalizesTo (.declaration ⟨none, slots, location⟩) value →
      ∃ element inner, slots = [some element] ∧ value = .array [inner] location
        ∧ NormalizesTo element inner := by
    intro value hvalue
    cases hvalue with
    | single _ hinner => exact ⟨_, _, rfl, rfl, hinner⟩
    | enum kind => cases kind
    | nested kind => cases kind
  rcases slots with _ | ⟨_ | element, _ | ⟨other, rest⟩⟩
  case cons.some.nil =>
    refine ((h element).map fun value => AnnotationValue.array [value] location).congr
      fun value => ?_
    constructor
    · rintro ⟨inner, ⟨hinner, hheight⟩, rfl⟩
      exact ⟨.single location hinner, Nat.max_le.mpr ⟨hheight, Nat.zero_le left⟩⟩
    · rintro ⟨hvalue, hheight⟩
      obtain ⟨_, inner, ⟨⟩, rfl, hinner⟩ := hnone hvalue
      exact ⟨inner, ⟨hinner, (Nat.max_le.mp hheight).1⟩, rfl⟩
  all_goals
    refine (Attempt.Accepts.error _ _).congr fun value => ⟨False.elim, fun ⟨hvalue, _⟩ => ?_⟩
    obtain ⟨_, _, hslots, -⟩ := hnone hvalue
    cases hslots

variable {declaration : Declaration Element}

theorem exists_keyword_of_kind {kind : DeclarationKind} (h : declaration.kind? = some kind) :
    ∃ keyword slots location, declaration = ⟨some keyword, slots, location⟩ := by
  obtain ⟨_ | keyword, slots, location⟩ := declaration
  · cases h
  · exact ⟨keyword, slots, location, rfl⟩

theorem declaredValue_of_enum (h : declaration.kind? = some .enumDecl) :
    declaredValue declaration = do return (← (enumNode declaration).run).map .enum := by
  obtain ⟨keyword, slots, location, rfl⟩ := exists_keyword_of_kind h
  unfold declaredValue
  simp only [kindOf_of_kind h, OptionT.run_pure, pure_bind]

theorem declaredValue_of_nested (h : declaration.kind? = some (.member .annotationDecl)) :
    declaredValue declaration = do return (← annotationNode declaration).map .nested := by
  obtain ⟨keyword, slots, location, rfl⟩ := exists_keyword_of_kind h
  unfold declaredValue
  simp only [kindOf_of_kind h, OptionT.run_pure, pure_bind]
  rfl

/-- Only annotations and constants of enumerations are values with a keyword. -/
theorem not_silent_declaredValue {keyword : Token} (hkeyword : declaration.keyword = some keyword)
    (henum : declaration.kind? ≠ some .enumDecl)
    (hnested : declaration.kind? ≠ some (.member .annotationDecl)) :
    ¬ (declaredValue declaration).Silent depth := by
  obtain ⟨_, slots, location⟩ := declaration
  cases hkeyword
  unfold declaredValue
  cases hkind : (⟨some keyword, slots, location⟩ : Declaration Element).kind? with
  | none =>
    obtain ⟨problem, hkindOf⟩ := kindOf_of_no_kind hkind
    simp only [hkindOf]
    exact List.cons_ne_nil _ _
  | some kind =>
    simp only [kindOf_of_kind hkind, OptionT.run_pure, pure_bind]
    cases kind with
    | classDecl | superDecl | interfaceDecl => exact List.cons_ne_nil _ _
    | enumDecl => exact absurd hkind henum
    | member kind =>
      cases kind with
      | fieldDecl | methodDecl | signatureDecl => exact List.cons_ne_nil _ _
      | annotationDecl => exact absurd hkind hnested

/-- The height of a declaration with a keyword is that of the object in it. -/
theorem valueHeight_of_object {kind : DeclarationKind} (hkind : declaration.kind? = some kind)
    {first : Option Element} {element : Element} {rest : List (Option Element)}
    {object : Object Element} (hslots : declaration.slots = first :: some element :: rest)
    (hobject : element.object? = some object) :
    valueHeight (.declaration declaration) = 1 + highestEntry object.pairs := by
  obtain ⟨keyword, slots, location, rfl⟩ := exists_keyword_of_kind hkind
  obtain rfl : slots = first :: some element :: rest := hslots
  -- empty braces are the object without entries
  cases element <;> cases hobject <;> rfl

/-- A constant of an enumeration is a value of one level. -/
theorem accepts_enumValue (hkind : declaration.kind? = some .enumDecl) :
    Attempt.Accepts (OptionT.mk (declaredValue declaration)) depth fun value =>
      NormalizesTo (.declaration declaration) value
        ∧ valueHeight (.declaration declaration) ≤ left + 1 := by
  rw [declaredValue_of_enum hkind]
  refine ((accepts_enumNode declaration).map AnnotationValue.enum).congr fun value => ?_
  constructor
  · rintro ⟨_, ⟨type, name, rest, hslots, hrest, rfl⟩, rfl⟩
    refine ⟨.enum hkind hslots hrest, ?_⟩
    obtain ⟨keyword, slots, location, rfl⟩ := exists_keyword_of_kind hkind
    obtain rfl : slots = some (.identifier type) :: some (.identifier name) :: rest := hslots
    exact Nat.le_add_left 1 left
  · rintro ⟨hvalue, -⟩
    cases hvalue with
    | single => cases hkind
    | enum _ hslots hrest => exact ⟨_, ⟨_, _, _, hslots, hrest, rfl⟩, rfl⟩
    | nested hother =>
      rw [hkind] at hother
      cases hother

/-- An annotation as a value has one level more than its values. -/
theorem AcceptsValues.nested (h : AcceptsValues depth left)
    (hkind : declaration.kind? = some (.member .annotationDecl)) :
    Attempt.Accepts (OptionT.mk (declaredValue declaration)) depth fun value =>
      NormalizesTo (.declaration declaration) value
        ∧ valueHeight (.declaration declaration) ≤ left + 1 := by
  rw [declaredValue_of_nested hkind]
  refine ((h.node declaration).map AnnotationValue.nested).congr fun value => ?_
  constructor
  · rintro ⟨_, ⟨type, element, object, rest, values, hslots, hrest, hobject, hdistinct,
      ⟨hvalues, hheight⟩, rfl⟩, rfl⟩
    refine ⟨.nested hkind hslots hrest hobject hdistinct hvalues, ?_⟩
    rw [valueHeight_of_object hkind hslots hobject]
    omega
  · rintro ⟨hvalue, hheight⟩
    cases hvalue with
    | single => cases hkind
    | enum hother =>
      rw [hkind] at hother
      cases hother
    | nested _ hslots hrest hobject hdistinct hvalues =>
      rw [valueHeight_of_object hkind hslots hobject] at hheight
      exact ⟨_, ⟨_, _, _, _, _, hslots, hrest, hobject, hdistinct, ⟨hvalues, by omega⟩, rfl⟩, rfl⟩

/-- A declaration as a value is accepted by its keyword, or without one as a value in braces. -/
theorem AcceptsValues.declared (h : AcceptsValues depth left) (declaration : Declaration Element) :
    Attempt.Accepts (OptionT.mk (declaredValue declaration)) depth fun value =>
      NormalizesTo (.declaration declaration) value
        ∧ valueHeight (.declaration declaration) ≤ left + 1 := by
  cases hkeyword : declaration.keyword with
  | none =>
    obtain ⟨_, slots, location⟩ := declaration
    cases hkeyword
    refine (h.keywordless slots location).congr fun value => and_congr_right fun _ => ?_
    show _ ↔ 1 + highestSlot slots ≤ left + 1
    omega
  | some keyword =>
    by_cases henum : declaration.kind? = some .enumDecl
    · exact accepts_enumValue henum
    by_cases hnested : declaration.kind? = some (.member .annotationDecl)
    · exact h.nested hnested
    refine (Attempt.Accepts.nothing (strict_declaredValue declaration).orderly
      (not_silent_declaredValue hkeyword henum hnested)).congr fun value => ?_
    refine ⟨False.elim, fun ⟨hvalue, _⟩ => ?_⟩
    cases hvalue with
    | single => cases hkeyword
    | enum hkind => exact henum hkind
    | nested hkind => exact hnested hkind

/-- A value without parts is accepted on the last level. -/
theorem accepts_leaf {element : Element} {value : AnnotationValue}
    (hheight : valueHeight element = 1) (h : ∀ other, NormalizesTo element other ↔ other = value) :
    (pure value : Attempt AnnotationValue).Accepts depth fun other =>
      NormalizesTo element other ∧ valueHeight element ≤ left + 1 := by
  refine (Attempt.Accepts.pure value).congr fun other => ?_
  rw [h other, hheight]
  exact (and_iff_left (Nat.le_add_left 1 left)).symm

/-- With the values inside it accepted, a value is accepted on the level around them. -/
theorem AcceptsValues.bare (h : AcceptsValues depth left) (element : Element) :
    Attempt.Accepts (OptionT.mk (bareValue element)) depth fun value =>
      NormalizesTo element value ∧ valueHeight element ≤ left + 1 := by
  cases element
  case number token =>
    refine accepts_leaf rfl fun other => ⟨?_, ?_⟩
    · rintro ⟨⟩
      rfl
    · rintro rfl
      exact .number token
  case string token =>
    refine accepts_leaf rfl fun other => ⟨?_, ?_⟩
    · rintro ⟨⟩
      rfl
    · rintro rfl
      exact .string token
  case identifier token =>
    exact (accepts_identifierValue token).congr fun value =>
      (and_iff_left (Nat.le_add_left 1 left)).symm
  case empty location =>
    refine accepts_leaf rfl fun other => ⟨?_, ?_⟩
    · rintro ⟨⟩
      rfl
    · rintro rfl
      exact .empty location
  case array group =>
    obtain ⟨slots, location⟩ := group
    have heq : (OptionT.mk (bareValue (.array ⟨slots, location⟩)) : Attempt _) = (do
        let values ← (valueSlots location slots : Check _)
        return .array values location) := by
      apply OptionT.ext
      simp [bareValue]
    rw [heq]
    refine ((h.slots location slots).lift.bind fun values => Attempt.Accepts.pure _).congr
      fun value => ?_
    constructor
    · rintro ⟨values, ⟨hvalues, hheight⟩, rfl⟩
      refine ⟨.array location hvalues, ?_⟩
      show 1 + highestSlot slots ≤ left + 1
      omega
    · rintro ⟨hvalue, hheight⟩
      have hheight : 1 + highestSlot slots ≤ left + 1 := hheight
      cases hvalue with
      | array _ hvalues => exact ⟨_, ⟨hvalues, by omega⟩, rfl⟩
  case declaration declaration => exact h.declared declaration
  all_goals
    refine (Attempt.Accepts.error _ _).congr fun value => ⟨False.elim, ?_⟩
    rintro ⟨hvalue, -⟩
    cases hvalue

/-- A level accepts what is accepted inside it, if there is a level left. -/
theorem accepts_level {α : Type} {location : Location} {body : Check (Option α)} {rule : α → Prop}
    (hdepth : depth < maxNesting) (h : Attempt.Accepts (OptionT.mk body) (depth + 1) rule) :
    Attempt.Accepts (OptionT.mk (level location body)) depth rule := by
  have hbody : body.Orderly := h.orderly
  have hnested := hbody.nested "annotation value" location
  refine ⟨hnested.map _, fun result => ?_⟩
  rw [← h.iff result]
  show ((level location body).found depth).errors = [] ∧ (level location body).value depth = result
    ↔ (body.found (depth + 1)).errors = [] ∧ body.value (depth + 1) = result
  unfold level
  rw [found_map hnested, value_map hnested, found_nested, value_nested,
    if_neg (Nat.not_le.mpr hdepth), if_neg (Nat.not_le.mpr hdepth), Option.join_some]

/-- Values are accepted with their normal forms, as far as the levels go. -/
theorem acceptsValues (depth : Nat) : AcceptsValues depth (maxNesting - depth) := by
  -- by induction on the levels that are left
  induction hleft : maxNesting - depth generalizing depth with
  | zero =>
    intro element
    have hle : maxNesting ≤ depth := Nat.le_of_sub_eq_zero hleft
    have hfound := (annotationValue_of_le hle element).2
    have hreported : ¬ (annotationValue element).Silent depth := by
      unfold Silent
      rw [hfound]
      exact List.cons_ne_nil _ _
    refine (Attempt.Accepts.nothing (strict_annotationValue element).orderly hreported).congr
      fun value => ⟨False.elim, fun ⟨_, hheight⟩ => ?_⟩
    have hpos := valueHeight_pos element
    omega
  | succ left ih =>
    intro element
    rw [annotationValue_eq]
    exact accepts_level (by omega) ((ih (depth + 1) (by omega)).bare element)

end Resolve

/-! ### Every value has a normal form -/

theorem exists_slotsNormalizeTo {slots : List (Option Element)} (hnone : none ∉ slots)
    (h : ∀ element, some element ∈ slots → ∃ value, NormalizesTo element value) :
    ∃ values, SlotsNormalizeTo slots values := by
  induction slots with
  | nil => exact ⟨[], .nil⟩
  | cons slot slots ih =>
    rw [List.mem_cons, not_or] at hnone
    cases slot with
    | none => exact absurd rfl hnone.1
    | some element =>
      obtain ⟨value, hvalue⟩ := h element List.mem_cons_self
      obtain ⟨values, hvalues⟩ := ih hnone.2 fun other hother =>
        h other (List.mem_cons_of_mem _ hother)
      exact ⟨value :: values, .cons hvalue hvalues⟩

theorem exists_entriesNormalizeTo {pairs : List (Entry Element)}
    (hkeys : ∀ pair ∈ pairs, pair.key.kind = .identifier)
    (hnone : ∀ pair ∈ pairs, pair.value ≠ none)
    (h : ∀ pair ∈ pairs, ∀ element, pair.value = some element →
      ∃ value, NormalizesTo element value) :
    ∃ values, EntriesNormalizeTo pairs values := by
  induction pairs with
  | nil => exact ⟨[], .nil⟩
  | cons pair pairs ih =>
    rw [List.forall_mem_cons] at hkeys hnone h
    obtain ⟨key, _ | element⟩ := pair
    · exact absurd rfl hnone.1
    · obtain ⟨value, hvalue⟩ := h.1 element rfl
      obtain ⟨values, hvalues⟩ := ih hkeys.2 hnone.2 h.2
      exact ⟨(key, value) :: values, .cons hkeys.1 hvalue hvalues⟩

/-- Every value has a normal form. -/
theorem IsValue.exists_normalizesTo {element : Element} (h : IsValue element) :
    ∃ value, NormalizesTo element value := by
  induction h with
  | number token => exact ⟨_, .number token⟩
  | string token => exact ⟨_, .string token⟩
  | bool h => exact ⟨_, .bool h⟩
  | type h => exact ⟨_, .type h⟩
  | empty location => exact ⟨_, .empty location⟩
  | @array group hnone _ ih =>
    obtain ⟨values, hvalues⟩ := exists_slotsNormalizeTo hnone ih
    exact ⟨_, .array group.location hvalues⟩
  | single location _ ih =>
    obtain ⟨value, hvalue⟩ := ih
    exact ⟨_, .single location hvalue⟩
  | enum kind h =>
    obtain ⟨type, name, rest, hslots, hrest⟩ := h
    exact ⟨_, .enum kind hslots hrest⟩
  | nested kind hslots hrest hobject hdistinct hkeys hnone _ ih =>
    obtain ⟨values, hvalues⟩ := exists_entriesNormalizeTo hkeys hnone ih
    exact ⟨_, .nested kind hslots hrest hobject hdistinct hvalues⟩

/-! ### Acceptance in a session -/

/-- A value is resolved without an error exactly if it is of the grammar and its height fits
between the depth and the bound. -/
theorem silent_annotationValue_iff {element : Element} {depth : Nat} :
    (annotationValue element).Silent depth
      ↔ IsValue element ∧ depth + valueHeight element ≤ maxNesting := by
  have haccepts := acceptsValues depth element
  have hpos := valueHeight_pos element
  constructor
  · intro hsilent
    obtain ⟨value, -, -, hheight⟩ := haccepts.exists_value hsilent
    exact ⟨isValue_of_silent hsilent, by omega⟩
  · rintro ⟨hvalue, hheight⟩
    obtain ⟨value, hnormal⟩ := hvalue.exists_normalizesTo
    exact haccepts.silent_iff.mpr ⟨value, hnormal, by omega⟩

/-- **Annotation values are accepted and normalized exactly.**  From any depth, resolving an
element appends no error exactly if the element is a value whose height fits between the depth
and 64; and then the result is the normal form of the element, and its only one. -/
theorem values_normalized (element : Element) (session : Session) :
    (((annotationValue element).run session).2.report.errors = session.report.errors
        ↔ IsValue element ∧ session.depth + valueHeight element ≤ 64)
      ∧ (IsValue element → session.depth + valueHeight element ≤ 64 →
        ∃ value, ((annotationValue element).run session).1 = some value
          ∧ ∀ other, NormalizesTo element other ↔ other = value) := by
  have horderly := (strict_annotationValue element).orderly
  refine ⟨?_, fun hvalue hheight => ?_⟩
  · rw [horderly.errors_run_eq_iff]
    exact silent_annotationValue_iff
  · have haccepts := acceptsValues session.depth element
    have hsilent : (annotationValue element).Silent session.depth :=
      silent_annotationValue_iff.mpr ⟨hvalue, hheight⟩
    obtain ⟨value, hresult, hnormal, hfits⟩ := haccepts.exists_value hsilent
    refine ⟨value, ?_, fun other => ⟨fun hother => ?_, ?_⟩⟩
    · rw [horderly.run_eq]
      exact hresult
    · obtain ⟨-, hother⟩ := (haccepts.iff (some other)).mpr ⟨other, rfl, hother, hfits⟩
      exact Option.some.inj (hother.symm.trans hresult)
    · rintro rfl
      exact hnormal

/-- An array of a truth value, of empty braces in a body, and of an annotation. -/
def valueSample : Element :=
  .array ⟨[some (.identifier (word "true")),
    some (.declaration ⟨none, [some (.empty place)], place⟩),
    some (.declaration ⟨some (word ".annotation"), [some (.identifier (word "LA;")),
      some (.object ⟨[⟨word "a", some (.number (word "1"))⟩], place⟩)], place⟩)], place⟩
where
  place : Location := ⟨1, 1, "t"⟩
  word (text : String) : Token := ⟨.identifier, Content.ofString text, place⟩

/-- The normal form of the sample. -/
def valueSampleForm : AnnotationValue :=
  .array [.bool (valueSample.word "true") true,
    .array [.array [] valueSample.place] valueSample.place,
    .nested ⟨valueSample.word "LA;", [(valueSample.word "a", .number (valueSample.word "1"))],
      valueSample.place⟩] valueSample.place

/-- The normal form of the sample, level by level. -/
theorem valueSample_normalizesTo : NormalizesTo valueSample valueSampleForm := by
  have hentries : EntriesNormalizeTo
      [⟨valueSample.word "a", some (.number (valueSample.word "1"))⟩]
      [(valueSample.word "a", .number (valueSample.word "1"))] :=
    .cons rfl (.number _) .nil
  have hdistinct : DistinctKeys
      ⟨[⟨valueSample.word "a", some (.number (valueSample.word "1"))⟩], valueSample.place⟩ :=
    List.pairwise_singleton _ _
  refine .array _ (.cons (.bool (.inl rfl)) (.cons (.single _ (.empty _)) (.cons ?_ .nil)))
  exact .nested (by decide) rfl (List.forall_mem_nil _) rfl hdistinct hentries

/-- The sample is three levels high: from depth 61 it is brought into its normal form, and from
depth 62 it is not accepted. -/
theorem valueSample_normalized :
    ((annotationValue valueSample).run { depth := 61 }).1 = some valueSampleForm
      ∧ ((annotationValue valueSample).run { depth := 62 }).2.report.errors ≠ [] := by
  have hvalue : IsValue valueSample :=
    ((values_normalized valueSample { depth := 61 }).1.mp (by decide)).1
  constructor
  · obtain ⟨value, hresult, hunique⟩ :=
      (values_normalized valueSample { depth := 61 }).2 hvalue (by decide)
    rw [hresult, (hunique valueSampleForm).mp valueSample_normalizesTo]
  · intro h
    have hheight := ((values_normalized valueSample { depth := 62 }).1.mp h).2
    exact absurd hheight (by decide)

end JvmAssembly
