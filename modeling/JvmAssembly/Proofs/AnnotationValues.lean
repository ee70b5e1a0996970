/-
JvmAssembly/Proofs/AnnotationValues.lean

What the resolver of annotation values does on one level.

The functions that resolve annotations call each other along the element.  Proofs about
them do not have to: every value takes one nesting level, so one level can be described
in terms of the next, and a proof goes on by induction on the levels that are left.

Lists are collected.  The slots of an array and the first entries of an object are
resolved one after the other, what has no result is left out, and what is reported
about each of them follows in the same order (`valueSlots_eq`, `entryValues_eq`).

`AnnotationCase` and `ValueCase` list all that can happen to an annotation and to a value
whose parts are resolved at a depth, with the result and the errors of each case;
`annotationNode_case` and `annotationValue_case` say that nothing else happens.
`annotationValue_levels` is the induction on levels, done once for every later proof.
-/
import JvmAssembly.Proofs.AttributeForms
import JvmAssembly.Proofs.Reported

namespace JvmAssembly

namespace Check

variable {α β : Type} {depth : Nat} {attempt : α → Attempt β}

/-! ### Collecting -/

/-- What is collected are the results of the attempts that have one, in order. -/
theorem value_collect (h : ∀ a, (attempt a).run.Orderly) (as : List α) :
    (collect attempt as).value depth = as.filterMap fun a => (attempt a).run.value depth := by
  induction as with
  | nil => rfl
  | cons a as ih =>
    have hrest : (collect attempt as).Orderly := orderly_collect h
    rw [collect, value_bind (h a) (hrest.map _), value_map hrest, ih, List.filterMap_cons]
    cases (attempt a).run.value depth <;> rfl

/-- The errors of a collection are those of its attempts, one after the other. -/
theorem errors_found_collect (h : ∀ a, (attempt a).run.Orderly) (as : List α) :
    ((collect attempt as).found depth).errors
      = as.flatMap fun a => ((attempt a).run.found depth).errors := by
  induction as with
  | nil => rfl
  | cons a as ih =>
    have hrest : (collect attempt as).Orderly := orderly_collect h
    rw [collect, found_bind (h a) (hrest.map _), found_map hrest, Report.errors_append, ih,
      List.flatMap_cons]

end Check

namespace Resolve

open Check

variable {depth : Nat}

/-! ### Slots and entries -/

/-- Resolves a slot of an array of values. -/
def slotValue (location : Location) : Option Element → Attempt AnnotationValue
  | none => do
    Check.missing "annotation value" location
    failure
  | some element => OptionT.mk (annotationValue element)

/-- Resolves an entry of an annotation together with its name. -/
def namedValue (entry : Entry Element) : Attempt (Token × AnnotationValue) :=
  OptionT.mk do return (← entryValue entry).map fun value => (entry.key, value)

theorem strict_slotValue (location : Location) (slot : Option Element) :
    (slotValue location slot).run.Strict := by
  cases slot with
  | none => exact (strict_error _ _).lift.bind_attempt fun _ => strict_pure none
  | some element => exact strict_annotationValue element

theorem strict_namedValue (entry : Entry Element) : (namedValue entry).run.Strict :=
  (strict_entryValue entry).map _

/-- The slots of an array are collected. -/
theorem valueSlots_eq (location : Location) (slots : List (Option Element)) :
    valueSlots location slots = Check.collect (slotValue location) slots := by
  induction slots with
  | nil => rfl
  | cons slot rest ih =>
    cases slot with
    | none =>
      rw [valueSlots, ih]
      simp [Check.collect, slotValue]
    | some element =>
      rw [valueSlots, ih]
      rfl

/-- Of the entries of an annotation, the first of each key are collected. -/
theorem entryValues_eq (seen : List String) (pairs : List (Entry Element)) :
    entryValues seen pairs = Check.collect namedValue (Object.firstsAfter seen pairs) := by
  induction pairs generalizing seen with
  | nil => rfl
  | cons pair rest ih =>
    rw [entryValues, Object.firstsAfter]
    split
    · exact ih seen
    · rw [ih]
      simp [Check.collect, namedValue]

/-- A slot has one error if it is a hole, and otherwise it is the value in it. -/
theorem slotValue_case (depth : Nat) (location : Location) (slot : Option Element) :
    ((slotValue location slot).run.value depth = none
        ∧ ((slotValue location slot).run.found depth).errors ≠ [])
      ∨ ∃ element, slot = some element
        ∧ (slotValue location slot).run.value depth = (annotationValue element).value depth
        ∧ (slotValue location slot).run.found depth = (annotationValue element).found depth := by
  cases slot with
  | none => exact .inl ⟨rfl, List.cons_ne_nil _ _⟩
  | some element => exact .inr ⟨element, rfl, rfl, rfl⟩

/-- An entry has one error if it has no value or its key is no identifier, and otherwise it is
its value under its key. -/
theorem namedValue_case (depth : Nat) (entry : Entry Element) :
    ((namedValue entry).run.value depth = none
        ∧ ((namedValue entry).run.found depth).errors ≠ [])
      ∨ entry.key.kind = .identifier ∧ ∃ element, entry.value = some element
        ∧ (namedValue entry).run.value depth
          = ((annotationValue element).value depth).map (fun value => (entry.key, value))
        ∧ (namedValue entry).run.found depth = (annotationValue element).found depth := by
  have horderly := (strict_entryValue entry).orderly
  have hvalue : (namedValue entry).run.value depth
      = ((entryValue entry).value depth).map fun value => (entry.key, value) :=
    value_map horderly _
  have hfound : (namedValue entry).run.found depth = (entryValue entry).found depth :=
    found_map horderly _
  rw [hvalue, hfound]
  obtain ⟨key, _ | element⟩ := entry
  · rw [entryValue_none]
    split <;> exact .inl ⟨rfl, List.cons_ne_nil _ _⟩
  · rw [entryValue_some]
    split
    · next hkey => exact .inr ⟨hkey, element, rfl, rfl, rfl⟩
    · exact .inl ⟨rfl, List.cons_ne_nil _ _⟩

/-! ### Annotations -/

/-- The error about an entry that repeats a key. -/
def repeatedKey (context : String) (entry : Entry Element) : Diagnostic :=
  ⟨.duplicateKey entry.key.text context, entry.key.location⟩

/-- There is one error for each duplicate, in the order of the source. -/
theorem errors_found_distinctKeys (context : String) (object : Object Element) :
    ((Expect.distinctKeys context object).found depth).errors
      = object.duplicates.map (repeatedKey context) := by
  unfold Expect.distinctKeys
  rw [errors_found_forM fun _ => orderly_error _ _, List.map_eq_flatMap]
  rfl

theorem annotationEntries_eq {declaration : Declaration Element} {object : Object Element}
    (h : (declaration.get? 1).bind Element.object? = some object) :
    annotationEntries declaration.slots = Check.collect namedValue object.entries := by
  obtain ⟨element, helement, hobject⟩ := Option.bind_eq_some_iff.mp h
  unfold Object.entries
  rw [← entryValues_eq]
  unfold Declaration.get? at helement
  match hslots : declaration.slots with
  | [] | [_] => simp [hslots] at helement
  | _ :: second :: _ =>
    obtain rfl : second = some element := by simpa [hslots] using helement
    -- empty braces are the object without entries
    cases element <;> cases hobject <;> rfl

/-- All that can happen to an annotation whose values are resolved at `depth`: there are no
values to resolve, or the first entry of each key is resolved, and each other entry is
reported. -/
inductive AnnotationCase (depth : Nat) (declaration : Declaration Element) :
    Option (AnnotationNode AnnotationValue) → List Diagnostic → Prop
  | noValues {errors : List Diagnostic} (reported : errors ≠ []) :
      AnnotationCase depth declaration none errors
  | values {object : Object Element} {type : Option Token} {front : List Diagnostic}
      (written : (declaration.get? 1).bind Element.object? = some object)
      (reported : type = none → front ≠ []) :
      AnnotationCase depth declaration
        (type.map fun type =>
          { type, location := declaration.location
            values := object.entries.filterMap fun entry => (namedValue entry).run.value depth })
        (front ++ object.duplicates.map (repeatedKey "annotation values")
          ++ object.entries.flatMap fun entry => ((namedValue entry).run.found depth).errors)

/-- What becomes of an annotation whose values are an object: it is resolved if it has a type,
with the values of its entries, and the errors are those about repeated keys and about the
entries. -/
theorem annotationRest_case {declaration : Declaration Element} {object : Object Element}
    (h : (declaration.get? 1).bind Element.object? = some object) (type : Option Token) :
    (annotationRest declaration type (some object)).value depth
        = (type.map fun type =>
          { type, location := declaration.location
            values := object.entries.filterMap fun entry => (namedValue entry).run.value depth })
      ∧ ((annotationRest declaration type (some object)).found depth).errors
        = object.duplicates.map (repeatedKey "annotation values")
          ++ object.entries.flatMap fun entry => ((namedValue entry).run.found depth).errors := by
  have hkeys := Expect.orderly_distinctKeys "annotation values" object
  have hnamed : ∀ entry, (namedValue entry).run.Orderly := fun entry =>
    (strict_namedValue entry).orderly
  have hvalues : (Check.collect namedValue object.entries).Orderly := orderly_collect hnamed
  unfold annotationRest
  rw [annotationEntries_eq h]
  constructor
  · rw [value_bind hkeys (hvalues.map _), value_map hvalues, value_collect hnamed]
  · rw [found_bind hkeys (hvalues.map _), found_map hvalues, Report.errors_append,
      errors_found_distinctKeys, errors_found_collect hnamed]

theorem value_valuesArgument (declaration : Declaration Element) :
    (valuesArgument declaration).run.value depth
      = (declaration.get? 1).bind Element.object? := by
  unfold valuesArgument
  simp only [Expect.object_eq]
  exact Expect.value_viewedSlot _ (declaration.get? 1) _

theorem reportsUnless_identifierArgument (declaration : Declaration Element) (index : Nat)
    (expected : String) :
    (identifierArgument declaration index expected).ReportsUnless fun _ => True :=
  (Attempt.reportsUnless_of_accepts fun _ => accepts_identifierSlot expected
    (declaration.get? index) declaration.location).mono fun _ _ => trivial

/-- All that can become of an annotation, from its two arguments. -/
theorem annotationNode_case (depth : Nat) (declaration : Declaration Element) :
    AnnotationCase depth declaration ((annotationNode declaration).value depth)
      ((annotationNode declaration).found depth).errors := by
  have htype := (strict_identifierArgument declaration 0 "annotation type").orderly
  have hvalues := (strict_valuesArgument declaration).orderly
  have hnoMore := (strict_noMore declaration 2).orderly
  have hrest := orderly_annotationRest declaration
  rw [annotationNode_eq, value_bind htype (hvalues.bind fun _ => hnoMore.bind fun _ => hrest _ _),
    found_bind htype (hvalues.bind fun _ => hnoMore.bind fun _ => hrest _ _),
    value_bind hvalues (hnoMore.bind fun _ => hrest _ _),
    found_bind hvalues (hnoMore.bind fun _ => hrest _ _), value_bind hnoMore (hrest _ _),
    found_bind hnoMore (hrest _ _)]
  simp only [Report.errors_append]
  cases hobject : (valuesArgument declaration).run.value depth with
  | none =>
    have hvalues := Attempt.reportsUnless_of_accepts fun _ => accepts_valuesArgument declaration
    have hreported := hvalues.explainsNone.errors_ne_nil hobject
    refine .noValues ?_
    simp [hreported]
  | some object =>
    have hwritten : (declaration.get? 1).bind Element.object? = some object := by
      rw [← value_valuesArgument]
      exact hobject
    rw [(annotationRest_case hwritten _).1, (annotationRest_case hwritten _).2,
      ← List.append_assoc, ← List.append_assoc, ← List.append_assoc]
    refine .values hwritten fun hnone => ?_
    have htype := reportsUnless_identifierArgument declaration 0 "annotation type"
    have hreported := htype.explainsNone.errors_ne_nil hnone
    simp [hreported]

/-! ### Values -/

/-- All that can happen to a value whose parts are resolved at `depth`. -/
inductive ValueCase (depth : Nat) : Element → Option AnnotationValue → List Diagnostic → Prop
  | refused (element : Element) (error : Diagnostic) : ValueCase depth element none [error]
  | number (token : Token) : ValueCase depth (.number token) (some (.number token)) []
  | string (token : Token) : ValueCase depth (.string token) (some (.string token)) []
  | bool {token : Token} (written : token.is "true" ∨ token.is "false") :
      ValueCase depth (.identifier token) (some (.bool token (token.is "true"))) []
  | type {token : Token} (written : token.content.startsWith 'L') :
      ValueCase depth (.identifier token) (some (.type token)) []
  | empty (location : Location) : ValueCase depth (.empty location) (some (.array [] location)) []
  | array (slots : List (Option Element)) (location : Location) :
      ValueCase depth (.array ⟨slots, location⟩)
        (some (.array (slots.filterMap fun slot => (slotValue location slot).run.value depth)
          location))
        (slots.flatMap fun slot => ((slotValue location slot).run.found depth).errors)
  | single (element : Element) (location : Location) :
      ValueCase depth (.declaration ⟨none, [some element], location⟩)
        (((annotationValue element).value depth).map fun value => .array [value] location)
        ((annotationValue element).found depth).errors
  | enum {declaration : Declaration Element} (kind : declaration.kind? = some .enumDecl) :
      ValueCase depth (.declaration declaration)
        (((enumNode declaration).run.value depth).map .enum)
        ((enumNode declaration).run.found depth).errors
  | nested {declaration : Declaration Element}
      (kind : declaration.kind? = some (.member .annotationDecl)) :
      ValueCase depth (.declaration declaration)
        (((annotationNode declaration).value depth).map .nested)
        ((annotationNode declaration).found depth).errors

/-- An identifier is a truth value, a type, or reported. -/
theorem identifierValue_case (token : Token) :
    ValueCase depth (.identifier token) ((identifierValue token).run.value depth)
      ((identifierValue token).run.found depth).errors := by
  unfold identifierValue
  split
  · next h => exact .bool (Bool.or_eq_true_iff.mp h)
  split
  · next h => exact .type h
  · exact .refused _ _

/-- With a keyword, a declaration is a value if it is an annotation or a constant of an
enumeration. -/
theorem keywordValue_case (keyword : Token) (slots : List (Option Element)) (location : Location) :
    ValueCase depth (.declaration ⟨some keyword, slots, location⟩)
      ((declaredValue ⟨some keyword, slots, location⟩).value depth)
      ((declaredValue ⟨some keyword, slots, location⟩).found depth).errors := by
  unfold declaredValue
  cases hkind : (⟨some keyword, slots, location⟩ : Declaration Element).kind? with
  | none =>
    obtain ⟨problem, hkindOf⟩ := kindOf_of_no_kind hkind
    simp only [hkindOf]
    exact .refused _ ⟨problem, location⟩
  | some kind =>
    simp only [kindOf_of_kind hkind, OptionT.run_pure, pure_bind]
    cases kind with
    | classDecl | superDecl | interfaceDecl => exact .refused _ _
    | enumDecl =>
      have henum := (strict_enumNode ⟨some keyword, slots, location⟩).orderly
      rw [value_map henum, found_map henum]
      exact .enum hkind
    | member kind =>
      cases kind with
      | fieldDecl | methodDecl | signatureDecl => exact .refused _ _
      | annotationDecl =>
        have hnode := (strict_annotationSlots (some keyword) location slots).orderly
        rw [value_map hnode, found_map hnode]
        exact .nested hkind

/-- Without a keyword, a declaration is a value if it is a body that holds one. -/
theorem keywordlessValue_case (slots : List (Option Element)) (location : Location) :
    ValueCase depth (.declaration ⟨none, slots, location⟩)
      ((declaredValue ⟨none, slots, location⟩).value depth)
      ((declaredValue ⟨none, slots, location⟩).found depth).errors := by
  rcases slots with _ | ⟨_ | element, _ | ⟨other, rest⟩⟩
  case cons.some.nil =>
    have hvalue := (strict_annotationValue element).orderly
    unfold declaredValue
    rw [value_map hvalue, found_map hvalue]
    exact .single element location
  all_goals exact .refused _ _

/-- A declaration as a value is an annotation, a constant of an enumeration or a value in braces
of its own. -/
theorem declaredValue_case (declaration : Declaration Element) :
    ValueCase depth (.declaration declaration) ((declaredValue declaration).value depth)
      ((declaredValue declaration).found depth).errors := by
  obtain ⟨_ | keyword, slots, location⟩ := declaration
  · exact keywordlessValue_case slots location
  · exact keywordValue_case keyword slots location

/-- Resolves a value on the level that was entered for it. -/
def bareValue : Element → Check (Option AnnotationValue)
  | .number token => return some (.number token)
  | .string token => return some (.string token)
  | .identifier token => (identifierValue token).run
  | .empty location => return some (.array [] location)
  | .array ⟨slots, location⟩ => return some (.array (← valueSlots location slots) location)
  | .declaration declaration => declaredValue declaration
  | element => (Expect.refuse "annotation value" element).run

theorem annotationValue_eq (element : Element) :
    annotationValue element = level element.location (bareValue element) := by
  unfold annotationValue
  cases element <;> rfl

theorem strict_bareValue (element : Element) : (bareValue element).Strict := by
  cases element
  case number token => exact strict_pure _
  case string token => exact strict_pure _
  case identifier token => exact strict_identifierValue token
  case empty location => exact strict_pure _
  case array group => exact (strict_valueSlots group.location group.slots).map _
  case declaration declaration => exact strict_declaredValue declaration
  all_goals exact Expect.strict_refuse _ _

/-- All that can become of an element as a value, once its level has been entered. -/
theorem bareValue_case (element : Element) :
    ValueCase depth element ((bareValue element).value depth)
      ((bareValue element).found depth).errors := by
  cases element
  case number token => exact .number token
  case string token => exact .string token
  case identifier token => exact identifierValue_case token
  case empty location => exact .empty location
  case array group =>
    obtain ⟨slots, location⟩ := group
    have hslot : ∀ slot, (slotValue location slot).run.Orderly := fun slot =>
      (strict_slotValue location slot).orderly
    have hslots := (strict_valueSlots location slots).orderly
    unfold bareValue
    rw [value_map hslots, found_map hslots, valueSlots_eq, value_collect hslot,
      errors_found_collect hslot]
    exact .array slots location
  case declaration declaration => exact declaredValue_case declaration
  all_goals exact .refused _ _

/-- With a level left, a value is resolved on it. -/
theorem annotationValue_case (h : depth < maxNesting) (element : Element) :
    ValueCase (depth + 1) element ((annotationValue element).value depth)
      ((annotationValue element).found depth).errors := by
  have horderly := (strict_bareValue element).orderly.nested "annotation value" element.location
  rw [annotationValue_eq]
  unfold level
  rw [value_map horderly, found_map horderly, value_nested, found_nested,
    if_neg (Nat.not_le.mpr h), if_neg (Nat.not_le.mpr h)]
  exact bareValue_case element

/-- Without a level left, a value is refused. -/
theorem annotationValue_of_le (h : maxNesting ≤ depth) (element : Element) :
    (annotationValue element).value depth = none
      ∧ (annotationValue element).found depth = tooDeep "annotation value" element.location := by
  have horderly := (strict_bareValue element).orderly.nested "annotation value" element.location
  rw [annotationValue_eq]
  unfold level
  rw [value_map horderly, found_map horderly, value_nested, found_nested, if_pos h, if_pos h]
  exact ⟨rfl, rfl⟩

/-- What holds of a value that is refused for its depth, and of each value whose parts have
it one level deeper, holds of every value at every depth. -/
theorem annotationValue_levels
    {motive : Nat → Element → Option AnnotationValue → List Diagnostic → Prop}
    (deep : ∀ depth element error, motive depth element none [error])
    (step : ∀ depth, depth < maxNesting →
      (∀ element, motive (depth + 1) element ((annotationValue element).value (depth + 1))
        ((annotationValue element).found (depth + 1)).errors) →
      ∀ {element result errors}, ValueCase (depth + 1) element result errors →
        motive depth element result errors) (depth : Nat) (element : Element) :
    motive depth element ((annotationValue element).value depth)
      ((annotationValue element).found depth).errors := by
  -- by induction on the levels that are left
  induction hleft : maxNesting - depth generalizing depth element with
  | zero =>
    have hle : maxNesting ≤ depth := Nat.le_of_sub_eq_zero hleft
    obtain ⟨hvalue, hfound⟩ := annotationValue_of_le hle element
    rw [hvalue, hfound]
    exact deep depth element _
  | succ left ih =>
    have hlt : depth < maxNesting := by omega
    exact step depth hlt (fun element => ih (depth + 1) element (by omega))
      (annotationValue_case hlt element)

end Resolve

end JvmAssembly
