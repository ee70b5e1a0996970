/-
JvmAssembly/Proofs/SwitchReports.lean

What is reported about the arguments of switches.

Every report about a switch has one of four reasons, and the reports stand in this order:
a key that is repeated, one error for each repetition; the keys of a table switch that are
not the right ones, one error for all of them; the default of a lookup switch that is
missing; and a value that is wrong.  A wrong value has one error, whatever is wrong with
it, so the error about a value is a function of the value (`boundFault`, `slotFault`), and
the errors about many values are those about each of them, in order.

The check of a table switch counts the keys and asks for each of the four.  That this is
to ask whether the keys are these four is `Object.keys_complete_iff`.
-/
import Mathlib.Data.Set.List
import JvmAssembly.Proofs.AnnotationValues
import JvmAssembly.Proofs.AppendOnly
import JvmAssembly.Proofs.ObjectKeys
import JvmAssembly.Proofs.SwitchForms

namespace JvmAssembly

namespace Check

open Expect Resolve

variable {depth : Nat}

/-- In every session, all that a check does is to append the given errors. -/
def Appends (check : Check Unit) (errors : List Diagnostic) : Prop :=
  ∀ (report : Report) (depth : Nat),
    check.run ⟨report, depth⟩ = ((), ⟨⟨report.errors ++ errors, report.warnings⟩, depth⟩)

/-- A check that only reports appends what it finds, in every session. -/
theorem Strict.appends {check : Check Unit} {errors : List Diagnostic} (h : check.Strict)
    (herrors : ∀ depth, (check.found depth).errors = errors) : check.Appends errors := by
  intro report depth
  rw [h.run_eq, herrors]

/-! ### Values -/

/-- The error about a bound of a table switch, which has to be an integer. -/
def boundFault (key : String) (location : Location) : Option Element → Option Diagnostic
  | some (.number token) =>
    if isFloatingNumeral token.chars then
      some ⟨.unexpectedElement "integer" .number, token.location⟩
    else
      none
  | slot => slotFault Element.number? key location slot

/-- A bound has no fault exactly if it is a number that is not floating. -/
theorem boundFault_eq_none_iff {key : String} {location : Location} {slot : Option Element} :
    boundFault key location slot = none
      ↔ ∃ token, slot = some (.number token) ∧ isFloatingNumeral token.chars = false := by
  match slot with
  | none => simp [boundFault, slotFault]
  | some element =>
    cases element
    case number token => simp [boundFault]
    all_goals simp [boundFault, slotFault, Element.number?]

/-- The errors about the cases of a table switch: one if they are no array, and otherwise one
for each slot without an identifier. -/
def caseFaults (location : Location) (slot : Option Element) : List Diagnostic :=
  match slot.bind Element.array? with
  | none => (slotFault Element.array? "cases" location slot).toList
  | some group => group.slots.filterMap (slotFault Element.identifier? "identifier" group.location)

/-- Cases that are no array are one error. -/
theorem caseFaults_of_no_array {location : Location} {slot : Option Element}
    (h : slot.bind Element.array? = none) : ∃ error, caseFaults location slot = [error] := by
  unfold caseFaults
  rw [h]
  match slot with
  | none => exact ⟨_, rfl⟩
  | some element =>
    have hview : element.array? = none := h
    refine ⟨⟨.unexpectedElement "cases" element.kind, element.location⟩, ?_⟩
    simp [slotFault, hview]

/-- The errors about the values of a table switch. -/
def tableFaults (object : Object Element) : List Diagnostic :=
  (boundFault "min" object.location (object.value? "min")).toList
    ++ (boundFault "max" object.location (object.value? "max")).toList
    ++ (slotFault Element.identifier? "default label" object.location
      (object.value? "default")).toList
    ++ caseFaults object.location (object.value? "cases")

/-- The error about the value of an entry of a lookup switch, which has to be a label. -/
def labelFault (entry : Entry Element) : Option Diagnostic :=
  slotFault Element.identifier? "label" entry.key.location entry.value

theorem errors_identifierSlot (expected : String) (slot : Option Element) (location : Location) :
    ((identifierSlot expected slot location).run.found depth).errors
      = (slotFault Element.identifier? expected location slot).toList := by
  rw [identifierSlot_eq, errors_viewedSlot]

theorem errors_switchBound (object : Object Element) (key : String) :
    ((switchBound object key).run.found depth).errors
      = (boundFault key object.location (object.value? key)).toList := by
  unfold switchBound
  match object.value? key with
  | none => rfl
  | some element =>
    show ((Expect.integer key element).run.found depth).errors = _
    -- a number that is floating point is refused as an integer, anything else as this bound
    cases element
    case number token =>
      show ((if isFloatingNumeral token.chars then refuse "integer" (.number token)
        else pure token : Attempt Token).run.found depth).errors = _
      split
      · next h => simp [boundFault, h, Element.kind, Element.location]
      · next h => simp [boundFault, h]
    all_goals rfl

/-- There is one error for each slot that holds no identifier. -/
theorem errors_identifiers (expected : String) {element : Element} {group : Group Element}
    (h : element.array? = some group) :
    ((Expect.identifiers expected element).run.found depth).errors
      = group.slots.filterMap (slotFault Element.identifier? "identifier" group.location) := by
  have hslot : ∀ slot, (identifierSlot "identifier" slot group.location).run.Orderly := fun slot =>
    orderly_identifierSlot _ slot _
  have hview : Expect.array expected element = pure group := by
    rw [Expect.array_eq, Expect.viewed, h]
  unfold Expect.identifiers
  rw [hview, pure_bind]
  show ((liftM (Check.collect (fun slot => identifierSlot "identifier" slot group.location)
    group.slots) : Attempt (List Token)).run.found depth).errors = _
  rw [found_lift (orderly_collect hslot), errors_found_collect hslot,
    List.filterMap_eq_flatMap_toList]
  simp only [errors_identifierSlot]

theorem errors_switchCases (object : Object Element) :
    ((switchCases object).run.found depth).errors
      = caseFaults object.location (object.value? "cases") := by
  unfold switchCases
  match object.value? "cases" with
  | none => rfl
  | some element =>
    show ((Expect.identifiers "cases" element).run.found depth).errors = _
    unfold caseFaults
    rw [Option.bind_some]
    cases h : element.array? with
    | none =>
      have hrefuse : Expect.array "cases" element = refuse "cases" element := by
        rw [Expect.array_eq, Expect.viewed, h]
      unfold Expect.identifiers
      rw [hrefuse]
      simp only [slotFault, h]
      rfl
    | some group => exact errors_identifiers "cases" h

/-! ### Table switches -/

/-- A table switch with the right keys is checked for repeated keys and for its values. -/
theorem tableSwitch_of_complete {object : Object Element}
    (h : object.size = tableSwitchKeys.length ∧ ∀ key ∈ tableSwitchKeys, object.contains key) :
    tableSwitch (.object object) = (do
      Expect.distinctKeys "table switch" object
      tableSwitchValues object) := by
  have hkeys : Expect.keys "table switch" object tableSwitchKeys = pure true := if_pos h
  show (do
    Expect.distinctKeys "table switch" object
    if ← Expect.keys "table switch" object tableSwitchKeys then tableSwitchValues object
    : Check Unit) = _
  simp only [hkeys, pure_bind, if_true]

/-- A table switch without the right keys has one error for this, and its values are not looked
at. -/
theorem tableSwitch_of_incomplete {object : Object Element}
    (h : ¬ (object.size = tableSwitchKeys.length
      ∧ ∀ key ∈ tableSwitchKeys, object.contains key)) :
    tableSwitch (.object object) = (do
      Expect.distinctKeys "table switch" object
      error (.keyMismatch "min, max, default, cases" "table switch") object.location) := by
  have hkeys : Expect.keys "table switch" object tableSwitchKeys = (do
      error (.keyMismatch "min, max, default, cases" "table switch") object.location
      return false) := if_neg h
  show (do
    Expect.distinctKeys "table switch" object
    if ← Expect.keys "table switch" object tableSwitchKeys then tableSwitchValues object
    : Check Unit) = _
  simp only [hkeys, bind_assoc, pure_bind]
  rfl

/-- What is reported about the values of a table switch are their faults, in the order of the
keys. -/
theorem errors_tableSwitchValues (object : Object Element) :
    ((tableSwitchValues object).found depth).errors = tableFaults object := by
  have hbound := fun key => (strict_switchBound object key).orderly
  have hdefault := orderly_identifierSlot "default label" (object.value? "default") object.location
  have hcases := (strict_switchCases object).orderly
  unfold tableSwitchValues tableFaults
  -- the four checks do not depend on each other's results, so that all of them are made
  rw [found_bind (hbound _) ((hbound _).bind fun _ => hdefault.bind fun _ => hcases.map _),
    found_bind (hbound _) (hdefault.bind fun _ => hcases.map _),
    found_bind hdefault (hcases.map _), found_map hcases]
  simp only [Report.errors_append, errors_switchBound, errors_identifierSlot, errors_switchCases,
    List.append_assoc]

/-- With all keys there, the repetitions are reported and then the faults of the values. -/
theorem appends_tableSwitch_of_complete {object : Object Element}
    (h : (object.pairs.map Entry.keyText).toFinset = tableSwitchKeys.toFinset) :
    (tableSwitch (.object object)).Appends
      ((repeatsBy Entry.keyText object.pairs).map (repeatedKey "table switch")
        ++ tableFaults object) := by
  refine (strict_tableSwitch _).appends fun depth => ?_
  rw [tableSwitch_of_complete ((object.keys_complete_iff (by decide)).mpr h),
    found_bind (orderly_distinctKeys _ _) (strict_tableSwitchValues object).orderly,
    Report.errors_append, errors_found_distinctKeys, object.duplicates_eq,
    errors_tableSwitchValues]

/-- With other keys, the repetitions are reported and then the keys, and the values are not
looked at. -/
theorem appends_tableSwitch_of_incomplete {object : Object Element}
    (h : (object.pairs.map Entry.keyText).toFinset ≠ tableSwitchKeys.toFinset) :
    (tableSwitch (.object object)).Appends
      ((repeatsBy Entry.keyText object.pairs).map (repeatedKey "table switch")
        ++ [⟨.keyMismatch "min, max, default, cases" "table switch", object.location⟩]) := by
  refine (strict_tableSwitch _).appends fun depth => ?_
  rw [tableSwitch_of_incomplete (mt (object.keys_complete_iff (by decide)).mp h),
    found_bind (orderly_distinctKeys _ _) (orderly_error _ _), Report.errors_append,
    errors_found_distinctKeys, object.duplicates_eq, found_error, Report.errors_ofError]

/-! ### Lookup switches -/

/-- Checks the label of an entry of a lookup switch. -/
def entryLabel (entry : Entry Element) : Check Unit := do
  let _ ← (identifierSlot "label" entry.value entry.key.location).run

theorem orderly_entryLabel (entry : Entry Element) : (entryLabel entry).Orderly :=
  (orderly_identifierSlot _ _ _).map _

theorem errors_entryLabel (entry : Entry Element) :
    ((entryLabel entry).found depth).errors = (labelFault entry).toList := by
  unfold entryLabel labelFault
  rw [found_map (orderly_identifierSlot _ _ _), errors_identifierSlot]

/-- The error about a lookup switch without a default. -/
def defaultFault (object : Object Element) : Option Diagnostic :=
  if "default" ∈ object.pairs.map Entry.keyText then
    none
  else
    some ⟨.missingElement "default label", object.location⟩

theorem errors_defaultLabel (object : Object Element) :
    ((onlyIf (!object.contains "default") (missing "default label" object.location)).found
      depth).errors = (defaultFault object).toList := by
  have hcontains : object.contains "default" ↔ "default" ∈ object.pairs.map Entry.keyText :=
    Object.contains_iff_keyText
  rw [found_onlyIf]
  unfold defaultFault
  by_cases h : "default" ∈ object.pairs.map Entry.keyText
  · rw [if_pos h, hcontains.mpr h]
    rfl
  · rw [if_neg h, Bool.eq_false_iff.mpr (mt hcontains.mp h)]
    rfl

/-- The repetitions are reported, then a missing default, then the faults of the labels. -/
theorem appends_lookupSwitch (object : Object Element) :
    (lookupSwitch (.object object)).Appends
      ((repeatsBy Entry.keyText object.pairs).map (repeatedKey "lookup switch")
        ++ (defaultFault object).toList
        ++ (firstsBy Entry.keyText object.pairs).filterMap labelFault) := by
  refine (strict_lookupSwitch _).appends fun depth => ?_
  have hdefault := (orderly_missing "default label" object.location).onlyIf
    (!object.contains "default")
  have hlabels : (object.entries.forM entryLabel).Orderly := Orderly.forM orderly_entryLabel
  show ((do
    Expect.distinctKeys "lookup switch" object
    onlyIf (!object.contains "default") (missing "default label" object.location)
    object.entries.forM entryLabel : Check Unit).found depth).errors = _
  rw [found_bind (orderly_distinctKeys _ _) (hdefault.bind fun _ => hlabels),
    found_bind hdefault hlabels, Report.errors_append, Report.errors_append,
    errors_found_distinctKeys, errors_defaultLabel, errors_found_forM orderly_entryLabel,
    List.filterMap_eq_flatMap_toList, object.duplicates_eq, object.entries_eq, List.append_assoc]
  simp only [errors_entryLabel]

/-! ### Anything else -/

/-- Empty braces are an object without pairs, and what is neither is reported as such. -/
theorem switches_of_no_object {element : Element} (h : ∀ object, element ≠ .object object) :
    (∃ error, (tableSwitch element).Appends [error])
      ∧ ∃ error, (lookupSwitch element).Appends [error] := by
  cases element
  case object object => exact absurd rfl (h object)
  case empty location =>
    -- no pairs: the keys of a table switch are missing, and so is the default of a lookup switch
    have hkeys : ((⟨[], location⟩ : Object Element).pairs.map Entry.keyText).toFinset
        ≠ tableSwitchKeys.toFinset := by
      show ∅ ≠ tableSwitchKeys.toFinset
      decide
    exact ⟨⟨_, appends_tableSwitch_of_incomplete hkeys⟩, ⟨_, appends_lookupSwitch ⟨[], location⟩⟩⟩
  all_goals exact ⟨⟨_, fun _ _ => rfl⟩, ⟨_, fun _ _ => rfl⟩⟩

end Check

/-! ### Shapes -/

/-- An array of identifiers is empty braces, or an array with an identifier in every slot. -/
theorem areIdentifiers_iff {element : Element} :
    AreIdentifiers element
      ↔ (∃ location, element = .empty location)
        ∨ ∃ group, element = .array group
          ∧ ∀ slot ∈ group.slots, ∃ token, slot = some (.identifier token) := by
  constructor
  · rintro ⟨tokens, group, harray, hslots⟩
    cases element <;> cases harray
    · refine .inr ⟨group, rfl, fun slot hslot => ?_⟩
      rw [hslots] at hslot
      obtain ⟨token, -, rfl⟩ := List.mem_map.mp hslot
      exact ⟨token, rfl⟩
    · exact .inl ⟨_, rfl⟩
  · rintro (⟨location, rfl⟩ | ⟨group, rfl, hslots⟩)
    · exact ⟨[], _, rfl, rfl⟩
    · have hrange : group.slots ∈ Set.range
          (List.map fun token : Token => some (Element.identifier token)) := by
        rw [Set.range_list_map]
        intro slot hslot
        obtain ⟨token, rfl⟩ := hslots slot hslot
        exact ⟨token, rfl⟩
      obtain ⟨tokens, htokens⟩ := hrange
      exact ⟨tokens, group, rfl, htokens.symm⟩

/-- A number that is not floating point, as the value of a key. -/
theorem holds_integer_iff {object : Object Element} {key : String} :
    (∃ bound, object.value? key = some bound ∧ IsInteger bound)
      ↔ ∃ token, object.value? key = some (.number token)
        ∧ isFloatingNumeral token.chars = false := by
  constructor
  · rintro ⟨_, hvalue, ⟨hinteger⟩⟩
    exact ⟨_, hvalue, hinteger⟩
  · rintro ⟨token, hvalue, hinteger⟩
    exact ⟨_, hvalue, ⟨hinteger⟩⟩

/-- An array of identifiers, as the value of a key. -/
theorem holds_identifiers_iff {object : Object Element} {key : String} :
    (∃ labels, object.value? key = some labels ∧ AreIdentifiers labels)
      ↔ (∃ location, object.value? key = some (.empty location))
        ∨ ∃ group, object.value? key = some (.array group)
          ∧ ∀ slot ∈ group.slots, ∃ token, slot = some (.identifier token) := by
  constructor
  · rintro ⟨labels, hvalue, hlabels⟩
    rcases areIdentifiers_iff.mp hlabels with ⟨location, rfl⟩ | ⟨group, rfl, hslots⟩
    · exact .inl ⟨location, hvalue⟩
    · exact .inr ⟨group, hvalue, hslots⟩
  · rintro (⟨location, hvalue⟩ | ⟨group, hvalue, hslots⟩)
    · exact ⟨_, hvalue, areIdentifiers_iff.mpr (.inl ⟨location, rfl⟩)⟩
    · exact ⟨_, hvalue, areIdentifiers_iff.mpr (.inr ⟨group, rfl, hslots⟩)⟩

/-- A table switch by its keys and what each of them holds. -/
theorem isTableSwitch_iff {object : Object Element} :
    IsTableSwitch object
      ↔ (object.pairs.map Entry.keyText).Nodup
        ∧ (object.pairs.map Entry.keyText).toFinset = tableSwitchKeys.toFinset
        ∧ (∃ token, object.value? "min" = some (.number token)
          ∧ isFloatingNumeral token.chars = false)
        ∧ (∃ token, object.value? "max" = some (.number token)
          ∧ isFloatingNumeral token.chars = false)
        ∧ (∃ token, object.value? "default" = some (.identifier token))
        ∧ ((∃ location, object.value? "cases" = some (.empty location))
          ∨ ∃ group, object.value? "cases" = some (.array group)
            ∧ ∀ slot ∈ group.slots, ∃ token, slot = some (.identifier token)) := by
  rw [← holds_integer_iff, ← holds_integer_iff, ← holds_identifiers_iff]
  constructor
  · intro h
    exact ⟨h.distinct, h.keySet_eq, h.min, h.max, h.default, h.cases⟩
  · rintro ⟨hdistinct, hkeys, hmin, hmax, hdefault, hcases⟩
    exact ⟨hdistinct, mem_tableSwitchKeys hkeys, hmin, hmax, hdefault, hcases⟩

/-- The shape of a lookup switch, by its pairs. -/
theorem isLookupSwitch_iff {object : Object Element} :
    IsLookupSwitch object
      ↔ (object.pairs.map Entry.keyText).Nodup
        ∧ "default" ∈ object.pairs.map Entry.keyText
        ∧ ∀ pair ∈ object.pairs, ∃ token, pair.value = some (.identifier token) := by
  rw [List.mem_map]
  exact ⟨fun h => ⟨h.distinct, h.default, h.labels⟩, fun h => ⟨h.1, h.2.1, h.2.2⟩⟩

theorem slotFault_identifier_eq_none_iff {expected : String} {location : Location}
    {slot : Option Element} :
    Expect.slotFault Element.identifier? expected location slot = none
      ↔ ∃ token, slot = some (.identifier token) := by
  rw [Expect.slotFault_eq_none_iff]
  simp only [Resolve.bind_identifier?_eq_some_iff]

/-- **Switches are accepted exactly by their shape, and every fault has its own error.**  In any
session, the check of a table switch appends no error exactly if no key is repeated, the keys
are `min`, `max`, `default` and `cases`, the bounds are numbers that are not floating point,
the default is an identifier and the cases are empty braces or an array of identifiers; the
check of a lookup switch appends none exactly if no key is repeated, there is a default and
every value is an identifier.  Empty braces are the empty object, and anything that is no
object has one error.  The keys of a table switch have one error for each repetition, and one
more if they are not the right ones; otherwise each value, and each case, has one error if it
is wrong and none if not.  A lookup switch has one error for each repeated key, one if there is
no default, and one for each first value of a key that is no identifier. -/
theorem switches_accepted_by_shape :
    (∀ (object : Object Element) (session : Session),
        ((Check.tableSwitch (.object object)).run session).2.report.errors = session.report.errors
          ↔ (object.pairs.map Entry.keyText).Nodup
            ∧ (object.pairs.map Entry.keyText).toFinset = tableSwitchKeys.toFinset
            ∧ (∃ token, object.value? "min" = some (.number token)
              ∧ isFloatingNumeral token.chars = false)
            ∧ (∃ token, object.value? "max" = some (.number token)
              ∧ isFloatingNumeral token.chars = false)
            ∧ (∃ token, object.value? "default" = some (.identifier token))
            ∧ ((∃ location, object.value? "cases" = some (.empty location))
              ∨ ∃ group, object.value? "cases" = some (.array group)
                ∧ ∀ slot ∈ group.slots, ∃ token, slot = some (.identifier token)))
      ∧ (∀ (object : Object Element) (session : Session),
        ((Check.lookupSwitch (.object object)).run session).2.report.errors
            = session.report.errors
          ↔ (object.pairs.map Entry.keyText).Nodup
            ∧ "default" ∈ object.pairs.map Entry.keyText
            ∧ ∀ pair ∈ object.pairs, ∃ token, pair.value = some (.identifier token))
      ∧ (∀ location : Location,
        Check.tableSwitch (.empty location) = Check.tableSwitch (.object ⟨[], location⟩)
          ∧ Check.lookupSwitch (.empty location) = Check.lookupSwitch (.object ⟨[], location⟩))
      ∧ (∀ element : Element, (∀ object, element ≠ .object object) →
        (∃ error, (Check.tableSwitch element).Appends [error])
          ∧ ∃ error, (Check.lookupSwitch element).Appends [error])
      ∧ (∀ object : Object Element,
        (object.pairs.map Entry.keyText).toFinset ≠ tableSwitchKeys.toFinset →
        (Check.tableSwitch (.object object)).Appends
          ((repeatsBy Entry.keyText object.pairs).map (Resolve.repeatedKey "table switch")
            ++ [⟨.keyMismatch "min, max, default, cases" "table switch", object.location⟩]))
      ∧ (∀ object : Object Element,
        (object.pairs.map Entry.keyText).toFinset = tableSwitchKeys.toFinset →
        (Check.tableSwitch (.object object)).Appends
          ((repeatsBy Entry.keyText object.pairs).map (Resolve.repeatedKey "table switch")
            ++ Check.tableFaults object))
      ∧ (∀ object : Object Element,
        (Check.lookupSwitch (.object object)).Appends
          ((repeatsBy Entry.keyText object.pairs).map (Resolve.repeatedKey "lookup switch")
            ++ (Check.defaultFault object).toList
            ++ (firstsBy Entry.keyText object.pairs).filterMap Check.labelFault))
      ∧ (∀ (key : String) (location : Location) (slot : Option Element),
        Check.boundFault key location slot = none
          ↔ ∃ token, slot = some (.number token) ∧ isFloatingNumeral token.chars = false)
      ∧ (∀ (expected : String) (location : Location) (slot : Option Element),
        Expect.slotFault Element.identifier? expected location slot = none
          ↔ ∃ token, slot = some (.identifier token))
      ∧ ∀ (location : Location) (slot : Option Element), slot.bind Element.array? = none →
        ∃ error, Check.caseFaults location slot = [error] := by
  refine ⟨?_, ?_, fun _ => ⟨rfl, rfl⟩, fun _ h => Check.switches_of_no_object h,
    fun _ h => Check.appends_tableSwitch_of_incomplete h,
    fun _ h => Check.appends_tableSwitch_of_complete h, Check.appends_lookupSwitch,
    fun _ _ _ => Check.boundFault_eq_none_iff, fun _ _ _ => slotFault_identifier_eq_none_iff,
    fun _ _ h => Check.caseFaults_of_no_array h⟩
  · intro object session
    rw [(Check.strict_tableSwitch _).orderly.errors_run_eq_iff, Check.silent_tableSwitch,
      ← isTableSwitch_iff]
    simp [Element.object?]
  · intro object session
    rw [(Check.strict_lookupSwitch _).orderly.errors_run_eq_iff, Check.silent_lookupSwitch,
      ← isLookupSwitch_iff]
    simp [Element.object?]

/-- A table switch with much wrong: the lower bound is floating point and is given twice, the
default is a hole, one of the cases is a number, and the upper bound has the given key. -/
def switchSample (upper : String) : Object Element :=
  let place (line : Nat) : Location := ⟨line, 1, "t"⟩
  let token (kind : TokenKind) (text : String) (line : Nat) : Token :=
    ⟨kind, Content.ofString text, place line⟩
  ⟨[⟨token .identifier "min" 2, some (.number (token .number "1.5" 2))⟩,
      ⟨token .identifier "default" 3, none⟩,
      ⟨token .identifier "cases" 4, some (.array ⟨[some (.identifier (token .identifier "a" 4)),
        some (.number (token .number "7" 5))], place 4⟩)⟩,
      ⟨token .identifier upper 6, some (.number (token .number "3" 6))⟩,
      ⟨token .identifier "min" 7, some (.number (token .number "0" 7))⟩],
    place 1⟩

/-- With the right keys, there is one error for the repetition and one for each of three values;
with a wrong one, there is one for the repetition and one for the keys.  As a lookup switch,
none of its four values is a label. -/
theorem switchSample_reports :
    ((Check.tableSwitch (.object (switchSample "max"))).run {}).2.report.errors
        = [⟨.duplicateKey "min" "table switch", ⟨7, 1, "t"⟩⟩,
          ⟨.unexpectedElement "integer" .number, ⟨2, 1, "t"⟩⟩,
          ⟨.missingElement "default label", ⟨1, 1, "t"⟩⟩,
          ⟨.unexpectedElement "identifier" .number, ⟨5, 1, "t"⟩⟩]
      ∧ ((Check.tableSwitch (.object (switchSample "maximum"))).run {}).2.report.errors
        = [⟨.duplicateKey "min" "table switch", ⟨7, 1, "t"⟩⟩,
          ⟨.keyMismatch "min, max, default, cases" "table switch", ⟨1, 1, "t"⟩⟩]
      ∧ ((Check.lookupSwitch (.object (switchSample "max"))).run {}).2.report.errors.length = 5
      ∧ ∃ error, (Check.tableSwitch (.label ⟨.identifier, [], ⟨1, 1, "t"⟩⟩)).Appends [error] := by
  obtain ⟨-, -, -, hother, hwrong, hright, hlookup, -⟩ := switches_accepted_by_shape
  refine ⟨?_, ?_, ?_, ?_⟩
  · have hkeys : ((switchSample "max").pairs.map Entry.keyText).toFinset
        = tableSwitchKeys.toFinset := by decide
    rw [hright _ hkeys]
    decide
  · have hkeys : ((switchSample "maximum").pairs.map Entry.keyText).toFinset
        ≠ tableSwitchKeys.toFinset := by decide
    rw [hwrong _ hkeys]
    decide
  · rw [hlookup]
    decide
  · exact (hother _ fun object => Element.noConfusion).1

end JvmAssembly
