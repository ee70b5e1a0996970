/-
JvmAssembly/Proofs/SwitchForms.lean

The arguments of switches, by rules and without any check.

A table switch has exactly four keys, each with a value of its own form
(`IsTableSwitch`); a lookup switch has a label under each key and a default among them
(`IsLookupSwitch`).  Each check accepts exactly its rule.  The check of a table switch
counts the keys and looks for each of the four; that this leaves no room for a fifth
is a matter of counting, since the entries have distinct keys (`Object.keys_complete_iff`).
-/
import JvmAssembly.Proofs.MemberForms

namespace JvmAssembly

open Resolve

/-- A number that is not floating point. -/
inductive IsInteger : Element → Prop
  | mk {token : Token} (h : isFloatingNumeral token.chars = false) : IsInteger (.number token)

/-- An array whose slots are all identifiers. -/
def AreIdentifiers (element : Element) : Prop :=
  ∃ (tokens : List Token) (group : Group Element), element.array? = some group
    ∧ group.slots = tokens.map fun token => some (.identifier token)

/-- The keys of the argument of a table switch. -/
def tableSwitchKeys : List String :=
  ["min", "max", "default", "cases"]

/-- The argument of a table switch: two bounds, a default label and the labels of the cases. -/
structure IsTableSwitch (object : Object Element) : Prop where
  distinct : DistinctKeys object
  keys : ∀ pair ∈ object.pairs, pair.key.text ∈ tableSwitchKeys
  min : ∃ bound, object.value? "min" = some bound ∧ IsInteger bound
  max : ∃ bound, object.value? "max" = some bound ∧ IsInteger bound
  default : ∃ token, object.value? "default" = some (.identifier token)
  cases : ∃ labels, object.value? "cases" = some labels ∧ AreIdentifiers labels

/-- The argument of a lookup switch: a label for each key, one of which is the default. -/
structure IsLookupSwitch (object : Object Element) : Prop where
  distinct : DistinctKeys object
  default : ∃ pair ∈ object.pairs, pair.key.text = "default"
  labels : ∀ pair ∈ object.pairs, ∃ token, pair.value = some (.identifier token)

/-- Each of the keys of a table switch has a value, so these keys are there, and no others. -/
theorem IsTableSwitch.keySet_eq {object : Object Element} (h : IsTableSwitch object) :
    (object.pairs.map Entry.keyText).toFinset = tableSwitchKeys.toFinset := by
  have hthere : ∀ key ∈ tableSwitchKeys, object.contains key := by
    intro key hkey
    simp only [tableSwitchKeys, List.mem_cons, List.not_mem_nil, or_false] at hkey
    rcases hkey with rfl | rfl | rfl | rfl
    · exact Object.contains_of_value? h.min.choose_spec.1
    · exact Object.contains_of_value? h.max.choose_spec.1
    · exact Object.contains_of_value? h.default.choose_spec
    · exact Object.contains_of_value? h.cases.choose_spec.1
  ext key
  rw [List.mem_toFinset, List.mem_toFinset]
  constructor
  · intro hkey
    obtain ⟨pair, hpair, rfl⟩ := List.mem_map.mp hkey
    exact h.keys pair hpair
  · intro hkey
    exact Object.contains_iff_keyText.mp (hthere key hkey)

/-- If the keys are those of a table switch, then so is the key of each pair. -/
theorem mem_tableSwitchKeys {object : Object Element}
    (h : (object.pairs.map Entry.keyText).toFinset = tableSwitchKeys.toFinset) :
    ∀ pair ∈ object.pairs, pair.key.text ∈ tableSwitchKeys := by
  intro pair hpair
  rw [← List.mem_toFinset, ← h, List.mem_toFinset]
  exact List.mem_map.mpr ⟨pair, hpair, rfl⟩

namespace Check

variable {depth : Nat}

/-! ### Values -/

/-- An integer is accepted exactly if it is a number that is not floating. -/
theorem silent_integer (expected : String) (element : Element) :
    (Expect.integer expected element).run.Silent depth ↔ IsInteger element := by
  cases element
  case number token =>
    have hinteger : Expect.integer expected (.number token)
        = if isFloatingNumeral token.chars then Expect.refuse "integer" (.number token)
          else pure token := rfl
    rw [hinteger]
    split
    · next hfloating =>
      refine iff_of_false (not_silent_error _ _) ?_
      rintro ⟨hinteger⟩
      rw [hinteger] at hfloating
      cases hfloating
    · next hfloating => exact iff_of_true (silent_pure _) ⟨Bool.eq_false_iff.mpr hfloating⟩
  all_goals exact iff_of_false (not_silent_error _ _) (by rintro ⟨⟩)

/-- Identifiers are accepted exactly if they are an array of nothing else. -/
theorem silent_identifiers (expected : String) (element : Element) :
    (Expect.identifiers expected element).run.Silent depth ↔ AreIdentifiers element :=
  (accepts_identifiers expected element).silent_iff

/-- Behind a slot that has to be filled, a check is silent exactly if there is something that
it is silent about. -/
theorem silent_present_bind {α : Type} {next : Element → Attempt α} {rule : Element → Prop}
    (horderly : ∀ element, (next element).run.Orderly)
    (hnext : ∀ element, (next element).run.Silent depth ↔ rule element) (expected : String)
    (slot : Option Element) (location : Location) :
    (Expect.present expected slot location >>= next).run.Silent depth
      ↔ ∃ element, slot = some element ∧ rule element := by
  rw [silent_bind_attempt (Expect.orderly_present _ _ _) fun element _ => horderly element,
    (Expect.accepts_present expected slot location).silent_iff, Expect.value_present]
  constructor
  · rintro ⟨⟨element, helement⟩, hsilent⟩
    exact ⟨element, helement, (hnext element).mp (hsilent element helement)⟩
  · rintro ⟨element, rfl, hrule⟩
    refine ⟨⟨element, rfl⟩, ?_⟩
    rintro _ ⟨⟩
    exact (hnext element).mpr hrule

/-- A bound is accepted exactly if it is an integer that is there. -/
theorem silent_switchBound (object : Object Element) (key : String) :
    (switchBound object key).run.Silent depth
      ↔ ∃ bound, object.value? key = some bound ∧ IsInteger bound :=
  silent_present_bind (fun _ => (Expect.strict_integer _ _).orderly)
    (fun element => silent_integer key element) _ _ _

/-- Cases are accepted exactly if they are an array of identifiers that is there. -/
theorem silent_switchCases (object : Object Element) :
    (switchCases object).run.Silent depth
      ↔ ∃ labels, object.value? "cases" = some labels ∧ AreIdentifiers labels :=
  silent_present_bind (fun _ => Expect.orderly_identifiers _ _)
    (fun element => silent_identifiers "cases" element) _ _ _

/-! ### Keys -/

theorem value_keys {context : String} {object : Object Element} {names : List String}
    (h : object.size = names.length ∧ ∀ key ∈ names, object.contains key) :
    (Expect.keys context object names).value depth = true := by
  unfold Expect.keys
  rw [if_pos h]
  rfl

/-! ### Switches -/

/-- A check of an object is silent about nothing else. -/
theorem silent_object_bind {next : Option (Object Element) → Check Unit}
    {rule : Object Element → Prop} (hnone : next none = pure ())
    (hsome : ∀ object, (next (some object)).Silent depth ↔ rule object) (expected : String)
    (element : Element) :
    ((Expect.object expected element).run >>= next).Silent depth
      ↔ ∃ object, element.object? = some object ∧ rule object := by
  rw [Expect.object_eq]
  unfold Expect.viewed
  cases element.object? with
  | none =>
    have hrest : (next ((Expect.refuse expected element).run.value depth)).Orderly := by
      rw [Expect.value_refuse, hnone]
      exact orderly_pure ()
    rw [silent_bind (Expect.orderly_refuse _ _) hrest]
    exact iff_of_false (fun h => not_silent_error _ _ h.1) (by simp)
  | some object =>
    simp only [OptionT.run_pure, pure_bind, hsome]
    simp

/-- Checks the values of a table switch that has the right keys. -/
def tableSwitchValues (object : Object Element) : Check Unit := do
  let _ ← (switchBound object "min").run
  let _ ← (switchBound object "max").run
  let _ ← (identifierSlot "default label" (object.value? "default") object.location).run
  let _ ← (switchCases object).run

theorem strict_tableSwitchValues (object : Object Element) : (tableSwitchValues object).Strict :=
  (strict_switchBound _ _).bind fun _ => (strict_switchBound _ _).bind fun _ =>
    (strict_identifierSlot _ _ _).bind fun _ => (strict_switchCases _).map _

/-- With all keys there, the values are checked one by one. -/
theorem silent_tableSwitchValues (object : Object Element) :
    (tableSwitchValues object).Silent depth
      ↔ (∃ bound, object.value? "min" = some bound ∧ IsInteger bound)
        ∧ (∃ bound, object.value? "max" = some bound ∧ IsInteger bound)
        ∧ (∃ token, object.value? "default" = some (.identifier token))
        ∧ ∃ labels, object.value? "cases" = some labels ∧ AreIdentifiers labels := by
  have hbound := fun key => (strict_switchBound object key).orderly
  have hdefault := orderly_identifierSlot "default label" (object.value? "default") object.location
  have hcases := (strict_switchCases object).orderly.map fun _ => ()
  unfold tableSwitchValues
  rw [silent_bind (hbound _) ((hbound _).bind fun _ => hdefault.bind fun _ => hcases),
    silent_bind (hbound _) (hdefault.bind fun _ => hcases), silent_bind hdefault hcases,
    silent_map (strict_switchCases object).orderly, silent_switchBound, silent_switchBound,
    silent_identifierSlot, silent_switchCases]

/-- The check of a table switch accepts exactly its form. -/
theorem silent_tableSwitch (element : Element) :
    (tableSwitch element).Silent depth
      ↔ ∃ object, element.object? = some object ∧ IsTableSwitch object := by
  refine silent_object_bind rfl (fun object => ?_) "table switch" element
  have hvalues : ∀ complete : Bool,
      (if complete then tableSwitchValues object else pure () : Check Unit).Orderly := by
    intro complete
    cases complete
    · exact orderly_pure ()
    · exact (strict_tableSwitchValues object).orderly
  have hkeys := Expect.orderly_keys "table switch" object tableSwitchKeys
  show (do
    Expect.distinctKeys "table switch" object
    if ← Expect.keys "table switch" object tableSwitchKeys then tableSwitchValues object
    : Check Unit).Silent depth ↔ _
  rw [silent_bind (Expect.orderly_distinctKeys _ _) (hkeys.bind hvalues),
    silent_bind hkeys (hvalues _), silent_distinctKeys, silent_keys]
  constructor
  · rintro ⟨hdistinct, hcomplete, hsilent⟩
    rw [value_keys hcomplete] at hsilent
    obtain ⟨hmin, hmax, hdefault, hcases⟩ := (silent_tableSwitchValues object).mp hsilent
    have honly := mem_tableSwitchKeys ((object.keys_complete_iff (by decide)).mp hcomplete)
    exact ⟨hdistinct, honly, hmin, hmax, hdefault, hcases⟩
  · intro h
    have hcomplete := (object.keys_complete_iff (by decide)).mpr h.keySet_eq
    refine ⟨h.distinct, hcomplete, ?_⟩
    rw [value_keys hcomplete]
    exact (silent_tableSwitchValues object).mpr ⟨h.min, h.max, h.default, h.cases⟩

/-- The check of a lookup switch accepts exactly its form. -/
theorem silent_lookupSwitch (element : Element) :
    (lookupSwitch element).Silent depth
      ↔ ∃ object, element.object? = some object ∧ IsLookupSwitch object := by
  refine silent_object_bind rfl (fun object => ?_) "lookup switch" element
  let label (entry : Entry Element) : Check Unit := do
    let _ ← (identifierSlot "label" entry.value entry.key.location).run
  have hlabel : ∀ entry, (label entry).Orderly := fun entry =>
    (orderly_identifierSlot _ _ _).map _
  have hform : ∀ entry, (label entry).Silent depth
      ↔ ∃ token, entry.value = some (.identifier token) := fun entry =>
    (silent_map (orderly_identifierSlot _ _ _) _).trans (silent_identifierSlot _ _ _)
  have hlabels : (object.entries.forM label).Orderly := Orderly.forM hlabel
  have hdefault := (orderly_missing "default label" object.location).onlyIf
    (!object.contains "default")
  show (do
    Expect.distinctKeys "lookup switch" object
    onlyIf (!object.contains "default") (missing "default label" object.location)
    object.entries.forM label : Check Unit).Silent depth ↔ _
  rw [silent_bind (Expect.orderly_distinctKeys _ _) (hdefault.bind fun _ => hlabels),
    silent_bind hdefault hlabels, silent_distinctKeys, missing, silent_onlyIf_error,
    silent_forM hlabel, Bool.not_eq_true, Bool.not_eq_false', Object.contains_iff_keyText,
    List.mem_map]
  simp only [hform]
  constructor
  · rintro ⟨hdistinct, hdefault, hlabels⟩
    rw [entries_of_distinctKeys hdistinct] at hlabels
    exact ⟨hdistinct, hdefault, hlabels⟩
  · rintro ⟨hdistinct, hdefault, hlabels⟩
    rw [entries_of_distinctKeys hdistinct]
    exact ⟨hdistinct, hdefault, hlabels⟩

end Check

end JvmAssembly
