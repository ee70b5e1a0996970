/-
JvmAssembly/Proofs/MemberForms.lean

Every check of a member accepts exactly its rule.

The parts of a member are counted from its end.  After the value of a field and the
body of a method are taken off, fields and methods both end with a name and a
descriptor behind modifiers, so these parts are checked once (`accepts_memberParts`).
A value at the end of a field shifts all other parts by one, but it cannot be taken
for a descriptor, and so every field is read in one way only
(`splitFieldValue_of_isFieldValue`).

Main results: `accepts_fieldNode` and `accepts_methodNode`.
-/
import JvmAssembly.Proofs.Acceptance

namespace JvmAssembly

namespace Resolve

open Check

variable {κ : Type} [OperandKind κ] [LawfulOperandKind κ]

variable {depth : Nat}

/-! ### Modifiers -/

/-- An allowed modifier is recorded, with a warning if it was recorded before. -/
theorem modifiersAfter_cons {target : ModifierTarget} {token : Token} {modifier : Modifier}
    (hkeyword : Modifier.ofKeyword? token.text = some modifier)
    (hallowed : modifier.isAllowedOn target) (location : Location) (found : Modifiers)
    (rest : List (Option Element)) :
    modifiersAfter target location found (some (.identifier token) :: rest) = (do
      Check.onlyIf (found.contains modifier) <|
        Check.warn ("Repeated modifier: " ++ token.text) token.location
      modifiersAfter target location (found.add modifier token.location) rest) := by
  simp only [modifiersAfter, Check.identifierSlot, Expect.present, Expect.identifier, pure_bind,
    OptionT.run_pure, hkeyword, Option.filter_some, if_pos hallowed]

/-- The modifier of the target that an identifier is. -/
def namedModifier (target : ModifierTarget) (token : Token) : Option Modifier :=
  (Modifier.ofKeyword? token.text).filter (·.isAllowedOn target)

/-- The error about a slot of a declaration at `location` that has to hold a modifier of the
target. -/
def modifierFault (target : ModifierTarget) (location : Location) :
    Option Element → Option Diagnostic
  | none => some ⟨.missingElement (target.name ++ " modifier"), location⟩
  | some (.identifier token) =>
    match namedModifier target token with
    | some _ => none
    | none => some ⟨.invalidModifier token.text target, token.location⟩
  | some element =>
    some ⟨.unexpectedElement (target.name ++ " modifier") element.kind, element.location⟩

/-- A slot has no fault exactly if it holds a modifier that is allowed. -/
theorem modifierFault_eq_none_iff {target : ModifierTarget} {location : Location}
    {slot : Option Element} :
    modifierFault target location slot = none ↔ ∃ entry, IsModifier target slot entry := by
  constructor
  · intro h
    match slot with
    | none => cases h
    | some element =>
      cases element
      case identifier token =>
        cases hnamed : namedModifier target token with
        | none => simp [modifierFault, hnamed] at h
        | some modifier =>
          obtain ⟨hkeyword, hallowed⟩ := Option.filter_eq_some_iff.mp hnamed
          exact ⟨_, .mk hkeyword hallowed⟩
      all_goals cases h
  · rintro ⟨_, @⟨token, modifier, hkeyword, hallowed⟩⟩
    have hnamed : namedModifier target token = some modifier :=
      Option.filter_eq_some_iff.mpr ⟨hkeyword, hallowed⟩
    simp [modifierFault, hnamed]

/-- Anything else is reported and skipped. -/
theorem modifiersAfter_cons_of_fault {target : ModifierTarget} {location : Location}
    {slot : Option Element} {fault : Diagnostic}
    (h : modifierFault target location slot = some fault) (found : Modifiers)
    (rest : List (Option Element)) :
    modifiersAfter target location found (slot :: rest) = (do
      Check.error fault.problem fault.location
      modifiersAfter target location found rest) := by
  match slot with
  | none =>
    cases h
    rfl
  | some element =>
    cases element
    case identifier token =>
      cases hnamed : namedModifier target token with
      | some modifier => simp [modifierFault, hnamed] at h
      | none =>
        obtain rfl : ⟨.invalidModifier token.text target, token.location⟩ = fault := by
          simpa [modifierFault, hnamed] using h
        have hnone : (Modifier.ofKeyword? token.text).filter (·.isAllowedOn target) = none := hnamed
        simp only [modifiersAfter, Check.identifierSlot, Expect.present, Expect.identifier,
          pure_bind, OptionT.run_pure, hnone]
    all_goals
      cases h
      rfl

/-- Modifiers of the target are accepted and recorded behind those found before. -/
theorem modifiersAfter_of_areModifiers {target : ModifierTarget} {slots : List (Option Element)}
    {entries : List (Modifier × Location)} (h : List.Forall₂ (IsModifier target) slots entries)
    (location : Location) (found : Modifiers) :
    (modifiersAfter target location found slots).Silent depth
      ∧ (modifiersAfter target location found slots).value depth
        = ⟨found.entries ++ entries⟩ := by
  induction h generalizing found with
  | nil =>
    refine ⟨silent_pure _, ?_⟩
    show found = ⟨found.entries ++ []⟩
    rw [List.append_nil]
  | @cons slot entry rest entries hslot hrest ih =>
    obtain @⟨token, modifier, hkeyword, hallowed⟩ := hslot
    obtain ⟨hsilent, hvalue⟩ := ih (found.add modifier token.location)
    have hwarn : (Check.onlyIf (found.contains modifier) <|
        Check.warn ("Repeated modifier: " ++ token.text) token.location).Orderly :=
      (orderly_warn _ _).onlyIf _
    have hnext := orderly_modifiersAfter target location (found.add modifier token.location) rest
    rw [modifiersAfter_cons hkeyword hallowed, silent_bind hwarn hnext, value_bind hwarn hnext]
    refine ⟨⟨?_, hsilent⟩, ?_⟩
    -- a modifier that is repeated is warned of, and recorded again
    · unfold Silent
      rw [found_onlyIf]
      split <;> rfl
    · rw [hvalue]
      show (⟨found.entries ++ [_] ++ entries⟩ : Modifiers) = _
      rw [List.append_assoc]
      rfl

/-- Nothing but modifiers of the target is accepted. -/
theorem areModifiers_of_silent {target : ModifierTarget} {location : Location}
    {slots : List (Option Element)} {found : Modifiers}
    (h : (modifiersAfter target location found slots).Silent depth) :
    ∃ entries, List.Forall₂ (IsModifier target) slots entries := by
  induction slots generalizing found with
  | nil => exact ⟨[], .nil⟩
  | cons slot rest ih =>
    cases hfault : modifierFault target location slot with
    | none =>
      obtain ⟨_, @⟨token, modifier, hkeyword, hallowed⟩⟩ := modifierFault_eq_none_iff.mp hfault
      rw [modifiersAfter_cons hkeyword hallowed, silent_bind ((orderly_warn _ _).onlyIf _)
        (orderly_modifiersAfter _ _ _ _)] at h
      obtain ⟨entries, hentries⟩ := ih h.2
      exact ⟨_, .cons (.mk hkeyword hallowed) hentries⟩
    | some fault =>
      rw [modifiersAfter_cons_of_fault hfault, silent_bind (orderly_error _ _)
        (orderly_modifiersAfter _ _ _ _)] at h
      exact absurd h.1 (not_silent_error _ _)

/-- Slots are accepted as modifiers exactly if each of them holds one that is allowed, and then
these are recorded. -/
theorem accepts_modifiers (target : ModifierTarget) (location : Location)
    (slots : List (Option Element)) :
    (modifiers target location slots).Accepts depth (AreModifiers target slots) := by
  have hvalue : ∀ {found : Modifiers}, AreModifiers target slots found →
      (modifiers target location slots).Silent depth
        ∧ (modifiers target location slots).value depth = found := fun h =>
    modifiersAfter_of_areModifiers h location {}
  refine ⟨orderly_modifiers target location slots, fun found => ⟨?_, hvalue⟩⟩
  rintro ⟨hsilent, rfl⟩
  obtain ⟨entries, hentries⟩ := areModifiers_of_silent hsilent
  have hfound : AreModifiers target slots ⟨entries⟩ := hentries
  rw [(hvalue hfound).2]
  exact hfound

/-! ### Members -/

theorem accepts_nameSlot (expected : String) (slot : Option Element) (location : Location) :
    (nameSlot expected slot location).Accepts depth
      fun name => slot.bind Element.name? = some name := by
  rw [nameSlot_eq]
  exact Expect.accepts_viewedSlot _ expected slot location

/-- The parts that fields and methods share are accepted exactly in their forms. -/
theorem accepts_memberParts (target : ModifierTarget) (location : Location)
    (descriptorPart namePart : Option Element) (rest : List (Option Element)) :
    (memberParts target location descriptorPart namePart rest).Accepts depth
      fun parts => descriptorPart.bind Element.identifier? = some parts.2.2
        ∧ namePart.bind Element.name? = some parts.2.1 ∧ AreModifiers target rest parts.1 := by
  refine ((accepts_identifierSlot _ _ _).optional_bind ?_ fun descriptor =>
    (accepts_nameSlot _ _ _).optional_bind ?_ fun name => (accepts_modifiers _ _ _).lift.bind
      fun found => Attempt.Accepts.pure (found, name, descriptor)).congr ?_
  · exact fun _ => (orderly_nameSlot _ _ _).optional.bind_attempt fun _ =>
      (orderly_modifiers _ _ _).lift.bind_attempt fun _ => orderly_pure _
  · exact fun _ => (orderly_modifiers _ _ _).lift.bind_attempt fun _ => orderly_pure _
  rintro ⟨found, name, descriptor⟩
  constructor
  · rintro ⟨_, hdescriptor, _, hname, _, hfound, ⟨⟩⟩
    exact ⟨hdescriptor, hname, hfound⟩
  · rintro ⟨hdescriptor, hname, hfound⟩
    exact ⟨_, hdescriptor, _, hname, _, hfound, rfl⟩

/-! ### Fields -/

/-- The constant that a literal is. -/
def fieldLiteral? : Element → Option FieldValue
  | .number token => some (.number token)
  | .string token => some (.string token)
  | _ => none

/-- An object with the one key `value` is read as its value. -/
theorem fieldValue_singleton {key : Token} (hkey : key.text = "value") (slot : Option Element)
    (location : Location) :
    fieldValue ⟨[⟨key, slot⟩], location⟩
      = Expect.viewedSlot fieldLiteral? "field value" slot key.location := by
  have hdistinct : Expect.distinctKeys "field value" ⟨[⟨key, slot⟩], location⟩ = pure () := by
    simp [Expect.distinctKeys, Object.duplicates, Object.repeatsAfter]
  have hkeys : Expect.keys "field value" ⟨[⟨key, slot⟩], location⟩ ["value"] = pure true := by
    simp [Expect.keys, Object.size, Object.entries, Object.firstsAfter, Object.contains,
      Object.get?, hkey]
  have hget : (⟨[⟨key, slot⟩], location⟩ : Object Element).get? "value" = some ⟨key, slot⟩ := by
    simp [Object.get?, hkey]
  simp only [fieldValue, hdistinct, hkeys, hget, liftM_pure, pure_bind, if_true]
  refine bind_congr fun element => ?_
  cases element <;> rfl

/-- No other object is accepted as the value of a field. -/
theorem singleton_of_silent_fieldValue {object : Object Element}
    (h : (fieldValue object).run.Silent depth) :
    ∃ key slot location, object = ⟨[⟨key, slot⟩], location⟩ ∧ key.text = "value" := by
  have hdistinct := Expect.orderly_distinctKeys "field value" object
  have hkeys := Expect.orderly_keys "field value" object ["value"]
  have hentry := orderly_fieldEntry object
  obtain ⟨hsilent, hrest⟩ := (silent_lift_bind hdistinct (hkeys.lift.bind_attempt hentry)).mp h
  have hsilentKeys := ((silent_lift_bind hkeys (hentry _)).mp hrest).1
  rw [silent_distinctKeys] at hsilent
  obtain ⟨hsize, hcontains⟩ := (silent_keys _ _ _).mp hsilentKeys
  -- without repeated keys, one entry is one pair
  unfold Object.size at hsize
  rw [entries_of_distinctKeys hsilent] at hsize
  obtain ⟨pairs, location⟩ := object
  obtain ⟨⟨key, slot⟩, rfl⟩ := List.length_eq_one_iff.mp hsize
  refine ⟨key, slot, location, rfl, ?_⟩
  simpa [Object.contains, Object.get?] using hcontains "value" (List.mem_singleton.mpr rfl)

/-- An object is accepted as the value of a field exactly if it has the one key `value`. -/
theorem silent_fieldValue (object : Object Element) :
    (fieldValue object).run.Silent depth
      ↔ ∃ value, IsFieldValue [some (.object object)] (some value)
        ∧ (fieldValue object).run.value depth = some value := by
  constructor
  · intro h
    obtain ⟨key, slot, location, rfl, hkey⟩ := singleton_of_silent_fieldValue h
    rw [fieldValue_singleton hkey, Expect.silent_viewedSlot] at h
    rw [fieldValue_singleton hkey, Expect.value_viewedSlot]
    obtain ⟨value, hvalue⟩ := h
    refine ⟨value, ?_, hvalue⟩
    obtain ⟨element, rfl, helement⟩ := Option.bind_eq_some_iff.mp hvalue
    cases element <;> cases helement
    · exact .objectNumber hkey
    · exact .objectString hkey
  · rintro ⟨value, hvalue, -⟩
    cases hvalue with
    | objectNumber hkey | objectString hkey =>
      rw [fieldValue_singleton hkey]
      exact silent_pure _

/-- What is accepted at the end of a field is a value or nothing.  Both the slots and what
is left of them are in reverse order. -/
theorem isFieldValue_of_silent {slots : List (Option Element)}
    (h : (splitFieldValue slots).run.Silent depth) :
    ∃ values value rest, slots = values ++ rest ∧ IsFieldValue values value
      ∧ (splitFieldValue slots).run.value depth = some (value, rest) := by
  unfold splitFieldValue at h ⊢
  split
  · next object rest =>
    have hobject := orderly_fieldValue object
    obtain ⟨hsilent, -⟩ := (silent_bind_attempt hobject fun _ _ => orderly_pure _).mp h
    obtain ⟨value, hform, hvalue⟩ := (silent_fieldValue object).mp hsilent
    refine ⟨_, some value, rest, rfl, hform, ?_⟩
    refine (value_bind_attempt hobject fun _ _ => orderly_pure _).trans ?_
    rw [hvalue]
    rfl
  · exact ⟨_, _, _, rfl, .number, rfl⟩
  · exact ⟨_, _, _, rfl, .string, rfl⟩
  · exact ⟨[], none, _, rfl, .none, rfl⟩

/-- In front of a descriptor, every form of value is taken off. -/
theorem splitFieldValue_of_isFieldValue {values : List (Option Element)}
    {value : Option FieldValue} (h : IsFieldValue values value) (descriptor : Token)
    (rest : List (Option Element)) :
    (splitFieldValue (values ++ some (.identifier descriptor) :: rest)).run.Silent depth
      ∧ (splitFieldValue (values ++ some (.identifier descriptor) :: rest)).run.value depth
        = some (value, some (.identifier descriptor) :: rest) := by
  have hobject : ∀ object literal, IsFieldValue [some (.object object)] (some literal) →
      (fieldValue object).run.value depth = some literal →
      (splitFieldValue (some (.object object) :: some (.identifier descriptor) :: rest)).run.Silent
          depth
        ∧ (splitFieldValue
            (some (.object object) :: some (.identifier descriptor) :: rest)).run.value depth
          = some (some literal, some (.identifier descriptor) :: rest) := by
    intro object literal hform hvalue
    have horderly := orderly_fieldValue object
    constructor
    · refine (silent_bind_attempt horderly fun _ _ => orderly_pure _).mpr ⟨?_, ?_⟩
      · exact (silent_fieldValue object).mpr ⟨literal, hform, hvalue⟩
      · exact fun _ _ => silent_pure _
    · refine (value_bind_attempt horderly fun _ _ => orderly_pure _).trans ?_
      rw [hvalue]
      rfl
  cases h with
  | none | number | string => exact ⟨silent_pure _, rfl⟩
  | objectNumber hkey =>
    refine hobject _ _ (.objectNumber hkey) ?_
    rw [fieldValue_singleton hkey, Expect.value_viewedSlot]
    rfl
  | objectString hkey =>
    refine hobject _ _ (.objectString hkey) ?_
    rw [fieldValue_singleton hkey, Expect.value_viewedSlot]
    rfl

/-- A field without attributes is resolved in two steps: its value is split off, and then the
rest is read from behind. -/
theorem fieldNode_empty (declaration : Declaration Element) :
    fieldNode {} declaration = (do
      let (value, slots) ← splitFieldValue declaration.slots.reverse
      fieldRest {} declaration.location value slots) := by
  have hnone : ({} : Pending).warnClassOnly "field" = pure () := rfl
  rw [fieldNode_parts, hnone]
  simp only [liftM_pure, pure_bind]

/-- Behind its value, a field is accepted exactly as a descriptor and a name in front of
modifiers, all in reverse order. -/
theorem accepts_fieldRest (location : Location) (value : Option FieldValue)
    (slots : List (Option Element)) :
    (fieldRest {} location value slots).Accepts depth fun node =>
      ∃ modifiers name,
        slots = some (.identifier node.descriptor) :: some name :: modifiers.reverse
          ∧ AreModifiers .onField modifiers node.modifiers ∧ name.name? = some node.name
          ∧ node = { node.give {} with value, location } := by
  match slots with
  | descriptorPart :: namePart :: rest =>
    refine ((accepts_memberParts _ _ _ _ _).bind fun parts => Attempt.Accepts.pure _).congr ?_
    intro node
    constructor
    · rintro ⟨⟨found, token, descriptor⟩, ⟨hdescriptor, hname, hfound⟩, rfl⟩
      obtain ⟨name, rfl, hname⟩ := Option.bind_eq_some_iff.mp hname
      refine ⟨rest.reverse, name, ?_, hfound, hname, rfl⟩
      rw [bind_identifier?_eq_some_iff.mp hdescriptor, List.reverse_reverse]
    · rintro ⟨modifiers, name, hslots, hmodifiers, hname, hnode⟩
      obtain ⟨rfl, rfl, rfl⟩ : _ ∧ _ ∧ _ := by simpa using hslots
      refine ⟨(node.modifiers, node.name, node.descriptor), ⟨rfl, hname, ?_⟩, hnode⟩
      rw [List.reverse_reverse]
      exact hmodifiers
  | [] | [_] =>
    refine (Attempt.Accepts.error _ _).congr fun node => ⟨False.elim, ?_⟩
    rintro ⟨modifiers, name, hslots, -⟩
    cases hslots

/-- A field that is accepted is of the form of one, and resolves to what it declares. -/
theorem isField_of_silent {declaration : Declaration Element}
    (h : (fieldNode {} declaration).run.Silent depth) :
    ∃ node, (fieldNode {} declaration).run.value depth = some node
      ∧ IsField declaration node ∧ node.give {} = node := by
  have hsplit := orderly_splitFieldValue declaration.slots.reverse
  rw [fieldNode_empty] at h ⊢
  obtain ⟨hsilent, hrest⟩ :=
    (silent_bind_attempt hsplit fun _ _ => orderly_fieldRest _ _ _ _).mp h
  obtain ⟨values, value, rest, hslots, hvalues, hvalue⟩ := isFieldValue_of_silent hsilent
  obtain ⟨node, hnode, modifiers, name, rfl, hmodifiers, hname, hfields⟩ :=
    ((accepts_fieldRest _ _ _).iff _).mp ⟨hrest _ hvalue, rfl⟩
  refine ⟨node, ?_, ⟨modifiers, name, values, ?_, hmodifiers, hname, ?_, ?_⟩, ?_⟩
  · refine (value_bind_attempt hsplit fun _ _ => orderly_fieldRest _ _ _ _).trans ?_
    rw [hvalue]
    exact hnode
  · rw [← List.reverse_reverse declaration.slots, hslots]
    simp [hvalues.reverse_eq]
  all_goals rw [hfields]
  · exact hvalues
  · rfl

/-- Whatever is of the form of a field is accepted, and resolves to what it declares. -/
theorem fieldNode_of_isField {declaration : Declaration Element} {node : FieldNode}
    (h : IsField declaration node) :
    (fieldNode {} declaration).run.Silent depth
      ∧ (fieldNode {} declaration).run.value depth = some (node.give {}) := by
  obtain ⟨modifiers, name, values, hslots, hmodifiers, hname, hvalues, hlocation⟩ := h
  -- the slots from the end: the value, and a descriptor that cannot be taken for one
  have hreverse : declaration.slots.reverse
      = values ++ some (.identifier node.descriptor) :: some name :: modifiers.reverse := by
    rw [hslots]
    simp [hvalues.reverse_eq]
  have hsplit := orderly_splitFieldValue declaration.slots.reverse
  obtain ⟨hsilent, hvalue⟩ : (splitFieldValue declaration.slots.reverse).run.Silent depth
      ∧ (splitFieldValue declaration.slots.reverse).run.value depth = some _ := by
    rw [hreverse]
    exact splitFieldValue_of_isFieldValue hvalues node.descriptor _
  obtain ⟨hrest, hnode⟩ : _ ∧ _ = some (node.give {}) :=
    ((accepts_fieldRest declaration.location node.value _).iff _).mpr
      ⟨node.give {}, rfl, modifiers, name, rfl, hmodifiers, hname, by rw [← hlocation]; rfl⟩
  rw [fieldNode_empty]
  constructor
  · refine (silent_bind_attempt hsplit fun _ _ => orderly_fieldRest _ _ _ _).mpr ⟨hsilent, ?_⟩
    rw [hvalue]
    rintro _ ⟨⟩
    exact hrest
  · refine (value_bind_attempt hsplit fun _ _ => orderly_fieldRest _ _ _ _).trans ?_
    rw [hvalue]
    exact hnode

/-- A field is accepted exactly in its form, and resolves to what it declares. -/
theorem accepts_fieldNode (declaration : Declaration Element) :
    (fieldNode {} declaration).Accepts depth fun node =>
      IsField declaration node ∧ node.give {} = node := by
  refine ⟨orderly_fieldNode {} declaration, fun result => ?_⟩
  constructor
  · rintro ⟨hsilent, rfl⟩
    exact isField_of_silent hsilent
  · rintro ⟨node, rfl, hform, hgive⟩
    rw [← hgive]
    exact fieldNode_of_isField hform

/-! ### Code -/

/-- Arguments are accepted if there is no hole among them and the check of each kind accepts its
argument. -/
theorem silent_verifyArguments (location : Location) {operands : List κ}
    {slots : List (Option Element)} (h : operands.length = slots.length) :
    (InstructionSet.verifyArguments location operands slots).Silent 0
      ↔ List.Forall₂ (fun (operand : κ) slot =>
          ∃ element, slot = some element ∧ (OperandKind.verify operand element).Silent 0)
        operands slots := by
  induction operands generalizing slots with
  | nil =>
    obtain rfl := List.eq_nil_of_length_eq_zero h.symm
    exact iff_of_true (silent_pure ()) .nil
  | cons operand operands ih =>
    obtain _ | ⟨slot, slots⟩ := slots
    · cases h
    have hslot := InstructionSet.orderly_verifySlot location operand slot
    refine (silent_bind hslot (InstructionSet.orderly_verifyArguments _ _ _)).trans ?_
    rw [ih (Nat.succ.inj h), List.forall₂_cons]
    refine and_congr_left fun _ => ?_
    cases slot with
    | none =>
      refine iff_of_false (not_silent_error _ _) ?_
      rintro ⟨element, helement, -⟩
      cases helement
    | some element => simp [InstructionSet.verifySlot]

/-- An instruction is accepted exactly if its mnemonic is known and it has arguments of the kinds
that are listed for it. -/
theorem silent_verify (set : InstructionSet κ) (instruction : Instruction Element) :
    (set.verify instruction).Silent 0 ↔ IsInstruction set instruction := by
  dsimp only [InstructionSet.verify, IsInstruction]
  split
  · next hnone =>
    refine iff_of_false (not_silent_error _ _) ?_
    rintro ⟨operands, hoperands, -⟩
    rw [hnone] at hoperands
    cases hoperands
  · next operands hoperands =>
    rw [hoperands]
    split
    · next hlength =>
      rw [silent_verifyArguments _ hlength]
      simp
    · next hlength =>
      refine iff_of_false (not_silent_error _ _) ?_
      rintro ⟨_, ⟨⟩, hforall⟩
      exact hlength hforall.length_eq

/-- Code is accepted exactly if each slot is, and no label repeats one that was seen. -/
theorem silent_codeSlots (set : InstructionSet κ) (labels : List String) (previous : Location)
    (slots : List (Option Element)) :
    (codeSlots set labels previous slots).Silent 0
      ↔ (∀ slot ∈ slots, IsCodeSlot set slot) ∧ (slots.filterMap labelOf).Nodup
        ∧ ∀ label ∈ slots.filterMap labelOf, label ∉ labels := by
  induction slots generalizing labels previous with
  | nil => exact iff_of_true (silent_pure ()) (by simp)
  | cons slot slots ih =>
    -- what is neither an instruction nor a label is reported
    have hother : ∀ (problem : Problem) (location next : Location), ¬ IsCodeSlot set slot →
        ((do Check.error problem location; codeSlots set labels next slots).Silent 0
          ↔ (∀ slot' ∈ slot :: slots, IsCodeSlot set slot')
            ∧ ((slot :: slots).filterMap labelOf).Nodup
            ∧ ∀ label ∈ (slot :: slots).filterMap labelOf, label ∉ labels) := by
      intro problem location next hslot
      rw [silent_bind (orderly_error _ _) (orderly_codeSlots _ _ _ _)]
      refine iff_of_false (fun h => not_silent_error _ _ h.1) ?_
      rintro ⟨heach, -⟩
      exact hslot (heach slot List.mem_cons_self)
    match slot with
    | none => exact hother _ _ _ (by rintro ⟨⟩)
    | some element =>
      cases element
      case instruction instruction =>
        have hform : IsCodeSlot set (some (.instruction instruction))
            ↔ IsInstruction set instruction := by
          constructor
          · rintro ⟨⟩
            assumption
          · exact .instruction
        refine (silent_bind (set.orderly_verify _) (orderly_codeSlots _ _ _ _)).trans ?_
        rw [silent_verify, ih, List.forall_mem_cons, hform, and_assoc]
        rfl
      case label name =>
        refine (silent_bind ((orderly_error _ _).onlyIf _) (orderly_codeSlots _ _ _ _)).trans ?_
        rw [silent_onlyIf_error, ih]
        show _ ↔ _ ∧ (name.text :: slots.filterMap labelOf).Nodup
          ∧ ∀ label ∈ name.text :: slots.filterMap labelOf, label ∉ labels
        rw [List.forall_mem_cons, List.forall_mem_cons, List.nodup_cons, List.contains_iff_mem]
        constructor
        · rintro ⟨hname, heach, hnodup, hlabels⟩
          simp only [List.mem_cons, not_or] at hlabels
          exact ⟨⟨.label, heach⟩, ⟨fun hmem => (hlabels _ hmem).1 rfl, hnodup⟩, hname,
            fun label hlabel => (hlabels label hlabel).2⟩
        · rintro ⟨⟨-, heach⟩, ⟨hfresh, hnodup⟩, hname, hlabels⟩
          refine ⟨hname, heach, hnodup, fun label hlabel hmem => ?_⟩
          rcases List.mem_cons.mp hmem with rfl | hmem
          · exact hfresh hlabel
          · exact hlabels label hlabel hmem
      all_goals exact hother _ _ _ (by rintro ⟨⟩)

/-- Code is accepted exactly if it is made of labels and of instructions that are accepted, and
no label is defined twice. -/
theorem accepts_code (set : InstructionSet κ) (group : Group Element) :
    (code set group).Accepts 0 fun _ => IsCode set group.slots := by
  refine ⟨orderly_codeSlots _ _ _ _, fun _ => ?_⟩
  rw [code, silent_codeSlots]
  constructor
  · rintro ⟨⟨heach, hlabels, -⟩, -⟩
    exact ⟨heach, hlabels⟩
  · rintro ⟨heach, hlabels⟩
    exact ⟨⟨heach, hlabels, fun _ _ => List.not_mem_nil⟩, rfl⟩

/-! ### Methods -/

theorem accepts_identifiers (expected : String) (element : Element) :
    (Expect.identifiers expected element).Accepts depth fun tokens =>
      ∃ group, element.array? = some group
        ∧ group.slots = tokens.map fun token => some (.identifier token) := by
  have hslots : ∀ (slots : List (Option Element)) (tokens : List Token),
      List.Forall₂ (fun slot token => slot.bind Element.identifier? = some token) slots tokens
        ↔ slots = tokens.map fun token => some (.identifier token) := by
    intro slots tokens
    simp only [bind_identifier?_eq_some_iff]
    rw [← List.forall₂_eq_eq_eq, List.forall₂_map_right_iff]
  unfold Expect.identifiers
  rw [Expect.array_eq]
  refine ((Expect.accepts_viewed _ _ _).bind fun (group : Group Element) =>
    (Attempt.Accepts.collect (fun slot => accepts_identifierSlot _ slot _)
      group.slots).lift).congr ?_
  intro tokens
  simp only [hslots]

/-- The parameters are accepted exactly in their form. -/
theorem accepts_parametersOf {body : Object Element} (h : DistinctKeys body) :
    (parametersOf body).Accepts depth (HasParameters body) := by
  unfold parametersOf
  split
  · next hnone =>
    have habsent := get?_eq_none_iff.mp hnone
    refine ⟨orderly_pure _, fun tokens => ?_⟩
    constructor
    · rintro ⟨-, rfl⟩
      exact .absent habsent
    · rintro (_ | @⟨pair, _, _, _, hmem, hkey⟩)
      · exact ⟨silent_pure _, rfl⟩
      · exact absurd hkey (habsent pair hmem)
  · next pair hpair =>
    -- the pair that is found is the only one with this key
    obtain ⟨hmem, hkey⟩ := (get?_eq_some_iff h).mp hpair
    refine (((Expect.accepts_present _ _ _).bind fun element =>
      accepts_identifiers _ element).getD []).congr fun tokens => ?_
    constructor
    · rintro ⟨element, hvalue, group, harray, htokens⟩
      exact .present hmem hkey hvalue harray htokens
    · rintro (habsent | @⟨pair', element, group, _, hmem', hkey', hvalue, harray, htokens⟩)
      · exact absurd hkey (habsent pair hmem)
      · obtain rfl := eq_of_get?_eq_some h hpair hmem' hkey'
        exact ⟨element, hvalue, group, harray, htokens⟩

omit [LawfulOperandKind κ] in
/-- Code that is there is read and then checked. -/
theorem codeOf_eq_run {body : Object Element} {pair : Entry Element}
    (h : body.get? "code" = some pair) (set : InstructionSet κ) :
    codeOf set body = (do
      let group ← Expect.viewedSlot Element.code? "method code" pair.value pair.key.location
      code set group
      return group : Attempt (Group Element)).run := by
  unfold codeOf Expect.viewedSlot
  rw [h, run_bind_attempt]
  simp only [Expect.code_eq]
  refine bind_congr fun group => ?_
  cases group with
  | none => rfl
  | some group =>
    show _ = (code set group >>= fun a => pure (some a)) >>= _
    rw [bind_assoc]
    rfl

/-- The code is accepted exactly in its form. -/
theorem accepts_codeOf (set : InstructionSet κ) {body : Object Element} (h : DistinctKeys body) :
    (codeOf set body).Accepts 0 (HasCode set body) := by
  cases hget : body.get? "code" with
  | none =>
    have habsent := get?_eq_none_iff.mp hget
    have hnone : codeOf set body = pure none := by
      unfold codeOf
      rw [hget]
    rw [hnone]
    refine ⟨orderly_pure _, fun group => ?_⟩
    constructor
    · rintro ⟨-, rfl⟩
      exact .absent habsent
    · rintro (_ | @⟨pair, _, _, hmem, hkey⟩)
      · exact ⟨silent_pure _, rfl⟩
      · exact absurd hkey (habsent pair hmem)
  | some pair =>
    obtain ⟨hmem, hkey⟩ := (get?_eq_some_iff h).mp hget
    have haccepts := (Expect.accepts_viewedSlot Element.code? "method code" pair.value
      pair.key.location).bind fun group =>
        (accepts_code set group).lift.bind fun _ => Attempt.Accepts.pure group
    rw [codeOf_eq_run hget]
    refine Check.Accepts.congr haccepts fun result => ?_
    constructor
    · rintro ⟨_, rfl, group, hslot, _, hslots, rfl⟩
      obtain ⟨element, hvalue, hcode⟩ := Option.bind_eq_some_iff.mp hslot
      exact .present hmem hkey hvalue hcode hslots
    · rintro (habsent | @⟨other, element, group, hmem', hkey', hvalue, hcode, hslots⟩)
      · exact absurd hkey (habsent pair hmem)
      · obtain rfl := eq_of_get?_eq_some h hget hmem' hkey'
        refine ⟨group, rfl, group, ?_, (), hslots, rfl⟩
        rw [hvalue]
        exact hcode

/-- Keys that mean nothing are accepted, with a warning. -/
theorem accepts_warnUnknownKeys (body : Object Element) :
    (warnUnknownKeys body).Accepts depth fun _ => True := by
  refine ⟨orderly_warnUnknownKeys body, fun _ => iff_of_true ⟨?_, rfl⟩ trivial⟩
  unfold warnUnknownKeys
  rw [silent_forM fun _ => (orderly_warn _ _).onlyIf _]
  intro entry _
  unfold Silent
  rw [found_onlyIf]
  split <;> rfl

/-- What is accepted behind the body of a method, read from behind: the descriptor, the name and
the modifiers, and in the body the parameters and the code. -/
theorem accepts_methodRest (set : InstructionSet κ) (location : Location) {body : Object Element}
    (h : DistinctKeys body) (descriptorPart namePart : Option Element)
    (rest : List (Option Element)) :
    (methodRest set {} location body descriptorPart namePart rest).Accepts 0 fun node =>
      descriptorPart = some (.identifier node.descriptor)
        ∧ namePart.bind Element.name? = some node.name
        ∧ AreModifiers .onMethod rest.reverse node.modifiers
        ∧ HasParameters body node.parameters ∧ HasCode set body node.code
        ∧ node = { node.give {} with location } := by
  refine ((accepts_warnUnknownKeys body).lift.bind fun _ => (accepts_parametersOf h).lift.bind
    fun parameters => (accepts_codeOf set h).lift.bind fun code =>
      (accepts_memberParts _ _ _ _ _).bind fun parts => Attempt.Accepts.pure _).congr ?_
  intro node
  constructor
  · rintro ⟨_, -, parameters, hparameters, code, hcode, parts,
      ⟨hdescriptor, hname, hmodifiers⟩, rfl⟩
    exact ⟨bind_identifier?_eq_some_iff.mp hdescriptor, hname, hmodifiers, hparameters, hcode, rfl⟩
  · rintro ⟨hdescriptor, hname, hmodifiers, hparameters, hcode, hnode⟩
    exact ⟨(), trivial, _, hparameters, _, hcode, (node.modifiers, node.name, node.descriptor),
      ⟨bind_identifier?_eq_some_iff.mpr hdescriptor, hname, hmodifiers⟩, hnode⟩

/-- A method is accepted exactly in its form, and resolves to what it declares. -/
theorem accepts_methodNode (set : InstructionSet κ) (declaration : Declaration Element) :
    (methodNode set {} declaration).Accepts 0 fun node =>
      IsMethod set declaration node ∧ node.give {} = node := by
  have hreverse : ∀ slots, declaration.slots.reverse = slots → declaration.slots = slots.reverse :=
    fun slots h => List.reverse_eq_iff.mp h
  have hnone : ({} : Pending).warnClassOnly "method" = pure () := rfl
  rw [methodNode_parts, hnone]
  simp only [liftM_pure, pure_bind]
  match hslots : declaration.slots.reverse with
  | bodyPart :: descriptorPart :: namePart :: rest =>
    refine ((Expect.accepts_viewedSlot _ _ _ _).bind fun body =>
      (accepts_distinctKeys _ body).lift.bind_of (fun _ => orderly_methodRest _ _ _ _ _ _ _)
        fun _ hdistinct => accepts_methodRest set _ hdistinct _ _ _).congr ?_
    intro node
    constructor
    · rintro ⟨body, hbody, _, hdistinct, rfl, hname, hmodifiers, hparameters, hcode, hnode⟩
      obtain ⟨element, rfl, hobject⟩ := Option.bind_eq_some_iff.mp hbody
      obtain ⟨name, rfl, hname⟩ := Option.bind_eq_some_iff.mp hname
      refine ⟨⟨rest.reverse, name, element, body, ?_, hmodifiers, hname, hobject, hdistinct,
        hparameters, hcode, ?_⟩, ?_⟩
      · rw [hreverse _ hslots]
        simp
      all_goals rw [hnode]
      rfl
    · rintro ⟨⟨modifiers, name, element, body, hform, hmodifiers, hname, hobject, hdistinct,
        hparameters, hcode, hlocation⟩, hgive⟩
      -- from the end, the form is read in one way only
      rw [hform] at hslots
      obtain ⟨rfl, rfl, rfl, rfl⟩ : _ ∧ _ ∧ _ ∧ _ := by simpa using hslots
      refine ⟨body, hobject, (), hdistinct, rfl, hname, ?_, hparameters, hcode, ?_⟩
      · rw [List.reverse_reverse]
        exact hmodifiers
      · rw [← hlocation]
        exact hgive.symm
  | [] | [_] | [_, _] =>
    refine (Attempt.Accepts.error _ _).congr fun node => ⟨False.elim, ?_⟩
    rintro ⟨⟨modifiers, name, element, body, hform, -⟩, -⟩
    have hlength := congrArg List.length hslots
    rw [hform] at hlength
    simp at hlength

end Resolve

end JvmAssembly
