/-
JvmAssembly/Proofs/ModifierAccounts.lean

Every slot of a list of modifiers is accounted for, and the access flags tell which
modifiers there are.

A slot with a modifier of the target is recorded (`recordedAt`), and any other slot has
one error (`modifierFault`); no slot has both, and none has neither.  What is recorded has a
warning where it repeats a modifier.  The loop looks for repetitions among what it has
recorded so far, so its warnings are the repetitions in the list that it ends with:

    repeatsBy Prod.fst (slots.filterMap (recordedAt target)).

The access flags are a union of bits, so they know nothing of order and repetition.  They
lose nothing else: each modifier sets one bit (`testBit_flag`), and although some bits have
two meanings, no target allows both (`bit_injective`).
-/
import JvmAssembly.Proofs.MemberForms
import JvmAssembly.Proofs.WellTyped

namespace JvmAssembly

/-! ### Access flags -/

namespace Modifier

/-- The number of the bit that a modifier sets. -/
def bit (modifier : Modifier) : Nat :=
  Nat.log2 modifier.flag.toNat

/-- The flag of a modifier is a single bit. -/
theorem testBit_flag (modifier : Modifier) (index : Nat) :
    modifier.flag.toNat.testBit index = decide (modifier.bit = index) := by
  have hflag : modifier.flag.toNat = 2 ^ modifier.bit := by
    cases modifier <;> decide
  rw [hflag, Nat.testBit_two_pow]

/-- No two modifiers of one target set the same bit. -/
theorem bit_injective {target : ModifierTarget} {modifier other : Modifier}
    (h : modifier.isAllowedOn target) (hother : other.isAllowedOn target)
    (hbit : modifier.bit = other.bit) : modifier = other := by
  have hall : ∀ target, ∀ modifier ∈ allowedOn target, ∀ other ∈ allowedOn target,
      modifier.bit = other.bit → modifier = other := by
    -- target by target, since `superFlag` and `synchronizedFlag` share a bit across targets
    intro target
    cases target <;> decide
  exact hall target modifier (List.contains_iff_mem.mp h) other (List.contains_iff_mem.mp hother)
    hbit

theorem keyword_of_ofKeyword? {text : String} {modifier : Modifier}
    (h : ofKeyword? text = some modifier) : modifier.keyword = text := by
  have hfound := List.find?_some h
  exact beq_iff_eq.mp hfound

end Modifier

namespace Modifiers

instance (modifiers : Modifiers) (target : ModifierTarget) :
    Decidable (modifiers.AllowedOn target) :=
  inferInstanceAs (Decidable (∀ entry ∈ modifiers.entries, entry.1.isAllowedOn target))

theorem contains_iff {modifiers : Modifiers} {modifier : Modifier} :
    modifiers.contains modifier ↔ modifier ∈ modifiers.entries.map Prod.fst := by
  simp [contains]

/-- A bit is set exactly if one of the modifiers sets it. -/
theorem testBit_accessFlags (modifiers : Modifiers) (index : Nat) :
    modifiers.accessFlags.toNat.testBit index
      ↔ ∃ modifier, modifiers.contains modifier ∧ modifier.bit = index := by
  -- the flags in hand vary along the fold
  have hfold : ∀ (entries : List (Modifier × Location)) (flags : UInt16),
      (entries.foldl (fun flags entry => flags ||| entry.1.flag) flags).toNat.testBit index
        ↔ flags.toNat.testBit index ∨ ∃ modifier ∈ entries.map Prod.fst, modifier.bit = index := by
    intro entries
    induction entries with
    | nil => simp
    | cons entry entries ih =>
      intro flags
      rw [List.foldl_cons, ih, UInt16.toNat_or, Nat.testBit_or, Modifier.testBit_flag]
      simp [or_assoc]
  unfold accessFlags
  rw [hfold]
  simp [contains_iff]

/-- Flags do not depend on the order of the modifiers, nor on repetitions. -/
theorem accessFlags_congr {first second : Modifiers}
    (h : ∀ modifier, first.contains modifier ↔ second.contains modifier) :
    first.accessFlags = second.accessFlags := by
  refine UInt16.toNat_inj.mp (Nat.eq_of_testBit_eq fun index => ?_)
  rw [Bool.eq_iff_iff, testBit_accessFlags, testBit_accessFlags]
  simp only [h]

/-- Among modifiers of one target, the flags tell which ones there are. -/
theorem contains_of_accessFlags {target : ModifierTarget} {first second : Modifiers}
    (hfirst : first.AllowedOn target) (hsecond : second.AllowedOn target)
    (hflags : first.accessFlags = second.accessFlags) {modifier : Modifier}
    (h : first.contains modifier) : second.contains modifier := by
  have hallowed : ∀ {modifiers : Modifiers} {modifier : Modifier}, modifiers.AllowedOn target →
      modifiers.contains modifier → modifier.isAllowedOn target := by
    intro modifiers modifier hmodifiers hcontains
    obtain ⟨entry, hentry, rfl⟩ := List.mem_map.mp (contains_iff.mp hcontains)
    exact hmodifiers entry hentry
  have hset : second.accessFlags.toNat.testBit modifier.bit := by
    rw [← hflags]
    exact (testBit_accessFlags first modifier.bit).mpr ⟨modifier, h, rfl⟩
  obtain ⟨other, hother, hbit⟩ := (testBit_accessFlags second modifier.bit).mp hset
  obtain rfl := Modifier.bit_injective (hallowed hsecond hother) (hallowed hfirst h) hbit
  exact hother

/-- On one kind of declaration, two lists of modifiers have the same flags exactly if they have
the same modifiers. -/
theorem accessFlags_eq_iff {target : ModifierTarget} {first second : Modifiers}
    (hfirst : first.AllowedOn target) (hsecond : second.AllowedOn target) :
    first.accessFlags = second.accessFlags
      ↔ ∀ modifier, first.contains modifier ↔ second.contains modifier :=
  ⟨fun hflags _ => ⟨contains_of_accessFlags hfirst hsecond hflags,
    contains_of_accessFlags hsecond hfirst hflags.symm⟩, accessFlags_congr⟩

end Modifiers

namespace Resolve

open Check

variable {depth : Nat} {target : ModifierTarget}

/-! ### Slots -/

/-- The modifier that is recorded for a slot, and its place. -/
def recordedAt (target : ModifierTarget) : Option Element → Option (Modifier × Location)
  | some (.identifier token) =>
    (namedModifier target token).map fun modifier => (modifier, token.location)
  | _ => none

theorem recordedAt_eq_some_iff {slot : Option Element} {entry : Modifier × Location} :
    recordedAt target slot = some entry ↔ IsModifier target slot entry := by
  constructor
  · intro h
    match slot with
    | none => cases h
    | some element =>
      cases element
      case identifier token =>
        obtain ⟨modifier, hnamed, rfl⟩ := Option.map_eq_some_iff.mp h
        obtain ⟨hkeyword, hallowed⟩ := Option.filter_eq_some_iff.mp hnamed
        exact .mk hkeyword hallowed
      all_goals cases h
  · rintro @⟨token, modifier, hkeyword, hallowed⟩
    exact Option.map_eq_some_iff.mpr
      ⟨modifier, Option.filter_eq_some_iff.mpr ⟨hkeyword, hallowed⟩, rfl⟩

/-- A slot is recorded exactly if it has no error. -/
theorem modifierFault_eq_none_iff_recordedAt {location : Location} {slot : Option Element} :
    modifierFault target location slot = none ↔ ∃ entry, recordedAt target slot = some entry := by
  rw [modifierFault_eq_none_iff]
  simp only [recordedAt_eq_some_iff]

/-- The warning about a modifier that was recorded before. -/
def repeatWarning (entry : Modifier × Location) : Warning :=
  ⟨"Repeated modifier: " ++ entry.1.keyword, entry.2⟩

/-! ### Lists of slots -/

/-- The warnings about what was recorded, which are about its repetitions. -/
def repeatWarnings (entries : List (Modifier × Location)) : List Warning :=
  (repeatsBy Prod.fst entries).map repeatWarning

/-- One more modifier has a warning if it was recorded before. -/
theorem warnings_recorded {token : Token} {modifier : Modifier} (found : Modifiers)
    (hkeyword : Modifier.ofKeyword? token.text = some modifier) :
    repeatWarnings (found.add modifier token.location).entries
      = repeatWarnings found.entries
        ++ ((Check.onlyIf (found.contains modifier)
          (Check.warn ("Repeated modifier: " ++ token.text) token.location)).found
            depth).warnings := by
  have hentries : (found.add modifier token.location).entries
      = found.entries ++ [(modifier, token.location)] := rfl
  unfold repeatWarnings
  rw [hentries, repeatsBy_concat, List.map_append, found_onlyIf]
  congr 1
  by_cases h : found.contains modifier
  · rw [if_pos h, if_pos (Modifiers.contains_iff.mp h), ← Modifier.keyword_of_ofKeyword? hkeyword]
    rfl
  · rw [if_neg h, if_neg (mt Modifiers.contains_iff.mpr h)]
    rfl

/-- Behind the modifiers found before, the slots are recorded or have an error, one by one.  The
warnings so far and those to come are the ones about everything that is recorded in the end. -/
theorem account_modifiersAfter (target : ModifierTarget) (location : Location)
    (found : Modifiers) (slots : List (Option Element)) :
    (modifiersAfter target location found slots).value depth
        = ⟨found.entries ++ slots.filterMap (recordedAt target)⟩
      ∧ ((modifiersAfter target location found slots).found depth).errors
        = slots.filterMap (modifierFault target location)
      ∧ repeatWarnings found.entries
          ++ ((modifiersAfter target location found slots).found depth).warnings
        = repeatWarnings (found.entries ++ slots.filterMap (recordedAt target)) := by
  -- what was found before grows along the slots; its own warnings are in the statement, since a
  -- slot may repeat a modifier that was found before
  induction slots generalizing found with
  | nil => simp [modifiersAfter]
  | cons slot rest ih =>
    cases hslot : recordedAt target slot with
    | some entry =>
      have hfault : modifierFault target location slot = none :=
        modifierFault_eq_none_iff_recordedAt.mpr ⟨entry, hslot⟩
      obtain @⟨token, modifier, hkeyword, hallowed⟩ := recordedAt_eq_some_iff.mp hslot
      have hwarn : (Check.onlyIf (found.contains modifier) <|
          Check.warn ("Repeated modifier: " ++ token.text) token.location).Orderly :=
        (orderly_warn _ _).onlyIf _
      have hnext := orderly_modifiersAfter target location (found.add modifier token.location) rest
      obtain ⟨hvalue, herrors, hwarnings⟩ := ih (found.add modifier token.location)
      have hadd : (found.add modifier token.location).entries ++ rest.filterMap (recordedAt target)
          = found.entries ++ (modifier, token.location) :: rest.filterMap (recordedAt target) :=
        List.append_assoc found.entries [_] _
      rw [modifiersAfter_cons hkeyword hallowed, value_bind hwarn hnext, found_bind hwarn hnext,
        List.filterMap_cons_some hslot, List.filterMap_cons_none hfault]
      refine ⟨?_, ?_, ?_⟩
      · rw [hvalue, hadd]
      · rw [Report.errors_append, herrors, found_onlyIf]
        split <;> rfl
      · rw [Report.warnings_append, ← List.append_assoc, ← warnings_recorded found hkeyword,
          hwarnings, hadd]
    | none =>
      -- what is not recorded has an error, and the modifiers found stay as they are
      obtain ⟨fault, hfault⟩ : ∃ fault, modifierFault target location slot = some fault := by
        refine Option.ne_none_iff_exists'.mp fun hnone => ?_
        obtain ⟨entry, hentry⟩ := modifierFault_eq_none_iff_recordedAt.mp hnone
        rw [hslot] at hentry
        cases hentry
      have hnext := orderly_modifiersAfter target location found rest
      obtain ⟨hvalue, herrors, hwarnings⟩ := ih found
      rw [modifiersAfter_cons_of_fault hfault, value_bind (orderly_error _ _) hnext,
        found_bind (orderly_error _ _) hnext, List.filterMap_cons_none hslot,
        List.filterMap_cons_some hfault]
      refine ⟨hvalue, ?_, ?_⟩
      · rw [Report.errors_append, herrors]
        rfl
      · rw [Report.warnings_append, ← hwarnings]
        rfl

/-- The modifiers that are recorded are those of the slots, in order and with repetitions. -/
theorem value_modifiers (target : ModifierTarget) (location : Location)
    (slots : List (Option Element)) :
    (modifiers target location slots).value depth = ⟨slots.filterMap (recordedAt target)⟩ :=
  (account_modifiersAfter target location {} slots).1

/-- What is reported about modifiers: the faults of the slots as errors, and the repetitions as
warnings. -/
theorem found_modifiers (target : ModifierTarget) (location : Location)
    (slots : List (Option Element)) :
    (modifiers target location slots).found depth
      = ⟨slots.filterMap (modifierFault target location),
        repeatWarnings (slots.filterMap (recordedAt target))⟩ := by
  obtain ⟨-, herrors, hwarnings⟩ := @account_modifiersAfter depth target location {} slots
  have hrecorded : ({} : Modifiers).entries ++ slots.filterMap (recordedAt target)
      = slots.filterMap (recordedAt target) := rfl
  rw [← herrors, ← hrecorded, ← hwarnings]
  rfl

/-- In every session, each slot is recorded or has an error, and what is recorded has a warning
where it repeats a modifier. -/
theorem run_modifiers (target : ModifierTarget) (location : Location)
    (slots : List (Option Element)) (session : Session) :
    (modifiers target location slots).run session
      = (⟨slots.filterMap (recordedAt target)⟩,
        ⟨⟨session.report.errors ++ slots.filterMap (modifierFault target location),
            session.report.warnings ++ repeatWarnings (slots.filterMap (recordedAt target))⟩,
          session.depth⟩) := by
  rw [(orderly_modifiers target location slots).run_eq, value_modifiers, found_modifiers]
  rfl

/-- What is recorded are the modifiers that slots hold. -/
theorem contains_run_modifiers {location : Location} {slots : List (Option Element)}
    {session : Session} {modifier : Modifier} :
    ((modifiers target location slots).run session).1.contains modifier
      ↔ ∃ slot ∈ slots, ∃ place, IsModifier target slot (modifier, place) := by
  rw [run_modifiers, Modifiers.contains_iff]
  simp only [List.mem_map, List.mem_filterMap, recordedAt_eq_some_iff]
  constructor
  · rintro ⟨⟨_, place⟩, ⟨slot, hslot, hmodifier⟩, rfl⟩
    exact ⟨slot, hslot, place, hmodifier⟩
  · rintro ⟨slot, hslot, place, hmodifier⟩
    exact ⟨(modifier, place), ⟨slot, hslot, hmodifier⟩, rfl⟩

/-- Two lists of slots give the same flags exactly if they hold the same modifiers. -/
theorem accessFlags_modifiers_eq_iff {location other : Location}
    {slots others : List (Option Element)} {session later : Session} :
    ((modifiers target location slots).run session).1.accessFlags
        = ((modifiers target other others).run later).1.accessFlags
      ↔ ∀ modifier, (∃ slot ∈ slots, ∃ place, IsModifier target slot (modifier, place))
        ↔ ∃ slot ∈ others, ∃ place, IsModifier target slot (modifier, place) := by
  rw [Modifiers.accessFlags_eq_iff (gives_modifiers target location slots session)
    (gives_modifiers target other others later)]
  simp only [contains_run_modifiers]

end Resolve

/-- **Modifiers are accounted for exactly, and the access flags are faithful.**  In every
session, what is recorded are the slots that hold a modifier of the target, in order and with
their places; every other slot has one error, in order, about a hole, about an element that is
no identifier, or about an identifier that is no modifier of the target; and there is one
warning for everything recorded whose modifier was recorded before.  The access flags depend
neither on the order of the slots nor on repetitions, and lists of modifiers of one target have
the same flags exactly if they have the same modifiers. -/
theorem modifiers_accounted_for :
    (∀ (target : ModifierTarget) (location : Location) (slots : List (Option Element))
        (session : Session),
        (Resolve.modifiers target location slots).run session
          = (⟨slots.filterMap (Resolve.recordedAt target)⟩,
            ⟨⟨session.report.errors ++ slots.filterMap (Resolve.modifierFault target location),
                session.report.warnings
                  ++ Resolve.repeatWarnings (slots.filterMap (Resolve.recordedAt target))⟩,
              session.depth⟩))
      ∧ (∀ (target : ModifierTarget) (slot : Option Element) (entry : Modifier × Location),
        Resolve.recordedAt target slot = some entry ↔ IsModifier target slot entry)
      ∧ (∀ (target : ModifierTarget) (location : Location) (slot : Option Element),
        Resolve.modifierFault target location slot = none
          ↔ ∃ entry, IsModifier target slot entry)
      ∧ (∀ (target : ModifierTarget) (location : Location) (slots others : List (Option Element))
          (session : Session), (∀ slot, slot ∈ slots ↔ slot ∈ others) →
        ((Resolve.modifiers target location slots).run session).1.accessFlags
          = ((Resolve.modifiers target location others).run session).1.accessFlags)
      ∧ (∀ (target : ModifierTarget) (location other : Location)
          (slots others : List (Option Element)) (session later : Session),
        ((Resolve.modifiers target location slots).run session).1.accessFlags
            = ((Resolve.modifiers target other others).run later).1.accessFlags
          ↔ ∀ modifier, (∃ slot ∈ slots, ∃ place, IsModifier target slot (modifier, place))
            ↔ ∃ slot ∈ others, ∃ place, IsModifier target slot (modifier, place))
      ∧ ∀ (target : ModifierTarget) (first second : Modifiers),
        first.AllowedOn target → second.AllowedOn target →
        (first.accessFlags = second.accessFlags
          ↔ ∀ modifier, first.contains modifier ↔ second.contains modifier) := by
  -- that order and repetition do not matter is a case of the comparison of two lists of slots
  refine ⟨Resolve.run_modifiers, fun _ _ _ => Resolve.recordedAt_eq_some_iff,
    fun _ _ _ => Resolve.modifierFault_eq_none_iff, ?_,
    fun _ _ _ _ _ _ _ => Resolve.accessFlags_modifiers_eq_iff,
    fun _ _ _ hfirst hsecond => Modifiers.accessFlags_eq_iff hfirst hsecond⟩
  intro target location slots others session hsame
  rw [Resolve.accessFlags_modifiers_eq_iff]
  simp only [hsame, implies_true]

/-- Slots of a class with much wrong: a hole, a number, a modifier of other declarations and one
that is repeated. -/
def modifierSample : List (Option Element) :=
  let token (kind : TokenKind) (text : String) (line : Nat) : Token :=
    ⟨kind, Content.ofString text, ⟨line, 1, "t"⟩⟩
  [some (.identifier (token .identifier "public" 2)), none,
    some (.number (token .number "7" 3)), some (.identifier (token .identifier "static" 4)),
    some (.identifier (token .identifier "super" 5)),
    some (.identifier (token .identifier "public" 6))]

/-- Three slots are recorded, three have an error, and one of the recorded has a warning.  Read
backwards and then once more, the slots give the same flags.  A class that is `super` has other
flags than one that is `public` too. -/
theorem modifierSample_accounted :
    (Resolve.modifiers .onClass ⟨1, 1, "t"⟩ modifierSample).run {}
        = (⟨[(.publicFlag, ⟨2, 1, "t"⟩), (.superFlag, ⟨5, 1, "t"⟩), (.publicFlag, ⟨6, 1, "t"⟩)]⟩,
          ⟨⟨[⟨.missingElement "class modifier", ⟨1, 1, "t"⟩⟩,
              ⟨.unexpectedElement "class modifier" .number, ⟨3, 1, "t"⟩⟩,
              ⟨.invalidModifier "static" .onClass, ⟨4, 1, "t"⟩⟩],
            [⟨"Repeated modifier: public", ⟨6, 1, "t"⟩⟩]⟩, 0⟩)
      ∧ ((Resolve.modifiers .onClass ⟨1, 1, "t"⟩ modifierSample).run {}).1.accessFlags
        = ((Resolve.modifiers .onClass ⟨1, 1, "t"⟩
          (modifierSample.reverse ++ modifierSample)).run {}).1.accessFlags
      ∧ (⟨[(.superFlag, ⟨2, 1, "t"⟩)]⟩ : Modifiers).accessFlags
        ≠ (⟨[(.publicFlag, ⟨3, 1, "t"⟩), (.superFlag, ⟨4, 1, "t"⟩)]⟩ : Modifiers).accessFlags := by
  obtain ⟨hrun, -, -, horder, -, hflags⟩ := modifiers_accounted_for
  refine ⟨?_, ?_, ?_⟩
  · rw [hrun]
    decide
  · refine horder _ _ _ _ _ fun slot => ?_
    rw [List.mem_append, List.mem_reverse, or_self]
  · have hsame := hflags .onClass ⟨[(.superFlag, ⟨2, 1, "t"⟩)]⟩
      ⟨[(.publicFlag, ⟨3, 1, "t"⟩), (.superFlag, ⟨4, 1, "t"⟩)]⟩ (by decide) (by decide)
    rw [ne_eq, hsame]
    intro h
    exact absurd ((h .publicFlag).mpr rfl) (by decide)

end JvmAssembly
