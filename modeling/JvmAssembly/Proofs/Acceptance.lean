/-
JvmAssembly/Proofs/Acceptance.lean

What checks accept.

A check accepts what it reports no error about.  `Accepts check depth rule` says that
this is exactly what a rule allows, and that the result is the one in the rule, so a
rule is a grammar of a check.  Checks in a row accept what their rules allow one after
the other (`Attempt.Accepts.bind`), a part whose result is only asked for in the end
is still required (`optional_bind`), and a list is accepted member by member
(`collect`).

Keys come last: an object with distinct keys is what it looks like, a map from keys to
its pairs.
-/
import JvmAssembly.Proofs.ObjectKeys
import JvmAssembly.Proofs.ProgramGrammar

namespace JvmAssembly

variable {α β : Type} {depth : Nat}

/-! ### Acceptance -/

/-- A check accepts what a rule allows if it is silent, with a result, exactly where the rule
allows this result. -/
structure Check.Accepts (check : Check α) (depth : Nat) (rule : α → Prop) : Prop where
  orderly : check.Orderly
  iff : ∀ a, check.Silent depth ∧ check.value depth = a ↔ rule a

/-- An attempt accepts what a rule allows if it always has a result where it is silent. -/
def Attempt.Accepts (attempt : Attempt α) (depth : Nat) (rule : α → Prop) : Prop :=
  Check.Accepts attempt.run depth fun result => ∃ a, result = some a ∧ rule a

namespace Check.Accepts

variable {check : Check α} {rule : α → Prop}

/-- A check that accepts by a rule is silent exactly if the rule has a result. -/
theorem silent_iff (h : check.Accepts depth rule) : check.Silent depth ↔ ∃ a, rule a := by
  constructor
  · intro hsilent
    exact ⟨_, (h.iff _).mp ⟨hsilent, rfl⟩⟩
  · rintro ⟨a, ha⟩
    exact ((h.iff a).mpr ha).1

theorem congr {rule' : α → Prop} (h : check.Accepts depth rule) (hrule : ∀ a, rule a ↔ rule' a) :
    check.Accepts depth rule' :=
  ⟨h.orderly, fun a => (h.iff a).trans (hrule a)⟩

theorem lift (h : check.Accepts depth rule) :
    Attempt.Accepts (liftM check : Attempt α) depth rule := by
  refine ⟨h.orderly.lift, fun result => ?_⟩
  unfold Silent
  rw [found_lift h.orderly, value_lift h.orderly]
  constructor
  · rintro ⟨hsilent, rfl⟩
    exact ⟨_, rfl, (h.iff _).mp ⟨hsilent, rfl⟩⟩
  · rintro ⟨a, rfl, ha⟩
    obtain ⟨hsilent, rfl⟩ := (h.iff a).mpr ha
    exact ⟨hsilent, rfl⟩

end Check.Accepts

namespace Attempt.Accepts

open Check

variable {attempt : Attempt α} {next : α → Attempt β} {rule : α → Prop} {ruleNext : α → β → Prop}

theorem congr {rule' : α → Prop} (h : attempt.Accepts depth rule) (hrule : ∀ a, rule a ↔ rule' a) :
    attempt.Accepts depth rule' := by
  obtain rfl : rule = rule' := funext fun a => propext (hrule a)
  exact h

/-- An attempt that accepts by a rule is silent exactly if the rule has a result. -/
theorem silent_iff (h : attempt.Accepts depth rule) : attempt.run.Silent depth ↔ ∃ a, rule a := by
  refine (Check.Accepts.silent_iff h).trans ?_
  constructor
  · rintro ⟨_, a, -, ha⟩
    exact ⟨a, ha⟩
  · rintro ⟨a, ha⟩
    exact ⟨some a, a, rfl, ha⟩

/-- Where an attempt is silent, it has a result, and that is the one of the rule. -/
theorem exists_value (h : attempt.Accepts depth rule) (hsilent : attempt.run.Silent depth) :
    ∃ a, attempt.run.value depth = some a ∧ rule a :=
  (h.iff _).mp ⟨hsilent, rfl⟩

theorem pure (a : α) : (pure a : Attempt α).Accepts depth fun b => b = a := by
  refine ⟨orderly_pure _, fun result => ?_⟩
  constructor
  · rintro ⟨-, rfl⟩
    exact ⟨a, rfl, rfl⟩
  · rintro ⟨b, rfl, rfl⟩
    exact ⟨silent_pure _, rfl⟩

/-- An attempt that always reports an error accepts nothing. -/
theorem nothing (horderly : attempt.run.Orderly) (h : ¬ attempt.run.Silent depth) :
    attempt.Accepts depth fun _ => False := by
  refine ⟨horderly, fun result => ?_⟩
  constructor
  · rintro ⟨hsilent, -⟩
    exact absurd hsilent h
  · rintro ⟨a, -, ha⟩
    exact ha.elim

theorem error (problem : Problem) (location : Location) :
    (do Check.error problem location; failure : Attempt α).Accepts depth fun _ => False :=
  nothing ((orderly_error _ _).lift.bind_attempt fun _ => orderly_pure none) (not_silent_error _ _)

/-- Attempts in a row accept what the rules allow one after the other. -/
theorem bind_of (h : attempt.Accepts depth rule) (horderly : ∀ a, (next a).run.Orderly)
    (hnext : ∀ a, rule a → (next a).Accepts depth (ruleNext a)) :
    (attempt >>= next).Accepts depth fun b => ∃ a, rule a ∧ ruleNext a b := by
  refine ⟨h.orderly.bind_attempt horderly, fun result => ?_⟩
  rw [silent_bind_attempt h.orderly fun a _ => horderly a,
    value_bind_attempt h.orderly fun a _ => horderly a]
  constructor
  · -- silence gives a result of the first part, and with it one of the second
    rintro ⟨⟨hsilent, hsilentNext⟩, rfl⟩
    obtain ⟨a, ha, hrule⟩ := (h.iff _).mp ⟨hsilent, rfl⟩
    obtain ⟨b, hb, hruleNext⟩ := ((hnext a hrule).iff _).mp ⟨hsilentNext a ha, rfl⟩
    refine ⟨b, ?_, a, hrule, hruleNext⟩
    rw [ha, Option.bind_some, hb]
  · rintro ⟨b, rfl, a, hrule, hruleNext⟩
    obtain ⟨hsilent, ha⟩ := (h.iff _).mpr ⟨a, rfl, hrule⟩
    obtain ⟨hsilentNext, hb⟩ := ((hnext a hrule).iff _).mpr ⟨b, rfl, hruleNext⟩
    rw [ha, Option.bind_some, hb]
    refine ⟨⟨hsilent, ?_⟩, rfl⟩
    rintro a' ⟨⟩
    exact hsilentNext

/-- Steps after each other accept what all of them accept, each with the result before it. -/
theorem bind (h : attempt.Accepts depth rule)
    (hnext : ∀ a, (next a).Accepts depth (ruleNext a)) :
    (attempt >>= next).Accepts depth fun b => ∃ a, rule a ∧ ruleNext a b :=
  h.bind_of (fun a => (hnext a).orderly) fun a _ => hnext a

/-- Behind an attempt whose result is only asked for in the end, others follow in any case. -/
theorem optional_bind_of {next : Option α → Attempt β} (h : attempt.Accepts depth rule)
    (horderly : ∀ result, (next result).run.Orderly)
    (hnext : ∀ a, rule a → (next (some a)).Accepts depth (ruleNext a)) :
    (Attempt.optional attempt >>= next).Accepts depth fun b => ∃ a, rule a ∧ ruleNext a b := by
  have hoptional : (Attempt.optional attempt).Accepts depth
      fun result => ∃ a, result = some a ∧ rule a := Check.Accepts.lift h
  have hsome : ∀ result, (∃ a, result = some a ∧ rule a) →
      (next result).Accepts depth fun b => ∃ a, result = some a ∧ ruleNext a b := by
    rintro _ ⟨a, rfl, ha⟩
    exact (hnext a ha).congr fun b => by simp
  refine (hoptional.bind_of horderly hsome).congr fun b => ?_
  constructor
  · rintro ⟨_, ⟨a, rfl, ha⟩, _, ⟨⟩, hb⟩
    exact ⟨a, ha, hb⟩
  · rintro ⟨a, ha, hb⟩
    exact ⟨some a, ⟨a, rfl, ha⟩, a, rfl, hb⟩

theorem optional_bind {next : Option α → Attempt β} (h : attempt.Accepts depth rule)
    (horderly : ∀ result, (next result).run.Orderly)
    (hnext : ∀ a, (next (some a)).Accepts depth (ruleNext a)) :
    (Attempt.optional attempt >>= next).Accepts depth fun b => ∃ a, rule a ∧ ruleNext a b :=
  h.optional_bind_of horderly fun a _ => hnext a

/-- What is made of a result is accepted with the result. -/
theorem map (h : attempt.Accepts depth rule) (f : α → β) :
    Attempt.Accepts (OptionT.mk do return (← attempt.run).map f) depth
      fun b => ∃ a, rule a ∧ b = f a := by
  refine ⟨h.orderly.map _, fun result => ?_⟩
  show ((attempt.run >>= fun a => Pure.pure (a.map f) : Check (Option β)).Silent depth
    ∧ (attempt.run >>= fun a => Pure.pure (a.map f) : Check (Option β)).value depth = result) ↔ _
  rw [silent_map h.orderly, value_map h.orderly]
  constructor
  · rintro ⟨hsilent, rfl⟩
    obtain ⟨a, ha, hrule⟩ := h.exists_value hsilent
    exact ⟨f a, by rw [ha, Option.map_some], a, hrule, rfl⟩
  · rintro ⟨_, rfl, a, hrule, rfl⟩
    obtain ⟨hsilent, ha⟩ := (h.iff _).mpr ⟨a, rfl, hrule⟩
    exact ⟨hsilent, by rw [ha, Option.map_some]⟩

/-- What is accepted is there, so that no default is needed. -/
theorem getD (h : attempt.Accepts depth rule) (default : α) :
    (attempt.run >>= fun result => Pure.pure (result.getD default) : Check α).Accepts depth
      rule := by
  refine ⟨h.orderly.map _, fun a => ?_⟩
  rw [silent_map h.orderly, value_map h.orderly]
  constructor
  · rintro ⟨hsilent, rfl⟩
    obtain ⟨a, ha, hrule⟩ := (h.iff _).mp ⟨hsilent, rfl⟩
    rw [ha]
    exact hrule
  · intro hrule
    obtain ⟨hsilent, ha⟩ := (h.iff _).mpr ⟨a, rfl, hrule⟩
    rw [ha]
    exact ⟨hsilent, rfl⟩

/-- Attempts on the members of a list accept what the rule allows member by member. -/
theorem collect {attempt : α → Attempt β} {rule : α → β → Prop}
    (h : ∀ a, (attempt a).Accepts depth (rule a)) (as : List α) :
    (Check.collect attempt as).Accepts depth (List.Forall₂ rule as) := by
  have horderly : ∀ as, (Check.collect attempt as).Orderly := fun _ =>
    orderly_collect fun a => (h a).orderly
  refine ⟨horderly as, fun bs => ?_⟩
  induction as generalizing bs with
  | nil =>
    rw [List.forall₂_nil_left_iff]
    exact ⟨fun h => h.2.symm, fun h => ⟨silent_pure _, h.symm⟩⟩
  | cons a as ih =>
    unfold Check.collect
    rw [silent_bind (h a).orderly ((horderly as).map _), silent_map (horderly as),
      value_bind (h a).orderly ((horderly as).map _), value_map (horderly as)]
    constructor
    · rintro ⟨⟨hsilent, hrest⟩, rfl⟩
      obtain ⟨b, hb, hrule⟩ := ((h a).iff _).mp ⟨hsilent, rfl⟩
      rw [hb]
      exact .cons hrule ((ih _).mp ⟨hrest, rfl⟩)
    · rintro (_ | @⟨_, b, _, bs, hrule, hrest⟩)
      obtain ⟨hsilent, hb⟩ := ((h a).iff _).mpr ⟨b, rfl, hrule⟩
      obtain ⟨hsilentRest, rfl⟩ := (ih bs).mpr hrest
      rw [hb]
      exact ⟨⟨hsilent, hsilentRest⟩, rfl⟩

end Attempt.Accepts

namespace Expect

open Check

/-- A slot is accepted exactly if it is not a hole. -/
theorem accepts_present (expected : String) (slot : Option Element) (location : Location) :
    (present expected slot location).Accepts depth fun element => slot = some element := by
  cases slot with
  | none => exact (Attempt.Accepts.error _ _).congr fun _ => ⟨False.elim, fun h => nomatch h⟩
  | some element =>
    refine (Attempt.Accepts.pure element).congr fun _ => ?_
    rw [Option.some.injEq, eq_comm]

/-- An element is accepted exactly if it has the view that was asked for. -/
theorem accepts_viewed (view : Element → Option α) (expected : String) (element : Element) :
    (viewed view expected element).Accepts depth fun a => view element = some a := by
  refine ⟨orderly_viewed expected element, fun result => ?_⟩
  rw [silent_viewed, value_viewed]
  constructor
  · rintro ⟨⟨a, ha⟩, rfl⟩
    exact ⟨a, ha, ha⟩
  · rintro ⟨a, rfl, ha⟩
    exact ⟨⟨a, ha⟩, ha⟩

theorem accepts_viewedSlot (view : Element → Option α) (expected : String) (slot : Option Element)
    (location : Location) :
    (viewedSlot view expected slot location).Accepts depth fun a => slot.bind view = some a := by
  refine ((accepts_present expected slot location).bind fun element =>
    accepts_viewed view expected element).congr fun a => ?_
  rw [Option.bind_eq_some_iff]

end Expect

namespace Resolve

open Check

/-! ### Keys -/

/-- No key is reported as repeated exactly if there is none. -/
theorem silent_distinctKeys (context : String) (object : Object Element) :
    (Expect.distinctKeys context object).Silent depth ↔ DistinctKeys object := by
  have hduplicates : object.duplicates = [] ↔ DistinctKeys object := by
    rw [object.duplicates_eq, repeatsBy_eq_nil_iff]
    rfl
  rw [← hduplicates]
  unfold Expect.distinctKeys
  rw [silent_forM fun _ => orderly_error _ _]
  constructor
  · intro h
    exact List.eq_nil_iff_forall_not_mem.mpr fun entry hentry =>
      not_silent_error _ _ (h entry hentry)
  · intro h entry hentry
    rw [h] at hentry
    cases hentry

/-- With distinct keys, every pair is the entry for its key. -/
theorem entries_of_distinctKeys {object : Object Element} (h : DistinctKeys object) :
    object.entries = object.pairs := by
  rw [object.entries_eq]
  exact firstsBy_of_nodup h

/-- In a list with distinct keys, each member is found by its key. -/
theorem find?_eq_some_of_nodup {α : Type} {key : α → String} {as : List α}
    (h : (as.map key).Nodup) {a : α} (ha : a ∈ as) :
    (as.find? fun other => key other == key a) = some a := by
  induction as with
  | nil => cases ha
  | cons first as ih =>
    rw [List.map_cons, List.nodup_cons] at h
    rcases List.mem_cons.mp ha with rfl | hmem
    · simp
    · -- an earlier member with this key would repeat it
      have hne : key first ≠ key a := fun heq => h.1 (List.mem_map.mpr ⟨a, hmem, heq.symm⟩)
      rw [List.find?_cons_of_neg (by simpa using hne)]
      exact ih h.2 hmem

/-- With distinct keys, a key is found exactly at its pair. -/
theorem get?_eq_some_iff {object : Object Element} (h : DistinctKeys object) {key : String}
    {pair : Entry Element} :
    object.get? key = some pair ↔ pair ∈ object.pairs ∧ pair.key.text = key := by
  constructor
  · intro hget
    exact ⟨List.mem_of_find?_eq_some hget, by simpa using List.find?_some hget⟩
  · rintro ⟨hmem, rfl⟩
    exact find?_eq_some_of_nodup h hmem

/-- With distinct keys, the entry that is found for a key is the only pair with it. -/
theorem eq_of_get?_eq_some {object : Object Element} (h : DistinctKeys object) {key : String}
    {pair other : Entry Element} (hget : object.get? key = some pair) (hmem : other ∈ object.pairs)
    (hkey : other.key.text = key) : other = pair := by
  rw [(get?_eq_some_iff h).mpr ⟨hmem, hkey⟩] at hget
  exact Option.some.inj hget

theorem get?_eq_none_iff {object : Object Element} {key : String} :
    object.get? key = none ↔ ∀ pair ∈ object.pairs, pair.key.text ≠ key := by
  unfold Object.get?
  rw [List.find?_eq_none]
  simp

/-- No key is reported as missing or as too many exactly if there are as many keys as names and
every name is one of them. -/
theorem silent_keys (context : String) (object : Object Element) (names : List String) :
    (Expect.keys context object names).Silent depth
      ↔ object.size = names.length ∧ ∀ key ∈ names, object.contains key := by
  unfold Expect.keys
  split
  · next h => exact iff_of_true (silent_pure _) h
  · next h =>
    rw [silent_map (orderly_error _ _)]
    exact iff_of_false (not_silent_error _ _) h

theorem accepts_distinctKeys (context : String) (object : Object Element) :
    (Expect.distinctKeys context object).Accepts depth fun _ => DistinctKeys object :=
  ⟨Expect.orderly_distinctKeys context object, fun _ =>
    (and_iff_left rfl).trans (silent_distinctKeys context object)⟩

/-! ### Identifiers -/

theorem bind_identifier?_eq_some_iff {slot : Option Element} {token : Token} :
    slot.bind Element.identifier? = some token ↔ slot = some (.identifier token) := by
  constructor
  · intro h
    obtain ⟨element, rfl, helement⟩ := Option.bind_eq_some_iff.mp h
    cases element <;> cases helement
    rfl
  · rintro rfl
    rfl

theorem accepts_identifierSlot (expected : String) (slot : Option Element) (location : Location) :
    (Check.identifierSlot expected slot location).Accepts depth
      fun token => slot.bind Element.identifier? = some token := by
  rw [identifierSlot_eq]
  exact Expect.accepts_viewedSlot _ expected slot location

theorem silent_onlyIf_error (condition : Bool) (problem : Problem) (location : Location) :
    (Check.onlyIf condition (Check.error problem location)).Silent depth ↔ ¬ condition := by
  unfold Silent
  rw [found_onlyIf]
  cases condition <;> simp

end Resolve

end JvmAssembly
