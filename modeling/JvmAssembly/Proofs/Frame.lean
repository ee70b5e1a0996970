/-
JvmAssembly/Proofs/Frame.lean

The frame law of checks.

A check runs in a session, but it should not matter which: what it gives and what
it reports depend on the nesting depth alone.  We write

    check.value depth,   check.found depth

for the result and the report of a run at a depth with nothing reported before.
`Orderly check` is the frame law: in every session, `check` gives that result,
appends that report, and comes back to the depth where it started; and none of its
steps leaves the levels between that depth and the bound.

Orderly checks compose, and then results and reports compose too (`value_bind`,
`found_bind`): the report of a sequence is the report of its first part followed by
the report of the second, run on the result of the first.  So a proof about a check
never has to look at a session again.  No bound on the depth is needed for that: at
the bound `nested` reports and changes nothing else.

Most checks report errors only.  An orderly check that never warns is `Strict`, and
strict checks compose as orderly ones do.
-/
import JvmAssembly.Expect
import JvmAssembly.Proofs.Steps

namespace JvmAssembly

variable {α β : Type}

/-! ### Reports in a row -/

namespace Report

@[simp] theorem empty_append (r : Report) : {} ++ r = r := rfl

@[simp] theorem append_empty (r : Report) : r ++ {} = r := by
  obtain ⟨errors, warnings⟩ := r
  show (⟨errors ++ [], warnings ++ []⟩ : Report) = _
  rw [List.append_nil, List.append_nil]

theorem append_assoc (r₁ r₂ r₃ : Report) : r₁ ++ r₂ ++ r₃ = r₁ ++ (r₂ ++ r₃) := by
  show (⟨_ ++ _ ++ _, _ ++ _ ++ _⟩ : Report) = ⟨_ ++ (_ ++ _), _ ++ (_ ++ _)⟩
  rw [List.append_assoc, List.append_assoc]

/-- The report of one error. -/
def ofError (problem : Problem) (location : Location) : Report :=
  ⟨[⟨problem, location⟩], []⟩

/-- The report of one warning. -/
def ofWarning (message : String) (location : Location) : Report :=
  ⟨[], [⟨message, location⟩]⟩

@[simp] theorem errors_ofError (problem : Problem) (location : Location) :
    (ofError problem location).errors = [⟨problem, location⟩] := rfl

@[simp] theorem warnings_ofError (problem : Problem) (location : Location) :
    (ofError problem location).warnings = [] := rfl

@[simp] theorem errors_ofWarning (message : String) (location : Location) :
    (ofWarning message location).errors = [] := rfl

@[simp] theorem warnings_ofWarning (message : String) (location : Location) :
    (ofWarning message location).warnings = [⟨message, location⟩] := rfl

end Report

namespace Check

/-! ### Results and reports by depth -/

/-- What a check gives at a depth. -/
def value (check : Check α) (depth : Nat) : α :=
  (check.run { depth }).1

/-- What a check reports at a depth. -/
def found (check : Check α) (depth : Nat) : Report :=
  (check.run { depth }).2.report

/-- A check whose result and report depend on the depth alone, which appends its report to
what is there, and which ends at the depth where it started without having left the levels
from there to the bound. -/
structure Orderly (check : Check α) : Prop where
  run_eq : ∀ session : Session, check.run session
    = (check.value session.depth, ⟨session.report ++ check.found session.depth, session.depth⟩)
  within : ∀ session : Session, session.depth ≤ maxNesting →
    ∀ step ∈ check.steps session, step.Within session.depth

/-- A check that reports no error at a depth. -/
def Silent (check : Check α) (depth : Nat) : Prop :=
  (check.found depth).errors = []

variable {check : Check α} {next : α → Check β} {depth : Nat}

/-- A run appends the errors that the check finds at the depth of the session. -/
theorem Orderly.errors_run (h : check.Orderly) (session : Session) :
    (check.run session).2.report.errors
      = session.report.errors ++ (check.found session.depth).errors := by
  rw [h.run_eq session]
  rfl

/-- In any session, nothing is appended to the errors exactly if the check is silent. -/
theorem Orderly.errors_run_eq_iff (h : check.Orderly) (session : Session) :
    (check.run session).2.report.errors = session.report.errors ↔ check.Silent session.depth := by
  rw [h.errors_run, List.append_right_eq_self]
  rfl

/-! ### Sequences -/

/-- Two checks after each other, run on a session: the second starts from the result of the
first, at the same depth, and what they find is appended in this order. -/
theorem Orderly.run_bind_eq (h : check.Orderly) {session : Session}
    (hnext : (next (check.value session.depth)).Orderly) :
    (check >>= next).run session
      = ((next (check.value session.depth)).value session.depth,
        ⟨session.report ++
            (check.found session.depth ++ (next (check.value session.depth)).found session.depth),
          session.depth⟩) := by
  rw [run_bind, h.run_eq session, hnext.run_eq, Report.append_assoc]

/-- The result of a sequence is that of its second part, run on the result of the first. -/
theorem value_bind (h : check.Orderly) (hnext : (next (check.value depth)).Orderly) :
    (check >>= next).value depth = (next (check.value depth)).value depth := by
  unfold value
  rw [h.run_bind_eq hnext]
  rfl

/-- The report of a sequence is that of its first part, followed by that of the second. -/
theorem found_bind (h : check.Orderly) (hnext : (next (check.value depth)).Orderly) :
    (check >>= next).found depth
      = check.found depth ++ (next (check.value depth)).found depth := by
  unfold found
  rw [h.run_bind_eq hnext]
  rfl

/-- Two checks after each other are silent if both of them are. -/
theorem silent_bind (h : check.Orderly) (hnext : (next (check.value depth)).Orderly) :
    (check >>= next).Silent depth
      ↔ check.Silent depth ∧ (next (check.value depth)).Silent depth := by
  unfold Silent
  rw [found_bind h hnext, Report.errors_append, List.append_eq_nil_iff]

/-- If nothing more is reported, a sequence is silent exactly if its first part is. -/
theorem silent_bind_left (h : check.Orderly)
    (hnext : ∀ a, (next a).Orderly ∧ (next a).Silent depth) :
    (check >>= next).Silent depth ↔ check.Silent depth :=
  (silent_bind h (hnext _).1).trans (and_iff_left (hnext _).2)

/-- Checks after each other append what they find and restore the depth if each of them does. -/
theorem Orderly.bind (h : check.Orderly) (hnext : ∀ a, (next a).Orderly) :
    (check >>= next).Orderly where
  run_eq session := by
    rw [h.run_bind_eq (hnext _), value_bind h (hnext _), found_bind h (hnext _)]
  within session hdepth step hstep := by
    rw [steps_bind, List.mem_append, h.run_eq session] at hstep
    rcases hstep with hstep | hstep
    · exact h.within session hdepth step hstep
    · exact (hnext (check.value session.depth)).within
        ⟨session.report ++ check.found session.depth, session.depth⟩ hdepth step hstep

@[simp] theorem orderly_pure (a : α) : (pure a : Check α).Orderly where
  run_eq session := by
    show (a, session) = (a, (⟨session.report ++ {}, session.depth⟩ : Session))
    rw [Report.append_empty]
  within session _ step hstep := by
    rw [steps_pure] at hstep
    cases hstep

@[simp] theorem value_pure (a : α) : (pure a : Check α).value depth = a := rfl

@[simp] theorem found_pure (a : α) : (pure a : Check α).found depth = {} := rfl

@[simp] theorem silent_pure (a : α) : (pure a : Check α).Silent depth := rfl

theorem Orderly.map (h : check.Orderly) (f : α → β) :
    (check >>= fun a => pure (f a)).Orderly :=
  h.bind fun a => orderly_pure (f a)

theorem value_map (h : check.Orderly) (f : α → β) :
    (check >>= fun a => pure (f a)).value depth = f (check.value depth) :=
  value_bind h (orderly_pure _)

theorem found_map (h : check.Orderly) (f : α → β) :
    (check >>= fun a => pure (f a)).found depth = check.found depth := by
  have hbind : (check >>= fun a => pure (f a)).found depth = check.found depth ++ {} :=
    found_bind h (orderly_pure (f (check.value depth)))
  rw [hbind, Report.append_empty]

theorem silent_map (h : check.Orderly) (f : α → β) :
    (check >>= fun a => pure (f a)).Silent depth ↔ check.Silent depth := by
  unfold Silent
  rw [found_map h]

/-! ### Reporting and nesting -/

@[simp] theorem value_error (problem : Problem) (location : Location) :
    (error problem location).value depth = () := rfl

@[simp] theorem found_error (problem : Problem) (location : Location) :
    (error problem location).found depth = .ofError problem location := rfl

/-- A report is a step that leaves the depth as it is. -/
theorem within_of_report {session : Session} {operation : Operation}
    (hdepth : session.depth ≤ maxNesting) (hascend : operation ≠ .ascend)
    (hdescend : operation ≠ .descend) :
    ∀ step ∈ [(⟨operation, session⟩ : Step)], step.Within session.depth := by
  intro step hstep
  rw [List.mem_singleton.mp hstep]
  exact ⟨Nat.le_refl _, hdepth, fun h => absurd h hascend, fun h => absurd h hdescend⟩

@[simp] theorem orderly_error (problem : Problem) (location : Location) :
    (error problem location).Orderly where
  run_eq session := by
    rw [run_error, found_error]
    show ((), (⟨⟨_, session.report.warnings⟩, _⟩ : Session)) = ((), ⟨⟨_, _ ++ []⟩, _⟩)
    rw [List.append_nil]
    rfl
  within session hdepth := by
    rw [steps_error]
    exact within_of_report hdepth Operation.noConfusion Operation.noConfusion

theorem not_silent_error (problem : Problem) (location : Location) :
    ¬ (error problem location).Silent depth :=
  List.cons_ne_nil _ _

@[simp] theorem value_warn (message : String) (location : Location) :
    (warn message location).value depth = () := rfl

@[simp] theorem found_warn (message : String) (location : Location) :
    (warn message location).found depth = .ofWarning message location := rfl

@[simp] theorem orderly_warn (message : String) (location : Location) :
    (warn message location).Orderly where
  run_eq session := by
    rw [run_warn, found_warn]
    show ((), (⟨⟨session.report.errors, _⟩, _⟩ : Session)) = ((), ⟨⟨_ ++ [], _⟩, _⟩)
    rw [List.append_nil]
    rfl
  within session hdepth := by
    rw [steps_warn]
    exact within_of_report hdepth Operation.noConfusion Operation.noConfusion

@[simp] theorem silent_warn (message : String) (location : Location) :
    (warn message location).Silent depth := rfl

@[simp] theorem orderly_missing (expected : String) (location : Location) :
    (missing expected location).Orderly := orderly_error _ _

@[simp] theorem orderly_unexpected (expected : String) (element : Element) :
    (unexpected expected element).Orderly := orderly_error _ _

/-- A conditional check finds something only if its condition holds. -/
theorem found_onlyIf (condition : Bool) (check : Check Unit) :
    (onlyIf condition check).found depth = if condition then check.found depth else {} := by
  unfold onlyIf
  split <;> rfl

theorem Orderly.onlyIf {check : Check Unit} (condition : Bool) (h : check.Orderly) :
    (onlyIf condition check).Orderly := by
  unfold Check.onlyIf
  split
  · exact h
  · exact orderly_pure ()

/-- What is reported when there is no nesting level left. -/
def tooDeep (operand : String) (location : Location) : Report :=
  .ofError (.malformedOperand operand s!"nested deeper than {maxNesting} levels") location

/-- Below the last level there is no result. -/
theorem value_nested (operand : String) (location : Location) (check : Check α) :
    (nested operand location check).value depth
      = if maxNesting ≤ depth then none else some (check.value (depth + 1)) := by
  unfold value
  split
  · next h => rw [run_nested_of_le h]
  · next h => rw [run_nested_of_lt (Nat.not_le.mp h)]

/-- At the last level one error is reported in place of what is found below it. -/
theorem found_nested (operand : String) (location : Location) (check : Check α) :
    (nested operand location check).found depth
      = if maxNesting ≤ depth then tooDeep operand location else check.found (depth + 1) := by
  unfold found
  split
  · next h =>
    rw [run_nested_of_le h]
    rfl
  · next h => rw [run_nested_of_lt (Nat.not_le.mp h)]

/-- Entering and leaving cancel if the check between them ends where it started. -/
theorem Orderly.nested (operand : String) (location : Location) (h : check.Orderly) :
    (nested operand location check).Orderly where
  run_eq session := by
    rw [value_nested, found_nested]
    split
    · next hle =>
      -- at the bound, the only step is to report
      rw [run_nested_of_le hle]
      exact congrArg (Prod.mk none) (congrArg Prod.snd ((orderly_error _ _).run_eq session))
    · next hle =>
      rw [run_nested_of_lt (Nat.not_le.mp hle), h.run_eq]
      rfl
  within session hdepth step hstep := by
    rcases Nat.lt_or_ge session.depth maxNesting with hlt | hle
    · -- down by one, then the steps of the check, which ends one level down, then up by one
      rw [steps_nested_of_lt hlt, h.run_eq, List.mem_cons, List.mem_append,
        List.mem_singleton] at hstep
      rcases hstep with rfl | hstep | rfl
      · exact ⟨Nat.le_refl _, hdepth, Operation.noConfusion, fun _ => hlt⟩
      · have hwithin := h.within { session with depth := session.depth + 1 } hlt step hstep
        exact hwithin.mono (Nat.le_succ _)
      · exact ⟨Nat.le_succ _, hlt, fun _ => Nat.lt_succ_self _, Operation.noConfusion⟩
    · rw [steps_nested_of_le hle] at hstep
      exact (orderly_error _ _).within session hdepth step hstep

/-! ### Attempts -/

variable {attempt : Attempt α} {following : α → Attempt β}

/-- After an attempt without a result nothing else is done. -/
theorem run_bind_attempt :
    (attempt >>= following).run
      = attempt.run >>= fun result => result.elim (pure none) fun a => (following a).run :=
  OptionT.run_bind following

@[simp] theorem run_lift_check (check : Check α) :
    (liftM check : Attempt α).run = check >>= fun a => pure (some a) := rfl

theorem Orderly.elim {result : Option α} (h : ∀ a, result = some a → (following a).run.Orderly) :
    (result.elim (pure none) fun a => (following a).run).Orderly := by
  cases result with
  | none => exact orderly_pure none
  | some a => exact h a rfl

/-- Attempts after each other append what they find and restore the depth if each of them does. -/
theorem Orderly.bind_attempt (h : attempt.run.Orderly)
    (hnext : ∀ a, (following a).run.Orderly) : (attempt >>= following).run.Orderly := by
  rw [run_bind_attempt]
  exact h.bind fun result => Orderly.elim fun a _ => hnext a

theorem Orderly.lift (h : check.Orderly) : (liftM check : Attempt α).run.Orderly := by
  rw [run_lift_check]
  exact h.map some

/-- Attempts after each other have a result if all of them have one. -/
theorem value_bind_attempt (h : attempt.run.Orderly)
    (hnext : ∀ a, attempt.run.value depth = some a → (following a).run.Orderly) :
    (attempt >>= following).run.value depth
      = (attempt.run.value depth).bind fun a => (following a).run.value depth := by
  rw [run_bind_attempt, value_bind h (Orderly.elim hnext)]
  cases attempt.run.value depth <;> rfl

/-- What attempts after each other find ends with the first of them that has no result. -/
theorem found_bind_attempt (h : attempt.run.Orderly)
    (hnext : ∀ a, attempt.run.value depth = some a → (following a).run.Orderly) :
    (attempt >>= following).run.found depth
      = attempt.run.found depth
        ++ (attempt.run.value depth).elim {} fun a => (following a).run.found depth := by
  rw [run_bind_attempt, found_bind h (Orderly.elim hnext)]
  cases attempt.run.value depth <;> rfl

/-- Attempts after each other are silent if each that is reached is silent. -/
theorem silent_bind_attempt (h : attempt.run.Orderly)
    (hnext : ∀ a, attempt.run.value depth = some a → (following a).run.Orderly) :
    (attempt >>= following).run.Silent depth
      ↔ attempt.run.Silent depth
        ∧ ∀ a, attempt.run.value depth = some a → (following a).run.Silent depth := by
  unfold Silent
  rw [found_bind_attempt h hnext, Report.errors_append, List.append_eq_nil_iff]
  cases attempt.run.value depth with
  | none => simp
  | some a => simp

theorem value_lift (h : check.Orderly) :
    (liftM check : Attempt α).run.value depth = some (check.value depth) :=
  value_map h some

theorem found_lift (h : check.Orderly) :
    (liftM check : Attempt α).run.found depth = check.found depth :=
  found_map h some

/-- Behind a check that always gives a result, an attempt goes on with it. -/
theorem value_lift_bind (h : check.Orderly)
    (hnext : (following (check.value depth)).run.Orderly) :
    (liftM check >>= following).run.value depth
      = (following (check.value depth)).run.value depth := by
  rw [value_bind_attempt h.lift, value_lift h, Option.bind_some]
  rw [value_lift h]
  rintro a ⟨⟩
  exact hnext

theorem found_lift_bind (h : check.Orderly)
    (hnext : (following (check.value depth)).run.Orderly) :
    (liftM check >>= following).run.found depth
      = check.found depth ++ (following (check.value depth)).run.found depth := by
  rw [found_bind_attempt h.lift, value_lift h, Option.elim_some, found_lift h]
  rw [value_lift h]
  rintro a ⟨⟩
  exact hnext

theorem silent_lift_bind (h : check.Orderly)
    (hnext : (following (check.value depth)).run.Orderly) :
    (liftM check >>= following).run.Silent depth
      ↔ check.Silent depth ∧ (following (check.value depth)).run.Silent depth := by
  unfold Silent
  rw [found_lift_bind h hnext, Report.errors_append, List.append_eq_nil_iff]

theorem Orderly.optional (h : attempt.run.Orderly) : (Attempt.optional attempt).run.Orderly :=
  h.lift

/-! ### Lists -/

variable {as : List α} {f : α → Check Unit}

theorem Orderly.forM (h : ∀ a, (f a).Orderly) : (as.forM f).Orderly := by
  induction as with
  | nil => exact orderly_pure ()
  | cons a as ih => exact (h a).bind fun _ => ih

theorem Orderly.forM_option {a : Option α} (h : ∀ a, (f a).Orderly) : (a.forM f).Orderly := by
  cases a with
  | none => exact orderly_pure ()
  | some a => exact h a

/-- A loop finds what its rounds find, one after the other. -/
theorem errors_found_forM (h : ∀ a, (f a).Orderly) :
    ((as.forM f).found depth).errors = as.flatMap fun a => ((f a).found depth).errors := by
  induction as with
  | nil => rfl
  | cons a as ih =>
    have hcons : ((a :: as).forM f).found depth = (f a).found depth ++ (as.forM f).found depth :=
      found_bind (h a) (Orderly.forM h)
    rw [hcons, Report.errors_append, ih, List.flatMap_cons]

/-- A loop is silent exactly if all its rounds are. -/
theorem silent_forM (h : ∀ a, (f a).Orderly) :
    (as.forM f).Silent depth ↔ ∀ a ∈ as, (f a).Silent depth := by
  unfold Silent
  rw [errors_found_forM h, List.flatMap_eq_nil_iff]

theorem orderly_collect {attempt : α → Attempt β} (h : ∀ a, (attempt a).run.Orderly) :
    (collect attempt as).Orderly := by
  induction as with
  | nil => exact orderly_pure []
  | cons a as ih => exact (h a).bind fun _ => ih.map _

/-! ### Strict checks -/

/-- An orderly check that warns of nothing. -/
structure Strict (check : Check α) : Prop where
  orderly : check.Orderly
  noWarnings : ∀ depth, (check.found depth).warnings = []

theorem strict_pure (a : α) : (pure a : Check α).Strict :=
  ⟨orderly_pure a, fun _ => rfl⟩

theorem strict_error (problem : Problem) (location : Location) : (error problem location).Strict :=
  ⟨orderly_error problem location, fun _ => rfl⟩

/-- Checks after each other find no warnings if none of them does. -/
theorem Strict.bind (h : check.Strict) (hnext : ∀ a, (next a).Strict) :
    (check >>= next).Strict := by
  refine ⟨h.orderly.bind fun a => (hnext a).orderly, fun depth => ?_⟩
  rw [found_bind h.orderly (hnext _).orderly, Report.warnings_append, h.noWarnings,
    (hnext _).noWarnings]
  rfl

theorem Strict.map (h : check.Strict) (f : α → β) : (check >>= fun a => pure (f a)).Strict :=
  h.bind fun a => strict_pure (f a)

theorem Strict.nested (operand : String) (location : Location) (h : check.Strict) :
    (nested operand location check).Strict := by
  refine ⟨h.orderly.nested operand location, fun depth => ?_⟩
  rw [found_nested]
  split
  · rfl
  · exact h.noWarnings (depth + 1)

theorem Strict.lift (h : check.Strict) : (liftM check : Attempt α).run.Strict :=
  h.map some

theorem Strict.bind_attempt (h : attempt.run.Strict) (hnext : ∀ a, (following a).run.Strict) :
    (attempt >>= following).run.Strict := by
  rw [run_bind_attempt]
  refine h.bind fun result => ?_
  cases result with
  | none => exact strict_pure none
  | some a => exact hnext a

theorem Strict.optional (h : attempt.run.Strict) : (Attempt.optional attempt).run.Strict :=
  h.map some

theorem Strict.onlyIf {check : Check Unit} (condition : Bool) (h : check.Strict) :
    (onlyIf condition check).Strict := by
  unfold Check.onlyIf
  split
  · exact h
  · exact strict_pure ()

theorem Strict.forM (h : ∀ a, (f a).Strict) : (as.forM f).Strict := by
  induction as with
  | nil => exact strict_pure ()
  | cons a as ih => exact (h a).bind fun _ => ih

theorem Strict.forM_option {a : Option α} (h : ∀ a, (f a).Strict) : (a.forM f).Strict := by
  cases a with
  | none => exact strict_pure ()
  | some a => exact h a

/-- Attempts that are collected find no warnings if none of them does. -/
theorem strict_collect {attempt : α → Attempt β} (h : ∀ a, (attempt a).run.Strict) :
    (collect attempt as).Strict := by
  induction as with
  | nil => exact strict_pure []
  | cons a as ih => exact (h a).bind fun _ => ih.map _

end Check

/-! ### Views of elements -/

namespace Element

/-- The token of an identifier. -/
def identifier? : Element → Option Token
  | identifier token => some token
  | _ => none

/-- The token of a name: an identifier, or a number that serves as one. -/
def name? : Element → Option Token
  | identifier token => some token
  | number token => some token.toIdentifier
  | _ => none

/-- The token of a number. -/
def number? : Element → Option Token
  | number token => some token
  | _ => none

/-- The token of a string. -/
def string? : Element → Option Token
  | string token => some token
  | _ => none

/-- The slots of an array.  Empty braces are the empty array. -/
def array? : Element → Option (Group Element)
  | array group => some group
  | empty location => some ⟨[], location⟩
  | _ => none

/-- The entries of an object.  Empty braces are the empty object. -/
def object? : Element → Option (Object Element)
  | object o => some o
  | empty location => some ⟨[], location⟩
  | _ => none

/-- The slots of code.  Empty braces are empty code. -/
def code? : Element → Option (Group Element)
  | code group => some group
  | empty location => some ⟨[], location⟩
  | _ => none

/-- A declaration. -/
def declaration? : Element → Option (Declaration Element)
  | declaration d => some d
  | _ => none

end Element

namespace Expect

open Check

variable {view : Element → Option α} {depth : Nat}

/-! ### Expectations -/

@[simp] theorem orderly_refuse (expected : String) (element : Element) :
    (refuse expected element : Attempt α).run.Orderly :=
  (orderly_unexpected expected element).lift.bind_attempt fun _ => orderly_pure none

@[simp] theorem value_refuse (expected : String) (element : Element) :
    (refuse expected element : Attempt α).run.value depth = none := rfl

@[simp] theorem found_refuse (expected : String) (element : Element) :
    (refuse expected element : Attempt α).run.found depth
      = .ofError (.unexpectedElement expected element.kind) element.location := rfl

@[simp] theorem orderly_present (expected : String) (slot : Option Element)
    (location : Location) : (present expected slot location).run.Orderly := by
  cases slot with
  | none => exact (orderly_missing expected location).lift.bind_attempt fun _ => orderly_pure none
  | some element => exact orderly_pure (some element)

@[simp] theorem value_present (expected : String) (slot : Option Element) (location : Location) :
    (present expected slot location).run.value depth = slot := by
  cases slot <;> rfl

/-- Expects an element that a view can see.  All expectations of one element are of this
form, for the view of what they expect. -/
def viewed (view : Element → Option α) (expected : String) (element : Element) : Attempt α :=
  match view element with
  | some a => return a
  | none => refuse expected element

@[simp] theorem orderly_viewed (expected : String) (element : Element) :
    (viewed view expected element).run.Orderly := by
  unfold viewed
  split
  · exact orderly_pure _
  · exact orderly_refuse expected element

@[simp] theorem value_viewed (expected : String) (element : Element) :
    (viewed view expected element).run.value depth = view element := by
  unfold viewed
  split
  · next h => rw [h]; rfl
  · next h => rw [h]; rfl

/-- An expectation is silent exactly if the element has the view that is expected. -/
theorem silent_viewed (expected : String) (element : Element) :
    (viewed view expected element).run.Silent depth ↔ ∃ a, view element = some a := by
  unfold viewed
  split
  · next a h => exact ⟨fun _ => ⟨a, h⟩, fun _ => silent_pure (some a)⟩
  · next h =>
    refine ⟨fun hsilent => absurd hsilent (not_silent_error _ _), ?_⟩
    rintro ⟨a, ha⟩
    rw [h] at ha
    cases ha

/-- Expects a slot to hold an element that a view can see. -/
def viewedSlot (view : Element → Option α) (expected : String) (slot : Option Element)
    (location : Location) : Attempt α := do
  viewed view expected (← present expected slot location)

@[simp] theorem orderly_viewedSlot (expected : String) (slot : Option Element)
    (location : Location) : (viewedSlot view expected slot location).run.Orderly :=
  (orderly_present expected slot location).bind_attempt fun _ => orderly_viewed expected _

@[simp] theorem value_viewedSlot (expected : String) (slot : Option Element)
    (location : Location) :
    (viewedSlot view expected slot location).run.value depth = slot.bind view := by
  unfold viewedSlot
  rw [value_bind_attempt (orderly_present _ _ _) fun _ _ => orderly_viewed expected _,
    value_present]
  simp

/-- An expectation of a slot is silent exactly if it holds an element with the view that is
expected. -/
theorem silent_viewedSlot (expected : String) (slot : Option Element) (location : Location) :
    (viewedSlot view expected slot location).run.Silent depth
      ↔ ∃ a, slot.bind view = some a := by
  cases slot with
  | none => exact ⟨fun h => absurd h (not_silent_error _ _), fun ⟨a, ha⟩ => nomatch ha⟩
  | some element => exact silent_viewed expected element

/-- The error about a slot of something at `location` that has to hold an element that a view
can see.  There is at most one: about the hole, or about the element in its place. -/
def slotFault (view : Element → Option α) (expected : String) (location : Location) :
    Option Element → Option Diagnostic
  | none => some ⟨.missingElement expected, location⟩
  | some element =>
    match view element with
    | some _ => none
    | none => some ⟨.unexpectedElement expected element.kind, element.location⟩

/-- A slot has no fault exactly if it holds an element with the view that is expected. -/
theorem slotFault_eq_none_iff {expected : String} {location : Location} {slot : Option Element} :
    slotFault view expected location slot = none ↔ ∃ a, slot.bind view = some a := by
  cases slot with
  | none => simp [slotFault]
  | some element => cases h : view element <;> simp [slotFault, h]

/-- The errors about a slot are its fault, if it has one. -/
theorem errors_viewedSlot (expected : String) (slot : Option Element) (location : Location) :
    ((viewedSlot view expected slot location).run.found depth).errors
      = (slotFault view expected location slot).toList := by
  cases slot with
  | none => rfl
  | some element =>
    show ((viewed view expected element).run.found depth).errors = _
    cases h : view element <;> simp [viewed, slotFault, h]

theorem identifier_eq (expected : String) (element : Element) :
    identifier expected element = viewed Element.identifier? expected element := by
  cases element <;> rfl

theorem name_eq (expected : String) (element : Element) :
    name expected element = viewed Element.name? expected element := by
  cases element <;> rfl

theorem number_eq (expected : String) (element : Element) :
    number expected element = viewed Element.number? expected element := by
  cases element <;> rfl

theorem string_eq (expected : String) (element : Element) :
    string expected element = viewed Element.string? expected element := by
  cases element <;> rfl

theorem array_eq (expected : String) (element : Element) :
    array expected element = viewed Element.array? expected element := by
  cases element <;> rfl

theorem object_eq (expected : String) (element : Element) :
    object expected element = viewed Element.object? expected element := by
  cases element <;> rfl

theorem code_eq (expected : String) (element : Element) :
    code expected element = viewed Element.code? expected element := by
  cases element <;> rfl

theorem declaration_eq (expected : String) (element : Element) :
    declaration expected element = viewed Element.declaration? expected element := by
  cases element <;> rfl

/-! ### Expectations are strict -/

theorem strict_refuse (expected : String) (element : Element) :
    (refuse expected element : Attempt α).run.Strict :=
  ⟨orderly_refuse expected element, fun _ => rfl⟩

theorem strict_present (expected : String) (slot : Option Element) (location : Location) :
    (present expected slot location).run.Strict := by
  refine ⟨orderly_present expected slot location, fun depth => ?_⟩
  cases slot <;> rfl

theorem strict_viewed (view : Element → Option α) (expected : String) (element : Element) :
    (viewed view expected element).run.Strict := by
  unfold viewed
  split
  · exact strict_pure _
  · exact strict_refuse _ _

theorem strict_viewedSlot (view : Element → Option α) (expected : String) (slot : Option Element)
    (location : Location) : (viewedSlot view expected slot location).run.Strict :=
  (strict_present expected slot location).bind_attempt fun _ => strict_viewed view expected _

theorem strict_integer (expected : String) (element : Element) :
    (integer expected element).run.Strict := by
  unfold integer
  rw [number_eq]
  refine (strict_viewed _ expected element).bind_attempt fun token => ?_
  split
  · exact strict_refuse _ _
  · exact strict_pure _

theorem strict_identifiers (expected : String) (element : Element) :
    (identifiers expected element).run.Strict := by
  unfold identifiers
  rw [array_eq]
  refine (strict_viewed _ expected element).bind_attempt fun group => Strict.lift ?_
  refine strict_collect fun slot => (strict_present _ _ _).bind_attempt fun element => ?_
  rw [identifier_eq]
  exact strict_viewed _ _ _

theorem orderly_identifiers (expected : String) (element : Element) :
    (identifiers expected element).run.Orderly :=
  (strict_identifiers expected element).orderly

theorem strict_keys (context : String) (object : Object Element) (names : List String) :
    (keys context object names).Strict := by
  unfold keys
  split
  · exact strict_pure _
  · exact (strict_error _ _).map _

theorem orderly_keys (context : String) (object : Object Element) (names : List String) :
    (keys context object names).Orderly :=
  (strict_keys context object names).orderly

theorem strict_distinctKeys (context : String) (object : Object Element) :
    (distinctKeys context object).Strict :=
  Strict.forM fun _ => strict_error _ _

theorem orderly_distinctKeys (context : String) (object : Object Element) :
    (distinctKeys context object).Orderly :=
  (strict_distinctKeys context object).orderly

end Expect

end JvmAssembly
