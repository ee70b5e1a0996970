/-
JvmAssembly/Proofs/Reported.lean

A good result, or an error.

A check never takes back an error (`exists_errors_run`), so an error that one part of a
check reports is still there in the end, whatever the other parts do.

`ReportsUnless good` says of a check that in every session its result is good, or else it
appends an error.  Along a sequence one may therefore suppose that all went well so far
(`ReportsUnless.bind`).  This is how the resolvers of declarations work: they look at
every part, and stop for want of one only after they have looked at the others.

What accepts a rule at every depth reports unless its result is as the rule says
(`reportsUnless_of_accepts`).
-/
import JvmAssembly.Proofs.Acceptance

namespace JvmAssembly

variable {α β : Type}

/-- All errors of an earlier session are there in a later one, and at least one more behind
them. -/
def Session.GainsError (before after : Session) : Prop :=
  ∃ error errors, after.report.errors = before.report.errors ++ error :: errors

namespace Check

/-- Errors are only appended. -/
theorem exists_errors_run (check : Check α) (session : Session) :
    ∃ errors, (check.run session).2.report.errors = session.report.errors ++ errors := by
  induction check generalizing session with
  | done result => exact ⟨[], (List.append_nil _).symm⟩
  | askDepth next ih => exact ih session.depth session
  | act operation next ih =>
    obtain ⟨errors, herrors⟩ := ih (operation.apply session)
    cases operation with
    | error problem location =>
      refine ⟨⟨problem, location⟩ :: errors, herrors.trans ?_⟩
      exact List.append_assoc _ [_] errors
    | warn | descend | ascend => exact ⟨errors, herrors⟩

/-- An error that is reported before a check is there after it. -/
theorem gainsError_run {before session : Session} (h : before.GainsError session)
    (check : Check α) : before.GainsError (check.run session).2 := by
  obtain ⟨error, errors, hsession⟩ := h
  obtain ⟨more, hmore⟩ := check.exists_errors_run session
  refine ⟨error, errors ++ more, ?_⟩
  rw [hmore, hsession, List.append_assoc, List.cons_append]

/-- An error that a check adds to an extended session is one for the session before, too. -/
theorem gainsError_of_run {before after : Session} {check : Check α}
    (h : (check.run before).2.GainsError after) : before.GainsError after := by
  obtain ⟨errors, herrors⟩ := check.exists_errors_run before
  obtain ⟨error, more, hmore⟩ := h
  have hafter : after.report.errors = before.report.errors ++ (errors ++ error :: more) := by
    rw [hmore, herrors, List.append_assoc]
  cases errors with
  | nil => exact ⟨error, more, hafter⟩
  | cons first errors => exact ⟨first, errors ++ error :: more, hafter⟩

/-- A check whose result is good in every session, unless it appends an error. -/
def ReportsUnless (check : Check α) (good : α → Prop) : Prop :=
  ∀ session, good (check.run session).1 ∨ session.GainsError (check.run session).2

variable {check : Check α} {next : α → Check β} {good : α → Prop} {goodNext : β → Prop}

/-- A weaker promise is kept too. -/
theorem ReportsUnless.mono {good' : α → Prop} (h : check.ReportsUnless good)
    (hgood : ∀ a, good a → good' a) : check.ReportsUnless good' :=
  fun session => (h session).imp_left (hgood _)

/-- Behind a check, one may suppose that its result is good. -/
theorem ReportsUnless.bind (h : check.ReportsUnless good)
    (hnext : ∀ a, good a → (next a).ReportsUnless goodNext) :
    (check >>= next).ReportsUnless goodNext := by
  intro session
  rw [run_bind]
  rcases h session with hgood | herror
  · exact (hnext _ hgood _).imp_right gainsError_of_run
  · exact .inr (gainsError_run herror _)

theorem reportsUnless_pure {a : α} (h : good a) : (pure a : Check α).ReportsUnless good :=
  fun _ => .inl h

theorem reportsUnless_error (problem : Problem) (location : Location) (good : Unit → Prop) :
    (error problem location).ReportsUnless good :=
  fun _ => .inr ⟨_, [], rfl⟩

theorem reportsUnless_true (check : Check α) : check.ReportsUnless fun _ => True :=
  fun _ => .inl trivial

/-- Nothing more has to be shown behind an error. -/
theorem reportsUnless_error_bind (problem : Problem) (location : Location)
    (next : Unit → Check β) : (error problem location >>= next).ReportsUnless goodNext :=
  (reportsUnless_error problem location fun _ => False).bind fun _ => False.elim

/-- The errors at each depth decide for all sessions. -/
theorem Orderly.reportsUnless (h : check.Orderly)
    (hgood : ∀ depth, ¬ good (check.value depth) → (check.found depth).errors ≠ []) :
    check.ReportsUnless good := by
  intro session
  by_cases hvalue : good (check.value session.depth)
  · rw [h.run_eq session]
    exact .inl hvalue
  · obtain ⟨error, errors, herrors⟩ := List.exists_cons_of_ne_nil (hgood _ hvalue)
    refine .inr ⟨error, errors, ?_⟩
    rw [h.errors_run, herrors]

/-- The result is good, or there is an error among what is found. -/
theorem ReportsUnless.good_or_errors (h : check.ReportsUnless good) (depth : Nat) :
    good (check.value depth) ∨ (check.found depth).errors ≠ [] := by
  refine (h { depth }).imp_right ?_
  rintro ⟨error, errors, herrors⟩
  have hfound : (check.found depth).errors = error :: errors := herrors
  rw [hfound]
  exact List.cons_ne_nil _ _

/-- A check that appends an error in every session in which it has no result. -/
def ExplainsNone (check : Check (Option α)) : Prop :=
  ∀ session, (check.run session).1 = none → session.GainsError (check.run session).2

/-- To explain a missing result is to report unless there is one. -/
theorem ExplainsNone.reportsUnless {check : Check (Option α)} (h : check.ExplainsNone) :
    check.ReportsUnless fun result => ∃ a, result = some a := by
  intro session
  cases hresult : (check.run session).1 with
  | none => exact .inr (h session hresult)
  | some a => exact .inl ⟨a, rfl⟩

/-- Where there is no result, an error is found. -/
theorem ExplainsNone.errors_ne_nil {check : Check (Option α)} (h : check.ExplainsNone)
    {depth : Nat} (hnone : check.value depth = none) : (check.found depth).errors ≠ [] := by
  refine (h.reportsUnless.good_or_errors depth).resolve_left ?_
  rintro ⟨a, ha⟩
  rw [hnone] at ha
  cases ha

end Check

/-! ### Attempts -/

/-- An attempt that has a good result in every session, unless it appends an error. -/
def Attempt.ReportsUnless (attempt : Attempt α) (good : α → Prop) : Prop :=
  attempt.run.ReportsUnless fun result => ∃ a, result = some a ∧ good a

namespace Attempt

open Check

variable {attempt : Attempt α} {following : α → Attempt β} {good : α → Prop} {goodNext : β → Prop}

namespace ReportsUnless

theorem mono {good' : α → Prop} (h : attempt.ReportsUnless good)
    (hgood : ∀ a, good a → good' a) : attempt.ReportsUnless good' := by
  refine Check.ReportsUnless.mono h ?_
  rintro _ ⟨a, rfl, ha⟩
  exact ⟨a, rfl, hgood a ha⟩

/-- Attempts after each other report unless all of them are good. -/
theorem bind (h : attempt.ReportsUnless good)
    (hnext : ∀ a, good a → (following a).ReportsUnless goodNext) :
    (attempt >>= following).ReportsUnless goodNext := by
  unfold Attempt.ReportsUnless
  rw [run_bind_attempt]
  refine Check.ReportsUnless.bind h ?_
  rintro _ ⟨a, rfl, ha⟩
  exact hnext a ha

/-- An attempt that goes on without a result has one, or has appended an error. -/
theorem optional (h : attempt.ReportsUnless good) :
    (Attempt.optional attempt).ReportsUnless fun result => ∃ a, result = some a ∧ good a :=
  Check.ReportsUnless.bind h fun result hresult => reportsUnless_pure ⟨result, rfl, hresult⟩

end ReportsUnless

theorem reportsUnless_pure {a : α} (h : good a) : (pure a : Attempt α).ReportsUnless good :=
  Check.reportsUnless_pure ⟨a, rfl, h⟩

/-- Behind a check that always goes on, an attempt has to have a good result. -/
theorem reportsUnless_lift_bind {check : Check α}
    (hnext : ∀ a, (following a).ReportsUnless goodNext) :
    (liftM check >>= following).ReportsUnless goodNext := by
  have hcheck : (liftM check : Attempt α).ReportsUnless fun _ => True :=
    check.reportsUnless_true.bind fun a _ => Check.reportsUnless_pure ⟨a, rfl, trivial⟩
  exact hcheck.bind fun a _ => hnext a

/-- An attempt that accepts by a rule reports unless its result is of the rule. -/
theorem reportsUnless_of_accepts {rule : α → Prop} (h : ∀ depth, attempt.Accepts depth rule) :
    attempt.ReportsUnless rule := by
  refine (h 0).orderly.reportsUnless fun depth hbad hsilent => ?_
  exact hbad ((h depth).exists_value hsilent)

/-- An attempt that stops with an error. -/
theorem reportsUnless_stop (problem : Problem) (location : Location) :
    (do Check.error problem location; failure : Attempt α).ReportsUnless good :=
  (reportsUnless_of_accepts fun _ => Accepts.error problem location).mono fun _ => False.elim

/-- An attempt that reports unless it is good explains a missing result. -/
theorem ReportsUnless.explainsNone (h : attempt.ReportsUnless good) :
    attempt.run.ExplainsNone := by
  intro session hnone
  refine (h session).resolve_left ?_
  rintro ⟨a, ha, -⟩
  rw [hnone] at ha
  cases ha

end Attempt

end JvmAssembly
