/-
JvmAssembly/Session.lean

Checking as a computation.

A session is the report so far and the current nesting depth.  A `Check` is a script:
it reports errors and warnings, goes one nesting level deeper and comes back, asks how
deep it is, and always ends with a result; `run` performs it in a session.  An
`Attempt` may end without a result, which stops it but keeps the session, so that the
caller can report more and go on.

Values may be nested `maxNesting` levels deep.  `nested` runs a check one level
deeper and comes back, and refuses if there is no level left.
-/
import JvmAssembly.Diagnostic

namespace JvmAssembly

variable {α β : Type}

/-- How deep values may be nested. -/
def maxNesting : Nat := 64

/-- What checks read and change. -/
structure Session where
  report : Report := {}
  depth : Nat := 0
deriving DecidableEq, Repr

/-- One thing that a check does to its session. -/
inductive Operation where
  /-- Reports a problem. -/
  | error (problem : Problem) (location : Location)
  /-- Reports a warning. -/
  | warn (message : String) (location : Location)
  /-- Goes one level deeper. -/
  | descend
  /-- Comes back from one level.  There is no level above depth 0. -/
  | ascend
deriving DecidableEq, Repr

/-- The session after an operation. -/
def Operation.apply : Operation → Session → Session
  | error problem location, session =>
    { session with report := session.report.addError problem location }
  | warn message location, session =>
    { session with report := session.report.addWarning message location }
  | descend, session => { session with depth := session.depth + 1 }
  | ascend, session => { session with depth := session.depth - 1 }

/-- A computation that reports what it finds. -/
inductive Check (α : Type) where
  /-- Ends with a result. -/
  | done (result : α)
  /-- Goes on with the current nesting depth. -/
  | askDepth (next : Nat → Check α)
  /-- Performs an operation and goes on. -/
  | act (operation : Operation) (next : Check α)

namespace Check

/-- Goes on with the result of a check. -/
protected def bind : Check α → (α → Check β) → Check β
  | done result, following => following result
  | askDepth next, following => askDepth fun depth => (next depth).bind following
  | act operation next, following => act operation (next.bind following)

instance : Monad Check where
  pure := done
  bind := Check.bind

/-- Performs a check in a session, which gives its result and the session after it. -/
protected def run : Check α → Session → α × Session
  | done result, session => (result, session)
  | askDepth next, session => (next session.depth).run session
  | act operation next, session => next.run (operation.apply session)

protected theorem id_map (check : Check α) : id <$> check = check := by
  induction check with
  | done result => rfl
  | askDepth next ih => exact congrArg askDepth (funext ih)
  | act operation next ih => exact congrArg (act operation) ih

protected theorem bind_assoc {γ : Type} (check : Check α) (f : α → Check β) (g : β → Check γ) :
    check >>= f >>= g = check >>= fun a => f a >>= g := by
  induction check with
  | done result => rfl
  | askDepth next ih => exact congrArg askDepth (funext ih)
  | act operation next ih => exact congrArg (act operation) ih

instance : LawfulMonad Check :=
  LawfulMonad.mk' Check Check.id_map (fun _ _ => rfl) Check.bind_assoc

end Check

/-- A check that may stop without a result. -/
abbrev Attempt := OptionT Check

/-- Goes on after an attempt whether or not it had a result. -/
def Attempt.optional (attempt : Attempt α) : Attempt (Option α) :=
  OptionT.lift attempt.run

namespace Check

/-! ### Reporting -/

/-- Performs one operation. -/
def perform (operation : Operation) : Check Unit :=
  act operation (done ())

/-- Reports a problem. -/
def error (problem : Problem) (location : Location) : Check Unit :=
  perform (.error problem location)

/-- Reports a warning. -/
def warn (message : String) (location : Location) : Check Unit :=
  perform (.warn message location)

/-- Reports that nothing is where something is required. -/
def missing (expected : String) (location : Location) : Check Unit :=
  error (.missingElement expected) location

/-- Reports an element of the wrong kind. -/
def unexpected (expected : String) (element : Element) : Check Unit :=
  error (.unexpectedElement expected element.kind) element.location

/-- Reports an argument of the wrong shape. -/
def malformed (operand reason : String) (location : Location) : Check Unit :=
  error (.malformedOperand operand reason) location

/-- Runs a check if a condition holds. -/
def onlyIf (condition : Bool) (check : Check Unit) : Check Unit :=
  if condition then check else return

/-! ### Nesting -/

/-- The current nesting depth. -/
def depth : Check Nat :=
  askDepth done

/-- Goes one level deeper, or reports that there is no level left. -/
def enter (operand : String) (location : Location) : Check Bool := do
  if maxNesting ≤ (← depth) then
    malformed operand s!"nested deeper than {maxNesting} levels" location
    return false
  else
    perform .descend
    return true

/-- Comes back from one level. -/
def leave : Check Unit :=
  perform .ascend

/-- Runs a check one level deeper; no result if there is no level left. -/
def nested (operand : String) (location : Location) (body : Check α) : Check (Option α) := do
  if ← enter operand location then
    let result ← body
    leave
    return some result
  else
    return none

/-! ### What a check does to its session -/

theorem run_bind (check : Check α) (next : α → Check β) (session : Session) :
    (check >>= next).run session = (next (check.run session).1).run (check.run session).2 := by
  induction check generalizing session with
  | done result => rfl
  | askDepth further ih => exact ih session.depth session
  | act operation further ih => exact ih (operation.apply session)

@[simp] theorem run_error (problem : Problem) (location : Location) (session : Session) :
    (error problem location).run session
      = ((), { session with report := session.report.addError problem location }) := rfl

@[simp] theorem run_warn (message : String) (location : Location) (session : Session) :
    (warn message location).run session
      = ((), { session with report := session.report.addWarning message location }) := rfl

theorem run_enter_of_lt {operand : String} {location : Location} {session : Session}
    (h : session.depth < maxNesting) :
    (enter operand location).run session
      = (true, { session with depth := session.depth + 1 }) := by
  show (if maxNesting ≤ session.depth then _ else _ : Check Bool).run session = _
  rw [if_neg (Nat.not_le.mpr h)]
  rfl

theorem run_enter_of_le {session : Session} (h : maxNesting ≤ session.depth) (operand : String)
    (location : Location) :
    (enter operand location).run session
      = (false, ((malformed operand s!"nested deeper than {maxNesting} levels" location).run
          session).2) := by
  show (if maxNesting ≤ session.depth then _ else _ : Check Bool).run session = _
  rw [if_pos h]
  rfl

/-- Below the bound, a nested check runs one level deeper and comes back by one. -/
theorem run_nested_of_lt {operand : String} {location : Location} {body : Check α}
    {session : Session} (h : session.depth < maxNesting) :
    (nested operand location body).run session =
      let (result, after) := body.run { session with depth := session.depth + 1 }
      (some result, { after with depth := after.depth - 1 }) := by
  unfold nested
  rw [run_bind, run_enter_of_lt h]
  show (body >>= fun result => leave >>= fun _ => pure (some result)).run _ = _
  rw [run_bind]
  rfl

/-- At the bound, a nested check is refused, and that is all that is reported. -/
theorem run_nested_of_le {operand : String} {location : Location} {body : Check α}
    {session : Session} (h : maxNesting ≤ session.depth) :
    (nested operand location body).run session =
      (none, ((malformed operand s!"nested deeper than {maxNesting} levels" location).run
        session).2) := by
  unfold nested
  rw [run_bind, run_enter_of_le h]
  rfl

/-! ### Lists -/

/-- Runs an attempt on every member of a list and keeps the results there are. -/
def collect (attempt : α → Attempt β) : List α → Check (List β)
  | [] => return []
  | a :: as => do
    let result ← (attempt a).run
    let results ← collect attempt as
    return result.toList ++ results

end Check

end JvmAssembly
