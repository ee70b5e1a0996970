/-
JvmAssembly/Proofs/Steps.lean

What a check does on the way.

`Check.run` gives the session in which a check ends.  `Check.steps` lists every
operation that the same run performs, each with the session that it finds, so that
statements can be made about all sessions in between: the steps are a path from the
session where the run starts to the one where it ends (`path_steps`).  The steps of a
sequence are those of its first part followed by those of the second (`steps_bind`),
and a nested check has one step down in front and one step up behind
(`steps_nested_of_lt`).

`Step.Within depth` is what the steps of a check that starts at `depth` have to keep:
they come up only from levels that the check itself went down to, and they go down
only while there is a level left.
-/
import JvmAssembly.Session

namespace JvmAssembly

variable {α β : Type}

/-- An operation that is performed, and the session in which that happens. -/
structure Step where
  operation : Operation
  before : Session
deriving DecidableEq, Repr

namespace Step

/-- The session after a step. -/
def after (step : Step) : Session :=
  step.operation.apply step.before

/-- A step that stays between a depth and the bound.  Only a level below this depth is come
back from, and only a level that exists is entered. -/
structure Within (depth : Nat) (step : Step) : Prop where
  above : depth ≤ step.before.depth
  below : step.before.depth ≤ maxNesting
  ascends : step.operation = .ascend → depth < step.before.depth
  descends : step.operation = .descend → step.before.depth < maxNesting

variable {depth : Nat} {step : Step}

/-- Steps that stay below a depth stay below any smaller one. -/
theorem Within.mono {smaller : Nat} (h : step.Within depth) (hle : smaller ≤ depth) :
    step.Within smaller where
  above := Nat.le_trans hle h.above
  below := h.below
  ascends hascend := Nat.lt_of_le_of_lt hle (h.ascends hascend)
  descends := h.descends

/-- Not only the session before a step but also the one after it keeps the bound. -/
theorem Within.depth_after_le (h : step.Within depth) : step.after.depth ≤ maxNesting := by
  obtain ⟨operation, before⟩ := step
  have hbelow : before.depth ≤ maxNesting := h.below
  cases operation with
  | error problem location => exact hbelow
  | warn message location => exact hbelow
  | descend => exact h.descends rfl
  | ascend =>
    show before.depth - 1 ≤ maxNesting
    omega

end Step

/-- Steps that lead from one session to another, each starting where the one before ended. -/
inductive IsPath : Session → List Step → Session → Prop
  | nil (session : Session) : IsPath session [] session
  | cons (step : Step) {rest : List Step} {last : Session} (h : IsPath step.after rest last) :
      IsPath step.before (step :: rest) last

namespace Check

/-- The steps that are performed when a check is run in a session, in order. -/
def steps : Check α → Session → List Step
  | done _, _ => []
  | askDepth next, session => (next session.depth).steps session
  | act operation next, session => ⟨operation, session⟩ :: next.steps (operation.apply session)

/-- The steps of a run lead from its first session to its last. -/
theorem path_steps (check : Check α) (session : Session) :
    IsPath session (check.steps session) (check.run session).2 := by
  induction check generalizing session with
  | done result => exact .nil session
  | askDepth next ih => exact ih session.depth session
  | act operation next ih => exact .cons ⟨operation, session⟩ (ih (operation.apply session))

@[simp] theorem steps_pure (a : α) (session : Session) : (pure a : Check α).steps session = [] :=
  rfl

@[simp] theorem steps_error (problem : Problem) (location : Location) (session : Session) :
    (error problem location).steps session = [⟨.error problem location, session⟩] := rfl

@[simp] theorem steps_warn (message : String) (location : Location) (session : Session) :
    (warn message location).steps session = [⟨.warn message location, session⟩] := rfl

/-- The second part of a sequence starts where the first part ends. -/
theorem steps_bind (check : Check α) (next : α → Check β) (session : Session) :
    (check >>= next).steps session
      = check.steps session ++ (next (check.run session).1).steps (check.run session).2 := by
  induction check generalizing session with
  | done result => rfl
  | askDepth further ih => exact ih session.depth session
  | act operation further ih =>
    exact congrArg (List.cons ⟨operation, session⟩) (ih (operation.apply session))

/-- Below the bound, a nested check goes down, does its own steps and comes up. -/
theorem steps_nested_of_lt {operand : String} {location : Location} {body : Check α}
    {session : Session} (h : session.depth < maxNesting) :
    (nested operand location body).steps session
      = ⟨.descend, session⟩ :: (body.steps { session with depth := session.depth + 1 }
        ++ [⟨.ascend, (body.run { session with depth := session.depth + 1 }).2⟩]) := by
  have hrun : (enter operand location).run session
      = (true, { session with depth := session.depth + 1 }) := run_enter_of_lt h
  have hsteps : (enter operand location).steps session = [⟨.descend, session⟩] := by
    show (if maxNesting ≤ session.depth then _ else _ : Check Bool).steps session = _
    rw [if_neg (Nat.not_le.mpr h)]
    rfl
  unfold nested
  rw [steps_bind, hrun, hsteps]
  show _ :: (body >>= fun result => leave >>= fun _ => pure (some result)).steps _ = _
  rw [steps_bind]
  rfl

/-- At the bound, a nested check does nothing but report that. -/
theorem steps_nested_of_le {operand : String} {location : Location} {body : Check α}
    {session : Session} (h : maxNesting ≤ session.depth) :
    (nested operand location body).steps session
      = (malformed operand s!"nested deeper than {maxNesting} levels" location).steps session := by
  have hrun := run_enter_of_le h operand location
  have hsteps : (enter operand location).steps session
      = (malformed operand s!"nested deeper than {maxNesting} levels" location).steps session := by
    show (if maxNesting ≤ session.depth then _ else _ : Check Bool).steps session = _
    rw [if_pos h]
    rfl
  unfold nested
  rw [steps_bind, hrun, hsteps]
  rfl

end Check

end JvmAssembly
