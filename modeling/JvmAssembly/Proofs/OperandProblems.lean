/-
JvmAssembly/Proofs/OperandProblems.lean

What can be wrong with an argument.

The check of an argument looks at the shape of one element.  It reports what is missing
or of the wrong kind, keys that are repeated or that do not fit, and arguments that are
malformed or nested too deep.  It never reports a label, a declaration, an attribute or a
modifier, although all reports of a program go into one list.

A check is a script, so this can be said of the script, without a session: every error in
it, on every way through it, is of a kind (`ReportsOnly`).  Then so is every error that a
run appends (`ReportsOnly.of_mem_found`).  The checks of arguments are gone through in the
order in which they call each other, as for the frame law.
-/
import JvmAssembly.Proofs.OperandFrame

namespace JvmAssembly

variable {α β : Type}

/-- Whether a problem is about the shape of one element. -/
def Problem.isOfShape : Problem → Bool
  | unexpectedElement .. => true
  | missingElement _ => true
  | duplicateKey .. => true
  | keyMismatch .. => true
  | malformedOperand .. => true
  | _ => false

/-- The error that an operation reports. -/
def Operation.error? : Operation → Option Diagnostic
  | error problem location => some ⟨problem, location⟩
  | _ => none

/-- An operation appends the error that it is, if it is one. -/
theorem Operation.errors_apply (operation : Operation) (session : Session) :
    (operation.apply session).report.errors
      = session.report.errors ++ operation.error?.toList := by
  cases operation with
  | error problem location => rfl
  | warn | descend | ascend => exact (List.append_nil _).symm

namespace Check

/-! ### Reports of a kind -/

/-- A script in which every error is of a kind. -/
def ReportsOnly (allowed : Problem → Bool) : Check α → Prop
  | done _ => True
  | askDepth next => ∀ depth, (next depth).ReportsOnly allowed
  | act operation next =>
    (∀ error ∈ operation.error?, allowed error.problem) ∧ next.ReportsOnly allowed

variable {allowed : Problem → Bool} {check : Check α} {next : α → Check β}
  {attempt : Attempt α} {following : α → Attempt β}

/-- What is reported in the end was reported before, or is of the kind. -/
theorem ReportsOnly.of_mem_run (h : check.ReportsOnly allowed) {session : Session}
    {error : Diagnostic} (herror : error ∈ (check.run session).2.report.errors) :
    error ∈ session.report.errors ∨ allowed error.problem := by
  induction check generalizing session with
  | done result => exact .inl herror
  | askDepth next ih => exact ih session.depth (h session.depth) herror
  | act operation next ih =>
    obtain ⟨hoperation, hnext⟩ := h
    rcases ih hnext herror with hbefore | hallowed
    · rw [operation.errors_apply, List.mem_append, Option.mem_toList] at hbefore
      exact hbefore.imp_right (hoperation error)
    · exact .inr hallowed

/-- What a check finds is of the kinds that it reports. -/
theorem ReportsOnly.of_mem_found (h : check.ReportsOnly allowed) {depth : Nat}
    {error : Diagnostic} (herror : error ∈ (check.found depth).errors) :
    allowed error.problem :=
  (h.of_mem_run herror).resolve_left List.not_mem_nil

theorem reportsOnly_pure (a : α) : (pure a : Check α).ReportsOnly allowed :=
  trivial

theorem reportsOnly_error {problem : Problem} (h : allowed problem) (location : Location) :
    (error problem location).ReportsOnly allowed := by
  refine ⟨?_, trivial⟩
  rintro _ ⟨⟩
  exact h

/-- Checks after each other report what both of them report. -/
theorem ReportsOnly.bind (h : check.ReportsOnly allowed)
    (hnext : ∀ a, (next a).ReportsOnly allowed) : (check >>= next).ReportsOnly allowed := by
  induction check with
  | done result => exact hnext result
  | askDepth further ih => exact fun depth => ih depth (h depth)
  | act operation further ih => exact ⟨h.1, ih h.2⟩

theorem ReportsOnly.map (h : check.ReportsOnly allowed) (f : α → β) :
    (check >>= fun a => pure (f a)).ReportsOnly allowed :=
  h.bind fun a => reportsOnly_pure (f a)

theorem ReportsOnly.lift (h : check.ReportsOnly allowed) :
    (liftM check : Attempt α).run.ReportsOnly allowed :=
  h.map some

/-- Attempts after each other report what both of them report. -/
theorem ReportsOnly.bind_attempt (h : attempt.run.ReportsOnly allowed)
    (hnext : ∀ a, (following a).run.ReportsOnly allowed) :
    (attempt >>= following).run.ReportsOnly allowed := by
  rw [run_bind_attempt]
  refine h.bind fun result => ?_
  cases result with
  | none => exact reportsOnly_pure none
  | some a => exact hnext a

theorem ReportsOnly.onlyIf {check : Check Unit} (condition : Bool)
    (h : check.ReportsOnly allowed) : (onlyIf condition check).ReportsOnly allowed := by
  unfold Check.onlyIf
  split
  · exact h
  · exact reportsOnly_pure ()

theorem ReportsOnly.forM {as : List α} {f : α → Check Unit}
    (h : ∀ a, (f a).ReportsOnly allowed) : (as.forM f).ReportsOnly allowed := by
  induction as with
  | nil => exact reportsOnly_pure ()
  | cons a as ih => exact (h a).bind fun _ => ih

/-- A collection reports what its attempts report. -/
theorem ReportsOnly.collect {attempt : α → Attempt β} {as : List α}
    (h : ∀ a, (attempt a).run.ReportsOnly allowed) :
    (Check.collect attempt as).ReportsOnly allowed := by
  induction as with
  | nil => exact reportsOnly_pure []
  | cons a as ih => exact (h a).bind fun _ => ih.map _

/-- A script that reports problems of shape only. -/
abbrev ReportsShape (check : Check α) : Prop :=
  check.ReportsOnly Problem.isOfShape

/-- Going one level deeper may be refused, which is a problem of shape too. -/
theorem ReportsOnly.nested (operand : String) (location : Location) (h : check.ReportsShape) :
    (nested operand location check).ReportsShape := by
  have henter : (enter operand location).ReportsShape := by
    intro depth
    show (if maxNesting ≤ depth then _ else _ : Check Bool).ReportsShape
    split
    · exact (reportsOnly_error rfl location).map fun _ => false
    · exact ⟨nofun, trivial⟩
  refine henter.bind fun entered => ?_
  cases entered with
  | false => exact reportsOnly_pure none
  | true => exact h.bind fun result => ⟨nofun, trivial⟩

end Check

/-! ### Expectations -/

namespace Expect

open Check

theorem reportsShape_refuse (expected : String) (element : Element) :
    (refuse expected element : Attempt α).run.ReportsShape :=
  (reportsOnly_error rfl _).lift.bind_attempt fun _ => reportsOnly_pure none

theorem reportsShape_present (expected : String) (slot : Option Element) (location : Location) :
    (present expected slot location).run.ReportsShape := by
  cases slot with
  | none => exact (reportsOnly_error rfl _).lift.bind_attempt fun _ => reportsOnly_pure none
  | some element => exact reportsOnly_pure _

theorem reportsShape_viewed (view : Element → Option α) (expected : String) (element : Element) :
    (viewed view expected element).run.ReportsShape := by
  unfold viewed
  split
  · exact reportsOnly_pure _
  · exact reportsShape_refuse _ _

theorem reportsShape_integer (expected : String) (element : Element) :
    (integer expected element).run.ReportsShape := by
  unfold integer
  rw [number_eq]
  refine (reportsShape_viewed _ _ _).bind_attempt fun token => ?_
  split
  · exact reportsShape_refuse _ _
  · exact reportsOnly_pure _

theorem reportsShape_identifiers (expected : String) (element : Element) :
    (identifiers expected element).run.ReportsShape := by
  unfold identifiers
  rw [array_eq]
  refine (reportsShape_viewed _ _ _).bind_attempt fun group => ReportsOnly.lift ?_
  refine ReportsOnly.collect fun slot => (reportsShape_present _ _ _).bind_attempt fun element => ?_
  rw [identifier_eq]
  exact reportsShape_viewed _ _ _

theorem reportsShape_keys (context : String) (object : Object Element) (names : List String) :
    (keys context object names).ReportsShape := by
  unfold keys
  split
  · exact reportsOnly_pure _
  · exact (reportsOnly_error rfl _).map _

theorem reportsShape_distinctKeys (context : String) (object : Object Element) :
    (distinctKeys context object).ReportsShape :=
  ReportsOnly.forM fun _ => reportsOnly_error rfl _

end Expect

/-! ### Arguments -/

namespace Check

theorem reportsShape_identifierSlot (expected : String) (slot : Option Element)
    (location : Location) : (identifierSlot expected slot location).run.ReportsShape := by
  rw [identifierSlot_eq]
  exact (Expect.reportsShape_present _ _ _).bind_attempt fun _ => Expect.reportsShape_viewed _ _ _

/-- The check of a handle reports on shapes: its size, its parts and its keyword. -/
theorem reportsShape_handleGroup (group : Group Element) : (handleGroup group).ReportsShape := by
  unfold handleGroup
  split
  · refine (reportsShape_identifierSlot _ _ _).bind fun kind =>
      (reportsShape_identifierSlot _ _ _).bind fun _ =>
        (reportsShape_identifierSlot _ _ _).bind fun _ => ?_
    cases kind with
    | none => exact reportsOnly_pure ()
    | some token => exact (reportsOnly_error rfl _).onlyIf _
  · exact reportsOnly_error rfl _

theorem reportsShape_handle (element : Element) : (handle element).ReportsShape := by
  unfold handle
  split
  · exact reportsShape_handleGroup _
  · exact reportsOnly_error rfl _

/-- Constants, dynamic constants, arguments and slots of arguments report problems of shape. -/
theorem reportsShape_constants :
    (∀ element, (constant element).ReportsShape) ∧ (∀ group, (constantDynamic group).ReportsShape)
      ∧ (∀ element, (args element).ReportsShape)
      ∧ ∀ location slots, (argSlots location slots).ReportsShape := by
  apply constant.mutual_induct (fun element => (constant element).ReportsShape)
    (fun group => (constantDynamic group).ReportsShape)
    (fun element => (args element).ReportsShape)
    (fun location slots => (argSlots location slots).ReportsShape)
  · intro token
    exact reportsOnly_pure ()
  · intro token
    exact reportsOnly_pure ()
  · intro token
    exact (reportsOnly_error rfl _).onlyIf _
  · -- an array, by its last slot
    intro group ih
    unfold constant
    refine ReportsOnly.map (ReportsOnly.nested _ _ ?_) _
    split
    · exact ih
    · exact ih
    · exact reportsShape_handleGroup group
    · exact reportsOnly_error rfl _
  · intro element hnumber hstring hidentifier harray
    cases element
    case number token => exact absurd rfl (hnumber token)
    case string token => exact absurd rfl (hstring token)
    case identifier token => exact absurd rfl (hidentifier token)
    case array group => exact absurd rfl (harray group)
    all_goals exact reportsOnly_error rfl _
  · intro slots location ih
    exact (ih.nested _ _).map _
  · intro location
    exact (ReportsOnly.nested _ _ (reportsOnly_pure ())).map _
  · intro element harray hempty
    cases element
    case array group => exact absurd rfl (harray group.slots group.location)
    case empty location => exact absurd rfl (hempty location)
    all_goals exact reportsOnly_error rfl _
  · -- four slots
    intro namePart typePart handlePart argsPart location ih
    unfold constantDynamic
    refine (reportsShape_identifierSlot _ _ _).bind fun _ =>
      (reportsShape_identifierSlot _ _ _).bind fun _ => ReportsOnly.bind ?_ fun _ => ?_
    · cases handlePart with
      | none => exact reportsOnly_error rfl _
      | some element => exact reportsShape_handle element
    · cases argsPart with
      | none => exact reportsOnly_error rfl _
      | some element => exact ih
  · intro group hsize
    unfold constantDynamic
    split
    · exact absurd rfl (hsize _ _ _ _ _)
    · exact reportsOnly_error rfl _
  · intro location
    exact reportsOnly_pure ()
  · intro location rest ih
    exact (reportsOnly_error rfl _).bind fun _ => ih
  · intro location element rest ihelement ihrest
    exact ihelement.bind fun _ => ihrest

theorem reportsShape_switchBound (object : Object Element) (key : String) :
    (switchBound object key).run.ReportsShape :=
  (Expect.reportsShape_present _ _ _).bind_attempt fun _ => Expect.reportsShape_integer _ _

theorem reportsShape_tableSwitch (element : Element) : (tableSwitch element).ReportsShape := by
  unfold tableSwitch
  rw [Expect.object_eq]
  refine (Expect.reportsShape_viewed _ _ _).bind fun result => ?_
  cases result with
  | none => exact reportsOnly_pure ()
  | some object =>
    refine (Expect.reportsShape_distinctKeys _ _).bind fun _ =>
      (Expect.reportsShape_keys _ _ _).bind fun complete => ?_
    cases complete with
    | false => exact reportsOnly_pure ()
    | true =>
      refine (reportsShape_switchBound _ _).bind fun _ =>
        (reportsShape_switchBound _ _).bind fun _ =>
          (reportsShape_identifierSlot _ _ _).bind fun _ => ReportsOnly.map ?_ _
      exact (Expect.reportsShape_present _ _ _).bind_attempt fun _ =>
        Expect.reportsShape_identifiers _ _

theorem reportsShape_lookupSwitch (element : Element) : (lookupSwitch element).ReportsShape := by
  unfold lookupSwitch
  rw [Expect.object_eq]
  refine (Expect.reportsShape_viewed _ _ _).bind fun result => ?_
  cases result with
  | none => exact reportsOnly_pure ()
  | some object =>
    refine (Expect.reportsShape_distinctKeys _ _).bind fun _ =>
      ((reportsOnly_error rfl _).onlyIf _).bind fun _ => ?_
    exact ReportsOnly.forM fun entry => (reportsShape_identifierSlot _ _ _).map _

theorem reportsShape_newArrayType (element : Element) : (newArrayType element).ReportsShape := by
  unfold newArrayType
  rw [Expect.identifier_eq]
  refine (Expect.reportsShape_viewed _ _ _).bind fun result => ?_
  cases result with
  | none => exact reportsOnly_pure ()
  | some token => exact (reportsOnly_error rfl _).onlyIf _

end Check

open Check

theorem reportsShape_identifier (expected : String) (element : Element) :
    (do let _ ← (Expect.identifier expected element).run : Check Unit).ReportsShape := by
  rw [Expect.identifier_eq]
  exact (Expect.reportsShape_viewed _ _ _).map _

theorem DefaultOperand.reportsShape_verify (operand : DefaultOperand) (element : Element) :
    (operand.verify element).ReportsShape := by
  cases operand with
  | string =>
    unfold verify
    rw [Expect.string_eq]
    exact (Expect.reportsShape_viewed _ _ _).map _
  | integer => exact (Expect.reportsShape_integer _ _).map _
  | identifier => exact reportsShape_identifier _ element
  | literal => exact (reportsOnly_error rfl _).onlyIf _
  | label => exact reportsShape_identifier _ element

/-- **What is wrong with an argument is its shape.** -/
theorem Operand.reportsShape_verify (operand : Operand) (element : Element) :
    (operand.verify element).ReportsShape := by
  cases operand with
  | default operand => exact operand.reportsShape_verify element
  | constant => exact reportsShape_constants.1 element
  | handle => exact reportsShape_handle element
  | tableSwitch => exact reportsShape_tableSwitch element
  | lookupSwitch => exact reportsShape_lookupSwitch element
  | args => exact reportsShape_constants.2.2.1 element
  | type => exact reportsShape_identifier _ element
  | newArrayType => exact reportsShape_newArrayType element

end JvmAssembly
