/-
JvmAssembly/Proofs/AppendOnly.lean

Checks and resolvers only append to the session, and come back to their depth.

The frame law has been shown function by function.  Put together, it says that the
checks of operands, of instructions and of declarations read nothing of the session but
the nesting depth, keep everything that was reported before, and end at the depth where
they started; on the way they stay between this depth and the bound.  For an operand the
law is stronger still: it never warns, so all that it does to a session is to append one
list of errors that is fixed by the operand, the element and the depth (`Strict.run_eq`).

A program is resolved from depth 0, so that no step of its run is deeper than the bound,
and no step comes up from depth 0 (`depth_steps_topSequence`).
-/
import JvmAssembly.Proofs.ResolveFrame

namespace JvmAssembly

open Check

namespace Check

variable {check : Check Unit}

/-- In a session, a strict check without a result does nothing but append its errors. -/
theorem Strict.run_eq (h : check.Strict) (report : Report) (depth : Nat) :
    check.run ⟨report, depth⟩
      = ((), ⟨⟨report.errors ++ (check.found depth).errors, report.warnings⟩, depth⟩) := by
  have hwarnings : (report ++ check.found depth).warnings = report.warnings := by
    rw [Report.warnings_append, h.noWarnings, List.append_nil]
  have hreport : report ++ check.found depth
      = ⟨report.errors ++ (check.found depth).errors, report.warnings⟩ := by
    rw [← hwarnings]
    rfl
  rw [h.orderly.run_eq]
  show ((), (⟨report ++ check.found depth, depth⟩ : Session)) = _
  rw [hreport]

/-- What a check reports in a row is reported twice if the check is run twice. -/
theorem Strict.run_twice (h : check.Strict) (report : Report) (depth : Nat) :
    (do check; check : Check Unit).run ⟨report, depth⟩
      = ((), ⟨⟨report.errors ++ (check.found depth).errors ++ (check.found depth).errors,
          report.warnings⟩, depth⟩) := by
  show (check >>= fun _ => check).run ⟨report, depth⟩ = _
  rw [run_bind, h.run_eq, h.run_eq]

/-- A check that appends no error in one session changes no session of the same depth. -/
theorem Strict.run_of_silent (h : check.Strict) {report : Report} {depth : Nat}
    (hsilent : (check.run ⟨report, depth⟩).2.report.errors = report.errors) (later : Report) :
    check.run ⟨later, depth⟩ = ((), ⟨later, depth⟩) := by
  have herrors : (check.found depth).errors = [] :=
    (h.orderly.errors_run_eq_iff ⟨report, depth⟩).mp hsilent
  rw [h.run_eq, herrors, List.append_nil]

end Check

/-- Along the resolution of a program, the depth is never above the bound, and no level is
come back from that was not entered. -/
theorem depth_steps_topSequence (set : InstructionSet Operand) (program : List Element) :
    ∀ step ∈ (Resolve.topSequence set {} program).steps {},
      step.before.depth ≤ maxNesting ∧ step.after.depth ≤ maxNesting
        ∧ (step.operation = .ascend → 0 < step.before.depth) := by
  intro step hstep
  have hwithin : step.Within 0 :=
    (Resolve.orderly_topSequence set {} program).within {} (Nat.zero_le _) step hstep
  exact ⟨hwithin.below, hwithin.depth_after_le, hwithin.ascends⟩

/-- **Verification and resolution only append, and restore the nesting depth.**  The check of
an operand appends, in every session of a depth, one list of errors and changes nothing else,
so that it appends this list again when it is run again, and nothing if it appended nothing
before.  Checks of operands and instructions, and the resolvers of annotation values,
annotations, methods, fields and classes obey the frame law: result and report depend on the
depth alone, the report is appended, the depth is restored, and no step leaves the levels
between the depth and the bound.  In a whole run from depth 0, which `steps` describes from
the first session to the last, the depth is never above 64, and coming back from a level never
starts at depth 0. -/
theorem checks_append_and_restore_depth (set : InstructionSet Operand) :
    (∀ (operand : Operand) (element : Element) (depth : Nat), ∃ errors : List Diagnostic,
        (∀ report : Report, (operand.verify element).run ⟨report, depth⟩
            = ((), ⟨⟨report.errors ++ errors, report.warnings⟩, depth⟩))
          ∧ (∀ report : Report,
            (do operand.verify element; operand.verify element : Check Unit).run ⟨report, depth⟩
              = ((), ⟨⟨report.errors ++ errors ++ errors, report.warnings⟩, depth⟩))
          ∧ ∀ report later : Report,
            ((operand.verify element).run ⟨report, depth⟩).2.report.errors = report.errors →
            (operand.verify element).run ⟨later, depth⟩ = ((), ⟨later, depth⟩))
      ∧ (∀ (operand : Operand) (element : Element), (operand.verify element).Orderly)
      ∧ (∀ instruction : Instruction Element, (set.verify instruction).Orderly)
      ∧ (∀ element : Element, (Resolve.annotationValue element).Orderly)
      ∧ (∀ declaration : Declaration Element, (Resolve.annotationNode declaration).Orderly)
      ∧ (∀ (pending : Pending) (declaration : Declaration Element),
        (Resolve.methodNode set pending declaration).run.Orderly
          ∧ (Resolve.fieldNode pending declaration).run.Orderly
          ∧ (Resolve.classNode set pending declaration).run.Orderly)
      ∧ ∀ program : List Element,
        IsPath {} ((Resolve.topSequence set {} program).steps {})
            ((Resolve.topSequence set {} program).run {}).2
          ∧ ∀ step ∈ (Resolve.topSequence set {} program).steps {},
            step.before.depth ≤ 64 ∧ step.after.depth ≤ 64
              ∧ (step.operation = .ascend → 0 < step.before.depth) := by
  refine ⟨?_, ?_, set.orderly_verify, ?_, ?_, ?_, ?_⟩
  · intro operand element depth
    have hstrict : (operand.verify element).Strict := operand.strict_verify element
    refine ⟨((operand.verify element).found depth).errors, ?_, ?_, ?_⟩
    · intro report
      exact hstrict.run_eq report depth
    · intro report
      exact hstrict.run_twice report depth
    · intro report later hsilent
      exact hstrict.run_of_silent hsilent later
  · intro operand element
    exact (operand.strict_verify element).orderly
  · intro element
    exact (Resolve.strict_annotationValue element).orderly
  · intro declaration
    exact (Resolve.strict_annotationNode declaration).orderly
  · intro pending declaration
    exact ⟨Resolve.orderly_methodNode set pending declaration,
      Resolve.orderly_fieldNode pending declaration,
      Resolve.orderly_classNode set pending declaration⟩
  · intro program
    exact ⟨path_steps _ _, depth_steps_topSequence set program⟩

end JvmAssembly
