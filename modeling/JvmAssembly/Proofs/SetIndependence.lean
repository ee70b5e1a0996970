/-
JvmAssembly/Proofs/SetIndependence.lean

What an instruction set has an influence on.

Two runs of a program, with two instruction sets, are compared step by step.  The
sessions of the two runs are always `Similar`: they have the same depth and the same
warnings, and differ in their errors only.  Two checks are `Alike` if they take similar
sessions to similar sessions, with equal results, so alike checks compose like checks do
(`Alike.bind`), and a check is alike to itself.  The one place where the instruction set
is asked is the check of an instruction, whose result nobody reads (`alike_verify`); from
there the two runs are alike up to whole programs.

The relation has a parameter `same`: if it holds, not even the errors differ.  With
`same` for "the sets agree on the mnemonics in the code of the program", one passage over
the resolver shows both that nodes and warnings never depend on the set, and that errors
depend on these mnemonics alone.
-/
import JvmAssembly.Proofs.AppendOnly
import JvmAssembly.Proofs.AttributeOwner
import JvmAssembly.Proofs.ProgramAcceptance

namespace JvmAssembly

variable {α β : Type} {same : Prop}

/-! ### Two runs -/

/-- Sessions that differ in their errors only, and not even there if `same` holds. -/
structure Session.Similar (same : Prop) (first second : Session) : Prop where
  depth : first.depth = second.depth
  warnings : first.report.warnings = second.report.warnings
  errors : same → first.report.errors = second.report.errors

theorem Session.Similar.refl (session : Session) : session.Similar same session :=
  ⟨rfl, rfl, fun _ => rfl⟩

/-- An operation takes similar sessions to similar sessions. -/
theorem Session.Similar.apply {first second : Session} (h : first.Similar same second)
    (operation : Operation) :
    (operation.apply first).Similar same (operation.apply second) := by
  cases operation with
  | error problem location =>
    refine ⟨h.depth, h.warnings, fun hsame => ?_⟩
    exact congrArg (· ++ [(⟨problem, location⟩ : Diagnostic)]) (h.errors hsame)
  | warn message location =>
    exact ⟨h.depth, congrArg (· ++ [(⟨message, location⟩ : Warning)]) h.warnings, h.errors⟩
  | descend => exact ⟨congrArg (· + 1) h.depth, h.warnings, h.errors⟩
  | ascend => exact ⟨congrArg (· - 1) h.depth, h.warnings, h.errors⟩

namespace Check

/-- Checks that in similar sessions give the same and end in similar sessions. -/
def Alike (same : Prop) (first second : Check α) : Prop :=
  ∀ ⦃left right : Session⦄, left.Similar same right →
    (first.run left).1 = (second.run right).1
      ∧ (first.run left).2.Similar same (second.run right).2

/-- Every check is like itself: it cannot see what two similar sessions differ in. -/
theorem Alike.refl (check : Check α) : Alike same check check := by
  induction check with
  | done result => exact fun _ _ h => ⟨rfl, h⟩
  | askDepth next ih =>
    intro left right h
    have hnext := ih left.depth h
    show ((next left.depth).run left).1 = ((next right.depth).run right).1
      ∧ ((next left.depth).run left).2.Similar same ((next right.depth).run right).2
    rw [← h.depth]
    exact hnext
  | act operation next ih => exact fun _ _ h => ih (h.apply operation)

variable {first second : Check α} {next next' : α → Check β}

/-- Behind alike checks, only results that the first can have matter. -/
theorem Alike.bind_of (h : Alike same first second)
    (hnext : ∀ a session, (first.run session).1 = a → Alike same (next a) (next' a)) :
    Alike same (first >>= next) (second >>= next') := by
  intro left right hsimilar
  obtain ⟨hresult, hafter⟩ := h hsimilar
  rw [run_bind, run_bind, ← hresult]
  exact hnext _ left rfl hafter

/-- Alike checks with alike checks behind them are alike. -/
theorem Alike.bind (h : Alike same first second) (hnext : ∀ a, Alike same (next a) (next' a)) :
    Alike same (first >>= next) (second >>= next') :=
  h.bind_of fun a _ _ => hnext a

theorem Alike.map (h : Alike same first second) (f : α → β) :
    Alike same (first >>= fun a => pure (f a)) (second >>= fun a => pure (f a)) :=
  h.bind fun a => .refl (pure (f a))

/-- Strict checks without a result are alike if they report the same where they must. -/
theorem Strict.alike {first second : Check Unit} (hfirst : first.Strict) (hsecond : second.Strict)
    (h : same → first = second) : Alike same first second := by
  rintro ⟨report, depth⟩ ⟨report', _⟩ ⟨rfl, hwarnings, herrors⟩
  rw [hfirst.run_eq, hsecond.run_eq]
  refine ⟨rfl, rfl, hwarnings, fun hsame => ?_⟩
  show report.errors ++ _ = report'.errors ++ _
  rw [h hsame, herrors hsame]

variable {attempt attempt' : Attempt α} {following following' : α → Attempt β}

/-- Behind alike attempts, only results that the first can have matter. -/
theorem Alike.bind_attempt_of (h : Alike same attempt.run attempt'.run)
    (hnext : ∀ a session, (attempt.run.run session).1 = some a →
      Alike same (following a).run (following' a).run) :
    Alike same (attempt >>= following).run (attempt' >>= following').run := by
  rw [run_bind_attempt, run_bind_attempt]
  refine h.bind_of fun result session hresult => ?_
  cases result with
  | none => exact .refl (pure none)
  | some a => exact hnext a session hresult

theorem Alike.bind_attempt (h : Alike same attempt.run attempt'.run)
    (hnext : ∀ a, Alike same (following a).run (following' a).run) :
    Alike same (attempt >>= following).run (attempt' >>= following').run :=
  h.bind_attempt_of fun a _ _ => hnext a

end Check

open Check

/-- Expecting a slot to hold something gives what is in the slot. -/
theorem Expect.run_viewedSlot {view : Element → Option α} {expected : String}
    {slot : Option Element} {location : Location} {session : Session} :
    ((viewedSlot view expected slot location).run.run session).1 = slot.bind view := by
  rw [(orderly_viewedSlot expected slot location).run_eq session]
  exact value_viewedSlot expected slot location

/-! ### The mnemonics in a program -/

/-- The mnemonic in a slot of code. -/
def mnemonicOf : Option Element → Option String
  | some (.instruction instruction) => some instruction.mnemonic.text
  | _ => none

/-- The mnemonics in the code of the body of a method. -/
def Object.mnemonics (body : Object Element) : List String :=
  match (body.value? "code").bind Element.code? with
  | some group => group.slots.filterMap mnemonicOf
  | none => []

namespace Declaration

/-- The element in the last slot; `none` if it is a hole or there are no slots. -/
def last? (declaration : Declaration α) : Option α :=
  declaration.slots.getLast?.join

/-- The mnemonics in the code of a method. -/
def methodMnemonics (declaration : Declaration Element) : List String :=
  match declaration.last?.bind Element.object? with
  | some body => body.mnemonics
  | none => []

/-- The declarations in the body of a class. -/
def bodySlots (declaration : Declaration Element) : List (Option Element) :=
  match declaration.last? with
  | some (.declaration body) => body.slots
  | _ => []

end Declaration

/-- The method that a slot declares. -/
def declaredMethod? (slot : Option Element) : Option (Declaration Element) :=
  (slot.bind Element.declared?).bind fun declared =>
    if declared.1 = .member .methodDecl then some declared.2 else none

/-- The methods that an element declares at the top level: itself, or those of its body if
it is a class. -/
def Element.methods (element : Element) : List (Declaration Element) :=
  match element.declared? with
  | some (.classDecl, owner) => owner.bodySlots.filterMap declaredMethod?
  | _ => (declaredMethod? (some element)).toList

/-- The mnemonics of the instructions in the code of all methods of a program. -/
def usedMnemonics (program : List Element) : List String :=
  (program.flatMap Element.methods).flatMap Declaration.methodMnemonics

variable {κ : Type}

/-- Sets that have the same arguments for each of the given mnemonics, or both none. -/
def InstructionSet.Agree (first second : InstructionSet κ) (mnemonics : List String) : Prop :=
  ∀ mnemonic ∈ mnemonics, first.get? mnemonic = second.get? mnemonic

instance [DecidableEq κ] (first second : InstructionSet κ) (mnemonics : List String) :
    Decidable (first.Agree second mnemonics) :=
  inferInstanceAs (Decidable (∀ mnemonic ∈ mnemonics, _))

theorem InstructionSet.Agree.mono {first second : InstructionSet κ} {mnemonics fewer : List String}
    (h : first.Agree second mnemonics) (hfewer : ∀ mnemonic ∈ fewer, mnemonic ∈ mnemonics) :
    first.Agree second fewer :=
  fun mnemonic hmem => h mnemonic (hfewer mnemonic hmem)

theorem declaredMethod?_of_kind {declaration : Declaration Element}
    (h : declaration.kind? = some (.member .methodDecl)) :
    declaredMethod? (some (.declaration declaration)) = some declaration := by
  simp [declaredMethod?, Element.declared?, Element.declaration?, h]

theorem methods_of_class {declaration : Declaration Element}
    (h : declaration.kind? = some .classDecl) :
    (Element.declaration declaration).methods
      = declaration.bodySlots.filterMap declaredMethod? := by
  simp [Element.methods, Element.declared?, Element.declaration?, h]

theorem methods_of_method {declaration : Declaration Element}
    (h : declaration.kind? = some (.member .methodDecl)) :
    (Element.declaration declaration).methods = [declaration] := by
  have hdeclared : (Element.declaration declaration).declared?
      = some (.member .methodDecl, declaration) :=
    Element.declared?_eq_some_iff.mpr ⟨rfl, h⟩
  unfold Element.methods
  rw [hdeclared, declaredMethod?_of_kind h]
  rfl

namespace Resolve

variable [OperandKind κ] [LawfulOperandKind κ] {first second : InstructionSet κ}

/-! ### Code -/

/-- An instruction is reported alike if the sets agree on its mnemonic. -/
theorem alike_verify {instruction : Instruction Element}
    (h : same → first.get? instruction.mnemonic.text = second.get? instruction.mnemonic.text) :
    Alike same (first.verify instruction) (second.verify instruction) := by
  refine (first.strict_verify instruction).alike (second.strict_verify instruction) fun hsame => ?_
  dsimp only [InstructionSet.verify]
  rw [h hsame]

/-- Code is checked alike with two sets, and with the same errors if they agree on its mnemonics. -/
theorem alike_codeSlots {slots : List (Option Element)}
    (h : same → first.Agree second (slots.filterMap mnemonicOf)) (labels : List String)
    (previous : Location) :
    Alike same (codeSlots first labels previous slots)
      (codeSlots second labels previous slots) := by
  induction slots generalizing labels previous with
  | nil => exact .refl _
  | cons slot slots ih =>
    have hrest : same → first.Agree second (slots.filterMap mnemonicOf) := fun hsame =>
      (h hsame).mono fun mnemonic hmem => by
        rw [List.filterMap_cons]
        split
        · exact hmem
        · exact List.mem_cons_of_mem _ hmem
    match slot with
    | none => exact (Alike.refl _).bind fun _ => ih hrest _ _
    | some element =>
      cases element
      case instruction instruction =>
        refine (alike_verify fun hsame => ?_).bind fun _ => ih hrest _ _
        exact h hsame _ List.mem_cons_self
      all_goals exact (Alike.refl _).bind fun _ => ih hrest _ _

/-- The code that is written is the code that is checked. -/
theorem alike_codeOf {body : Object Element} (h : same → first.Agree second body.mnemonics) :
    Alike same (codeOf first body) (codeOf second body) := by
  cases hget : body.get? "code" with
  | none =>
    unfold codeOf
    rw [hget]
    exact .refl _
  | some pair =>
    rw [codeOf_eq_run hget, codeOf_eq_run hget]
    refine (Alike.refl _).bind_attempt_of fun group session hgroup => ?_
    rw [Expect.run_viewedSlot] at hgroup
    have hmnemonics : body.mnemonics = group.slots.filterMap mnemonicOf := by
      unfold Object.mnemonics Object.value?
      rw [hget, Option.bind_some, hgroup]
    rw [hmnemonics] at h
    exact Alike.bind_attempt ((alike_codeSlots h [] group.location).map some) fun _ => .refl _

/-! ### Methods -/

theorem alike_methodRest {body : Object Element}
    (h : same → first.Agree second body.mnemonics) (pending : Pending) (location : Location)
    (descriptorPart namePart : Option Element) (rest : List (Option Element)) :
    Alike same (methodRest first pending location body descriptorPart namePart rest).run
      (methodRest second pending location body descriptorPart namePart rest).run :=
  (Alike.refl _).bind_attempt fun _ => (Alike.refl _).bind_attempt fun _ =>
    ((alike_codeOf h).map some).bind_attempt fun _ => .refl _

/-- A method is resolved alike with two sets. -/
theorem alike_methodNode {declaration : Declaration Element}
    (h : same → first.Agree second declaration.methodMnemonics) (pending : Pending) :
    Alike same (methodNode first pending declaration).run
      (methodNode second pending declaration).run := by
  rw [methodNode_parts, methodNode_parts]
  refine (Alike.refl _).bind_attempt fun _ => ?_
  match hslots : declaration.slots.reverse with
  | bodyPart :: descriptorPart :: namePart :: rest =>
    have hlast : declaration.last? = bodyPart := by
      unfold Declaration.last?
      rw [List.getLast?_eq_head?_reverse, hslots]
      rfl
    refine (Alike.refl _).bind_attempt_of fun body session hbody => ?_
    rw [Expect.run_viewedSlot] at hbody
    have hmnemonics : declaration.methodMnemonics = body.mnemonics := by
      unfold Declaration.methodMnemonics
      rw [hlast, hbody]
    rw [hmnemonics] at h
    exact (Alike.refl _).bind_attempt fun _ => alike_methodRest h _ _ _ _ _
  | [] | [_] | [_, _] => exact .refl _

/-- Members other than methods do not use the set at all. -/
theorem alike_member {declaration : Declaration Element} {kind : MemberKind}
    (h : same → kind = .methodDecl → first.Agree second declaration.methodMnemonics)
    (pending : Pending) :
    Alike same (member first pending declaration kind)
      (member second pending declaration kind) := by
  cases kind with
  | fieldDecl => exact .refl _
  | methodDecl => exact (alike_methodNode (fun hsame => h hsame rfl) pending).map _
  | annotationDecl => exact .refl _
  | signatureDecl => exact .refl _

/-! ### Classes and programs -/

/-- Sequences are alike if their items are. -/
theorem alike_sequence {ι ν : Type} {item item' : Pending → ι → Check (Option ν × Pending)}
    {items : List ι} (h : ∀ i ∈ items, ∀ pending, Alike same (item pending i) (item' pending i))
    (pending : Pending) :
    Alike same (sequence item pending items) (sequence item' pending items) := by
  induction items generalizing pending with
  | nil => exact .refl _
  | cons i items ih =>
    obtain ⟨hi, hitems⟩ := List.forall_mem_cons.mp h
    exact (hi pending).bind fun result => (ih hitems result.2).map _

theorem alike_bodySlot {slot : Location × Option Element}
    (h : same → ∀ method, declaredMethod? slot.2 = some method →
      first.Agree second method.methodMnemonics) (pending : Pending) :
    Alike same (bodySlot first pending slot) (bodySlot second pending slot) := by
  obtain ⟨previous, part⟩ := slot
  cases hdeclares : bodyDeclares (previous, part) with
  | none =>
    -- what declares nothing is reported in the same way by any set
    obtain ⟨problem, location, hslot⟩ := bodySlot_of_none hdeclares
    rw [hslot, hslot]
    exact .refl _
  | some declared =>
    obtain ⟨kind, declaration⟩ := declared
    obtain ⟨rfl, hkind, hmember⟩ := bodyDeclares_eq_some_iff.mp hdeclares
    cases kind with
    | member kind =>
      show Alike same (bodyItem first pending _) (bodyItem second pending _)
      rw [bodyItem_of_kind hkind, bodyItem_of_kind hkind]
      refine alike_member (fun hsame hmethod => ?_) pending
      subst hmethod
      exact h hsame declaration (declaredMethod?_of_kind hkind)
    | classDecl | superDecl | interfaceDecl | enumDecl => cases hmember

/-- The members of a class are resolved alike with two sets. -/
theorem alike_bodySlots {slots : List (Option Element)}
    (h : same → ∀ method ∈ slots.filterMap declaredMethod?,
      first.Agree second method.methodMnemonics) (pending : Pending) (location : Location) :
    Alike same (bodySlots first pending location slots)
      (bodySlots second pending location slots) := by
  rw [bodySlots_eq, bodySlots_eq]
  refine alike_sequence (fun slot hslot => alike_bodySlot fun hsame method hmethod => ?_) pending
  refine h hsame method (List.mem_filterMap.mpr ⟨slot.2, ?_, hmethod⟩)
  rw [← located_map_snd location slots]
  exact List.mem_map.mpr ⟨slot, hslot, rfl⟩

/-- A class is resolved alike with two sets, whether it is dropped or not. -/
theorem alike_classNode {declaration : Declaration Element}
    (h : same → ∀ method ∈ declaration.bodySlots.filterMap declaredMethod?,
      first.Agree second method.methodMnemonics) (pending : Pending) :
    Alike same (classNode first pending declaration).run
      (classNode second pending declaration).run := by
  rw [classNode_parts, classNode_parts]
  match hslots : declaration.slots.reverse with
  | [] | [_] => exact .refl _
  | bodyPart :: namePart :: rest =>
    have hlast : declaration.last? = bodyPart := by
      unfold Declaration.last?
      rw [List.getLast?_eq_head?_reverse, hslots]
      rfl
    refine (Alike.refl _).bind_attempt_of fun body session hbody => ?_
    rw [(orderly_classBody bodyPart declaration.location).run_eq session] at hbody
    obtain ⟨rfl, -⟩ := body_of_classBody hbody
    have hbodySlots : declaration.bodySlots = body.slots := by
      unfold Declaration.bodySlots
      rw [hlast]
    rw [hbodySlots] at h
    exact (Alike.refl _).bind_attempt fun _ => (Alike.refl _).bind_attempt fun _ =>
      ((alike_bodySlots h {} body.location).map some).bind_attempt fun _ => .refl _

theorem alike_topItem {element : Element}
    (h : same → ∀ method ∈ element.methods, first.Agree second method.methodMnemonics)
    (pending : Pending) :
    Alike same (topItem first pending element) (topItem second pending element) := by
  cases hdeclares : topDeclares element with
  | none =>
    obtain ⟨problem, hitem⟩ := topItem_of_none hdeclares
    rw [hitem, hitem]
    exact .refl _
  | some declared =>
    obtain ⟨kind, declaration⟩ := declared
    obtain ⟨rfl, hkind, -⟩ := topDeclares_eq_some_iff.mp hdeclares
    rw [topItem_of_kind hkind, topItem_of_kind hkind]
    cases kind with
    | classDecl =>
      rw [methods_of_class hkind] at h
      exact (alike_classNode h pending).map _
    | superDecl | interfaceDecl | enumDecl => exact .refl _
    | member kind =>
      refine (alike_member (fun hsame hmethod => ?_) pending).map _
      subst hmethod
      refine h hsame declaration ?_
      rw [methods_of_method hkind]
      exact List.mem_singleton_self declaration

/-- The runs of a program with two sets are alike. -/
theorem alike_topSequence {program : List Element}
    (h : same → first.Agree second (usedMnemonics program)) :
    Alike same (topSequence first {} program) (topSequence second {} program) := by
  rw [topSequence_eq, topSequence_eq]
  refine alike_sequence (fun element helement => alike_topItem fun hsame method hmethod => ?_) {}
  refine (h hsame).mono fun mnemonic hmem => ?_
  exact List.mem_flatMap.mpr ⟨method, List.mem_flatMap.mpr ⟨element, helement, hmethod⟩, hmem⟩

end Resolve

/-- The resolutions of a program with two sets have the same nodes and warnings, and the same
errors if the sets agree on the mnemonics in its code. -/
theorem resolve_similar [OperandKind κ] [LawfulOperandKind κ] (first second : InstructionSet κ)
    (program : List Element) :
    (resolve first program).nodes = (resolve second program).nodes
      ∧ (resolve first program).report.warnings = (resolve second program).report.warnings
      ∧ (first.Agree second (usedMnemonics program) →
        (resolve first program).report.errors = (resolve second program).report.errors) := by
  have halike : Alike (first.Agree second (usedMnemonics program))
      (Resolve.topSequence first {} program) (Resolve.topSequence second {} program) :=
    Resolve.alike_topSequence id
  obtain ⟨hnodes, hsessions⟩ := halike (.refl {})
  exact ⟨hnodes, hsessions.warnings, hsessions.errors⟩

/-- **The instruction set has an influence on the errors of instructions only.**  With any two
sets, a program has the same nodes and the same warnings.  If the sets agree on the mnemonics
of the instructions in the code of its methods, it has the same errors too, so it makes no
difference at all to register, or to register again, a mnemonic that is not among them. -/
theorem set_affects_errors_only {κ : Type} [OperandKind κ] [LawfulOperandKind κ]
    (first second : InstructionSet κ) (program : List Element) :
    (resolve first program).nodes = (resolve second program).nodes
      ∧ (resolve first program).report.warnings = (resolve second program).report.warnings
      ∧ (first.Agree second (usedMnemonics program) →
        (resolve first program).report.errors = (resolve second program).report.errors)
      ∧ ∀ mnemonic operands, mnemonic ∉ usedMnemonics program →
        resolve (first.register mnemonic operands) program = resolve first program := by
  obtain ⟨hnodes, hwarnings, herrors⟩ := resolve_similar first second program
  refine ⟨hnodes, hwarnings, herrors, fun mnemonic operands hunused => ?_⟩
  have hagree : (first.register mnemonic operands).Agree first (usedMnemonics program) := by
    intro used hused
    have hne : used ≠ mnemonic := fun h => hunused (h ▸ hused)
    rw [InstructionSet.get?_register, if_neg hne]
  obtain ⟨hnodes', hwarnings', herrors'⟩ :=
    resolve_similar (first.register mnemonic operands) first program
  have hreport := congrArg₂ Report.mk (herrors' hagree) hwarnings'
  exact congrArg₂ Resolution.mk hnodes' hreport

/-- A class with one method, in whose code there are an instruction that takes no arguments, and
one that no set has. -/
def codeSample : List Element :=
  let location : Location := ⟨1, 1, "t"⟩
  let identifier (text : String) : Token := ⟨.identifier, Content.ofString text, location⟩
  let word (text : String) : Option Element := some (.identifier (identifier text))
  let instruction (mnemonic : String) : Option Element :=
    some (.instruction ⟨identifier mnemonic, []⟩)
  let code : Option Element := some (.code ⟨[instruction "nop", instruction "frob"], location⟩)
  let body : Option Element := some (.object ⟨[⟨identifier "code", code⟩], location⟩)
  let method : Option Element :=
    some (.declaration ⟨some (identifier ".method"), [word "m", word "()V", body], location⟩)
  [.declaration ⟨some (identifier ".class"),
    [word "A", some (.declaration ⟨none, [method], location⟩)], location⟩]

/-- The set with one instruction that takes no arguments. -/
def nopSet : InstructionSet Operand :=
  ⟨[("nop", [])]⟩

/-- Sets that differ on an instruction that is not in the code report the same, and a set without
any instruction reports more and resolves the same. -/
theorem codeSample_sets :
    usedMnemonics codeSample = ["nop", "frob"]
      ∧ (resolve nopSet codeSample).report.errors
        = (resolve (nopSet.register "pop" []) codeSample).report.errors
      ∧ (resolve nopSet codeSample).report.errors.length = 1
      ∧ (resolve ({} : InstructionSet Operand) codeSample).report.errors.length = 2
      ∧ (resolve ({} : InstructionSet Operand) codeSample).nodes
        = (resolve nopSet codeSample).nodes := by
  have hagree : nopSet.Agree (nopSet.register "pop" []) (usedMnemonics codeSample) := by decide
  obtain ⟨-, -, herrors, -⟩ := set_affects_errors_only nopSet (nopSet.register "pop" []) codeSample
  obtain ⟨hnodes, -⟩ := set_affects_errors_only {} nopSet codeSample
  exact ⟨by decide, herrors hagree, by decide, by decide, hnodes⟩

end JvmAssembly
