/-
JvmAssembly/Proofs/Composition.lean

Programs in a row.

The only thing that a program hands on to what follows it are the attributes that are
pending behind it, `pendingAfter`.  So there are two laws about cutting a program:

  * where nothing is pending, two programs resolve one after the other as each of them
    does alone, `resolve (a ++ b) = resolve a ++ resolve b` in all its parts;
  * what is no declaration of the top level is reported once, where it stands, and
    everything around it resolves as if it were not there: what is pending before it is
    pending behind it.

What is pending behind a program can be read off its text: the attributes behind the
last class, field or method (`pendingAfter_eq_attributesOf`).
-/
import JvmAssembly.InstructionSet.Jvm
import JvmAssembly.Proofs.AttributeOwner

namespace JvmAssembly

/-- Nothing is pending exactly if no attribute is. -/
theorem Pending.isEmpty_iff {pending : Pending} : pending.isEmpty ↔ pending = {} := by
  obtain ⟨signature, superName, interfaces, annotations⟩ := pending
  simp [isEmpty, and_assoc]

namespace Resolve

open Check

variable {κ : Type} [OperandKind κ] [LawfulOperandKind κ]

/-- What is pending behind a program. -/
def pendingAfter (set : InstructionSet κ) (program : List Element) : Pending :=
  leftAfter (topItem set) {} program

/-- The attributes behind the last owner of a program are pending behind it, whichever
instructions there are. -/
theorem pendingAfter_eq_attributesOf (set : InstructionSet κ) {front window : List Element}
    (hfront : EndsOwned topDeclares front) (hwindow : ∀ i ∈ window, ¬ Owns topDeclares i) :
    pendingAfter set (front ++ window) = attributesOf topDeclares window := by
  unfold pendingAfter
  rw [leftAfter_append, (top_law set).left_of_endsOwned hfront, (top_law set).window_left hwindow,
    Pending.empty_append]

/-- A class, a field or a method, with anything in its slots. -/
def IsOwner (element : Element) : Prop :=
  ∃ declaration kind, element = .declaration declaration ∧ declaration.kind? = some kind
    ∧ kind.isOwner

theorem IsOwner.owns {element : Element} (h : IsOwner element) : Owns topDeclares element := by
  obtain ⟨declaration, kind, rfl, hkind, howner⟩ := h
  have htop : kind.isTopLevel := by
    cases kind <;> first | rfl | cases howner
  exact ⟨(kind, declaration), topDeclares_eq_some_iff.mpr ⟨rfl, hkind, htop⟩, howner⟩

/-! ### What a program resolves to -/

theorem nodes_resolve (set : InstructionSet κ) (program : List Element) :
    (resolve set program).nodes = nodesOf (topItem set) {} program := by
  rw [resolve_eq, topSequence_eq]
  exact (top_law set).value_sequence {} program

/-- The report of a program is that of its items, and then a warning for each attribute that
nobody took. -/
theorem report_resolve (set : InstructionSet κ) (program : List Element) :
    (resolve set program).report
      = reportOf (topItem set) {} program ++ ⟨[], (pendingAfter set program).unusedWarnings⟩ := by
  rw [resolve_eq, topSequence_eq]
  exact (top_law set).found_sequence {} program

/-- Attributes that nobody took are warned about, so that the errors are those of the items
alone. -/
theorem errors_resolve (set : InstructionSet κ) (program : List Element) :
    (resolve set program).report.errors = (reportOf (topItem set) {} program).errors := by
  rw [report_resolve, Report.errors_append, List.append_nil]

/-! ### Items that declare nothing -/

/-- What cannot stand at the top level: anything but a declaration, and declarations without
a keyword, with one that does not exist, or of a constant of an enumeration. -/
inductive IsStray : Element → Prop where
  | other {element : Element} (h : element.kind ≠ .declaration) : IsStray element
  | noKeyword {declaration : Declaration Element} (h : declaration.keyword = none) :
      IsStray (.declaration declaration)
  | unknown {declaration : Declaration Element} {keyword : Token}
      (hkeyword : declaration.keyword = some keyword)
      (h : DeclarationKind.ofKeyword? (Declaration.dropDot keyword.text) = none) :
      IsStray (.declaration declaration)
  | enumConstant {declaration : Declaration Element} {keyword : Token}
      (hkeyword : declaration.keyword = some keyword)
      (h : Declaration.dropDot keyword.text = "enum") : IsStray (.declaration declaration)

theorem IsStray.topDeclares_eq_none {element : Element} (h : IsStray element) :
    topDeclares element = none := by
  cases h with
  | other h =>
    cases element
    case declaration => exact absurd rfl h
    all_goals rfl
  | noKeyword h =>
    simp [topDeclares, Element.declared?, Element.declaration?, Declaration.kind?,
      Declaration.keywordName?, h]
  | unknown hkeyword h =>
    simp [topDeclares, Element.declared?, Element.declaration?, Declaration.kind?,
      Declaration.keywordName?, hkeyword, h]
  | enumConstant hkeyword h =>
    have henum : DeclarationKind.ofKeyword? "enum" = some .enumDecl :=
      DeclarationKind.ofKeyword?_keyword .enumDecl
    simp [topDeclares, Element.declared?, Element.declaration?, Declaration.kind?,
      Declaration.keywordName?, hkeyword, h, henum, DeclarationKind.isTopLevel]

section Skipped

variable {ι ν : Type} {item : Pending → ι → Check (Option ν × Pending)} {i : ι}
  {problem : Problem} {location : Location}

/-- An item that does nothing but report an error leaves what is pending as it is. -/
theorem skipped_item
    (h : ∀ pending, item pending i = (do Check.error problem location; return (none, pending)))
    (pending : Pending) :
    leftAfter item pending [i] = pending ∧ nodesOf item pending [i] = []
      ∧ reportOf item pending [i] = .ofError problem location := by
  have hvalue : (item pending i).value 0 = (none, pending) := by
    rw [h, value_map (orderly_error _ _)]
  have hfound : (item pending i).found 0 = .ofError problem location := by
    rw [h, found_map (orderly_error _ _), found_error]
  simp [leftAfter, nodesOf, reportOf, hvalue, hfound]

variable (h : ∀ pending, item pending i = (do Check.error problem location; return (none, pending)))
  (pending : Pending) (before after : List ι)

include h

theorem leftAfter_skipped :
    leftAfter item pending (before ++ [i] ++ after) = leftAfter item pending (before ++ after) := by
  have hleft := (skipped_item h (leftAfter item pending before)).1
  rw [leftAfter_append, leftAfter_append, hleft, leftAfter_append]

/-- A skipped item is no node, and neither adds nodes nor takes any away. -/
theorem nodesOf_skipped :
    nodesOf item pending (before ++ [i] ++ after) = nodesOf item pending (before ++ after) := by
  obtain ⟨hleft, hnodes, -⟩ := skipped_item h (leftAfter item pending before)
  rw [nodesOf_append, nodesOf_append, leftAfter_append, hleft, hnodes, nodesOf_append,
    List.append_nil]

/-- Its error stands between those about the items before it and those about the items behind
it. -/
theorem reportOf_skipped :
    reportOf item pending (before ++ [i] ++ after)
      = reportOf item pending before
        ++ (.ofError problem location
          ++ reportOf item (leftAfter item pending before) after) := by
  obtain ⟨hleft, -, hreport⟩ := skipped_item h (leftAfter item pending before)
  rw [reportOf_append, reportOf_append, leftAfter_append, hleft, hreport, Report.append_assoc]

end Skipped

end Resolve

open Resolve

/-- **Where nothing is pending, programs compose.**  The nodes, the errors and the warnings of
two programs in a row are those of the first followed by those of the second, if nothing is
pending behind the first.  This is so in particular if the first ends with a class, a field or
a method, whether or not that one resolves; in general, the attributes behind the last of
these are pending. -/
theorem resolve_append_of_drained {κ : Type} [OperandKind κ] [LawfulOperandKind κ]
    (set : InstructionSet κ) (first second : List Element) :
    ((pendingAfter set first).isEmpty →
        (resolve set (first ++ second)).nodes
            = (resolve set first).nodes ++ (resolve set second).nodes
          ∧ (resolve set (first ++ second)).report.errors
            = (resolve set first).report.errors ++ (resolve set second).report.errors
          ∧ (resolve set (first ++ second)).report.warnings
            = (resolve set first).report.warnings ++ (resolve set second).report.warnings)
      ∧ (∀ front last, first = front ++ [last] → IsOwner last →
        (pendingAfter set first).isEmpty)
      ∧ ∀ front window, first = front ++ window → EndsOwned topDeclares front →
        (∀ i ∈ window, ¬ Owns topDeclares i) →
        pendingAfter set first = attributesOf topDeclares window := by
  refine ⟨fun hempty => ?_, ?_, ?_⟩
  · have hleft : leftAfter (topItem set) {} first = {} := Pending.isEmpty_iff.mp hempty
    have hreport : (resolve set (first ++ second)).report
        = (resolve set first).report ++ (resolve set second).report := by
      simp only [resolve_eq, topSequence_eq]
      exact (top_law set).found_append hleft second
    refine ⟨?_, ?_, ?_⟩
    · simp only [resolve_eq, topSequence_eq]
      exact (top_law set).value_append hleft second
    · rw [hreport, Report.errors_append]
    · rw [hreport, Report.warnings_append]
  · rintro front last rfl hlast
    exact Pending.isEmpty_iff.mpr ((top_law set).left_owner hlast.owns front)
  · rintro front window rfl hfront hwindow
    exact pendingAfter_eq_attributesOf set hfront hwindow

/-- A method with an instruction whose argument is a string, then a signature and a class that
has no body, which is dropped and takes the signature with it. -/
def droppedSample : List Element :=
  let location : Location := ⟨1, 1, "t"⟩
  let token (kind : TokenKind) (text : String) : Token := ⟨kind, Content.ofString text, location⟩
  let word (text : String) : Option Element := some (.identifier (token .identifier text))
  let item (keyword : String) (slots : List (Option Element)) : Element :=
    .declaration ⟨some (token .identifier keyword), slots, location⟩
  let argument : Option Element := some (.string (token .string "5"))
  let code : Element :=
    .code ⟨[some (.instruction ⟨token .identifier "bipush", [argument]⟩)], location⟩
  let body : Element := .object ⟨[⟨token .identifier "code", some code⟩], location⟩
  [item ".method" [word "m", word "()V", some body], item ".signature" [word "LA;"],
    item ".class" [word "A"]]

/-- Behind a class that is dropped, the same program starts afresh, in a format without kinds of
arguments of its own as in that of the Java virtual machine: there is one error for each
argument and one for each class, and no second signature. -/
theorem droppedSample_twice :
    (pendingAfter .jvm droppedSample).isEmpty
      ∧ (resolve .jvm (droppedSample ++ droppedSample)).report.errors
        = (resolve .jvm droppedSample).report.errors ++ (resolve .jvm droppedSample).report.errors
      ∧ (pendingAfter bipushSet droppedSample).isEmpty
      ∧ (resolve bipushSet (droppedSample ++ droppedSample)).report.errors
        = (resolve bipushSet droppedSample).report.errors
          ++ (resolve bipushSet droppedSample).report.errors
      ∧ (resolve bipushSet droppedSample).report.errors.length = 2 := by
  have hjvm := resolve_append_of_drained .jvm droppedSample droppedSample
  have hempty : (pendingAfter .jvm droppedSample).isEmpty :=
    hjvm.2.1 [_, _] _ rfl ⟨_, .classDecl, rfl, by decide, rfl⟩
  have hbipush := resolve_append_of_drained bipushSet droppedSample droppedSample
  have hempty' : (pendingAfter bipushSet droppedSample).isEmpty :=
    hbipush.2.1 [_, _] _ rfl ⟨_, .classDecl, rfl, by decide, rfl⟩
  exact ⟨hempty, (hjvm.1 hempty).2.1, hempty', (hbipush.1 hempty').2.1, by decide⟩

/-- **A stray item is isolated.**  An element that cannot stand at the top level is one error
at its location, between the errors about what stands before it and those about what stands
behind it.  Nodes and warnings are the same as without it, and so is what is pending, which
reaches the next declaration across it. -/
theorem stray_item_isolated {κ : Type} [OperandKind κ] [LawfulOperandKind κ]
    (set : InstructionSet κ) (before after : List Element) {element : Element}
    (h : IsStray element) :
    (resolve set (before ++ [element] ++ after)).nodes = (resolve set (before ++ after)).nodes
      ∧ (resolve set (before ++ [element] ++ after)).report.warnings
        = (resolve set (before ++ after)).report.warnings
      ∧ (∃ problem later,
        (resolve set (before ++ after)).report.errors
            = (resolve set before).report.errors ++ later
          ∧ (resolve set (before ++ [element] ++ after)).report.errors
            = (resolve set before).report.errors ++ ⟨problem, element.location⟩ :: later)
      ∧ pendingAfter set (before ++ [element]) = pendingAfter set before := by
  obtain ⟨problem, hitem⟩ := topItem_of_none h.topDeclares_eq_none
  -- behind the element, the run goes on with what was pending before it
  have hleft : ∀ rest, pendingAfter set (before ++ [element] ++ rest)
      = pendingAfter set (before ++ rest) :=
    leftAfter_skipped (hitem set) {} before
  have hreport := reportOf_skipped (hitem set) {} before after
  have hwithout := reportOf_append (topItem set) {} before after
  refine ⟨?_, ?_, ⟨problem,
    (reportOf (topItem set) (pendingAfter set before) after).errors, ?_, ?_⟩, ?_⟩
  · rw [nodes_resolve, nodes_resolve, nodesOf_skipped (hitem set)]
  · rw [report_resolve, report_resolve, hleft, hreport, hwithout]
    rfl
  · rw [errors_resolve, errors_resolve, hwithout, Report.errors_append]
    rfl
  · rw [errors_resolve, errors_resolve, hreport, Report.errors_append, Report.errors_append]
    rfl
  · have hnil := hleft []
    rw [List.append_nil, List.append_nil] at hnil
    exact hnil

/-- A signature, a constant of an enumeration, and a field. -/
def straySample : List Element × Element × List Element :=
  let location (line : Nat) : Location := ⟨line, 1, "t"⟩
  let identifier (line : Nat) (text : String) : Token :=
    ⟨.identifier, Content.ofString text, location line⟩
  let declaration (line : Nat) (keyword : String) (parts : List String) : Element :=
    .declaration ⟨some (identifier line keyword),
      parts.map fun part => some (.identifier (identifier line part)), location line⟩
  ([declaration 1 ".signature" ["LA;"]], declaration 2 ".enum" ["LB;", "C"],
    [declaration 3 ".field" ["x", "I"]])

/-- The constant is the only error, and the field resolves as if the signature stood right
before it. -/
theorem straySample_isolated :
    IsStray straySample.2.1
      ∧ (resolve .jvm (straySample.1 ++ [straySample.2.1] ++ straySample.2.2)).nodes
        = (resolve .jvm (straySample.1 ++ straySample.2.2)).nodes
      ∧ (resolve .jvm (straySample.1 ++ [straySample.2.1] ++ straySample.2.2)).report.errors
        = [⟨.unexpectedDeclaration "enum" "top level", ⟨2, 1, "t"⟩⟩] := by
  have hstray : IsStray straySample.2.1 := .enumConstant rfl (by decide)
  exact ⟨hstray, (stray_item_isolated .jvm straySample.1 straySample.2.2 hstray).1, by decide⟩

end JvmAssembly
