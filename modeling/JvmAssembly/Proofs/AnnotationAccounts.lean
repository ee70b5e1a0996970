/-
JvmAssembly/Proofs/AnnotationAccounts.lean

Errors account for what an annotation lacks.

A resolved annotation may have fewer values than it was written with, and so may the
arrays in it.  `Accounts element value errors` compares an element with the value that it
was resolved to, on all levels at once: the errors are divided among the slots of an array
and among the entries of an annotation, in their order, and whatever has no value has a
share that is not empty.  The shares do not overlap, so each missing part has at least one
error of its own.  What belongs to a missing part goes with it.  The relation does not
mention the functions that resolve; that their errors are such an account
(`accountsLevel`) is an induction on the levels that are left.
-/
import JvmAssembly.Proofs.AnnotationValues

namespace JvmAssembly

/-! ### Accounts -/

mutual

/-- `Accounts element value errors`: the value that an element was resolved to, and the
errors about the element, which account for each part that the value does not have. -/
inductive Accounts : Element → AnnotationValue → List Diagnostic → Prop
  | number (token : Token) : Accounts (.number token) (.number token) []
  | string (token : Token) : Accounts (.string token) (.string token) []
  | bool (token : Token) (value : Bool) : Accounts (.identifier token) (.bool token value) []
  | type (token : Token) : Accounts (.identifier token) (.type token) []
  | empty (location : Location) : Accounts (.empty location) (.array [] location) []
  | array {slots : List (Option Element)} {location : Location} {values : List AnnotationValue}
      {errors : List Diagnostic} :
      AccountsSlots slots values errors →
      Accounts (.array ⟨slots, location⟩) (.array values location) errors
  | single {element : Element} {location : Location} {value : AnnotationValue}
      {errors : List Diagnostic} :
      Accounts element value errors →
      Accounts (.declaration ⟨none, [some element], location⟩) (.array [value] location) errors
  | enum {declaration : Declaration Element} {node : EnumNode} {errors : List Diagnostic} :
      declaration.kind? = some .enumDecl → Accounts (.declaration declaration) (.enum node) errors
  | nested {declaration : Declaration Element} {node : AnnotationNode AnnotationValue}
      {errors : List Diagnostic} :
      declaration.kind? = some (.member .annotationDecl) →
      AccountsNode declaration node errors →
      Accounts (.declaration declaration) (.nested node) errors

/-- Each slot of an array has a share of the errors, and a slot without a value has an error
in its share. -/
inductive AccountsSlots :
    List (Option Element) → List AnnotationValue → List Diagnostic → Prop
  | nil : AccountsSlots [] [] []
  | kept {element : Element} {slots : List (Option Element)} {value : AnnotationValue}
      {values : List AnnotationValue} {share errors : List Diagnostic} :
      Accounts element value share → AccountsSlots slots values errors →
      AccountsSlots (some element :: slots) (value :: values) (share ++ errors)
  | missing {slot : Option Element} {slots : List (Option Element)}
      {values : List AnnotationValue} {share errors : List Diagnostic} :
      share ≠ [] → AccountsSlots slots values errors →
      AccountsSlots (slot :: slots) values (share ++ errors)

/-- Each entry of an annotation has a share of the errors, and an entry without a value has an
error in its share. -/
inductive AccountsEntries :
    List (Entry Element) → List (Token × AnnotationValue) → List Diagnostic → Prop
  | nil : AccountsEntries [] [] []
  | kept {key : Token} {element : Element} {entries : List (Entry Element)}
      {value : AnnotationValue} {values : List (Token × AnnotationValue)}
      {share errors : List Diagnostic} :
      Accounts element value share → AccountsEntries entries values errors →
      AccountsEntries (⟨key, some element⟩ :: entries) ((key, value) :: values) (share ++ errors)
  | missing {entry : Entry Element} {entries : List (Entry Element)}
      {values : List (Token × AnnotationValue)} {share errors : List Diagnostic} :
      share ≠ [] → AccountsEntries entries values errors →
      AccountsEntries (entry :: entries) values (share ++ errors)

/-- Behind the errors about an annotation itself, each entry that repeats a key has an error,
and each other entry its share. -/
inductive AccountsNode :
    Declaration Element → AnnotationNode AnnotationValue → List Diagnostic → Prop
  | mk {declaration : Declaration Element} {object : Object Element} {type : Token}
      {values : List (Token × AnnotationValue)} {front errors : List Diagnostic} :
      (declaration.get? 1).bind Element.object? = some object →
      AccountsEntries object.entries values errors →
      AccountsNode declaration ⟨type, values, declaration.location⟩
        (front ++ object.duplicates.map (Resolve.repeatedKey "annotation values") ++ errors)

end

/-! ### Missing values -/

/-- The errors about something that may be missing: they account for it if it is there, and
otherwise there is at least one. -/
inductive AccountsFor {α : Type} (accounts : α → List Diagnostic → Prop) :
    Option α → List Diagnostic → Prop
  | given {a : α} {errors : List Diagnostic} :
      accounts a errors → AccountsFor accounts (some a) errors
  | missing {errors : List Diagnostic} : errors ≠ [] → AccountsFor accounts none errors

theorem AccountsFor.map {α β : Type} {accounts : α → List Diagnostic → Prop}
    {accounts' : β → List Diagnostic → Prop} {result : Option α} {errors : List Diagnostic}
    (h : AccountsFor accounts result errors) {f : α → β}
    (hf : ∀ a, accounts a errors → accounts' (f a) errors) :
    AccountsFor accounts' (result.map f) errors := by
  cases h with
  | given ha => exact .given (hf _ ha)
  | missing herrors => exact .missing herrors

/-- In any session, a check appends the errors that account for its result. -/
theorem AccountsFor.run {α : Type} {accounts : α → List Diagnostic → Prop}
    {check : Check (Option α)} (horderly : check.Orderly)
    (h : ∀ depth, AccountsFor accounts (check.value depth) (check.found depth).errors)
    (session : Session) :
    ∃ errors, (check.run session).2.report.errors = session.report.errors ++ errors
      ∧ AccountsFor accounts (check.run session).1 errors := by
  refine ⟨(check.found session.depth).errors, horderly.errors_run session, ?_⟩
  rw [horderly.run_eq session]
  exact h session.depth

/-- Errors that account for a missing result are not empty. -/
theorem AccountsFor.explainsNone {α : Type} {accounts : α → List Diagnostic → Prop}
    {check : Check (Option α)} (horderly : check.Orderly)
    (h : ∀ depth, AccountsFor accounts (check.value depth) (check.found depth).errors) :
    check.ExplainsNone := by
  intro session hnone
  obtain ⟨errors, herrors, haccounts⟩ := AccountsFor.run horderly h session
  rw [hnone] at haccounts
  cases haccounts with
  | missing hne =>
    obtain ⟨error, rest, rfl⟩ := List.exists_cons_of_ne_nil hne
    exact ⟨error, rest, herrors⟩

namespace Resolve

open Check Attempt

variable {depth : Nat}

/-! ### Constants of enumerations -/

theorem reportsUnless_enumNode (declaration : Declaration Element) :
    (enumNode declaration).ReportsUnless fun _ => True := by
  refine (reportsUnless_identifierArgument declaration 0 "enum type").optional.bind ?_
  rintro _ ⟨type, rfl, -⟩
  refine (reportsUnless_identifierArgument declaration 1 "enum name").optional.bind ?_
  rintro _ ⟨name, rfl, -⟩
  exact reportsUnless_lift_bind fun _ => Attempt.reportsUnless_pure trivial

/-! ### Levels -/

/-- What is shown for all values of a level, to be used for the values around them. -/
def AccountsLevel (depth : Nat) : Prop :=
  ∀ element, AccountsFor (Accounts element) ((annotationValue element).value depth)
    ((annotationValue element).found depth).errors

/-- Slot by slot, the errors about an array account for its values if the errors about each
element account for its value. -/
theorem AccountsLevel.slots (h : AccountsLevel depth) (location : Location)
    (slots : List (Option Element)) :
    AccountsSlots slots (slots.filterMap fun slot => (slotValue location slot).run.value depth)
      (slots.flatMap fun slot => ((slotValue location slot).run.found depth).errors) := by
  induction slots with
  | nil => exact .nil
  | cons slot slots ih =>
    rw [List.filterMap_cons, List.flatMap_cons]
    rcases slotValue_case depth location slot with
      ⟨hnone, herrors⟩ | ⟨element, rfl, hvalue, hfound⟩
    · rw [hnone]
      exact .missing herrors ih
    · have helement := h element
      rw [hvalue, hfound]
      generalize (annotationValue element).value depth = result at helement ⊢
      cases helement with
      | given hvalue => exact .kept hvalue ih
      | missing herrors => exact .missing herrors ih

/-- Entry by entry, the errors about the values of an annotation account for them in the same
way. -/
theorem AccountsLevel.entries (h : AccountsLevel depth) (entries : List (Entry Element)) :
    AccountsEntries entries (entries.filterMap fun entry => (namedValue entry).run.value depth)
      (entries.flatMap fun entry => ((namedValue entry).run.found depth).errors) := by
  induction entries with
  | nil => exact .nil
  | cons entry entries ih =>
    rw [List.filterMap_cons, List.flatMap_cons]
    rcases namedValue_case depth entry with
      ⟨hnone, herrors⟩ | ⟨-, element, hentry, hvalue, hfound⟩
    · rw [hnone]
      exact .missing herrors ih
    · obtain ⟨key, _⟩ := entry
      obtain rfl : _ = some element := hentry
      have helement := h element
      rw [hvalue, hfound]
      generalize (annotationValue element).value depth = result at helement ⊢
      cases helement with
      | given hvalue => exact .kept hvalue ih
      | missing herrors => exact .missing herrors ih

/-- The errors about an annotation are those about its type, its keys and its entries, in this
order. -/
theorem AccountsLevel.node (h : AccountsLevel depth) (declaration : Declaration Element) :
    AccountsFor (AccountsNode declaration) ((annotationNode declaration).value depth)
      ((annotationNode declaration).found depth).errors := by
  have hcase := annotationNode_case depth declaration
  generalize (annotationNode declaration).value depth = result at hcase ⊢
  generalize ((annotationNode declaration).found depth).errors = errors at hcase ⊢
  cases hcase with
  | noValues hreported => exact .missing hreported
  | @values object type front hwritten hreported =>
    cases type with
    | none =>
      have hfront : front ≠ [] := hreported rfl
      refine .missing ?_
      simp [hfront]
    | some type => exact .given (.mk hwritten (h.entries object.entries))

/-- The errors about a constant of an enumeration. -/
theorem accountsFor_enumNode {declaration : Declaration Element}
    (h : declaration.kind? = some .enumDecl) :
    AccountsFor (fun node => Accounts (.declaration declaration) (.enum node))
      ((enumNode declaration).run.value depth) ((enumNode declaration).run.found depth).errors := by
  cases hvalue : (enumNode declaration).run.value depth with
  | none => exact .missing ((reportsUnless_enumNode declaration).explainsNone.errors_ne_nil hvalue)
  | some node => exact .given (.enum h)

/-- The errors about a value account for all that it lacks, and if it is missing itself there
is at least one. -/
theorem accountsLevel (depth : Nat) : AccountsLevel depth := by
  refine annotationValue_levels
    (motive := fun _ element result errors => AccountsFor (Accounts element) result errors)
    ?_ ?_ depth
  · exact fun _ _ error => .missing (List.cons_ne_nil _ _)
  · intro depth _ (ih : AccountsLevel (depth + 1)) element result errors hcase
    cases hcase with
    | refused element error => exact .missing (List.cons_ne_nil _ _)
    | number token => exact .given (.number token)
    | string token => exact .given (.string token)
    | bool _ => exact .given (.bool _ _)
    | type _ => exact .given (.type _)
    | empty location => exact .given (.empty location)
    | array slots location => exact .given (.array (ih.slots location slots))
    | single element location => exact (ih element).map fun _ => .single
    | enum hkind => exact (accountsFor_enumNode hkind).map fun _ => id
    | nested hkind => exact (ih.node _).map fun _ => .nested hkind

/-- An annotation value that is left out has been reported. -/
theorem explainsNone_annotationValue (element : Element) :
    (annotationValue element).ExplainsNone :=
  AccountsFor.explainsNone (strict_annotationValue element).orderly fun depth =>
    accountsLevel depth element

theorem explainsNone_annotationNode (declaration : Declaration Element) :
    (annotationNode declaration).ExplainsNone :=
  AccountsFor.explainsNone (strict_annotationNode declaration).orderly fun depth =>
    (accountsLevel depth).node declaration

end Resolve

end JvmAssembly
