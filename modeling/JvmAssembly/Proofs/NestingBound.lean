/-
JvmAssembly/Proofs/NestingBound.lean

How deep constants and arguments may be nested, exactly.

An array that is a constant takes one level, and so do arguments; nothing else does, and
a handle that stands alone takes none.  So `constantHeight` and `argsHeight` are the
levels that the check of an element has to enter, and the check accepts an element
exactly if the element is of the grammar and its height fits between the depth where
the check starts and the bound:

    (constant element).Silent depth
      ↔ IsConstant element ∧ depth + constantHeight element ≤ maxNesting.

That the element is of the grammar is known from silence alone.  What is shown here is
the arithmetic, by one induction along the grammar (`IsConstant.silent_iff`).
-/
import JvmAssembly.Proofs.ConstantGrammar

namespace JvmAssembly

/-- An element that is a list of constants: an array without holes, or empty braces. -/
def IsArgs (element : Element) : Prop :=
  ∃ group, element.array? = some group ∧ AreConstants group.slots

/-- The height of slots is that of the highest constant in them. -/
theorem slotsHeight_le_iff {slots : List (Option Element)} {height : Nat} :
    slotsHeight slots ≤ height
      ↔ ∀ element, some element ∈ slots → constantHeight element ≤ height := by
  constructor
  · intro h element hmem
    exact Nat.le_trans (constantHeight_le_slotsHeight hmem) h
  · intro h
    induction slots with
    | nil => exact Nat.zero_le height
    | cons slot rest ih =>
      have hrest : slotsHeight rest ≤ height :=
        ih fun element hmem => h element (List.mem_cons_of_mem _ hmem)
      cases slot with
      | none => exact hrest
      | some element => exact Nat.max_le.mpr ⟨h element List.mem_cons_self, hrest⟩

namespace Check

variable {depth : Nat}

/-! ### Levels that are entered -/

/-- A nested check is silent exactly if there is a level left for it to be silent on. -/
theorem silent_nested_iff {operand : String} {location : Location} {body : Check Unit}
    (hbody : body.Orderly) :
    (nested operand location body >>= fun _ => pure ()).Silent depth
      ↔ depth < maxNesting ∧ body.Silent (depth + 1) := by
  rw [silent_map (hbody.nested operand location)]
  show ((nested operand location body).found depth).errors = [] ↔ _
  rw [found_nested]
  split
  · next hle => simp [tooDeep, Nat.not_lt.mpr hle]
  · next hle => simp [Silent, Nat.not_le.mp hle]

/-- Without holes, arguments are accepted exactly if each of them is. -/
theorem silent_argSlots_iff (location : Location) {slots : List (Option Element)}
    (hnone : none ∉ slots) :
    (argSlots location slots).Silent depth
      ↔ ∀ element, some element ∈ slots → (constant element).Silent depth := by
  induction slots with
  | nil => simp [argSlots]
  | cons slot rest ih =>
    obtain ⟨hslot, hrest⟩ := List.ne_and_not_mem_of_not_mem_cons hnone
    cases slot with
    | none => exact absurd rfl hslot
    | some element =>
      rw [argSlots, silent_bind (orderly_constant element) (orderly_argSlots location rest),
        ih hrest]
      simp [forall_eq_or_imp]

/-- Arguments are accepted one level down, where each of them has to be. -/
theorem silent_args_iff {args : Element} {group : Group Element}
    (hargs : args.array? = some group) (hnone : none ∉ group.slots) :
    (Check.args args).Silent depth
      ↔ depth < maxNesting
        ∧ ∀ element, some element ∈ group.slots → (constant element).Silent (depth + 1) := by
  show ((Check.args args).found depth).errors = [] ↔ _
  rw [found_args hargs, ← silent_argSlots_iff group.location hnone]
  split
  · next hle => simp [tooDeep, Nat.not_lt.mpr hle]
  · next hle => simp [Silent, Nat.not_le.mp hle]

end Check

/-! ### The bound is exact -/

open Check

/-- A constant is accepted exactly if its height fits under the bound. -/
theorem IsConstant.silent_iff {element : Element} (h : IsConstant element) :
    ∀ depth ≤ maxNesting,
      (constant element).Silent depth ↔ depth + constantHeight element ≤ maxNesting := by
  induction h with
  | number token =>
    intro depth hdepth
    exact iff_of_true (silent_pure ()) hdepth
  | string token =>
    intro depth hdepth
    exact iff_of_true (silent_pure ()) hdepth
  | descriptor token hdescriptor =>
    intro depth hdepth
    have hsilent : (constant (.identifier token)).Silent depth := by
      rw [constant, Silent, found_onlyIf, hdescriptor]
      rfl
    exact iff_of_true hsilent hdepth
  | @handle group hgroup =>
    intro depth _
    obtain ⟨token, hlast⟩ : ∃ token, group.last? = some (.identifier token) := by
      obtain ⟨⟩ := hgroup
      exact ⟨_, rfl⟩
    have hheight : constantHeight (.array group) = 1 := by
      obtain ⟨⟩ := hgroup
      rfl
    have hsilent : (handleGroup group).Silent (depth + 1) := silent_handleGroup.mpr hgroup
    rw [constant_of_identifier hlast, silent_nested_iff (orderly_handleGroup group), hheight]
    exact and_iff_left hsilent
  | @dynamic name type handle arguments args location hhandle hargs hnone hsome ih =>
    intro depth _
    have hheight : constantHeight (.array ⟨[some (.identifier name), some (.identifier type),
        some (.array handle), some args], location⟩) = 1 + (1 + slotsHeight arguments.slots) :=
      congrArg (1 + ·) (argsHeight_of_array? hargs)
    have hslot : (handleSlot (some (.array handle)) location).Silent (depth + 1) :=
      silent_handleGroup.mpr hhandle
    rw [constant_of_args rfl hargs, silent_nested_iff (orderly_constantDynamic _),
      silent_constantDynamic, silent_args_iff hargs hnone, hheight]
    -- two levels down, every argument has to fit
    constructor
    · rintro ⟨-, -, -, -, hlt, harguments⟩
      have hslots : slotsHeight arguments.slots ≤ maxNesting - (depth + 2) := by
        apply slotsHeight_le_iff.mpr
        intro element hmem
        have hfits := (ih element hmem (depth + 2) hlt).mp (harguments element hmem)
        omega
      omega
    · intro hle
      refine ⟨by omega, ⟨name, rfl⟩, ⟨type, rfl⟩, hslot, by omega, ?_⟩
      intro element hmem
      have hfits := constantHeight_le_slotsHeight hmem
      apply (ih element hmem (depth + 2) (by omega)).mpr
      omega

namespace Check

variable {depth : Nat}

/-- The check of a constant accepts exactly the constants that fit under the bound. -/
theorem silent_constant_iff {element : Element} (hdepth : depth ≤ maxNesting) :
    (constant element).Silent depth
      ↔ IsConstant element ∧ depth + constantHeight element ≤ maxNesting := by
  constructor
  · intro h
    have hconstant : IsConstant element := isConstant_of_silent h
    exact ⟨hconstant, (hconstant.silent_iff depth hdepth).mp h⟩
  · rintro ⟨hconstant, hle⟩
    exact (hconstant.silent_iff depth hdepth).mpr hle

/-- The check of arguments accepts exactly the lists of constants that fit under the bound. -/
theorem silent_args_iff_isArgs {element : Element} :
    (args element).Silent depth ↔ IsArgs element ∧ depth + argsHeight element ≤ maxNesting := by
  have hisArgs : (args element).Silent depth → IsArgs element :=
    isConstant_of_silent_all.2.2.1 element depth
  rw [← and_iff_right_of_imp hisArgs]
  apply and_congr_right
  rintro ⟨group, hgroup, hnone, hsome⟩
  rw [silent_args_iff hgroup hnone, argsHeight_of_array? hgroup]
  constructor
  · rintro ⟨hlt, harguments⟩
    have hslots : slotsHeight group.slots ≤ maxNesting - (depth + 1) := by
      apply slotsHeight_le_iff.mpr
      intro element hmem
      have hfits := ((hsome element hmem).silent_iff (depth + 1) hlt).mp (harguments element hmem)
      omega
    omega
  · intro hle
    refine ⟨by omega, ?_⟩
    intro element hmem
    have hfits := constantHeight_le_slotsHeight hmem
    apply ((hsome element hmem).silent_iff (depth + 1) (by omega)).mpr
    omega

/-- The check of a handle accepts exactly the arrays that are handles, at any depth. -/
theorem silent_handle_iff {element : Element} :
    (handle element).Silent depth ↔ ∃ group, element = .array group ∧ IsHandle group := by
  constructor
  · intro h
    have hslot : (handleSlot (some element) element.location).Silent depth := h
    obtain ⟨group, helement, hgroup⟩ := silent_handleSlot hslot
    exact ⟨group, Option.some.inj helement, hgroup⟩
  · rintro ⟨group, rfl, hgroup⟩
    exact silent_handleGroup.mpr hgroup

end Check

/-! ### Chains of dynamic constants -/

/-- A dynamic constant that is nested so many links deep: the argument of each link is the
next link, and the arguments of the last link are no arrays. -/
inductive IsDynamicChain : Nat → Element → Prop
  | last (name type : Token) {handle arguments : Group Element} {args : Element}
      (location : Location) (hhandle : IsHandle handle) (hargs : args.array? = some arguments)
      (hslots : AreConstants arguments.slots) (hflat : slotsHeight arguments.slots = 0) :
      IsDynamicChain 1 (.array ⟨[some (.identifier name), some (.identifier type),
        some (.array handle), some args], location⟩)
  | link (name type : Token) {handle : Group Element} {next : Element} {links : Nat}
      (location place : Location) (hhandle : IsHandle handle) (h : IsDynamicChain links next) :
      IsDynamicChain (links + 1) (.array ⟨[some (.identifier name), some (.identifier type),
        some (.array handle), some (.array ⟨[some next], place⟩)], location⟩)

namespace IsDynamicChain

variable {links : Nat} {element : Element}

/-- Every chain is of the grammar. -/
theorem isConstant (h : IsDynamicChain links element) : IsConstant element := by
  induction h with
  | last name type location hhandle hargs hslots hflat =>
    exact .dynamic name type location hhandle hargs hslots.1 hslots.2
  | link name type location place hhandle h ih =>
    refine .dynamic name type location hhandle rfl (by simp) ?_
    intro element hmem
    rw [Option.some.inj (List.mem_singleton.mp hmem)]
    exact ih

/-- Each link takes a level as a constant and a level for its arguments. -/
theorem height_eq (h : IsDynamicChain links element) : constantHeight element = 2 * links := by
  induction h with
  | @last name type handle arguments args location hhandle hargs hslots hflat =>
    show 1 + argsHeight args = 2
    rw [argsHeight_of_array? hargs, hflat]
  | @link name type handle next links location place hhandle h ih =>
    show 1 + (1 + max (constantHeight next) 0) = 2 * (links + 1)
    rw [ih]
    omega

end IsDynamicChain

/-! ### Acceptance in a session -/

/-- **The checks of composite operands accept exactly a grammar with an exact nesting bound.**
In a session that is at most 64 levels deep, the check of a constant appends no error exactly
if the element is a constant whose height fits between the depth and 64, and the check of
arguments appends none exactly if the element is a list of constants whose height fits.  The
check of a handle appends none exactly if the element is a handle, at any depth.  From depth
0, a chain of dynamic constants is accepted exactly if it has at most 32 links. -/
theorem composite_checks_accept_grammar :
    (∀ (element : Element) (session : Session), session.depth ≤ 64 →
        (((Check.constant element).run session).2.report.errors = session.report.errors
          ↔ IsConstant element ∧ session.depth + constantHeight element ≤ 64))
      ∧ (∀ (element : Element) (session : Session), session.depth ≤ 64 →
        (((Check.args element).run session).2.report.errors = session.report.errors
          ↔ IsArgs element ∧ session.depth + argsHeight element ≤ 64))
      ∧ (∀ (element : Element) (session : Session),
        ((Check.handle element).run session).2.report.errors = session.report.errors
          ↔ ∃ group, element = .array group ∧ IsHandle group)
      ∧ ∀ (links : Nat) (element : Element) (session : Session), IsDynamicChain links element →
        session.depth = 0 →
        (((Check.constant element).run session).2.report.errors = session.report.errors
          ↔ links ≤ 32) := by
  have hconstant : ∀ (element : Element) (session : Session), session.depth ≤ 64 →
      (((Check.constant element).run session).2.report.errors = session.report.errors
        ↔ IsConstant element ∧ session.depth + constantHeight element ≤ 64) := by
    intro element session hdepth
    rw [(orderly_constant element).errors_run_eq_iff]
    exact silent_constant_iff hdepth
  refine ⟨hconstant, ?_, ?_, ?_⟩
  · intro element session _
    rw [(orderly_args element).errors_run_eq_iff]
    exact silent_args_iff_isArgs
  · intro element session
    rw [(orderly_handle element).errors_run_eq_iff]
    exact silent_handle_iff
  · intro links element session hchain hdepth
    have hheight : constantHeight element = 2 * links := hchain.height_eq
    rw [hconstant element session (by omega), and_iff_right hchain.isConstant]
    omega

/-- A chain of dynamic constants with one link more than the given number, whose last link
has no arguments. -/
def dynamicChain : Nat → Element
  | 0 => link (.empty place)
  | links + 1 => link (.array ⟨[some (dynamicChain links)], place⟩)
where
  place : Location := ⟨1, 1, "t"⟩
  identifier (text : String) : Token := ⟨.identifier, Content.ofString text, place⟩
  link (args : Element) : Element :=
    .array ⟨[some (.identifier (identifier "value")), some (.identifier (identifier "I")),
      some (.array ⟨[some (.identifier (identifier "getstatic")),
        some (.identifier (identifier "A.b")), some (.identifier (identifier "I"))], place⟩),
      some args], place⟩

/-- The chains that are built are chains of as many links. -/
theorem isDynamicChain_dynamicChain (links : Nat) :
    IsDynamicChain (links + 1) (dynamicChain links) := by
  have hhandle : IsHandle ⟨[some (.identifier (dynamicChain.identifier "getstatic")),
      some (.identifier (dynamicChain.identifier "A.b")),
      some (.identifier (dynamicChain.identifier "I"))], dynamicChain.place⟩ :=
    .mk .getStatic _ _ _ _ rfl
  induction links with
  | zero => exact .last _ _ _ hhandle rfl ⟨by simp, by simp⟩ rfl
  | succ links ih => exact .link _ _ _ _ hhandle ih

/-- Thirty-two links are accepted from depth 0 and thirty-three are not; empty arguments fit
at depth 63 and not at depth 64. -/
theorem composite_checks_accept_up_to_bound :
    ((Check.constant (dynamicChain 31)).run {}).2.report.errors = []
      ∧ ((Check.constant (dynamicChain 32)).run {}).2.report.errors ≠ []
      ∧ ((Check.args (.empty ⟨1, 1, "t"⟩)).run { depth := 63 }).2.report.errors = []
      ∧ ((Check.args (.empty ⟨1, 1, "t"⟩)).run { depth := 64 }).2.report.errors ≠ [] := by
  have hchain := composite_checks_accept_grammar.2.2.2
  have hargs := composite_checks_accept_grammar.2.1
  have hempty : IsArgs (.empty ⟨1, 1, "t"⟩) := ⟨_, rfl, by simp, by simp⟩
  refine ⟨?_, ?_, ?_, ?_⟩
  · exact (hchain 32 _ {} (isDynamicChain_dynamicChain 31) rfl).mpr (by decide)
  · intro h
    have hle := (hchain 33 _ {} (isDynamicChain_dynamicChain 32) rfl).mp h
    omega
  · exact (hargs _ { depth := 63 } (by decide)).mpr ⟨hempty, by decide⟩
  · intro h
    have hle := ((hargs _ { depth := 64 } (by decide)).mp h).2
    exact absurd hle (by decide)

end JvmAssembly
