/-
JvmAssembly/Proofs/ConstantGrammar.lean

The grammar of constants, and what the check of constants reports.

`IsConstant` says which elements are constants, whatever their numbers are and however deeply
they are nested.  It mentions no check; the check is related to it from both sides:

  * an element about which the check is silent is of the grammar (`isConstant_of_silent`);
  * about an element of the grammar only too many levels can be reported, and nothing if
    there are enough of them (`errors_found_constant`).

The first is an induction along the calls of the check, whose four functions call each other
(`isConstant_of_silent_all`), and the second is one along the grammar.

The check reads keywords from the text of a token, which shows surrogates as the replacement
character.  No keyword has that character, so that the grammar can speak of exact contents
(`ofKeyword?_text_eq_some_iff`).
-/
import JvmAssembly.Proofs.OperandFrame

namespace JvmAssembly

/-! ### Keywords in texts -/

theorem CodePoint.eq_char_of_toChar {point : CodePoint} {c : Char} (h : point.toChar = c)
    (hc : c ≠ '\uFFFD') : point = .char c := by
  cases point with
  | char c' => exact congrArg CodePoint.char h
  | surrogate index => exact absurd h.symm hc

theorem Content.eq_ofChars_of_chars {content : Content} {cs : List Char}
    (h : content.chars = cs) (hcs : '\uFFFD' ∉ cs) : content = Content.ofChars cs := by
  induction content generalizing cs with
  | nil =>
    subst h
    rfl
  | cons point rest ih =>
    subst h
    obtain ⟨hpoint, hrest⟩ := List.ne_and_not_mem_of_not_mem_cons hcs
    have hhead : point = .char point.toChar :=
      CodePoint.eq_char_of_toChar rfl (Ne.symm hpoint)
    exact congr (congrArg List.cons hhead) (ih rfl hrest)

/-- A text without the replacement character is the text of one content only. -/
theorem Content.text_eq_iff {content : Content} {s : String} (hs : '\uFFFD' ∉ s.toList) :
    content.text = s ↔ content = Content.ofString s := by
  constructor
  · intro h
    refine Content.eq_ofChars_of_chars ?_ hs
    rw [← h, Content.text, String.toList_ofList]
  · rintro rfl
    exact Content.text_ofString s

namespace HandleKind

theorem ofKeyword?_eq_some_iff {keyword : String} {kind : HandleKind} :
    ofKeyword? keyword = some kind ↔ keyword = kind.keyword := by
  constructor
  · intro h
    have hfound := List.find?_some h
    exact (beq_iff_eq.mp hfound).symm
  · rintro rfl
    exact ofKeyword?_keyword kind

/-- The text of a content is the keyword of a kind exactly if the content is. -/
theorem ofKeyword?_text_eq_some_iff {content : Content} {kind : HandleKind} :
    ofKeyword? content.text = some kind ↔ content = Content.ofString kind.keyword := by
  rw [ofKeyword?_eq_some_iff]
  refine Content.text_eq_iff ?_
  cases kind <;> decide

end HandleKind

/-! ### Handles -/

/-- An array that is a handle: three identifiers, the first of which is the keyword of a
kind. -/
inductive IsHandle : Group Element → Prop
  | mk (kind : HandleKind) (keyword name descriptor : Token) (location : Location)
      (h : keyword.content = Content.ofString kind.keyword) :
      IsHandle ⟨[some (.identifier keyword), some (.identifier name),
        some (.identifier descriptor)], location⟩

/-- The keyword of a handle is accepted exactly if it is that of a kind. -/
theorem Check.silent_handleKeyword {token : Token} {depth : Nat} :
    (Check.handleKeyword token).Silent depth
      ↔ ∃ kind : HandleKind, token.content = Content.ofString kind.keyword := by
  unfold Check.handleKeyword Check.Silent
  rw [Check.found_onlyIf]
  cases h : HandleKind.ofKeyword? token.text with
  | none =>
    refine ⟨fun hsilent => absurd hsilent (Check.not_silent_error _ _), ?_⟩
    rintro ⟨kind, hkind⟩
    rw [Token.text, HandleKind.ofKeyword?_text_eq_some_iff.mpr hkind] at h
    cases h
  | some kind => exact ⟨fun _ => ⟨kind, HandleKind.ofKeyword?_text_eq_some_iff.mp h⟩, fun _ => rfl⟩

/-- The check of a handle accepts exactly the handles. -/
theorem Check.silent_handleGroup {group : Group Element} {depth : Nat} :
    (Check.handleGroup group).Silent depth ↔ IsHandle group := by
  obtain ⟨slots, location⟩ := group
  unfold Check.handleGroup
  dsimp only
  split
  · next kindPart namePart descriptorPart =>
    rw [silent_bind (orderly_identifierSlot _ _ _) ((orderly_identifierSlot _ _ _).bind fun _ =>
        (orderly_identifierSlot _ _ _).bind fun _ => Orderly.forM_option orderly_handleKeyword),
      silent_bind (orderly_identifierSlot _ _ _)
        ((orderly_identifierSlot _ _ _).bind fun _ => Orderly.forM_option orderly_handleKeyword),
      silent_bind (orderly_identifierSlot _ _ _) (Orderly.forM_option orderly_handleKeyword),
      silent_identifierSlot, silent_identifierSlot, silent_identifierSlot, value_identifierSlot]
    constructor
    · rintro ⟨⟨keyword, rfl⟩, ⟨name, rfl⟩, ⟨descriptor, rfl⟩, hkeyword⟩
      obtain ⟨kind, hkind⟩ := Check.silent_handleKeyword.mp hkeyword
      exact .mk kind _ _ _ _ hkind
    · rintro ⟨kind, _, _, _, _, hkind⟩
      exact ⟨⟨_, rfl⟩, ⟨_, rfl⟩, ⟨_, rfl⟩, Check.silent_handleKeyword.mpr ⟨kind, hkind⟩⟩
  · next hsize =>
    refine ⟨fun hsilent => absurd hsilent (not_silent_error _ _), ?_⟩
    rintro ⟨⟩
    exact absurd rfl (hsize _ _ _)

/-! ### The grammar of constants -/

/-- An element that is a constant, however deeply it is nested and whatever its numbers are. -/
inductive IsConstant : Element → Prop
  | number (token : Token) : IsConstant (.number token)
  | string (token : Token) : IsConstant (.string token)
  | descriptor (token : Token) (h : Check.isDescriptor token.content = true) :
      IsConstant (.identifier token)
  | handle {group : Group Element} (h : IsHandle group) : IsConstant (.array group)
  | dynamic (name type : Token) {handle arguments : Group Element} {args : Element}
      (location : Location) (hhandle : IsHandle handle) (hargs : args.array? = some arguments)
      (hnone : none ∉ arguments.slots)
      (hsome : ∀ element, some element ∈ arguments.slots → IsConstant element) :
      IsConstant (.array ⟨[some (.identifier name), some (.identifier type), some (.array handle),
        some args], location⟩)

/-- Slots without holes that all hold constants. -/
def AreConstants (slots : List (Option Element)) : Prop :=
  none ∉ slots ∧ ∀ element, some element ∈ slots → IsConstant element

/-- Slots without holes whose elements have a property, one slot at a time. -/
theorem filledSlots_cons_iff {p : Element → Prop} {element : Element}
    {rest : List (Option Element)} :
    (none ∉ some element :: rest ∧ ∀ other, some other ∈ some element :: rest → p other)
      ↔ p element ∧ none ∉ rest ∧ ∀ other, some other ∈ rest → p other := by
  simp only [List.mem_cons, reduceCtorEq, false_or, Option.some.injEq, forall_eq_or_imp]
  exact and_left_comm

theorem areConstants_nil : AreConstants [] :=
  ⟨List.not_mem_nil, fun _ h => absurd h List.not_mem_nil⟩

theorem areConstants_cons {element : Element} {rest : List (Option Element)} :
    AreConstants (some element :: rest) ↔ IsConstant element ∧ AreConstants rest :=
  filledSlots_cons_iff

mutual

/-- The nesting levels that the check of a constant needs: one for an array, and those of
its arguments if it is a dynamic constant. -/
def constantHeight : Element → Nat
  | .array group => 1 + dynamicHeight group
  | _ => 0
termination_by structural element => element

/-- The nesting levels inside an array that is a constant. -/
def dynamicHeight : Group Element → Nat
  | ⟨[_, _, _, some args], _⟩ => argsHeight args
  | _ => 0
termination_by structural group => group

/-- The nesting levels that the check of arguments needs. -/
def argsHeight : Element → Nat
  | .array ⟨slots, _⟩ => 1 + slotsHeight slots
  | .empty _ => 1
  | _ => 0
termination_by structural element => element

/-- The nesting levels that the deepest of the arguments needs. -/
def slotsHeight : List (Option Element) → Nat
  | [] => 0
  | none :: rest => slotsHeight rest
  | some element :: rest => max (constantHeight element) (slotsHeight rest)
termination_by structural slots => slots

end

theorem argsHeight_of_array? {args : Element} {group : Group Element}
    (h : args.array? = some group) : argsHeight args = 1 + slotsHeight group.slots := by
  cases args <;> cases h <;> rfl

/-- An argument needs no more levels than all arguments together. -/
theorem constantHeight_le_slotsHeight {slots : List (Option Element)} {element : Element}
    (h : some element ∈ slots) : constantHeight element ≤ slotsHeight slots := by
  induction slots with
  | nil => cases h
  | cons slot rest ih =>
    cases slot with
    | none =>
      rcases List.mem_cons.mp h with h | h
      · cases h
      · exact ih h
    | some head =>
      rw [slotsHeight]
      rcases List.mem_cons.mp h with h | h
      · cases h
        exact Nat.le_max_left _ _
      · exact Nat.le_trans (ih h) (Nat.le_max_right _ _)

/-! ### What the check reports about constants -/

/-- An error that says that the nesting is too deep. -/
def Diagnostic.IsTooDeep (error : Diagnostic) : Prop :=
  ∃ operand, error.problem = .malformedOperand operand "nested deeper than 64 levels"

theorem isTooDeep_of_mem_tooDeep {operand : String} {location : Location} {error : Diagnostic}
    (h : error ∈ (Check.tooDeep operand location).errors) : error.IsTooDeep := by
  rw [List.mem_singleton.mp h]
  exact ⟨operand, rfl⟩

namespace Check

variable {depth : Nat}

/-- An array with arguments in its last slot is checked as a dynamic constant, a level down. -/
theorem constant_of_args {group arguments : Group Element} {args : Element}
    (hlast : group.last? = some args) (hargs : args.array? = some arguments) :
    constant (.array group)
      = nested "constant" group.location (constantDynamic group) >>= fun _ => pure () := by
  cases args <;> cases hargs <;> rw [constant, hlast]

/-- An array with an identifier in its last slot is checked as a handle, a level down. -/
theorem constant_of_identifier {group : Group Element} {token : Token}
    (hlast : group.last? = some (.identifier token)) :
    constant (.array group)
      = nested "constant" group.location (handleGroup group) >>= fun _ => pure () := by
  rw [constant, hlast]

/-- What is found in arguments is found in their slots, a level down, unless there are too many
levels. -/
theorem found_args {args : Element} {group : Group Element} (h : args.array? = some group) :
    (Check.args args).found depth
      = if maxNesting ≤ depth then tooDeep "args" group.location else
        (argSlots group.location group.slots).found (depth + 1) := by
  cases args <;> cases h
  · rw [Check.args, found_map ((orderly_argSlots _ _).nested _ _), found_nested]
  · rw [Check.args, found_map ((orderly_pure ()).nested _ _), found_nested]
    rfl

/-- Every error about slots of arguments is about one of them, if none is a hole. -/
theorem exists_of_mem_found_argSlots {location : Location} {slots : List (Option Element)}
    {error : Diagnostic} (hnone : none ∉ slots)
    (h : error ∈ ((argSlots location slots).found depth).errors) :
    ∃ element, some element ∈ slots ∧ error ∈ ((constant element).found depth).errors := by
  induction slots with
  | nil => cases h
  | cons slot rest ih =>
    obtain ⟨hslot, hrest⟩ := List.ne_and_not_mem_of_not_mem_cons hnone
    cases slot with
    | none => exact absurd rfl hslot
    | some element =>
      rw [argSlots, found_bind (orderly_constant element) (orderly_argSlots location rest),
        Report.errors_append, List.mem_append] at h
      rcases h with h | h
      · exact ⟨element, List.mem_cons_self, h⟩
      · obtain ⟨other, hmem, herror⟩ := ih hrest h
        exact ⟨other, List.mem_cons_of_mem _ hmem, herror⟩

/-- If name, type and handle are right, a dynamic constant is reported on like its
arguments. -/
theorem errors_found_constantDynamic {name type : Token} {handle : Group Element}
    {args : Element} {location : Location} (hhandle : IsHandle handle) :
    ((constantDynamic ⟨[some (.identifier name), some (.identifier type), some (.array handle),
        some args], location⟩).found depth).errors = ((Check.args args).found depth).errors := by
  have hsilent : (handleGroup handle).Silent depth := silent_handleGroup.mpr hhandle
  have hrest : (do
      handleSlot (some (.array handle)) location
      Check.args args : Check Unit).Orderly :=
    (orderly_handleSlot _ _).bind fun _ => orderly_args args
  rw [constantDynamic, found_bind (orderly_identifierSlot _ _ _)
      ((orderly_identifierSlot _ _ _).bind fun _ => hrest),
    found_bind (orderly_identifierSlot _ _ _) hrest,
    found_bind (orderly_handleSlot _ _) (orderly_args args)]
  show [] ++ ([] ++ (((handleGroup handle).found depth).errors ++ _)) = _
  rw [hsilent]
  rfl

/-- About a constant, only too many nesting levels are reported, and only if there are
more than the depth leaves. -/
theorem errors_found_constant {element : Element} (h : IsConstant element) :
    ∀ depth, ∀ error ∈ ((constant element).found depth).errors,
      error.IsTooDeep ∧ maxNesting < depth + constantHeight element := by
  induction h with
  | number token =>
    intro depth error herror
    cases herror
  | string token =>
    intro depth error herror
    cases herror
  | descriptor token hdescriptor =>
    intro depth error herror
    rw [constant, found_onlyIf, hdescriptor] at herror
    cases herror
  | @handle group hgroup =>
    intro depth error herror
    have hlast : ∃ token, group.last? = some (.identifier token) := by
      obtain ⟨⟩ := hgroup
      exact ⟨_, rfl⟩
    obtain ⟨token, hlast⟩ := hlast
    rw [constant_of_identifier hlast, found_map ((orderly_handleGroup group).nested _ _),
      found_nested] at herror
    split at herror
    · next hle =>
      refine ⟨isTooDeep_of_mem_tooDeep herror, ?_⟩
      rw [constantHeight]
      omega
    · rw [silent_handleGroup.mpr hgroup] at herror
      cases herror
  | @dynamic name type handle arguments args location hhandle hargs hnone hsome ih =>
    intro depth error herror
    have hheight : constantHeight (.array ⟨[some (.identifier name), some (.identifier type),
        some (.array handle), some args], location⟩) = 1 + (1 + slotsHeight arguments.slots) :=
      congrArg (1 + ·) (argsHeight_of_array? hargs)
    rw [hheight]
    rw [constant_of_args rfl hargs, found_map ((orderly_constantDynamic _).nested _ _),
      found_nested] at herror
    -- one level for the constant, one for its arguments, and then those of an argument
    split at herror
    · next hle =>
      refine ⟨isTooDeep_of_mem_tooDeep herror, ?_⟩
      omega
    · rw [errors_found_constantDynamic hhandle, found_args hargs] at herror
      split at herror
      · next hle =>
        refine ⟨isTooDeep_of_mem_tooDeep herror, ?_⟩
        omega
      · obtain ⟨element, hmem, herror⟩ := exists_of_mem_found_argSlots hnone herror
        obtain ⟨hdeep, hlt⟩ := ih element hmem _ error herror
        have hle := constantHeight_le_slotsHeight hmem
        exact ⟨hdeep, by omega⟩

/-! ### Silence means being of the grammar -/

theorem not_silent_unexpected {expected : String} {element : Element} :
    ¬ (unexpected expected element).Silent depth :=
  not_silent_error _ _

theorem not_silent_missing {expected : String} {location : Location} :
    ¬ (missing expected location).Silent depth :=
  not_silent_error _ _

/-- If nothing is reported, the level was entered, and nothing was reported below it. -/
theorem silent_of_silent_nested {operand : String} {location : Location} {body : Check Unit}
    (hbody : body.Orderly)
    (h : (nested operand location body >>= fun _ => pure ()).Silent depth) :
    body.Silent (depth + 1) := by
  rw [silent_map (hbody.nested _ _), Silent, found_nested] at h
  split at h
  · cases h
  · exact h

/-- A slot is accepted as a handle only if it holds one. -/
theorem silent_handleSlot {slot : Option Element} {location : Location}
    (h : (handleSlot slot location).Silent depth) :
    ∃ group, slot = some (.array group) ∧ IsHandle group := by
  cases slot with
  | none => exact absurd h not_silent_missing
  | some element =>
    cases element
    case array group => exact ⟨group, rfl, silent_handleGroup.mp h⟩
    all_goals exact absurd h not_silent_unexpected

/-- The check of a dynamic constant is that of its four slots. -/
theorem silent_constantDynamic {namePart typePart handlePart : Option Element} {args : Element}
    {location : Location} :
    (constantDynamic ⟨[namePart, typePart, handlePart, some args], location⟩).Silent depth
      ↔ (∃ name, namePart = some (.identifier name)) ∧ (∃ type, typePart = some (.identifier type))
        ∧ (handleSlot handlePart location).Silent depth ∧ (Check.args args).Silent depth := by
  have hrest := (orderly_handleSlot handlePart location).bind fun _ => orderly_args args
  rw [constantDynamic, silent_bind (orderly_identifierSlot _ _ _)
      ((orderly_identifierSlot _ _ _).bind fun _ => hrest),
    silent_bind (orderly_identifierSlot _ _ _) hrest,
    silent_bind (orderly_handleSlot _ _) (orderly_args args), silent_identifierSlot,
    silent_identifierSlot]

theorem not_silent_constantDynamic {namePart typePart handlePart : Option Element}
    {location : Location} :
    ¬ (constantDynamic ⟨[namePart, typePart, handlePart, none], location⟩).Silent depth := by
  have hargs := orderly_missing "bootstrap arguments" location
  have hrest := (orderly_handleSlot handlePart location).bind fun _ => hargs
  rw [constantDynamic, silent_bind (orderly_identifierSlot _ _ _)
      ((orderly_identifierSlot _ _ _).bind fun _ => hrest),
    silent_bind (orderly_identifierSlot _ _ _) hrest, silent_bind (orderly_handleSlot _ _) hargs]
  rintro ⟨-, -, -, h⟩
  exact not_silent_missing h

/-- The four slots of a dynamic constant about which the check is silent. -/
theorem exists_parts_of_silent {namePart typePart handlePart argsPart : Option Element}
    {location : Location}
    (h : (constantDynamic ⟨[namePart, typePart, handlePart, argsPart], location⟩).Silent depth) :
    ∃ (name type : Token) (handle : Group Element) (element : Element),
      namePart = some (.identifier name) ∧ typePart = some (.identifier type)
        ∧ (handlePart = some (.array handle) ∧ IsHandle handle)
        ∧ argsPart = some element ∧ (args element).Silent depth := by
  cases argsPart with
  | none => exact absurd h not_silent_constantDynamic
  | some element =>
    obtain ⟨⟨name, hname⟩, ⟨type, htype⟩, hslot, hargs⟩ := silent_constantDynamic.mp h
    obtain ⟨handle, hhandle⟩ := silent_handleSlot hslot
    exact ⟨name, type, handle, element, hname, htype, hhandle, rfl, hargs⟩

/-- An array about which the check of dynamic constants is silent has four slots. -/
theorem not_silent_constantDynamic_of_size {group : Group Element}
    (hsize : ∀ namePart typePart handlePart argsPart location,
      group = ⟨[namePart, typePart, handlePart, argsPart], location⟩ → False) :
    ¬ (constantDynamic group).Silent depth := by
  intro h
  unfold constantDynamic at h
  split at h
  · exact hsize _ _ _ _ _ rfl
  · exact not_silent_error _ _ h

/-- The last slot of an array says what it is meant to be: a dynamic constant, of which it is
the arguments, or a handle, of which it is the descriptor. -/
theorem isConstant_of_silent_array {group : Group Element}
    (hdynamic : (constantDynamic group).Silent (depth + 1) → IsConstant (.array group))
    (h : (constant (.array group)).Silent depth) : IsConstant (.array group) := by
  rw [constant] at h
  split at h
  · exact hdynamic (silent_of_silent_nested (orderly_constantDynamic group) h)
  · exact hdynamic (silent_of_silent_nested (orderly_constantDynamic group) h)
  · exact .handle (silent_handleGroup.mp (silent_of_silent_nested (orderly_handleGroup group) h))
  · exact absurd (silent_of_silent_nested (orderly_unexpected _ _) h) not_silent_unexpected

theorem isConstant_of_silent_identifier {token : Token}
    (h : (constant (.identifier token)).Silent depth) : IsConstant (.identifier token) := by
  rw [constant, Silent, found_onlyIf] at h
  cases hdescriptor : isDescriptor token.content with
  | false =>
    rw [hdescriptor] at h
    cases h
  | true => exact .descriptor token hdescriptor

/-- Arguments in front of others are checked first, and none of them is a hole. -/
theorem silent_argSlots_cons {location : Location} {slot : Option Element}
    {rest : List (Option Element)} (h : (argSlots location (slot :: rest)).Silent depth) :
    ∃ element, slot = some element ∧ (constant element).Silent depth
      ∧ (argSlots location rest).Silent depth := by
  cases slot with
  | none =>
    rw [argSlots, silent_bind (orderly_missing _ _) (orderly_argSlots _ _)] at h
    exact absurd h.1 not_silent_missing
  | some element =>
    rw [argSlots, silent_bind (orderly_constant _) (orderly_argSlots _ _)] at h
    exact ⟨element, rfl, h⟩

/-- An element that is no literal and no array is reported. -/
theorem not_silent_constant_of_kind {element : Element}
    (hnumber : ∀ token, element = .number token → False)
    (hstring : ∀ token, element = .string token → False)
    (hidentifier : ∀ token, element = .identifier token → False)
    (harray : ∀ group, element = .array group → False) : ¬ (constant element).Silent depth := by
  cases element
  case number token => exact absurd rfl (hnumber token)
  case string token => exact absurd rfl (hstring token)
  case identifier token => exact absurd rfl (hidentifier token)
  case array group => exact absurd rfl (harray group)
  all_goals exact not_silent_unexpected

/-- Arguments that are no array and no empty braces are reported. -/
theorem not_silent_args_of_kind {element : Element}
    (harray : ∀ slots location, element = .array ⟨slots, location⟩ → False)
    (hempty : ∀ location, element = .empty location → False) :
    ¬ (Check.args element).Silent depth := by
  cases element
  case array group => exact absurd rfl (harray group.slots group.location)
  case empty location => exact absurd rfl (hempty location)
  all_goals exact not_silent_unexpected

/-- What the checks are silent about is of the grammar, along their calls of each other. -/
theorem isConstant_of_silent_all :
    (∀ element depth, (constant element).Silent depth → IsConstant element)
      ∧ (∀ group depth, (constantDynamic group).Silent depth → IsConstant (.array group))
      ∧ (∀ element depth, (args element).Silent depth →
          ∃ group, element.array? = some group ∧ AreConstants group.slots)
      ∧ ∀ location slots depth, (argSlots location slots).Silent depth → AreConstants slots := by
  apply constant.mutual_induct
    (fun element => ∀ depth, (constant element).Silent depth → IsConstant element)
    (fun group => ∀ depth, (constantDynamic group).Silent depth → IsConstant (.array group))
    (fun element => ∀ depth, (args element).Silent depth →
      ∃ group, element.array? = some group ∧ AreConstants group.slots)
    (fun location slots => ∀ depth, (argSlots location slots).Silent depth → AreConstants slots)
  -- constants, by their kinds
  · intro token depth _
    exact .number token
  · intro token depth _
    exact .string token
  · intro token depth h
    exact isConstant_of_silent_identifier h
  · intro group ih depth h
    exact isConstant_of_silent_array (ih _) h
  · intro element hnumber hstring hidentifier harray depth h
    exact absurd h (not_silent_constant_of_kind hnumber hstring hidentifier harray)
  -- arguments: an array, empty braces, or something else
  · intro slots location ih depth h
    rw [args] at h
    exact ⟨_, rfl, ih _ (silent_of_silent_nested (orderly_argSlots _ _) h)⟩
  · intro location depth _
    exact ⟨_, rfl, areConstants_nil⟩
  · intro element harray hempty depth h
    exact absurd h (not_silent_args_of_kind harray hempty)
  -- a dynamic constant, of four slots or of another number
  · intro namePart typePart handlePart argsPart location ih depth h
    obtain ⟨name, type, handle, element, rfl, rfl, ⟨rfl, hhandle⟩, rfl, hargs⟩ :=
      exists_parts_of_silent h
    obtain ⟨group, hgroup, hnone, hsome⟩ := ih depth hargs
    exact .dynamic name type location hhandle hgroup hnone hsome
  · intro group hsize depth h
    exact absurd h (not_silent_constantDynamic_of_size hsize)
  -- the slots of arguments
  · intro location depth _
    exact areConstants_nil
  · intro location rest ih depth h
    obtain ⟨element, hslot, -⟩ := silent_argSlots_cons h
    cases hslot
  · intro location element rest ihelement ihrest depth h
    obtain ⟨_, ⟨⟩, hfirst, hrest⟩ := silent_argSlots_cons h
    exact areConstants_cons.mpr ⟨ihelement depth hfirst, ihrest depth hrest⟩

/-- What the check of constants is silent about is a constant. -/
theorem isConstant_of_silent {element : Element} (h : (constant element).Silent depth) :
    IsConstant element :=
  isConstant_of_silent_all.1 element depth h

end Check

end JvmAssembly
