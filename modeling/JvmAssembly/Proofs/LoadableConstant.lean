/-
JvmAssembly/Proofs/LoadableConstant.lean

Checking a constant and computing it agree.

Two walks go over an element that is to be loaded.  `Check.constant` reports what is
wrong with it, looks at every part, counts nesting levels and reads keywords from the
text of a token.  `Constant.ofElement` computes its value, stops at the first fault,
counts nothing and reads keywords from the exact content.  Neither calls the other.

What relates them is the grammar of constants.  The check is silent about nothing else and
reports nothing but too many levels about it; and here it is shown that an element has a value
exactly if it is of the grammar and each of its numbers has one (`ofElement_eq_ok_iff`).
-/
import JvmAssembly.Constant
import JvmAssembly.Proofs.ConstantGrammar

namespace JvmAssembly

/-! ### Values of handles -/

/-- A content is a string exactly if it has no surrogates. -/
theorem Content.string?_eq_some_iff {content : Content} {s : String} :
    content.string? = some s ↔ content = Content.ofString s := by
  unfold Content.string?
  constructor
  · intro h
    split at h
    · cases h
    · next hnone =>
      obtain rfl := Option.some.inj h
      have hchars : ∀ point ∈ content, point = .char point.toChar := by
        intro point hpoint
        cases point with
        | char c => rfl
        | surrogate index => exact absurd (List.any_eq_true.mpr ⟨_, hpoint, rfl⟩) hnone
      show content = content.text.toList.map CodePoint.char
      rw [Content.text, String.toList_ofList, Content.chars, List.map_map]
      exact (List.map_id content).symm.trans (List.map_congr_left hchars)
  · rintro rfl
    have hnone : ¬ (Content.ofString s).any CodePoint.isSurrogate = true := by
      simp [Content.ofString, Content.ofChars, CodePoint.isSurrogate]
    rw [if_neg hnone, Content.text_ofString]

namespace HandleKind

/-- An exact content is read as the keyword of a kind exactly if it is that keyword. -/
theorem string?_bind_ofKeyword?_eq_some_iff {content : Content} {kind : HandleKind} :
    content.string?.bind ofKeyword? = some kind ↔ content = Content.ofString kind.keyword := by
  rw [Option.bind_eq_some_iff]
  constructor
  · rintro ⟨keyword, hcontent, hkind⟩
    rw [ofKeyword?_eq_some_iff.mp hkind] at hcontent
    exact Content.string?_eq_some_iff.mp hcontent
  · intro h
    exact ⟨kind.keyword, Content.string?_eq_some_iff.mpr h, ofKeyword?_keyword kind⟩

end HandleKind

/-- A sequence of readings gives a result exactly if each of them does. -/
theorem bind_eq_ok_iff {ε α β : Type} {reading : Except ε α} {next : α → Except ε β} {b : β} :
    reading >>= next = .ok b ↔ ∃ a, reading = .ok a ∧ next a = .ok b := by
  cases reading with
  | error fault =>
    constructor
    · intro h
      cases h
    · rintro ⟨a, h, -⟩
      cases h
  | ok a =>
    constructor
    · intro h
      exact ⟨a, rfl, h⟩
    · rintro ⟨_, ⟨⟩, h⟩
      exact h

theorem Handle.partOf_eq_ok_iff {part : HandlePart} {slot : Option Element} {content : Content} :
    Handle.partOf part slot = .ok content
      ↔ ∃ token : Token, slot = some (.identifier token) ∧ token.content = content := by
  unfold Handle.partOf
  split <;> simp_all

/-- A handle is read from exactly the arrays that are handles. -/
theorem Handle.ofGroup_eq_ok_iff {group : Group Element} :
    (∃ handle, Handle.ofGroup group = .ok handle) ↔ IsHandle group := by
  obtain ⟨slots, location⟩ := group
  constructor
  · rintro ⟨handle, h⟩
    unfold Handle.ofGroup at h
    dsimp only at h
    split at h
    · next kindPart namePart descriptorPart =>
      obtain ⟨content, hcontent, h⟩ := bind_eq_ok_iff.mp h
      split at h
      · cases h
      · next kind hkind =>
        obtain ⟨name, hname, h⟩ := bind_eq_ok_iff.mp h
        obtain ⟨descriptor, hdescriptor, -⟩ := bind_eq_ok_iff.mp h
        obtain ⟨_, rfl, rfl⟩ := Handle.partOf_eq_ok_iff.mp hcontent
        obtain ⟨_, rfl, rfl⟩ := Handle.partOf_eq_ok_iff.mp hname
        obtain ⟨_, rfl, rfl⟩ := Handle.partOf_eq_ok_iff.mp hdescriptor
        exact .mk kind _ _ _ _ (HandleKind.string?_bind_ofKeyword?_eq_some_iff.mp hkind)
    · cases h
  · rintro ⟨kind, keyword, name, descriptor, _, hkind⟩
    refine ⟨⟨kind, name.content, descriptor.content⟩, bind_eq_ok_iff.mpr ⟨_, rfl, ?_⟩⟩
    rw [HandleKind.string?_bind_ofKeyword?_eq_some_iff.mpr hkind]
    rfl

/-! ### Values of constants -/

/-- The slots of the bootstrap arguments of a dynamic constant; there are none of anything
else. -/
def Element.bootstrapSlots : Element → List (Option Element)
  | .array ⟨[_, _, _, some args], _⟩ => (args.array?.map Group.slots).getD []
  | _ => []

/-- A number that is the element itself, or a bootstrap argument at some level of it. -/
inductive HoldsNumber (token : Token) : Element → Prop
  | self : HoldsNumber token (.number token)
  | argument {element argument : Element} (hmem : some argument ∈ element.bootstrapSlots)
      (h : HoldsNumber token argument) : HoldsNumber token element

/-- An element of the grammar all of whose numbers have a value. -/
def IsLoadable (element : Element) : Prop :=
  IsConstant element ∧
    ∀ token, HoldsNumber token element → ∃ value, numeralValue token.chars = .ok value

/-- Slots without holes that all hold loadable elements. -/
def AreLoadable (slots : List (Option Element)) : Prop :=
  none ∉ slots ∧ ∀ element, some element ∈ slots → IsLoadable element

theorem areLoadable_nil : AreLoadable [] :=
  ⟨List.not_mem_nil, fun _ h => absurd h List.not_mem_nil⟩

theorem areLoadable_cons {element : Element} {rest : List (Option Element)} :
    AreLoadable (some element :: rest) ↔ IsLoadable element ∧ AreLoadable rest :=
  filledSlots_cons_iff

theorem bootstrapSlots_of_array? {namePart typePart handlePart : Option Element} {args : Element}
    {location : Location} {group : Group Element} (h : args.array? = some group) :
    (Element.array ⟨[namePart, typePart, handlePart, some args], location⟩).bootstrapSlots
      = group.slots := by
  simp only [Element.bootstrapSlots, h, Option.map_some, Option.getD_some]

theorem IsHandle.bootstrapSlots_eq {group : Group Element} (h : IsHandle group) :
    (Element.array group).bootstrapSlots = [] := by
  obtain ⟨⟩ := h
  rfl

/-- A constant without arguments holds no number but itself. -/
theorem IsConstant.isLoadable {element : Element} (h : IsConstant element)
    (hslots : element.bootstrapSlots = [])
    (hnumber : ∀ token, element = .number token →
      ∃ value, numeralValue token.chars = .ok value) : IsLoadable element := by
  refine ⟨h, fun token hholds => ?_⟩
  cases hholds with
  | self => exact hnumber token rfl
  | argument hmem _ =>
    rw [hslots] at hmem
    cases hmem

theorem IsHandle.isLoadable {group : Group Element} (h : IsHandle group) :
    IsLoadable (.array group) :=
  IsConstant.isLoadable (.handle h) h.bootstrapSlots_eq nofun

/-- A dynamic constant is loadable if its arguments are. -/
theorem AreLoadable.dynamic {name type : Token} {handle arguments : Group Element}
    {args : Element} {location : Location} (hhandle : IsHandle handle)
    (hargs : args.array? = some arguments) (h : AreLoadable arguments.slots) :
    IsLoadable (.array ⟨[some (.identifier name), some (.identifier type), some (.array handle),
      some args], location⟩) := by
  have hconstants := fun element hmem => (h.2 element hmem).1
  refine ⟨.dynamic name type location hhandle hargs h.1 hconstants, ?_⟩
  intro token hholds
  cases hholds with
  | argument hmem hholds =>
    rw [bootstrapSlots_of_array? hargs] at hmem
    exact (h.2 _ hmem).2 token hholds

namespace Constant

theorem dynamicPart_eq_ok_iff {index : Nat} {location : Location} {slot : Option Element}
    {content : Content} :
    dynamicPart index location slot = .ok content
      ↔ ∃ token : Token, slot = some (.identifier token) ∧ token.content = content := by
  unfold dynamicPart
  split <;> simp_all

/-- The handle of a dynamic constant is read from exactly the arrays that are handles. -/
theorem bootstrapOf_eq_ok_iff {name : Content} {slot : Option Element} :
    (∃ handle, bootstrapOf name slot = .ok handle)
      ↔ ∃ group, slot = some (.array group) ∧ IsHandle group := by
  unfold bootstrapOf
  split
  · next group =>
    constructor
    · rintro ⟨handle, h⟩
      refine ⟨group, rfl, Handle.ofGroup_eq_ok_iff.mp ⟨handle, ?_⟩⟩
      cases hgroup : Handle.ofGroup group with
      | error fault =>
        rw [hgroup] at h
        cases h
      | ok value =>
        rw [hgroup] at h
        have hvalue : (.ok value : Except ConstantFault Handle) = .ok handle := h
        exact congrArg Except.ok (Except.ok.inj hvalue)
    · rintro ⟨_, ⟨⟩, hgroup⟩
      obtain ⟨handle, hhandle⟩ := Handle.ofGroup_eq_ok_iff.mpr hgroup
      exact ⟨handle, by rw [hhandle]; rfl⟩
  · next harray =>
    constructor
    · rintro ⟨handle, h⟩
      cases h
    · rintro ⟨group, rfl, -⟩
      exact absurd rfl (harray group)

/-- An identifier has a value exactly if the check takes it for a descriptor. -/
theorem ofIdentifier_eq_ok_iff {token : Token} :
    (∃ value, ofIdentifier token = .ok value) ↔ Check.isDescriptor token.content = true := by
  unfold ofIdentifier Check.isDescriptor
  cases token.content.startsWith '(' <;> cases token.content.startsWith 'L' <;>
    cases token.content.startsWith '[' <;> simp

/-- A number with a value is loadable. -/
theorem isLoadable_of_ok_number {token : Token} {value : Constant}
    (h : ofElement (.number token) = .ok value) : IsLoadable (.number token) := by
  refine IsConstant.isLoadable (.number token) rfl ?_
  rintro _ ⟨⟩
  rw [ofElement] at h
  split at h
  · next number hnumber => exact ⟨number, hnumber⟩
  · cases h

/-- The four slots of a dynamic constant that has a value. -/
theorem exists_parts_of_dynamicOf {namePart typePart handlePart argsPart : Option Element}
    {location : Location} {value : Constant}
    (h : dynamicOf ⟨[namePart, typePart, handlePart, argsPart], location⟩ = .ok value) :
    ∃ (name type : Token) (handle : Group Element) (args : Element) (values : List Constant),
      namePart = some (.identifier name) ∧ typePart = some (.identifier type)
        ∧ (handlePart = some (.array handle) ∧ IsHandle handle)
        ∧ argsPart = some args ∧ argumentsOf name.content args = .ok values := by
  rw [dynamicOf] at h
  obtain ⟨_, hname, h⟩ := bind_eq_ok_iff.mp h
  obtain ⟨_, htype, h⟩ := bind_eq_ok_iff.mp h
  obtain ⟨bootstrap, hbootstrap, h⟩ := bind_eq_ok_iff.mp h
  obtain ⟨name, rfl, rfl⟩ := dynamicPart_eq_ok_iff.mp hname
  obtain ⟨type, rfl, rfl⟩ := dynamicPart_eq_ok_iff.mp htype
  obtain ⟨handle, hhandle⟩ := bootstrapOf_eq_ok_iff.mp ⟨bootstrap, hbootstrap⟩
  cases argsPart with
  | none => cases h
  | some args =>
    obtain ⟨values, hvalues, -⟩ := bind_eq_ok_iff.mp h
    exact ⟨name, type, handle, args, values, rfl, rfl, hhandle, rfl, hvalues⟩

/-- An array that has a value as a dynamic constant has four slots. -/
theorem dynamicOf_ne_ok_of_size {group : Group Element} {value : Constant}
    (hsize : ∀ namePart typePart handlePart argsPart location,
      group = ⟨[namePart, typePart, handlePart, argsPart], location⟩ → False) :
    dynamicOf group ≠ .ok value := by
  intro h
  unfold dynamicOf at h
  split at h
  · exact hsize _ _ _ _ _ rfl
  · cases h

/-- An array that has a value is a dynamic constant or a handle, as its last slot says. -/
theorem ofElement_array_eq_ok {group : Group Element} {value : Constant}
    (h : ofElement (.array group) = .ok value) :
    (dynamicOf group = .ok value
        ∧ ((∃ last, group.last? = some (.array last))
          ∨ ∃ location, group.last? = some (.empty location)))
      ∨ IsHandle group := by
  rw [ofElement] at h
  split at h
  · next last hlast => exact .inl ⟨h, .inl ⟨last, hlast⟩⟩
  · next location hlast => exact .inl ⟨h, .inr ⟨location, hlast⟩⟩
  · split at h
    · next handle hhandle => exact .inr (Handle.ofGroup_eq_ok_iff.mp ⟨handle, hhandle⟩)
    · cases h
  · cases h

theorem isLoadable_of_ok_array {group : Group Element} {value : Constant}
    (hdynamic : dynamicOf group = .ok value → IsLoadable (.array group))
    (h : ofElement (.array group) = .ok value) : IsLoadable (.array group) := by
  obtain ⟨h, -⟩ | hhandle := ofElement_array_eq_ok h
  · exact hdynamic h
  · exact hhandle.isLoadable

/-- Arguments have values from the first to the last, and none of them is a hole. -/
theorem argumentSlots_cons_eq_ok {name : Content} {slot : Option Element}
    {rest : List (Option Element)} {values : List Constant}
    (h : argumentSlots name (slot :: rest) = .ok values) :
    ∃ element first others, slot = some element ∧ ofElement element = .ok first
      ∧ argumentSlots name rest = .ok others := by
  cases slot with
  | none => cases h
  | some element =>
    rw [argumentSlots] at h
    obtain ⟨first, hfirst, h⟩ := bind_eq_ok_iff.mp h
    obtain ⟨others, hothers, -⟩ := bind_eq_ok_iff.mp h
    exact ⟨element, first, others, rfl, hfirst, hothers⟩

/-- An element that is no literal and no array has no value. -/
theorem ofElement_ne_ok_of_kind {element : Element} {value : Constant}
    (hnumber : ∀ token, element = .number token → False)
    (hstring : ∀ token, element = .string token → False)
    (hidentifier : ∀ token, element = .identifier token → False)
    (harray : ∀ group, element = .array group → False) : ofElement element ≠ .ok value := by
  cases element
  case number token => exact absurd rfl (hnumber token)
  case string token => exact absurd rfl (hstring token)
  case identifier token => exact absurd rfl (hidentifier token)
  case array group => exact absurd rfl (harray group)
  all_goals exact nofun

/-- Arguments that are no array and no empty braces have no values. -/
theorem argumentsOf_ne_ok_of_kind {name : Content} {element : Element} {values : List Constant}
    (harray : ∀ slots location, element = .array ⟨slots, location⟩ → False)
    (hempty : ∀ location, element = .empty location → False) :
    argumentsOf name element ≠ .ok values := by
  cases element
  case array group => exact absurd rfl (harray group.slots group.location)
  case empty location => exact absurd rfl (hempty location)
  all_goals exact nofun

/-- What has a value is loadable, along the calls of the functions that compute it. -/
theorem isLoadable_of_ok_all :
    (∀ element value, ofElement element = .ok value → IsLoadable element)
      ∧ (∀ group value, dynamicOf group = .ok value → IsLoadable (.array group))
      ∧ (∀ name element values, argumentsOf name element = .ok values →
          ∃ group, element.array? = some group ∧ AreLoadable group.slots)
      ∧ ∀ name slots values, argumentSlots name slots = .ok values → AreLoadable slots := by
  apply ofElement.mutual_induct
    (fun element => ∀ value, ofElement element = .ok value → IsLoadable element)
    (fun group => ∀ value, dynamicOf group = .ok value → IsLoadable (.array group))
    (fun name element => ∀ values, argumentsOf name element = .ok values →
      ∃ group, element.array? = some group ∧ AreLoadable group.slots)
    (fun name slots => ∀ values, argumentSlots name slots = .ok values → AreLoadable slots)
  -- numbers, which alone may fail to have a value, strings and descriptors
  · intro token number hnumber value h
    exact isLoadable_of_ok_number h
  · intro token fault hfault value h
    exact isLoadable_of_ok_number h
  · intro token value _
    exact IsConstant.isLoadable (.string token) rfl nofun
  · intro token value h
    have hdescriptor := IsConstant.descriptor token (ofIdentifier_eq_ok_iff.mp ⟨value, h⟩)
    exact hdescriptor.isLoadable rfl nofun
  -- arrays, by their last slots
  · intro group last hlast ih value h
    exact isLoadable_of_ok_array (ih value) h
  · intro group location hlast ih value h
    exact isLoadable_of_ok_array (ih value) h
  · intro group token hlast handle hhandle value _
    exact IsHandle.isLoadable (Handle.ofGroup_eq_ok_iff.mp ⟨handle, hhandle⟩)
  · intro group token hlast fault hfault value h
    simp only [ofElement, hlast, hfault] at h
    cases h
  · intro group harray hempty hidentifier value h
    obtain ⟨-, ⟨last, hlast⟩ | ⟨location, hlast⟩⟩ | hhandle := ofElement_array_eq_ok h
    · exact absurd hlast (harray last)
    · exact absurd hlast (hempty location)
    · exact hhandle.isLoadable
  · intro element hnumber hstring hidentifier harray value h
    exact absurd h (ofElement_ne_ok_of_kind hnumber hstring hidentifier harray)
  -- arguments: an array, empty braces, or something else
  · intro name slots location ih values h
    exact ⟨_, rfl, ih values h⟩
  · intro name location values _
    exact ⟨_, rfl, areLoadable_nil⟩
  · intro element name harray hempty values h
    exact absurd h (argumentsOf_ne_ok_of_kind harray hempty)
  -- a dynamic constant, of four slots or of another number
  · intro namePart typePart handlePart argsPart location ih value h
    obtain ⟨name, type, handle, args, values, rfl, rfl, ⟨rfl, hhandle⟩, rfl, hvalues⟩ :=
      exists_parts_of_dynamicOf h
    obtain ⟨group, hgroup, hslots⟩ := ih _ values hvalues
    exact hslots.dynamic hhandle hgroup
  · intro group hsize value h
    exact absurd h (dynamicOf_ne_ok_of_size hsize)
  -- the slots of arguments
  · intro name values _
    exact areLoadable_nil
  · intro name rest values h
    cases h
  · intro name element rest ihelement ihrest values h
    obtain ⟨_, first, others, ⟨⟩, hfirst, hothers⟩ := argumentSlots_cons_eq_ok h
    exact areLoadable_cons.mpr ⟨ihelement first hfirst, ihrest others hothers⟩

/-- Arguments have values if none is a hole and each has a value. -/
theorem argumentSlots_eq_ok {name : Content} {slots : List (Option Element)}
    (hnone : none ∉ slots)
    (hsome : ∀ element, some element ∈ slots → ∃ value, ofElement element = .ok value) :
    ∃ values, argumentSlots name slots = .ok values := by
  induction slots with
  | nil => exact ⟨[], rfl⟩
  | cons slot rest ih =>
    obtain ⟨hslot, hrest⟩ := List.ne_and_not_mem_of_not_mem_cons hnone
    cases slot with
    | none => exact absurd rfl hslot
    | some element =>
      obtain ⟨value, hvalue⟩ := hsome element List.mem_cons_self
      obtain ⟨values, hvalues⟩ := ih hrest fun other hmem =>
        hsome other (List.mem_cons_of_mem _ hmem)
      refine ⟨value :: values, ?_⟩
      rw [argumentSlots, hvalue, hvalues]
      rfl

theorem argumentsOf_of_array? {name : Content} {args : Element} {group : Group Element}
    (h : args.array? = some group) : argumentsOf name args = argumentSlots name group.slots := by
  cases args <;> cases h <;> rfl

/-- An array with arguments in its last slot has the value of a dynamic constant. -/
theorem ofElement_of_args {group arguments : Group Element} {args : Element}
    (hlast : group.last? = some args) (hargs : args.array? = some arguments) :
    ofElement (.array group) = dynamicOf group := by
  cases args <;> cases hargs <;> rw [ofElement, hlast]

/-- A constant has a value if each of its numbers has one. -/
theorem ofElement_eq_ok {element : Element} (h : IsConstant element) :
    (∀ token, HoldsNumber token element → ∃ value, numeralValue token.chars = .ok value) →
      ∃ value, ofElement element = .ok value := by
  induction h with
  | number token =>
    intro hnumbers
    obtain ⟨value, hvalue⟩ := hnumbers token .self
    exact ⟨.number value, by rw [ofElement, hvalue]⟩
  | string token =>
    intro _
    exact ⟨.string token.content, rfl⟩
  | descriptor token hdescriptor =>
    intro _
    exact ofIdentifier_eq_ok_iff.mpr hdescriptor
  | @handle group hgroup =>
    intro _
    obtain ⟨value, hvalue⟩ := Handle.ofGroup_eq_ok_iff.mpr hgroup
    have hlast : ∃ token, group.last? = some (.identifier token) := by
      obtain ⟨⟩ := hgroup
      exact ⟨_, rfl⟩
    obtain ⟨token, hlast⟩ := hlast
    refine ⟨.handle value, ?_⟩
    simp only [ofElement, hlast, hvalue]
  | @dynamic name type handle arguments args location hhandle hargs hnone hsome ih =>
    intro hnumbers
    have harguments : ∀ element, some element ∈ arguments.slots →
        ∃ value, ofElement element = .ok value := by
      intro element hmem
      refine ih element hmem fun token hholds => hnumbers token (.argument ?_ hholds)
      rw [bootstrapSlots_of_array? hargs]
      exact hmem
    have hslots : ∃ values, argumentSlots name.content arguments.slots = .ok values :=
      argumentSlots_eq_ok hnone harguments
    have hhandles : ∃ bootstrap, bootstrapOf name.content (some (.array handle)) = .ok bootstrap :=
      bootstrapOf_eq_ok_iff.mpr ⟨handle, rfl, hhandle⟩
    obtain ⟨values, hvalues⟩ := hslots
    obtain ⟨bootstrap, hbootstrap⟩ := hhandles
    rw [← argumentsOf_of_array? hargs] at hvalues
    refine ⟨.dynamic name.content type.content bootstrap values, ?_⟩
    rw [ofElement_of_args rfl hargs, dynamicOf]
    -- one part after the other
    refine bind_eq_ok_iff.mpr ⟨_, rfl, bind_eq_ok_iff.mpr ⟨_, rfl, ?_⟩⟩
    exact bind_eq_ok_iff.mpr ⟨bootstrap, hbootstrap, bind_eq_ok_iff.mpr ⟨values, hvalues, rfl⟩⟩

/-- An element has a value exactly if it is a constant and each of its numbers has one. -/
theorem ofElement_eq_ok_iff {element : Element} :
    (∃ value, ofElement element = .ok value) ↔ IsLoadable element := by
  constructor
  · rintro ⟨value, h⟩
    exact isLoadable_of_ok_all.1 element value h
  · rintro ⟨hconstant, hnumbers⟩
    exact ofElement_eq_ok hconstant hnumbers

end Constant

/-! ### The agreement -/

/-- **Checking and computing a constant agree.**  In any session, if the check appends no
error, the element has a value exactly if all numbers that it holds have one.  If the
element has a value, the check appends nothing but errors about too deep nesting, and no
error at all if the depth leaves as many levels as the element needs.  An array passes the
check of a handle exactly if a handle can be read from it, whatever its tokens contain. -/
theorem constant_check_agrees_with_value :
    (∀ (element : Element) (session : Session),
        ((Check.constant element).run session).2.report.errors = session.report.errors →
        ((∃ value, Constant.ofElement element = .ok value)
          ↔ ∀ token, HoldsNumber token element → ∃ value, numeralValue token.chars = .ok value))
      ∧ (∀ (element : Element) (value : Constant) (session : Session),
        Constant.ofElement element = .ok value →
        ∃ found, ((Check.constant element).run session).2.report.errors
            = session.report.errors ++ found
          ∧ (∀ error ∈ found, error.IsTooDeep)
          ∧ (session.depth + constantHeight element ≤ maxNesting → found = []))
      ∧ ∀ (group : Group Element) (session : Session),
        ((Check.handleGroup group).run session).2.report.errors = session.report.errors
          ↔ ∃ handle, Handle.ofGroup group = .ok handle := by
  refine ⟨?_, ?_, ?_⟩
  · intro element session h
    have hconstant : IsConstant element :=
      Check.isConstant_of_silent
        ((Check.orderly_constant element).errors_run_eq_iff session |>.mp h)
    rw [Constant.ofElement_eq_ok_iff]
    exact ⟨fun hloadable => hloadable.2, fun hnumbers => ⟨hconstant, hnumbers⟩⟩
  · intro element value session h
    have hconstant : IsConstant element := (Constant.ofElement_eq_ok_iff.mp ⟨value, h⟩).1
    have hfound := Check.errors_found_constant hconstant session.depth
    refine ⟨_, (Check.orderly_constant element).errors_run session, ?_, ?_⟩
    · intro error herror
      exact (hfound error herror).1
    · intro hle
      refine List.eq_nil_iff_forall_not_mem.mpr fun error herror => ?_
      exact absurd hle (Nat.not_le.mpr (hfound error herror).2)
  · intro group session
    rw [(Check.orderly_handleGroup group).errors_run_eq_iff, Check.silent_handleGroup,
      Handle.ofGroup_eq_ok_iff]

/-- A dynamic constant with a number and a handle as its arguments. -/
def dynamicSample : Element :=
  let location : Location := ⟨1, 1, "t"⟩
  let identifier (text : String) : Option Element :=
    some (.identifier ⟨.identifier, Content.ofString text, location⟩)
  let handle : Option Element :=
    some (.array ⟨[identifier "getstatic", identifier "A.b", identifier "I"], location⟩)
  let number : Option Element := some (.number ⟨.number, Content.ofString "1", location⟩)
  .array ⟨[identifier "value", identifier "I", handle, some (.array ⟨[number, handle], location⟩)],
    location⟩

/-- The sample passes the check and has a value, as both sides of the agreement say. -/
theorem constant_check_agrees_on_dynamicSample :
    (((Check.constant dynamicSample).run {}).2.report.errors = []
        ∧ ((∃ value, Constant.ofElement dynamicSample = .ok value)
          ↔ ∀ token, HoldsNumber token dynamicSample →
            ∃ value, numeralValue token.chars = .ok value))
      ∧ ∃ value, Constant.ofElement dynamicSample = .ok value
        ∧ ∃ found, ((Check.constant dynamicSample).run {}).2.report.errors = [] ++ found
          ∧ (∀ error ∈ found, error.IsTooDeep)
          ∧ (0 + constantHeight dynamicSample ≤ maxNesting → found = []) := by
  have hsilent : ((Check.constant dynamicSample).run {}).2.report.errors = [] := by decide
  refine ⟨⟨hsilent, constant_check_agrees_with_value.1 dynamicSample {} hsilent⟩, _, rfl, ?_⟩
  exact constant_check_agrees_with_value.2.1 dynamicSample _ {} rfl

end JvmAssembly
