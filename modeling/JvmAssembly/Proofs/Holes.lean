/-
JvmAssembly/Proofs/Holes.lean

Holes in programs that are accepted.

A hole is a slot with nothing in it.  Wherever something is expected, a hole is an error,
so one might think that a program without errors has no holes.  This is so with one
exception: behind the slots that an attribute has, elements are reported and holes are
not.  `accepted_holes_are_surplus` says that there are no other holes, and that a hole at
such a place makes no difference; `holeSample_accepted` is a program with one.

The slots that count are those that are read.  These are all slots inside a program,
except that of the body of a method only `parameters` and `code` are read.  An element is
`Tidy` if all holes inside it are surplus.  Tidiness follows the grammar of programs, one
rule after the other.
-/
import Mathlib.Data.List.Nodup
import JvmAssembly.InstructionSet.Jvm
import JvmAssembly.Proofs.NestingBound
import JvmAssembly.Proofs.ProgramAcceptance
import JvmAssembly.Proofs.SwitchForms
import JvmAssembly.Proofs.ValueForms

namespace JvmAssembly

open Resolve

/-! ### Slots -/

/-- The slots of the code of a method that was resolved before. -/
def MethodNode.codeSlots (node : MethodNode Element) : List (Option Element) :=
  (node.code.map Group.slots).getD []

/-- The values that the body of a method is read for. -/
def Object.bodyValues (body : Object Element) : List (Option Element) :=
  (body.pairs.filter fun pair => pair.key.text = "parameters" ∨ pair.key.text = "code").map
    Entry.value

/-- The number of slots of a declaration that has a fixed number of them. -/
def DeclarationKind.slotCount? : DeclarationKind → Option Nat
  | superDecl => some 1
  | interfaceDecl => some 1
  | member .signatureDecl => some 1
  | enumDecl => some 2
  | member .annotationDecl => some 2
  | _ => none

namespace Element

/-- The slots of an element, holes included. -/
def slots : Element → List (Option Element)
  | declaration d => d.slots
  | array group => group.slots
  | object o => o.pairs.map Entry.value
  | code group => group.slots
  | instruction i => i.arguments
  | classNode node => node.methods.flatMap MethodNode.codeSlots
  | methodNode node => node.codeSlots
  | _ => []

/-- What is read of the last slot of a method. -/
def bodyRead : Option Element → List (Option Element)
  | some (object body) => body.bodyValues
  | slot => [slot]

/-- The slots of an element that are read.  In place of its body, a method has the values that
the body is read for. -/
def readSlots (element : Element) : List (Option Element) :=
  match element.declared? with
  | some (.member .methodDecl, method) =>
    method.slots.dropLast ++ method.slots.getLast?.toList.flatMap bodyRead
  | _ => element.slots

/-- An element that is read somewhere inside another one. -/
inductive Within : Element → Element → Prop
  | self (element : Element) : Within element element
  | slot {part inner whole : Element} (h : Within part whole)
      (hslot : some inner ∈ part.readSlots) : Within inner whole

/-- A slot behind those that a declaration of this kind has. -/
def IsSurplus (element : Element) (index : Nat) : Prop :=
  ∃ declared count, element.declared? = some declared
    ∧ declared.1.slotCount? = some count ∧ count ≤ index

/-- Inside the element, only surplus slots are holes. -/
inductive Tidy : Element → Prop
  | mk {element : Element}
      (holes : ∀ index, element.readSlots[index]? = some none → element.IsSurplus index)
      (parts : ∀ part, some part ∈ element.readSlots → Tidy part) : Tidy element

theorem Tidy.within {part whole : Element} (h : whole.Tidy) (hpart : part.Within whole) :
    part.Tidy := by
  induction hpart with
  | self => exact h
  | slot _ hslot ih =>
    obtain ⟨-, hparts⟩ := ih h
    exact hparts _ hslot

end Element

open Element

/-- Slots that are all filled with tidy elements. -/
def Filled (slots : List (Option Element)) : Prop :=
  ∀ slot ∈ slots, ∃ element, slot = some element ∧ element.Tidy

theorem Filled.not_mem_none {slots : List (Option Element)} (h : Filled slots) :
    none ∉ slots := by
  intro hmem
  obtain ⟨element, helement, -⟩ := h none hmem
  cases helement

theorem Filled.tidy {slots : List (Option Element)} (h : Filled slots) {element : Element}
    (hmem : some element ∈ slots) : element.Tidy := by
  obtain ⟨_, ⟨⟩, htidy⟩ := h (some element) hmem
  exact htidy

theorem filled_of_tidy {slots : List (Option Element)} (hnone : none ∉ slots)
    (hsome : ∀ element, some element ∈ slots → element.Tidy) : Filled slots := by
  intro slot hslot
  cases slot with
  | none => exact absurd hslot hnone
  | some element => exact ⟨element, rfl, hsome element hslot⟩

theorem filled_nil : Filled [] :=
  fun _ hmem => absurd hmem List.not_mem_nil

theorem Filled.cons {element : Element} {slots : List (Option Element)} (h : element.Tidy)
    (hslots : Filled slots) : Filled (some element :: slots) :=
  List.forall_mem_cons.mpr ⟨⟨element, rfl, h⟩, hslots⟩

theorem Filled.append {front back : List (Option Element)} (hfront : Filled front)
    (hback : Filled back) : Filled (front ++ back) :=
  List.forall_mem_append.mpr ⟨hfront, hback⟩

/-- Slots that are made from a list are filled if each of them is. -/
theorem Filled.map {α : Type} {as : List α} {slot : α → Option Element}
    (h : ∀ a ∈ as, ∃ element, slot a = some element ∧ element.Tidy) : Filled (as.map slot) :=
  List.forall_mem_map.mpr h

/-! ### Tidy elements -/

/-- An element is tidy if the slots that are read of it are filled. -/
theorem tidy_of_filled {element : Element} (h : Filled element.readSlots) : element.Tidy := by
  refine .mk (fun index hindex => ?_) fun part hpart => h.tidy hpart
  exact absurd (List.mem_of_getElem? hindex) h.not_mem_none

theorem tidy_leaf {element : Element} (h : element.readSlots = []) : element.Tidy := by
  refine tidy_of_filled ?_
  rw [h]
  exact filled_nil

theorem tidy_of_isLiteral {element : Element} (h : element.isLiteral) : element.Tidy := by
  cases element
  case identifier | number | string | bool => exact tidy_leaf rfl
  all_goals cases h

theorem tidy_of_name? {element : Element} {token : Token} (h : element.name? = some token) :
    element.Tidy := by
  cases element <;> cases h
  · exact tidy_leaf rfl
  · exact tidy_leaf rfl

theorem tidy_of_array? {element : Element} {group : Group Element}
    (h : element.array? = some group) (hslots : Filled group.slots) : element.Tidy := by
  cases element <;> cases h
  · exact tidy_of_filled hslots
  · exact tidy_leaf rfl

theorem tidy_of_code? {element : Element} {group : Group Element}
    (h : element.code? = some group) (hslots : Filled group.slots) : element.Tidy := by
  cases element <;> cases h
  · exact tidy_leaf rfl
  · exact tidy_of_filled hslots

/-- An object is tidy if each of its values is there and tidy. -/
theorem tidy_of_object? {element : Element} {object : Object Element}
    (h : element.object? = some object)
    (hpairs : ∀ pair ∈ object.pairs, ∃ value, pair.value = some value ∧ value.Tidy) :
    element.Tidy := by
  cases element <;> cases h
  · exact tidy_of_filled (Filled.map hpairs)
  · exact tidy_leaf rfl

theorem filled_identifiers (tokens : List Token) :
    Filled (tokens.map fun token => some (.identifier token)) :=
  Filled.map fun _ _ => ⟨_, rfl, tidy_leaf rfl⟩

theorem tidy_of_areIdentifiers {element : Element} (h : AreIdentifiers element) :
    element.Tidy := by
  obtain ⟨tokens, group, hgroup, hslots⟩ := h
  refine tidy_of_array? hgroup ?_
  rw [hslots]
  exact filled_identifiers tokens

/-- All slots of a declaration are read, unless it declares a method. -/
theorem readSlots_declaration {declaration : Declaration Element}
    (h : declaration.kind? ≠ some (.member .methodDecl)) :
    (Element.declaration declaration).readSlots = declaration.slots := by
  have hdeclared : (Element.declaration declaration).declared?
      = declaration.kind?.map fun kind => (kind, declaration) := rfl
  unfold Element.readSlots
  rw [hdeclared]
  cases hkind : declaration.kind? with
  | none => rfl
  | some kind =>
    cases kind with
    | member kind =>
      cases kind with
      | methodDecl => exact absurd hkind h
      | fieldDecl | annotationDecl | signatureDecl => rfl
    | classDecl | superDecl | interfaceDecl | enumDecl => rfl

/-- Of a method, the slots in front of its body are read, and of the body the slots of its
values. -/
theorem readSlots_method {declaration : Declaration Element} {front : List (Option Element)}
    {slot : Option Element} (hkind : declaration.kind? = some (.member .methodDecl))
    (hslots : declaration.slots = front ++ [slot]) :
    (Element.declaration declaration).readSlots = front ++ bodyRead slot := by
  have hdeclared : (Element.declaration declaration).declared?
      = some (.member .methodDecl, declaration) :=
    Element.declared?_eq_some_iff.mpr ⟨rfl, hkind⟩
  unfold Element.readSlots
  rw [hdeclared]
  simp [hslots]

/-- A declaration other than a method is tidy if its slots are filled. -/
theorem tidy_declaration {declaration : Declaration Element}
    (h : declaration.kind? ≠ some (.member .methodDecl)) (hslots : Filled declaration.slots) :
    (Element.declaration declaration).Tidy := by
  refine tidy_of_filled ?_
  rw [readSlots_declaration h]
  exact hslots

/-- Behind the slots that a declaration has, there may be holes. -/
theorem tidy_of_surplus {declaration : Declaration Element} {kind : DeclarationKind}
    {front rest : List (Option Element)} (hkind : declaration.kind? = some kind)
    (hfront : Filled front) (hcount : kind.slotCount? = some front.length)
    (hslots : declaration.slots = front ++ rest) (hrest : ∀ slot ∈ rest, slot = none) :
    (Element.declaration declaration).Tidy := by
  have hread : (Element.declaration declaration).readSlots = front ++ rest := by
    rw [readSlots_declaration, hslots]
    rw [hkind]
    rintro ⟨⟩
    cases hcount
  refine .mk (fun index hindex => ?_) fun part hpart => ?_
  · rw [hread] at hindex
    refine ⟨(kind, declaration), _, Element.declared?_eq_some_iff.mpr ⟨rfl, hkind⟩, hcount, ?_⟩
    -- a hole in front of the surplus would be a hole among slots that are filled
    by_contra hlt
    rw [List.getElem?_append_left (Nat.lt_of_not_le hlt)] at hindex
    exact hfront.not_mem_none (List.mem_of_getElem? hindex)
  · rw [hread] at hpart
    rcases List.mem_append.mp hpart with hpart | hpart
    · exact hfront.tidy hpart
    · cases hrest _ hpart

/-! ### Attributes -/

/-- Declarations with a single identifier are tidy: holes behind the identifier are surplus. -/
theorem tidy_of_isSingle {declaration : Declaration Element} {kind : DeclarationKind}
    (hkind : declaration.kind? = some kind) (hcount : kind.slotCount? = some 1)
    (h : IsSingle declaration) : (Element.declaration declaration).Tidy := by
  obtain ⟨token, rest, hslots, hrest⟩ := h
  have hfront : Filled [some (.identifier token)] := .cons (tidy_leaf rfl) filled_nil
  exact tidy_of_surplus hkind hfront hcount hslots hrest

theorem tidy_of_isEnumConstant {declaration : Declaration Element}
    (hkind : declaration.kind? = some .enumDecl) (h : IsEnumConstant declaration) :
    (Element.declaration declaration).Tidy := by
  obtain ⟨type, name, rest, hslots, hrest⟩ := h
  have hfront : Filled [some (.identifier type), some (.identifier name)] :=
    .cons (tidy_leaf rfl) (.cons (tidy_leaf rfl) filled_nil)
  exact tidy_of_surplus hkind hfront rfl hslots hrest

/-- Annotations are tidy if their values are. -/
theorem tidy_of_hasValues {declaration : Declaration Element}
    (hkind : declaration.kind? = some (.member .annotationDecl))
    (h : HasValues Tidy declaration) : (Element.declaration declaration).Tidy := by
  obtain ⟨type, values, object, rest, hslots, hrest, hobject, -, hpairs⟩ := h
  have hvalues : values.Tidy :=
    tidy_of_object? hobject fun pair hpair => (hpairs pair hpair).2
  have hfront : Filled [some (.identifier type), some values] :=
    .cons (tidy_leaf rfl) (.cons hvalues filled_nil)
  exact tidy_of_surplus hkind hfront rfl hslots hrest

/-- What is accepted as a value in an annotation is tidy, at every level. -/
theorem tidy_of_isValue {element : Element} (h : IsValue element) : element.Tidy := by
  induction h with
  | number | string | bool | type | empty => exact tidy_leaf rfl
  | array hnone _ ih => exact tidy_of_filled (filled_of_tidy hnone ih)
  | single location _ ih =>
    refine tidy_declaration (fun h => ?_) (.cons ih filled_nil)
    cases h
  | enum hkind h => exact tidy_of_isEnumConstant hkind h
  | nested hkind hslots hrest hobject hdistinct hkeys hnone _ ih =>
    refine tidy_of_hasValues hkind ⟨_, _, _, _, hslots, hrest, hobject, hdistinct, ?_⟩
    intro pair hpair
    obtain ⟨element, hvalue⟩ := Option.ne_none_iff_exists'.mp (hnone pair hpair)
    exact ⟨hkeys pair hpair, element, hvalue, ih pair hpair element hvalue⟩

theorem tidy_of_isAnnotation {declaration : Declaration Element}
    (hkind : declaration.kind? = some (.member .annotationDecl)) (h : IsAnnotation declaration) :
    (Element.declaration declaration).Tidy :=
  tidy_of_hasValues hkind (HasValues.mono h fun _ hsilent =>
    tidy_of_isValue (isValue_of_silent hsilent))

/-! ### Arguments of instructions -/

theorem tidy_of_isHandle {group : Group Element} (h : IsHandle group) :
    (Element.array group).Tidy := by
  obtain ⟨_, keyword, name, descriptor, _, _⟩ := h
  exact tidy_of_filled (.cons (tidy_leaf rfl) (.cons (tidy_leaf rfl)
    (.cons (tidy_leaf rfl) filled_nil)))

/-- Constants are tidy, at every level. -/
theorem tidy_of_isConstant {element : Element} (h : IsConstant element) : element.Tidy := by
  induction h with
  | number | string | descriptor => exact tidy_leaf rfl
  | handle h => exact tidy_of_isHandle h
  | dynamic name type location hhandle hargs hnone _ ih =>
    have hargs := tidy_of_array? hargs (filled_of_tidy hnone ih)
    exact tidy_of_filled (.cons (tidy_leaf rfl) (.cons (tidy_leaf rfl)
      (.cons (tidy_of_isHandle hhandle) (.cons hargs filled_nil))))

theorem tidy_of_isTableSwitch {element : Element} {object : Object Element}
    (hobject : element.object? = some object) (h : IsTableSwitch object) : element.Tidy := by
  refine tidy_of_object? hobject fun pair hpair => ?_
  -- the value of a pair is the one that is found under its key
  have hvalue : ∀ {key value}, object.value? key = some value → pair.key.text = key →
      pair.value = some value := by
    intro key value hvalue hkey
    obtain ⟨other, hother, hvalue⟩ := Option.bind_eq_some_iff.mp hvalue
    obtain rfl := eq_of_get?_eq_some h.distinct hother hpair hkey
    exact hvalue
  have hkey := h.keys pair hpair
  simp only [tableSwitchKeys, List.mem_cons, List.not_mem_nil, or_false] at hkey
  rcases hkey with hkey | hkey | hkey | hkey
  · obtain ⟨_, hbound, ⟨_⟩⟩ := h.min
    exact ⟨_, hvalue hbound hkey, tidy_leaf rfl⟩
  · obtain ⟨_, hbound, ⟨_⟩⟩ := h.max
    exact ⟨_, hvalue hbound hkey, tidy_leaf rfl⟩
  · obtain ⟨token, hdefault⟩ := h.default
    exact ⟨_, hvalue hdefault hkey, tidy_leaf rfl⟩
  · obtain ⟨labels, hlabels, hidentifiers⟩ := h.cases
    exact ⟨labels, hvalue hlabels hkey, tidy_of_areIdentifiers hidentifiers⟩

theorem tidy_of_isLookupSwitch {element : Element} {object : Object Element}
    (hobject : element.object? = some object) (h : IsLookupSwitch object) : element.Tidy := by
  refine tidy_of_object? hobject fun pair hpair => ?_
  obtain ⟨token, htoken⟩ := h.labels pair hpair
  exact ⟨_, htoken, tidy_leaf rfl⟩

theorem tidy_of_silent_identifier {expected : String} {element : Element} {depth : Nat}
    (h : (do let _ ← (Expect.identifier expected element).run : Check Unit).Silent depth) :
    element.Tidy := by
  rw [Expect.identifier_eq, Check.silent_map (Expect.orderly_viewed _ _),
    Expect.silent_viewed] at h
  obtain ⟨token, htoken⟩ := h
  cases element <;> cases htoken
  exact tidy_leaf rfl

/-- The kinds of arguments that every format has accept identifiers and literals, which have no
slots. -/
theorem tidy_of_silent_default {operand : DefaultOperand} {element : Element} {depth : Nat}
    (h : (operand.verify element).Silent depth) : element.Tidy := by
  cases operand with
  | string =>
    unfold DefaultOperand.verify at h
    rw [Expect.string_eq, Check.silent_map (Expect.orderly_viewed _ _), Expect.silent_viewed] at h
    obtain ⟨token, htoken⟩ := h
    cases element <;> cases htoken
    exact tidy_leaf rfl
  | integer =>
    have hinteger := (Check.silent_map (Expect.strict_integer "integer" element).orderly _).mp h
    obtain ⟨_⟩ := (Check.silent_integer "integer" element).mp hinteger
    exact tidy_leaf rfl
  | identifier => exact tidy_of_silent_identifier h
  | literal =>
    have hliteral := (silent_onlyIf_error _ _ _).mp h
    exact tidy_of_isLiteral (by simpa using hliteral)
  | label => exact tidy_of_silent_identifier h

/-- An argument that its operand accepts is tidy. -/
theorem tidy_of_silent_verify {operand : Operand} {element : Element} {depth : Nat}
    (h : (operand.verify element).Silent depth) : element.Tidy := by
  cases operand with
  | default operand => exact tidy_of_silent_default h
  | constant => exact tidy_of_isConstant (Check.isConstant_of_silent h)
  | handle =>
    obtain ⟨group, rfl, hgroup⟩ := Check.silent_handle_iff.mp h
    exact tidy_of_isHandle hgroup
  | tableSwitch =>
    obtain ⟨object, hobject, hform⟩ := (Check.silent_tableSwitch element).mp h
    exact tidy_of_isTableSwitch hobject hform
  | lookupSwitch =>
    obtain ⟨object, hobject, hform⟩ := (Check.silent_lookupSwitch element).mp h
    exact tidy_of_isLookupSwitch hobject hform
  | args =>
    obtain ⟨⟨group, hgroup, hnone, hsome⟩, -⟩ := Check.silent_args_iff_isArgs.mp h
    exact tidy_of_array? hgroup
      (filled_of_tidy hnone fun element hmem => tidy_of_isConstant (hsome element hmem))
  | type => exact tidy_of_silent_identifier h
  | newArrayType =>
    cases element
    case identifier token => exact tidy_leaf rfl
    all_goals cases h

/-! ### Members and classes -/

/-- Slots that belong to the members of a list one by one. -/
theorem filled_of_forall₂ {α : Type} {rule : Option Element → α → Prop}
    {slots : List (Option Element)} {as : List α} (h : List.Forall₂ rule slots as)
    (hrule : ∀ {slot a}, rule slot a → ∃ element, slot = some element ∧ element.Tidy) :
    Filled slots := by
  induction h with
  | nil => exact filled_nil
  | cons hslot _ ih => exact List.forall_mem_cons.mpr ⟨hrule hslot, ih⟩

/-- A hole among modifiers is not accepted. -/
theorem filled_of_areModifiers {target : ModifierTarget} {slots : List (Option Element)}
    {modifiers : Modifiers} (h : AreModifiers target slots modifiers) : Filled slots := by
  refine filled_of_forall₂ h ?_
  rintro _ _ ⟨_, _⟩
  exact ⟨_, rfl, tidy_leaf rfl⟩

/-- A hole in place of the value of a field is not accepted. -/
theorem filled_of_isFieldValue {values : List (Option Element)} {value : Option FieldValue}
    (h : IsFieldValue values value) : Filled values := by
  cases h with
  | none => exact filled_nil
  | number | string => exact .cons (tidy_leaf rfl) filled_nil
  | objectNumber | objectString =>
    exact .cons (tidy_of_filled (.cons (tidy_leaf rfl) filled_nil)) filled_nil

theorem tidy_of_isField {declaration : Declaration Element} {node : FieldNode}
    (hkind : declaration.kind? = some (.member .fieldDecl)) (h : IsField declaration node) :
    (Element.declaration declaration).Tidy := by
  obtain ⟨modifiers, name, values, hslots, hmodifiers, hname, hvalues, -⟩ := h
  refine tidy_declaration (by rw [hkind]; decide) ?_
  rw [hslots]
  exact (filled_of_areModifiers hmodifiers).append
    (.cons (tidy_of_name? hname) (.cons (tidy_leaf rfl) (filled_of_isFieldValue hvalues)))

/-- A hole in code, or among the arguments of an instruction, is not accepted. -/
theorem filled_of_isCode {set : InstructionSet Operand} {slots : List (Option Element)}
    (h : IsCode set slots) : Filled slots := by
  intro slot hslot
  cases h.each slot hslot with
  | label => exact ⟨_, rfl, tidy_leaf rfl⟩
  | @instruction instruction hinstruction =>
    obtain ⟨operands, -, harguments⟩ := hinstruction
    refine ⟨_, rfl, tidy_of_filled (filled_of_forall₂ harguments.flip ?_)⟩
    rintro _ operand ⟨element, rfl, hsilent⟩
    exact ⟨element, rfl, tidy_of_silent_verify hsilent⟩

/-- The values that the body of a method is read for are filled. -/
theorem filled_bodyValues {set : InstructionSet Operand} {body : Object Element}
    {parameters : List Token} {code : Option (Group Element)} (hdistinct : DistinctKeys body)
    (hparameters : HasParameters body parameters) (hcode : HasCode set body code) :
    Filled body.bodyValues := by
  refine Filled.map fun pair hpair => ?_
  obtain ⟨hpair, hkey⟩ := List.mem_filter.mp hpair
  -- no other pair has the same key
  have hunique : ∀ {other}, other ∈ body.pairs → other.key.text = pair.key.text → other = pair :=
    fun hother hsame => List.inj_on_of_nodup_map hdistinct hother hpair hsame
  rcases of_decide_eq_true hkey with hkey | hkey
  · cases hparameters with
    | absent habsent => exact absurd hkey (habsent pair hpair)
    | present hmem hkey' hvalue harray htokens =>
      obtain rfl := hunique hmem (hkey'.trans hkey.symm)
      exact ⟨_, hvalue, tidy_of_areIdentifiers ⟨_, _, harray, htokens⟩⟩
  · cases hcode with
    | absent habsent => exact absurd hkey (habsent pair hpair)
    | present hmem hkey' hvalue hcode hslots =>
      obtain rfl := hunique hmem (hkey'.trans hkey.symm)
      exact ⟨_, hvalue, tidy_of_code? hcode (filled_of_isCode hslots)⟩

/-- Methods that are accepted are tidy, their code included. -/
theorem tidy_of_isMethod {set : InstructionSet Operand} {declaration : Declaration Element}
    {node : MethodNode Element} (hkind : declaration.kind? = some (.member .methodDecl))
    (h : IsMethod set declaration node) : (Element.declaration declaration).Tidy := by
  obtain ⟨modifiers, name, element, body, hslots, hmodifiers, hname, hobject, hdistinct,
    hparameters, hcode, -⟩ := h
  have hfront : Filled (modifiers ++ [some name, some (.identifier node.descriptor)]) :=
    (filled_of_areModifiers hmodifiers).append
      (.cons (tidy_of_name? hname) (.cons (tidy_leaf rfl) filled_nil))
  have hsplit : declaration.slots
      = (modifiers ++ [some name, some (.identifier node.descriptor)]) ++ [some element] := by
    rw [hslots]
    simp
  refine tidy_of_filled ?_
  rw [readSlots_method hkind hsplit]
  cases element <;> cases hobject
  · exact hfront.append (filled_bodyValues hdistinct hparameters hcode)
  · exact hfront.append (.cons (tidy_leaf rfl) filled_nil)

/-- A well-formed declaration of the body of a class is tidy. -/
theorem tidy_of_isBodyDeclaration {set : InstructionSet Operand} {declared : Declared}
    (hkind : declared.2.kind? = some declared.1) (hmember : declared.1.isMember)
    (h : IsBodyDeclaration set declared) : (Element.declaration declared.2).Tidy := by
  obtain ⟨kind, declaration⟩ := declared
  cases kind with
  | member kind =>
    cases kind with
    | fieldDecl =>
      obtain ⟨node, hnode⟩ := exists_isMember_field.mp h
      exact tidy_of_isField hkind hnode
    | methodDecl =>
      obtain ⟨node, hnode⟩ := exists_isMember_method.mp h
      exact tidy_of_isMethod hkind hnode
    | annotationDecl => exact tidy_of_isAnnotation hkind h
    | signatureDecl => exact tidy_of_isSingle hkind rfl h
  | classDecl | superDecl | interfaceDecl | enumDecl => cases hmember

theorem tidy_of_isClass {set : InstructionSet Operand} {declaration : Declaration Element}
    {node : ClassNode Element} (hkind : declaration.kind? = some .classDecl)
    (h : IsClass set declaration node) : (Element.declaration declaration).Tidy := by
  obtain ⟨modifiers, name, body, members, hslots, hkeyword, hmodifiers, hname, hbody, -⟩ := h
  have hnoKind : body.kind? = none := by
    unfold Declaration.kind? Declaration.keywordName?
    rw [hkeyword]
    rfl
  have hmembers : Filled body.slots := by
    intro slot hslot
    obtain ⟨declared, hdeclared, hform⟩ := hbody.declarations slot hslot
    obtain ⟨rfl, hkind, hmember⟩ := memberDeclared?_eq_some_iff.mp hdeclared
    exact ⟨_, rfl, tidy_of_isBodyDeclaration hkind hmember hform⟩
  refine tidy_declaration (by rw [hkind]; decide) ?_
  rw [hslots]
  exact (filled_of_areModifiers hmodifiers).append
    (.cons (tidy_of_name? hname) (.cons (tidy_declaration (by rw [hnoKind]; decide) hmembers)
      filled_nil))

/-- A well-formed declaration of the top level is tidy. -/
theorem tidy_of_isTopDeclaration {set : InstructionSet Operand} {declared : Declared}
    (hkind : declared.2.kind? = some declared.1) (htop : declared.1.isTopLevel)
    (h : IsTopDeclaration set declared) : (Element.declaration declared.2).Tidy := by
  obtain ⟨kind, declaration⟩ := declared
  cases kind with
  | classDecl =>
    obtain ⟨node, hnode⟩ := exists_isNode_class.mp h
    exact tidy_of_isClass hkind hnode
  | superDecl | interfaceDecl => exact tidy_of_isSingle hkind rfl h
  | enumDecl => cases htop
  | member kind =>
    cases kind with
    | fieldDecl | methodDecl =>
      exact tidy_of_isBodyDeclaration hkind rfl (exists_isNode_member.mp h)
    | annotationDecl => exact tidy_of_isAnnotation hkind h
    | signatureDecl => exact tidy_of_isSingle hkind rfl h

/-- What a program without errors consists of. -/
theorem declarations_of_isOk {set : InstructionSet Operand} {program : List Element}
    (h : (resolve set program).isOk) :
    ∀ element ∈ program,
      ∃ declared, topDeclares element = some declared ∧ IsTopDeclaration set declared := by
  have hsilent : (sequence (topItem set) {} program).Silent 0 := by
    rw [resolve_eq, topSequence_eq] at h
    simpa [Resolution.isOk, Report.hasErrors, Check.Silent] using h
  exact ((top_forms set).silent_sequence program |>.mp hsilent).1

/-! ### Surplus holes -/

namespace Declaration

/-- The declaration with a hole behind its last slot. -/
def withHole (declaration : Declaration Element) : Declaration Element :=
  { declaration with slots := declaration.slots ++ [none] }

/-- A hole has no element, like a slot that is not there. -/
theorem get?_withHole (declaration : Declaration Element) (index : Nat) :
    declaration.withHole.get? index = declaration.get? index := by
  show (declaration.slots ++ [none])[index]?.join = declaration.slots[index]?.join
  rcases Nat.lt_or_ge index declaration.slots.length with hlt | hge
  · rw [List.getElem?_append_left hlt]
  · rw [List.getElem?_append_right hge, List.getElem?_eq_none hge]
    cases index - declaration.slots.length <;> rfl

end Declaration

namespace Resolve

variable (declaration : Declaration Element)

/-- A hole behind the slots of a declaration is not reported. -/
theorem noMore_withHole (count : Nat) :
    noMore declaration.withHole count = noMore declaration count := by
  have hname : declaration.withHole.keywordName? = declaration.keywordName? := rfl
  unfold noMore
  rw [hname]
  show ((declaration.slots ++ [none]).drop count).forM _ = (declaration.slots.drop count).forM _
  rw [List.forM_eq_forM, List.drop_append, List.forM_append]
  cases count - declaration.slots.length <;> simp

theorem identifierArgument_withHole (index : Nat) (expected : String) :
    identifierArgument declaration.withHole index expected
      = identifierArgument declaration index expected := by
  unfold identifierArgument argument
  rw [declaration.get?_withHole]
  rfl

theorem singleIdentifier_withHole (expected : String) :
    singleIdentifier declaration.withHole expected = singleIdentifier declaration expected := by
  unfold singleIdentifier
  rw [identifierArgument_withHole, noMore_withHole]

theorem annotationEntries_withHole :
    annotationEntries declaration.withHole.slots = annotationEntries declaration.slots := by
  show annotationEntries (declaration.slots ++ [none]) = _
  match declaration.slots with
  | [] | [_] | _ :: none :: _ => rfl
  | _ :: some element :: _ => cases element <;> rfl

/-- An annotation is resolved to the same with a hole behind its slots. -/
theorem annotationNode_withHole :
    annotationNode declaration.withHole = annotationNode declaration := by
  have hvalues : valuesArgument declaration.withHole = valuesArgument declaration := by
    unfold valuesArgument argument
    rw [declaration.get?_withHole]
    rfl
  have hrest : annotationRest declaration.withHole = annotationRest declaration := by
    funext type object
    cases object with
    | none => rfl
    | some object =>
      unfold annotationRest
      rw [annotationEntries_withHole]
      rfl
  rw [annotationNode_eq, annotationNode_eq, identifierArgument_withHole, noMore_withHole, hvalues,
    hrest]

/-- A hole behind the slots of an attribute is not seen. -/
theorem topItem_withHole {kind : DeclarationKind} (hkind : declaration.kind? = some kind)
    (hcount : kind.slotCount?.isSome) (set : InstructionSet Operand) (pending : Pending) :
    topItem set pending (.declaration declaration.withHole)
      = topItem set pending (.declaration declaration) := by
  have hkind' : declaration.withHole.kind? = some kind := hkind
  rw [topItem_of_kind hkind, topItem_of_kind hkind']
  cases kind with
  | classDecl => cases hcount
  | superDecl => simp only [topLevel, singleIdentifier_withHole]
  | interfaceDecl => simp only [topLevel, singleIdentifier_withHole]
  | enumDecl => rfl
  | member kind =>
    cases kind with
    | fieldDecl | methodDecl => cases hcount
    | annotationDecl => simp only [topLevel, member, annotationNode_withHole]
    | signatureDecl => simp only [topLevel, member, singleIdentifier_withHole]

/-- Items that do the same can replace each other. -/
theorem sequence_congr {ι ν : Type} {item : Pending → ι → Check (Option ν × Pending)} {i j : ι}
    (h : ∀ pending, item pending i = item pending j) (before after : List ι) (pending : Pending) :
    sequence item pending (before ++ i :: after)
      = sequence item pending (before ++ j :: after) := by
  induction before generalizing pending with
  | nil =>
    simp only [List.nil_append, sequence]
    rw [h]
  | cons first before ih =>
    simp only [List.cons_append, sequence]
    exact bind_congr fun result => by rw [ih]

end Resolve

/-- **Only surplus holes are accepted, and they are accepted in silence.**  If a program has no
errors, then every hole in a slot that is read, at any depth, stands behind the slots that an
attribute or a constant of an enumeration has.  At such a place, a hole makes no difference to
anything, so nobody is told about it. -/
theorem accepted_holes_are_surplus (set : InstructionSet Operand) (program : List Element) :
    ((resolve set program).isOk → ∀ element ∈ program, ∀ part : Element, part.Within element →
        ∀ index, part.readSlots[index]? = some none → part.IsSurplus index)
      ∧ ∀ before declaration after kind, program = before ++ .declaration declaration :: after →
        declaration.kind? = some kind → kind.slotCount?.isSome →
        resolve set (before ++ .declaration declaration.withHole :: after)
          = resolve set program := by
  constructor
  · intro hok element helement part hpart index hindex
    obtain ⟨declared, hdeclared, hform⟩ := declarations_of_isOk hok element helement
    obtain ⟨rfl, hkind, htop⟩ := topDeclares_eq_some_iff.mp hdeclared
    obtain ⟨hholes, -⟩ := (tidy_of_isTopDeclaration hkind htop hform).within hpart
    exact hholes index hindex
  · rintro before declaration after kind rfl hkind hcount
    rw [resolve_eq, resolve_eq, topSequence_eq, topSequence_eq,
      sequence_congr (topItem_withHole declaration hkind hcount set) before after {}]

/-- A class behind a signature, a super name, an interface and an annotation with a constant of
an enumeration, each of which has a hole in the end. -/
def holeSample : List Element :=
  let location : Location := ⟨1, 1, "t"⟩
  let identifier (text : String) : Token := ⟨.identifier, Content.ofString text, location⟩
  let word (text : String) : Option Element := some (.identifier (identifier text))
  let item (keyword : String) (slots : List (Option Element)) : Element :=
    .declaration ⟨some (identifier keyword), slots ++ [none], location⟩
  let constant := item ".enum" [word "LB;", word "C"]
  let values : Element := .object ⟨[⟨identifier "a", some constant⟩], location⟩
  [item ".signature" [word "LA;"], item ".super" [word "B"],
    item ".interface" [word "I"], item ".annotation" [word "LD;", some values],
    .declaration ⟨some (identifier ".class"), [word "A", some (.declaration ⟨none, [], location⟩)],
      location⟩]

/-- The sample has no errors, and the hole of the signature is surplus. -/
theorem holeSample_surplus :
    (resolve .jvm holeSample).isOk
      ∧ ∃ element ∈ holeSample, element.readSlots[1]? = some none ∧ element.IsSurplus 1 := by
  have hok : (resolve .jvm holeSample).isOk := by decide
  have hsurplus := (accepted_holes_are_surplus .jvm holeSample).1 hok
  exact ⟨hok, _, List.mem_cons_self, rfl, hsurplus _ List.mem_cons_self _ (.self _) 1 rfl⟩

/-- A program without errors may have holes, so it is not true that none is accepted. -/
theorem holeSample_accepted :
    ¬ ∀ (set : InstructionSet Operand) program, (resolve set program).isOk →
      ∀ element ∈ program, ∀ part : Element, part.Within element → none ∉ part.readSlots := by
  intro h
  have hclean := h ⟨[]⟩ holeSample (by decide)
  exact hclean _ List.mem_cons_self _ (.self _) (List.mem_of_getElem? (i := 1) rfl)

end JvmAssembly
