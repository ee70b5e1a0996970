/-
JvmAssembly/Proofs/ProgramGrammar.lean

The language of programs, by rules and without any check.

A rule relates a declaration to the node that it declares, `IsField declaration node`
and so on; a declaration is well formed if there is such a node.  The rules leave
open which attributes the node has: those come from the sequence around it.  Where
a rule asks for an annotation value or an argument of an instruction, it asks for
one that is accepted without error.

Positions are written out: modifiers stand first, and the parts that are counted
from the end stand last.  `Apart` is the rule for attributes that may stand only
once before a class, a field or a method.
-/
import Mathlib.Data.List.Forall2
import JvmAssembly.Proofs.SequenceItems

namespace JvmAssembly

open Resolve

variable {κ : Type} [OperandKind κ]

/-! ### Parts of declarations -/

/-- A slot with an identifier that is a modifier of the target. -/
inductive IsModifier (target : ModifierTarget) : Option Element → Modifier × Location → Prop where
  | mk {token : Token} {modifier : Modifier}
      (hkeyword : Modifier.ofKeyword? token.text = some modifier)
      (hallowed : modifier.isAllowedOn target) :
      IsModifier target (some (.identifier token)) (modifier, token.location)

/-- Slots that hold the given modifiers, in this order. -/
def AreModifiers (target : ModifierTarget) (slots : List (Option Element))
    (modifiers : Modifiers) : Prop :=
  List.Forall₂ (IsModifier target) slots modifiers.entries

/-- The slots behind the descriptor of a field: none, or one with the value. -/
inductive IsFieldValue : List (Option Element) → Option FieldValue → Prop where
  | none : IsFieldValue [] none
  | number {token} : IsFieldValue [some (.number token)] (some (.number token))
  | string {token} : IsFieldValue [some (.string token)] (some (.string token))
  | objectNumber {key token location} (hkey : key.text = "value") :
      IsFieldValue [some (.object ⟨[⟨key, some (.number token)⟩], location⟩)]
        (some (.number token))
  | objectString {key token location} (hkey : key.text = "value") :
      IsFieldValue [some (.object ⟨[⟨key, some (.string token)⟩], location⟩)]
        (some (.string token))

/-- The value of a field is one slot at most, so that it reads the same from behind. -/
theorem IsFieldValue.reverse_eq {values : List (Option Element)} {value : Option FieldValue}
    (h : IsFieldValue values value) : values.reverse = values := by
  cases h <;> rfl

/-- No two entries have the same key. -/
def DistinctKeys (object : Object Element) : Prop :=
  (object.pairs.map fun pair => pair.key.text).Nodup

/-- An instruction that the set has, with an accepted argument for each operand. -/
def IsInstruction (set : InstructionSet κ) (instruction : Instruction Element) : Prop :=
  ∃ operands, set.get? instruction.mnemonic.text = some operands
    ∧ List.Forall₂ (fun (operand : κ) slot =>
        ∃ element, slot = some element ∧ (OperandKind.verify operand element).Silent 0)
      operands instruction.arguments

/-- The label that a slot of code defines. -/
def labelOf : Option Element → Option String
  | some (.label name) => some name.text
  | _ => none

/-- A slot of code: a label, or an instruction of the set. -/
inductive IsCodeSlot (set : InstructionSet κ) : Option Element → Prop where
  | label {name} : IsCodeSlot set (some (.label name))
  | instruction {instruction} (h : IsInstruction set instruction) :
      IsCodeSlot set (some (.instruction instruction))

/-- Code in which no label is defined twice. -/
structure IsCode (set : InstructionSet κ) (slots : List (Option Element)) : Prop where
  each : ∀ slot ∈ slots, IsCodeSlot set slot
  labels : (slots.filterMap labelOf).Nodup

/-- The parameters in the body of a method: none, or an array of identifiers. -/
inductive HasParameters (body : Object Element) : List Token → Prop where
  | absent (h : ∀ pair ∈ body.pairs, pair.key.text ≠ "parameters") : HasParameters body []
  | present {pair element group tokens} (hmem : pair ∈ body.pairs)
      (hkey : pair.key.text = "parameters") (hvalue : pair.value = some element)
      (harray : element.array? = some group)
      (htokens : group.slots = tokens.map fun token => some (.identifier token)) :
      HasParameters body tokens

/-- The code in the body of a method, if there is any. -/
inductive HasCode (set : InstructionSet κ) (body : Object Element) :
    Option (Group Element) → Prop where
  | absent (h : ∀ pair ∈ body.pairs, pair.key.text ≠ "code") : HasCode set body none
  | present {pair element group} (hmem : pair ∈ body.pairs) (hkey : pair.key.text = "code")
      (hvalue : pair.value = some element) (hcode : element.code? = some group)
      (hslots : IsCode set group.slots) : HasCode set body (some group)

/-! ### Attributes -/

/-- A declaration with one identifier and nothing behind it. -/
def IsSingle (declaration : Declaration Element) : Prop :=
  ∃ token rest, declaration.slots = some (.identifier token) :: rest ∧ ∀ slot ∈ rest, slot = none

/-- An annotation: a type, and values with distinct names that are identifiers. -/
def IsAnnotation (declaration : Declaration Element) : Prop :=
  ∃ type values object rest,
    declaration.slots = some (.identifier type) :: some values :: rest
      ∧ (∀ slot ∈ rest, slot = none) ∧ values.object? = some object ∧ DistinctKeys object
      ∧ ∀ pair ∈ object.pairs, pair.key.kind = .identifier
        ∧ ∃ element, pair.value = some element ∧ (annotationValue element).Silent 0

/-- Between any two declarations of a kind there is an owner. -/
def Apart (kind : DeclarationKind) (declarations : List Declared) : Prop :=
  ∀ before first between second after,
    declarations = before ++ first :: (between ++ second :: after) → first.1 = kind →
    second.1 = kind → ∃ owner ∈ between, owner.1.isOwner

/-! ### Members and classes -/

/-- `.field <modifiers> <name> <descriptor> [<value>]` -/
def IsField (declaration : Declaration Element) (node : FieldNode) : Prop :=
  ∃ modifiers name values,
    declaration.slots
        = modifiers ++ some name :: some (.identifier node.descriptor) :: values
      ∧ AreModifiers .onField modifiers node.modifiers ∧ name.name? = some node.name
      ∧ IsFieldValue values node.value ∧ node.location = declaration.location

/-- `.method <modifiers> <name> <descriptor> <body>` -/
def IsMethod (set : InstructionSet κ) (declaration : Declaration Element)
    (node : MethodNode Element) : Prop :=
  ∃ modifiers name element body,
    declaration.slots
        = modifiers ++ [some name, some (.identifier node.descriptor), some element]
      ∧ AreModifiers .onMethod modifiers node.modifiers ∧ name.name? = some node.name
      ∧ element.object? = some body ∧ DistinctKeys body ∧ HasParameters body node.parameters
      ∧ HasCode set body node.code ∧ node.location = declaration.location

/-- A member and the node that it declares. -/
def IsMember (set : InstructionSet κ) : Declared → Member → Prop
  | declared, .field node => declared.1 = .member .fieldDecl ∧ IsField declared.2 node
  | declared, .method node => declared.1 = .member .methodDecl ∧ IsMethod set declared.2 node

/-- A well-formed declaration of the body of a class. -/
def IsBodyDeclaration (set : InstructionSet κ) (declared : Declared) : Prop :=
  match declared.1 with
  | .member .annotationDecl => IsAnnotation declared.2
  | .member .signatureDecl => IsSingle declared.2
  | _ => ∃ member, IsMember set declared member

/-- The body of a class, and the members that it declares: one for each field and method,
in order. -/
structure IsClassBody (set : InstructionSet κ) (slots : List (Option Element))
    (members : List Member) : Prop where
  declarations : ∀ slot ∈ slots,
    ∃ declared, memberDeclared? slot = some declared ∧ IsBodyDeclaration set declared
  signatures : Apart (.member .signatureDecl) (slots.filterMap memberDeclared?)
  members : List.Forall₂ (IsMember set)
    ((slots.filterMap memberDeclared?).filter fun declared => declared.1.isOwner) members

/-- `.class <modifiers> <name> <body>` -/
def IsClass (set : InstructionSet κ) (declaration : Declaration Element)
    (node : ClassNode Element) : Prop :=
  ∃ modifiers name body members,
    declaration.slots = modifiers ++ [some name, some (.declaration body)]
      ∧ body.keyword = none ∧ AreModifiers .onClass modifiers node.modifiers
      ∧ name.name? = some node.name ∧ IsClassBody set body.slots members
      ∧ node.fields = fieldsOf members ∧ node.methods = methodsOf members
      ∧ node.location = declaration.location

/-! ### Programs -/

/-- A declaration of the top level and the node that it declares. -/
def IsNode (set : InstructionSet κ) : Declared → Node → Prop
  | declared, .ofClass node => declared.1 = .classDecl ∧ IsClass set declared.2 node
  | declared, .ofMember member => IsMember set declared member

/-- A well-formed declaration of the top level. -/
def IsTopDeclaration (set : InstructionSet κ) (declared : Declared) : Prop :=
  match declared.1 with
  | .superDecl => IsSingle declared.2
  | .interfaceDecl => IsSingle declared.2
  | .member .annotationDecl => IsAnnotation declared.2
  | .member .signatureDecl => IsSingle declared.2
  | _ => ∃ node, IsNode set declared node

/-- A program: declarations that are allowed at the top level, each of them well formed. -/
structure IsProgram (set : InstructionSet κ) (program : List Element) : Prop where
  declarations : ∀ element ∈ program,
    ∃ declared, topDeclares element = some declared ∧ IsTopDeclaration set declared
  signatures : Apart (.member .signatureDecl) (program.filterMap topDeclares)
  superNames : Apart .superDecl (program.filterMap topDeclares)

/-- The nodes that a program declares: one for each class, field and method of the top
level, in order. -/
def DeclaresNodes (set : InstructionSet κ) (program : List Element) (nodes : List Node) : Prop :=
  List.Forall₂ (IsNode set)
    ((program.filterMap topDeclares).filter fun declared => declared.1.isOwner) nodes

end JvmAssembly
