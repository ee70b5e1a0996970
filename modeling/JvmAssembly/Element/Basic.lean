/-
JvmAssembly/Element/Basic.lean

The elements of source trees.

An element is a literal (an identifier, a number, a string or a truth value), a
container (a declaration, an array, an object or code), an instruction or a label
in code, or an empty pair of braces, whose meaning depends on who reads it.
Nodes that were resolved before may stand in a tree again.
-/
import JvmAssembly.Element.Node

namespace JvmAssembly

/-- A node of a source tree. -/
inductive Element where
  | declaration (declaration : Declaration Element)
  | identifier (token : Token)
  | number (token : Token)
  | string (token : Token)
  | array (group : Group Element)
  | object (object : Object Element)
  | label (name : Token)
  | bool (token : Token) (value : Bool)
  | empty (location : Location)
  | code (group : Group Element)
  | instruction (instruction : Instruction Element)
  | classNode (node : ClassNode Element)
  | fieldNode (node : FieldNode)
  | methodNode (node : MethodNode Element)
  | annotationNode (node : AnnotationNode AnnotationValue)
  | enumNode (node : EnumNode)

/-- The kinds of elements. -/
inductive ElementKind where
  | declaration
  | identifier
  | number
  | string
  | array
  | object
  | label
  | bool
  | empty
  | code
  | instruction
  | classNode
  | fieldNode
  | methodNode
  | annotationNode
  | enumNode
deriving DecidableEq, Repr

namespace ElementKind

/-- All kinds of elements. -/
def all : List ElementKind :=
  [declaration, identifier, number, string, array, object, label, bool, empty, code, instruction,
    classNode, fieldNode, methodNode, annotationNode, enumNode]

/-- The name of a kind in messages. -/
def name : ElementKind → String
  | declaration => "declaration"
  | identifier => "identifier"
  | number => "number"
  | string => "string"
  | array => "array"
  | object => "object"
  | label => "label"
  | bool => "bool"
  | empty => "empty"
  | code => "code"
  | instruction => "instruction"
  | classNode => "class"
  | fieldNode => "field"
  | methodNode => "method"
  | annotationNode => "annotation"
  | enumNode => "enum"

/-- The kind with the given name. -/
def ofName? (name : String) : Option ElementKind :=
  all.find? fun kind => kind.name == name

end ElementKind

/-- The kind of the literal that a token of a kind becomes. -/
def TokenKind.literalKind : TokenKind → ElementKind
  | string => .string
  | number => .number
  | identifier => .identifier
  | operator => .identifier

namespace Element

/-- The literal that a token becomes. -/
def ofToken (token : Token) : Element :=
  match token.kind with
  | .string => string token
  | .number => number token
  | .identifier => identifier token
  | .operator => identifier token

/-- The kind of an element. -/
def kind : Element → ElementKind
  | declaration _ => .declaration
  | identifier _ => .identifier
  | number _ => .number
  | string _ => .string
  | array _ => .array
  | object _ => .object
  | label _ => .label
  | bool .. => .bool
  | empty _ => .empty
  | code _ => .code
  | instruction _ => .instruction
  | classNode _ => .classNode
  | fieldNode _ => .fieldNode
  | methodNode _ => .methodNode
  | annotationNode _ => .annotationNode
  | enumNode _ => .enumNode

/-- Where an element starts. -/
def location : Element → Location
  | declaration d => d.location
  | identifier token => token.location
  | number token => token.location
  | string token => token.location
  | array group => group.location
  | object o => o.location
  | label name => name.location
  | bool token _ => token.location
  | empty location => location
  | code group => group.location
  | instruction i => i.location
  | classNode node => node.location
  | fieldNode node => node.location
  | methodNode node => node.location
  | annotationNode node => node.location
  | enumNode node => node.location

/-- Whether this is a single value written as one token. -/
def isLiteral : Element → Bool
  | identifier _ => true
  | number _ => true
  | string _ => true
  | bool .. => true
  | _ => false

@[simp] theorem kind_ofToken (token : Token) : (ofToken token).kind = token.kind.literalKind := by
  unfold ofToken
  split <;> simp_all [kind, TokenKind.literalKind]

@[simp] theorem location_ofToken (token : Token) : (ofToken token).location = token.location := by
  unfold ofToken
  split <;> rfl

end Element

end JvmAssembly
