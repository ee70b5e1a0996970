/-
JvmAssembly/Element/Node.lean

Resolved nodes: what declarations mean once they have been checked.

The types hold what the checks establish.  The constant of a field is a number or
a string; a value in an annotation is of one of the seven forms that a class file
can store, and an array of such values has no holes.  Code keeps the slots that it
was written with, so nodes with code are parametrised by the type of elements.
-/
import JvmAssembly.Element.Container
import JvmAssembly.Modifier

namespace JvmAssembly

/-- A constant of an enumeration, used as a value in an annotation. -/
structure EnumNode where
  type : Token
  name : Token
  location : Location
deriving DecidableEq, Repr

/-- An annotation: its type, and named values of the kind `ν`. -/
structure AnnotationNode (ν : Type) where
  type : Token
  values : List (Token × ν)
  location : Location
deriving DecidableEq, Repr

/-- The value of the given name. -/
def AnnotationNode.get? {ν : Type} (node : AnnotationNode ν) (name : String) : Option ν :=
  (node.values.find? fun value => value.1.text == name).map Prod.snd

/-- A value in an annotation, in normal form. -/
inductive AnnotationValue where
  | number (token : Token)
  | string (token : Token)
  | bool (token : Token) (value : Bool)
  | type (token : Token)
  | enum (node : EnumNode)
  | array (values : List AnnotationValue) (location : Location)
  | nested (node : AnnotationNode AnnotationValue)
deriving Repr

/-- The constant that a field starts with. -/
inductive FieldValue where
  | number (token : Token)
  | string (token : Token)
deriving DecidableEq, Repr

/-- A field. -/
structure FieldNode where
  modifiers : Modifiers
  name : Token
  descriptor : Token
  value : Option FieldValue
  signature : Option Token
  annotations : List (AnnotationNode AnnotationValue)
  location : Location
deriving Repr

/-- A method, whose code is made of elements of type `α`. -/
structure MethodNode (α : Type) where
  modifiers : Modifiers
  name : Token
  descriptor : Token
  signature : Option Token
  annotations : List (AnnotationNode AnnotationValue)
  parameters : List Token
  code : Option (Group α)
  location : Location
deriving Repr

/-- A class with its members. -/
structure ClassNode (α : Type) where
  modifiers : Modifiers
  name : Token
  signature : Option Token
  superName : Option Token
  interfaces : List Token
  annotations : List (AnnotationNode AnnotationValue)
  fields : List FieldNode
  methods : List (MethodNode α)
  location : Location
deriving Repr

end JvmAssembly
