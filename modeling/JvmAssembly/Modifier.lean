/-
JvmAssembly/Modifier.lean

Modifiers of classes, fields and methods, and the access flags they set.

Some flags have two meanings: `super` and `synchronized`, `volatile` and `bridge`,
`transient` and `varargs` share a bit each.  No target allows both of a pair.
-/
import JvmAssembly.Location

namespace JvmAssembly

/-- What modifiers are applied to. -/
inductive ModifierTarget where
  | onClass
  | onField
  | onMethod
deriving DecidableEq, Repr

/-- The name of a target. -/
def ModifierTarget.name : ModifierTarget → String
  | onClass => "class"
  | onField => "field"
  | onMethod => "method"

/-- A modifier, named for the flag it sets. -/
inductive Modifier where
  | publicFlag
  | privateFlag
  | protectedFlag
  | staticFlag
  | finalFlag
  | superFlag
  | synchronizedFlag
  | volatileFlag
  | bridgeFlag
  | transientFlag
  | varargsFlag
  | nativeFlag
  | interfaceFlag
  | abstractFlag
  | strictFlag
  | syntheticFlag
  | annotationFlag
  | enumFlag
  | moduleFlag
deriving DecidableEq, Repr

namespace Modifier

/-- All modifiers. -/
def all : List Modifier :=
  [publicFlag, privateFlag, protectedFlag, staticFlag, finalFlag, superFlag, synchronizedFlag,
    volatileFlag, bridgeFlag, transientFlag, varargsFlag, nativeFlag, interfaceFlag, abstractFlag,
    strictFlag, syntheticFlag, annotationFlag, enumFlag, moduleFlag]

/-- The spelling of a modifier. -/
def keyword : Modifier → String
  | publicFlag => "public"
  | privateFlag => "private"
  | protectedFlag => "protected"
  | staticFlag => "static"
  | finalFlag => "final"
  | superFlag => "super"
  | synchronizedFlag => "synchronized"
  | volatileFlag => "volatile"
  | bridgeFlag => "bridge"
  | transientFlag => "transient"
  | varargsFlag => "varargs"
  | nativeFlag => "native"
  | interfaceFlag => "interface"
  | abstractFlag => "abstract"
  | strictFlag => "strictfp"
  | syntheticFlag => "synthetic"
  | annotationFlag => "annotation"
  | enumFlag => "enum"
  | moduleFlag => "module"

/-- The modifier with the given spelling, in exactly this case of letters. -/
def ofKeyword? (keyword : String) : Option Modifier :=
  all.find? fun modifier => modifier.keyword == keyword

/-- The bit that a modifier sets in the access flags of a class file. -/
def flag : Modifier → UInt16
  | publicFlag => 0x0001
  | privateFlag => 0x0002
  | protectedFlag => 0x0004
  | staticFlag => 0x0008
  | finalFlag => 0x0010
  | superFlag => 0x0020
  | synchronizedFlag => 0x0020
  | volatileFlag => 0x0040
  | bridgeFlag => 0x0040
  | transientFlag => 0x0080
  | varargsFlag => 0x0080
  | nativeFlag => 0x0100
  | interfaceFlag => 0x0200
  | abstractFlag => 0x0400
  | strictFlag => 0x0800
  | syntheticFlag => 0x1000
  | annotationFlag => 0x2000
  | enumFlag => 0x4000
  | moduleFlag => 0x8000

/-- The modifiers that a target may have. -/
def allowedOn : ModifierTarget → List Modifier
  | .onClass =>
    [publicFlag, finalFlag, superFlag, interfaceFlag, abstractFlag, syntheticFlag, annotationFlag,
      enumFlag, moduleFlag]
  | .onField =>
    [publicFlag, privateFlag, protectedFlag, staticFlag, finalFlag, volatileFlag, transientFlag,
      syntheticFlag, enumFlag]
  | .onMethod =>
    [publicFlag, privateFlag, protectedFlag, staticFlag, finalFlag, synchronizedFlag, bridgeFlag,
      varargsFlag, nativeFlag, abstractFlag, strictFlag, syntheticFlag]

/-- Whether a target may have a modifier. -/
def isAllowedOn (modifier : Modifier) (target : ModifierTarget) : Bool :=
  (allowedOn target).contains modifier

/-- Every modifier is found by its spelling. -/
theorem ofKeyword?_keyword (modifier : Modifier) : ofKeyword? modifier.keyword = some modifier := by
  cases modifier <;> decide

end Modifier

/-- The modifiers of a declaration with their locations, in source order and with repetitions. -/
structure Modifiers where
  entries : List (Modifier × Location) := []
deriving DecidableEq, Repr

namespace Modifiers

/-- Whether a modifier was recorded. -/
def contains (modifiers : Modifiers) (modifier : Modifier) : Bool :=
  modifiers.entries.any fun entry => entry.1 == modifier

/-- Records one more modifier. -/
def add (modifiers : Modifiers) (modifier : Modifier) (location : Location) : Modifiers :=
  ⟨modifiers.entries ++ [(modifier, location)]⟩

/-- Whether no modifier was recorded. -/
def isEmpty (modifiers : Modifiers) : Bool :=
  modifiers.entries.isEmpty

/-- The union of the flags of the recorded modifiers. -/
def accessFlags (modifiers : Modifiers) : UInt16 :=
  modifiers.entries.foldl (fun flags entry => flags ||| entry.1.flag) 0

end Modifiers

end JvmAssembly
