/-
JvmAssembly/Resolve/Pending.lean

Attributes that wait for the declaration they belong to.

Every sequence of declarations has its own pending attributes.  The next class,
field or method takes all of them, whether or not it can be resolved.
-/
import JvmAssembly.Session

namespace JvmAssembly

/-- The attributes that stand before a declaration. -/
structure Pending where
  signature : Option Token := none
  superName : Option Token := none
  interfaces : List Token := []
  annotations : List (AnnotationNode AnnotationValue) := []
deriving Repr

namespace Pending

/-- Adds a signature.  A second one is reported, and the first is kept. -/
def addSignature (pending : Pending) (token : Token) : Check Pending := do
  if pending.signature.isSome then
    Check.error (.duplicateAttribute "Signature") token.location
    return pending
  else
    return { pending with signature := some token }

/-- Adds a super name.  A second one is reported, and the first is kept. -/
def addSuperName (pending : Pending) (token : Token) : Check Pending := do
  if pending.superName.isSome then
    Check.error (.duplicateAttribute "Super name") token.location
    return pending
  else
    return { pending with superName := some token }

/-- Adds an interface. -/
def addInterface (pending : Pending) (token : Token) : Pending :=
  { pending with interfaces := pending.interfaces ++ [token] }

/-- Adds an annotation. -/
def addAnnotation (pending : Pending) (node : AnnotationNode AnnotationValue) : Pending :=
  { pending with annotations := pending.annotations ++ [node] }

/-- Whether nothing is pending. -/
def isEmpty (pending : Pending) : Bool :=
  pending.signature.isNone && pending.superName.isNone && pending.interfaces.isEmpty &&
    pending.annotations.isEmpty

/-- Warns about the attributes that only a class can have, for another target. -/
def warnClassOnly (pending : Pending) (target : String) : Check Unit := do
  pending.superName.forM fun token =>
    Check.warn s!"Super name doesn't apply to a {target}" token.location
  pending.interfaces.forM fun token =>
    Check.warn s!"Interface doesn't apply to a {target}" token.location

/-- Warns about everything that is left at the end of a sequence. -/
def warnUnused (pending : Pending) : Check Unit := do
  pending.signature.forM fun token =>
    Check.warn "Signature isn't followed by a declaration" token.location
  pending.superName.forM fun token =>
    Check.warn "Super name isn't followed by a declaration" token.location
  pending.interfaces.forM fun token =>
    Check.warn "Interface isn't followed by a declaration" token.location
  pending.annotations.forM fun node =>
    Check.warn "Annotation isn't followed by a declaration" node.location

end Pending

end JvmAssembly
