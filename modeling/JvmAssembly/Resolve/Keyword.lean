/-
JvmAssembly/Resolve/Keyword.lean

The keywords of declarations, and the positions of their arguments.

Fields, methods, annotations and signatures may stand in the body of a class and
at the top level; classes, super names and interfaces at the top level only.
Constants of enumerations stand inside annotations and nowhere else.
-/
import JvmAssembly.Expect

namespace JvmAssembly

/-- The declarations that may stand in the body of a class. -/
inductive MemberKind where
  | fieldDecl
  | methodDecl
  | annotationDecl
  | signatureDecl
deriving DecidableEq, Repr

/-- The declarations. -/
inductive DeclarationKind where
  | classDecl
  | superDecl
  | interfaceDecl
  | enumDecl
  | member (kind : MemberKind)
deriving DecidableEq, Repr

namespace DeclarationKind

/-- All declarations. -/
def all : List DeclarationKind :=
  [classDecl, member .fieldDecl, member .methodDecl, member .annotationDecl, enumDecl,
    member .signatureDecl, superDecl, interfaceDecl]

/-- The keyword of a declaration, without its dot. -/
def keyword : DeclarationKind → String
  | classDecl => "class"
  | superDecl => "super"
  | interfaceDecl => "interface"
  | enumDecl => "enum"
  | member .fieldDecl => "field"
  | member .methodDecl => "method"
  | member .annotationDecl => "annotation"
  | member .signatureDecl => "signature"

/-- The declaration with the given keyword. -/
def ofKeyword? (keyword : String) : Option DeclarationKind :=
  all.find? fun kind => kind.keyword == keyword

/-- Whether a declaration may stand at the top level. -/
def isTopLevel : DeclarationKind → Bool
  | enumDecl => false
  | _ => true

/-- Whether a declaration may stand in the body of a class. -/
def isMember : DeclarationKind → Bool
  | member _ => true
  | _ => false

/-- Every declaration is found by its keyword. -/
theorem ofKeyword?_keyword (kind : DeclarationKind) : ofKeyword? kind.keyword = some kind := by
  rcases kind with _ | _ | _ | _ | kind
  case member => cases kind <;> decide
  all_goals decide

end DeclarationKind

namespace Resolve

/-- What a declaration declares, by its keyword. -/
def kindOf (declaration : Declaration Element) : Attempt DeclarationKind :=
  match declaration.keyword with
  | none => do
    Check.missing "declaration keyword" declaration.location
    failure
  | some keyword =>
    match DeclarationKind.ofKeyword? (Declaration.dropDot keyword.text) with
    | some kind => return kind
    | none => do
      Check.error (.unknownDeclaration keyword.text) declaration.location
      failure

/-- Reports a declaration that is not allowed in its context. -/
def notAllowed (kind : DeclarationKind) (context : String) (location : Location) : Check Unit :=
  Check.error (.unexpectedDeclaration kind.keyword context) location

/-- The argument of a declaration at an index. -/
def argument (declaration : Declaration Element) (index : Nat) (expected : String) :
    Attempt Element :=
  Expect.present expected (declaration.get? index) declaration.location

/-- The argument of a declaration at an index, which has to be an identifier. -/
def identifierArgument (declaration : Declaration Element) (index : Nat) (expected : String) :
    Attempt Token := do
  Expect.identifier expected (← argument declaration index expected)

/-- Reports every element behind the first `count` slots of a declaration. -/
def noMore (declaration : Declaration Element) (count : Nat) : Check Unit :=
  let expected := "end of " ++ declaration.keywordName?.getD ""
  (declaration.slots.drop count).forM fun slot =>
    match slot with
    | some element => Check.unexpected expected element
    | none => return

/-- Expects a declaration to have one identifier as its only argument. -/
def singleIdentifier (declaration : Declaration Element) (expected : String) :
    Attempt Token := do
  let token ← Attempt.optional (identifierArgument declaration 0 expected)
  noMore declaration 1
  let some token := token | failure
  return token

end Resolve

end JvmAssembly
