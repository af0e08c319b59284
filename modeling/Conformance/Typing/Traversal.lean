import Conformance.Typing.Core

/-!
# Traversal functions

A traversal function returns an anonymous access value that is derived from its first
parameter, which is of an access type itself.
-/

namespace Conformance

namespace Setting

variable (S : Setting)

/-- The declared type of the first parameter of a subprogram, if there is one. -/
def firstParameterType? (s : SubprogramFacet) : Answer (Option EntityId) :=
  match s.parameters with
  | first :: _ => S.program.declaredType? first
  | [] => return none

/-- Whether a subprogram is a traversal function. -/
def isTraversal (s : SubprogramFacet) : Answer Bool := do
  match s.isFunction, s.result with
  | true, some result =>
    if ← S.isAnonymousAccess result then
      match ← S.firstParameterType? s with
      | some first => S.isObjectAccess first
      | none => return false
    else return false
  | _, _ => return false

/-- Whether a call of an entity is a call of a traversal function. -/
def callsTraversal (callee : EntityId) : Answer Bool := do
  match (← S.program.entity callee).kind with
  | .subprogram s => S.isTraversal s
  | _ => return false

/-- Whether an entity is an object or a parameter. -/
def isObject (id : EntityId) : Answer Bool := do
  match (← S.program.entity id).kind with
  | .object _ | .parameter _ => return true
  | _ => return false

/-- Whether an entity cannot be assigned to: a constant or a parameter of mode `in`, and
anything that is no object. -/
def isConstant (id : EntityId) : Answer Bool := do
  match (← S.program.entity id).kind with
  | .object facet => return facet.constant
  | .parameter facet => return facet.direction == .input
  | _ => return true

end Setting

end Conformance
