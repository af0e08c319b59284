import Conformance.Typing.Basic

/-!
# Core types

Subtypes, derived types, private types and incomplete types stand for another type.  The
core of a type is the last type on the chain of these links, which stops early at a
private type whose full view is excluded from analysis.  Most questions about a type are
questions about its core.
-/

namespace Conformance

namespace Setting

variable (S : Setting)

/-- Whether a type is private with a full view that is excluded from analysis. -/
def hidesFullView (definition : TypeDefinition) : Answer Bool :=
  match definition with
  | .partialView (some full) _ _ => S.isOff full
  | _ => return false

/-- The next type on the chain from a type to its core, if there is one. -/
def next? (t : TypeFacet) : Answer (Option EntityId) :=
  match t.definition.underlying? with
  | none => return none
  | some next => do return if ← S.hidesFullView t.definition then none else some next

/-- The core of an entity, where at most `steps` types are looked at.  `origin` is where
the chain started. -/
def coreFrom (origin : EntityId) : Nat → Entity → Answer (EntityId × TypeFacet)
  | 0, _ => throw (.contract (.cyclicDerivation origin))
  | steps + 1, e =>
    match e.kind with
    | .type t => do
      match ← S.next? t with
      | some next => coreFrom origin steps (← S.program.entity next)
      | none => return (e.name, t)
    | kind => throw (.contract (.notAType kind.describe e.name))

/-- The core of a type: its name and its facets. -/
def core (id : EntityId) : Answer (EntityId × TypeFacet) := do
  S.coreFrom id (S.program.entityCount + 1) (← S.program.entity id)

/-- The definition of the core of a type. -/
def definition (id : EntityId) : Answer TypeDefinition := do
  return (← S.core id).2.definition

/-- The access type that a type stands for, if it stands for one. -/
def access? (id : EntityId) : Answer (Option AccessDefinition) := do
  match ← S.definition id with
  | .access a => return some a
  | _ => return none

/-- Whether a type stands for an access type to objects. -/
def isObjectAccess (id : EntityId) : Answer Bool := do
  return (← S.access? id).any AccessDefinition.toObject

/-- Whether a type stands for an anonymous access type to objects. -/
def isAnonymousAccess (id : EntityId) : Answer Bool := do
  return (← S.access? id).any fun a => a.toObject && a.anonymous

/-- Whether an entity is a type that stands for a task or protected type. -/
def isConcurrentType (id : EntityId) : Answer Bool := do
  match (← S.program.entity id).kind with
  | .type _ => return (← S.definition id).isConcurrent
  | _ => return false

/-- Whether a type is volatile, by itself or through its core. -/
def isVolatileType (id : EntityId) : Answer Bool := do
  if (← S.program.typeFacet id).volatile then return true
  else return (← S.core id).2.volatile

/-- Whether a type stands for a floating point type. -/
def isFloating (id : EntityId) : Answer Bool := do
  match ← S.definition id with
  | .floating _ => return true
  | _ => return false

/-- The small of the ordinary fixed point type that a type stands for, if it stands for
one. -/
def fixedSmall? (id : EntityId) : Answer (Option Rat) := do
  match ← S.definition id with
  | .ordinaryFixed small => return some small
  | _ => return none

/-- Whether a type stands for an array type. -/
def isArray (id : EntityId) : Answer Bool := do
  match ← S.definition id with
  | .array .. => return true
  | _ => return false

/-- The index types of an array type. -/
def arrayIndices (id : EntityId) : Answer (List EntityId) := do
  match ← S.definition id with
  | .array indices _ => return indices
  | _ => throw (.contract (.notAnArray id))

/-- Whether a type is incomplete. -/
def isIncomplete (id : EntityId) : Answer Bool := do
  match (← S.program.typeFacet id).definition with
  | .incomplete _ => return true
  | _ => return false

end Setting

end Conformance
