import Conformance.Legality.Expression

/-!
# Legality of subprograms

Functions have no side effects and do not depend on volatile state, unless they are
volatile functions.  Results of anonymous access types are reserved to traversal
functions.
-/

namespace Conformance

open Inquiry

/-- The global effects of a subprogram as the place that a report points at. -/
def Entity.effectsSite (e : Entity) (s : SubprogramFacet) : Site :=
  .effects e.name (if s.effects.location.isKnown then s.effects.location else e.location)

namespace Inquiry

/-- Checks a dispatching operation: it has no specific precondition and overrides at most
one inherited operation. -/
def checkDispatching (e : Entity) (s : SubprogramFacet) : Inquiry Unit := do
  match s.precondition with
  | none => pure ()
  | some pre => violation pre.site .specificPreconditionOnDispatching
  if 1 < s.overridden.length then unsupported e.site .multipleInheritance

end Inquiry

namespace Setting

variable (S : Setting)

/-- Whether an entity is an object that is volatile, by itself or by its type. -/
def isVolatileObject (id : EntityId) : Answer Bool := do
  match (← S.program.entity id).kind with
  | .object o => if o.volatile then return true else S.isVolatileType o.type
  | _ => return false

/-- Checks that a function reads no volatile object. -/
def checkReads (site : Site) : List EntityId → Inquiry Unit
  | [] => return
  | id :: rest => do
    if ← S.isVolatileObject id then violation site (.volatileInFunction id)
    checkReads site rest

/-- Checks the global effects of a function. -/
def checkEffects (e : Entity) (s : SubprogramFacet) : Inquiry Unit := do
  let site := e.effectsSite s
  if s.effects.writes.isEmpty then pure () else violation site .functionWithEffects
  S.checkReads site s.effects.reads

/-- Checks that a type in the subset is not volatile, for the profile of a function. -/
def checkNotVolatile (site : Site) (type blamed : EntityId) : Inquiry Unit := do
  if ← stands type then
    if ← S.isVolatileType type then violation site (.volatileInFunction blamed)

/-- Checks that the parameters of a function are not assigned to and not volatile. -/
def checkParameters : List EntityId → Inquiry Unit
  | [] => return
  | id :: rest => do
    let e ← S.program.entity id
    match e.kind with
    | .parameter p =>
      if p.direction == .input then pure () else violation e.site (.functionWithOutput id)
      S.checkNotVolatile e.site p.type id
    | _ => pure ()
    checkParameters rest

/-- Checks the profile of a function. -/
def checkProfile (e : Entity) (s : SubprogramFacet) : Inquiry Unit := do
  S.checkParameters s.parameters
  match s.result with
  | none => return
  | some result => S.checkNotVolatile e.site result result

/-- The kind of the access type of the first parameter, if it has one. -/
def firstParameterAccess? (s : SubprogramFacet) : Answer (Option AccessKind) := do
  match ← S.firstParameterType? s with
  | none => return none
  | some type => return (← S.access? type).map (·.kind)

/-- Checks the result of a subprogram: if it is of an anonymous access type, the
subprogram is a traversal function, and if that type is one of access to variable, so is
the type of the first parameter. -/
def checkAccessResult (e : Entity) (s : SubprogramFacet) (result : EntityId) :
    Inquiry Unit := do
  match ← S.loanType? result with
  | none => return
  | some a =>
    if ← S.isTraversal s then
      if a.kind == .toVariable then
        if (← S.firstParameterAccess? s) == some .toVariable then return
        else violation e.site .traversalFirstParameter
    else violation e.site .anonymousAccessResult

/-- Rests on the concurrent type that an operation belongs to, if it belongs to one. -/
def restOnConcurrentScope (e : Entity) : Inquiry Unit := do
  match e.scope with
  | none => return
  | some scope => if ← S.isConcurrentType scope then restOn scope e.site

/-- The inquiry into a subprogram. -/
def subprogramInquiry (e : Entity) (s : SubprogramFacet) : Inquiry Unit := do
  let restricted := s.isFunction && !s.volatileFunction
  if restricted then S.checkEffects e s
  S.restOnConcurrentScope e
  restOnAll s.parameters e.site
  let admitted : Bool ← match s.result with
    | some result => ask result e.site
    | none => pure false
  if restricted then S.checkProfile e s
  match s.result with
  | some result => if admitted then S.checkAccessResult e s result
  | none => pure ()
  if s.dispatching then checkDispatching e s
  restOnAll s.overridden e.site
  S.expressions s.contracts
  S.expressions (s.contractCases.flatMap ContractCase.facets)

end Setting

end Conformance
