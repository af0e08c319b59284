import Conformance.Path.Basic

/-!
# Summaries of paths

What lies between a path and the object it starts at.  `Setting.summarize` walks a path
inwards and collects its summary; at a conditional expression the summaries of both
values are merged.
-/

namespace Conformance

/-- What lies between a path and its root. -/
structure PathSummary where
  /-- The object or parameter at the root. -/
  object : Option EntityId := none
  /-- The traversal function whose result is part of the path. -/
  traversal : Option EntityId := none
  constantRoot : Bool := false
  crossesSlice : Bool := false
  crossesConstantAccess : Bool := false
  crossesVariableAccess : Bool := false
  volatileOrConcurrent : Bool := false
  deriving DecidableEq

namespace PathSummary

/-- The summary of two values of which either may be taken.  A root survives when both
share it; a dereference of an access to variable counts when both have one, and all else
when one of them has it. -/
def merge (a b : PathSummary) : PathSummary where
  object := if a.object = b.object then a.object else none
  traversal := if a.traversal = b.traversal then a.traversal else none
  constantRoot := a.constantRoot || b.constantRoot
  crossesSlice := a.crossesSlice || b.crossesSlice
  crossesConstantAccess := a.crossesConstantAccess || b.crossesConstantAccess
  crossesVariableAccess := a.crossesVariableAccess && b.crossesVariableAccess
  volatileOrConcurrent := a.volatileOrConcurrent || b.volatileOrConcurrent

/-- The summary of a path whose outer part has summary `s` and whose inner part is a
conditional expression with the merged summary `inner`. -/
def extend (s inner : PathSummary) : PathSummary where
  object := inner.object
  traversal := inner.traversal.or s.traversal
  constantRoot := inner.constantRoot
  crossesSlice := s.crossesSlice || inner.crossesSlice
  crossesConstantAccess := s.crossesConstantAccess || inner.crossesConstantAccess
  crossesVariableAccess := s.crossesVariableAccess || inner.crossesVariableAccess
  volatileOrConcurrent := s.volatileOrConcurrent || inner.volatileOrConcurrent

/-- The summary after a dereference of an access value of the given kind. -/
def dereference (s : PathSummary) : Option AccessKind → PathSummary
  | some .toConstant => { s with crossesConstantAccess := true }
  | some .toVariable => { s with crossesVariableAccess := true }
  | _ => s

end PathSummary

namespace Setting

variable (S : Setting)

/-- Whether an object is volatile, or its type is volatile or concurrent. -/
def isVolatileOrConcurrent (e : Entity) : Answer Bool := do
  let volatile := match e.kind with
    | .object facet => facet.volatile
    | _ => false
  match e.declaredType? with
  | none => return false
  | some type =>
    if volatile then return true
    else if ← S.isVolatileType type then return true
    else S.isConcurrentType type

/-- The summary of a path with outer part `s` that starts at an entity. -/
def summarizeRoot (s : PathSummary) (id : EntityId) : Answer PathSummary := do
  let e ← S.program.entity id
  let volatileOrConcurrent ← S.isVolatileOrConcurrent e
  return { s with
    object := some id
    constantRoot := ← S.isConstant id
    volatileOrConcurrent := s.volatileOrConcurrent || volatileOrConcurrent }

/-- The kind of the access type of an expression whose type is known. -/
def accessKind? (type : Option EntityId) : Answer (Option AccessKind) := do
  match type with
  | none => return none
  | some id => return (← S.access? id).map (·.kind)

/-- The summary of a path with outer part `s` that goes on through the result of a
traversal function. -/
def summarizeTraversal (s : PathSummary) (callee : EntityId) : Answer PathSummary := do
  let f ← S.program.subprogramFacet callee
  let kind ← S.accessKind? f.result
  return { s with
    traversal := some callee
    crossesConstantAccess := s.crossesConstantAccess || kind == some .toConstant }

/-- The summary of a path with outer part `s` and the given inner part. -/
def summarizeFrom (s : PathSummary) : Node → Answer PathSummary
  | ⟨_, _, _, shape⟩ =>
    match shape with
    | .identifier entity => S.summarizeRoot s entity
    | .selected whole _ => summarizeFrom s whole
    | .indexed whole _ => summarizeFrom s whole
    | .slice whole _ => summarizeFrom { s with crossesSlice := true } whole
    | .dereference pointer => do
      summarizeFrom (s.dereference (← S.accessKind? pointer.type)) pointer
    | .conversion _ operand => summarizeFrom s operand
    | .qualified _ operand => summarizeFrom s operand
    | .call callee arguments => do
      if ← S.callsTraversal callee then
        let s ← S.summarizeTraversal s callee
        match arguments with
        | first :: _ => summarizeFrom s first
        | [] => return s
      else return s
    | .conditional _ thenValue elseValue => do
      let a ← summarizeFrom {} thenValue
      let b ← summarizeFrom {} elseValue
      return s.extend (a.merge b)
    | _ => return s

/-- The summary of a path. -/
def summarize (n : Node) : Answer PathSummary := S.summarizeFrom {} n

end Setting

end Conformance
