import Conformance.Path.Summary
import Conformance.Typing.Owning

/-!
# Sources of moves and loans

Which expressions an owning value may be moved out of, and which may be borrowed or
observed.  A value that denotes no existing object is fresh and may always be moved.
Each outcome of a conditional expression has to be a valid source on its own.
-/

namespace Conformance

/-- Whether a path with the given summary may be borrowed, or observed. -/
def PathSummary.allowsLoan (s : PathSummary) (observe : Bool) : Bool :=
  (s.object.isSome || s.traversal.isSome)
    && (observe
      || !((s.constantRoot && !s.crossesVariableAccess) || s.crossesSlice
        || s.crossesConstantAccess))

namespace Node

/-- Whether a question is answered with yes for all nodes of a list; the first other
answer ends the search. -/
def allHold (holds : Node → Answer Bool) : List Node → Answer Bool
  | [] => return true
  | n :: ns => do
    if ← holds n then allHold holds ns else return false

end Node

namespace Setting

variable (S : Setting)

/-- Whether one outcome may be moved, into a constant or into a variable. -/
def isMovable (toConstant : Bool) (n : Node) : Answer Bool := do
  if ← S.denotesObject n then
    if ← S.isPath n then
      let s ← S.summarize n
      return !s.volatileOrConcurrent && (toConstant || !s.crossesConstantAccess)
    else return false
  else return true

/-- Whether all outcomes of an expression may be moved. -/
def isMoveSource (toConstant : Bool) (n : Node) : Answer Bool :=
  Node.allHold (S.isMovable toConstant) n.outcomes

/-- Whether one outcome may be borrowed, or observed. -/
def isLendable (observe : Bool) (n : Node) : Answer Bool := do
  let n := n.unconverted
  if n.isNull then return true
  else if ← S.isPath n then
    return (← S.summarize n).allowsLoan observe
  else return false

/-- Whether all outcomes of an expression may be borrowed, or observed. -/
def isLoanSource (observe : Bool) (n : Node) : Answer Bool :=
  Node.allHold (S.isLendable observe) n.outcomes

/-- Whether one outcome is null or a path that starts at the given object. -/
def startsAt (object : Option EntityId) (n : Node) : Answer Bool := do
  if n.unconverted.isNull then return true
  else if ← S.isPath n then
    return (← S.summarize n).object == object
  else return false

/-- Whether all outcomes of an expression are null or paths that start at the given
object. -/
def isRootedAt (object : Option EntityId) (n : Node) : Answer Bool :=
  Node.allHold (S.startsAt object) n.outcomes

/-- Whether a value may be stored where an anonymous access type is expected: it has to
designate the same core type. -/
def isCompatible (expected : EntityId) (n : Node) : Answer Bool := do
  match ← S.access? expected with
  | none => return true
  | some e =>
    if !(e.anonymous && e.toObject) || n.isNull then return true
    else
      match n.type with
      | none => return true
      | some type =>
        match ← S.access? type with
        | none => return false
        | some a =>
          if a.toObject then
            let expected ← S.core e.designated
            let actual ← S.core a.designated
            return expected.1 == actual.1
          else return false

end Setting

end Conformance
