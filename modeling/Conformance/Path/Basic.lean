import Conformance.Typing.Traversal

/-!
# Paths

A path is a chain of selections, indexing, slices and dereferences that starts at one
object, possibly through calls of traversal functions.  A conditional expression is a
path when both of its values are.  `isPath` recognises paths, `denotesObject` the
expressions that stand for a value that exists already, and `outcomes` lists what a
conditional expression may evaluate to.
-/

namespace Conformance

namespace Node

/-- A node without the conversions and qualifications around it. -/
def unconverted : Node → Node
  | ⟨_, _, _, .conversion _ operand⟩ => unconverted operand
  | ⟨_, _, _, .qualified _ operand⟩ => unconverted operand
  | n => n

/-- What a part of `whole` may evaluate to, where `whole` stands for itself if the part
is no conditional expression. -/
def outcomesOf (whole : Node) : Node → List Node
  | ⟨_, _, _, .conversion _ operand⟩ => outcomesOf whole operand
  | ⟨_, _, _, .qualified _ operand⟩ => outcomesOf whole operand
  | ⟨_, _, _, .conditional _ thenValue elseValue⟩ =>
    outcomesOf thenValue thenValue ++ outcomesOf elseValue elseValue
  | _ => [whole]

/-- What an expression may evaluate to: the branches of a conditional expression, also
below conversions, and otherwise the expression itself. -/
def outcomes (n : Node) : List Node := outcomesOf n n

end Node

namespace Setting

variable (S : Setting)

/-- Whether an expression stands for a value that exists already. -/
def denotesObject : Node → Answer Bool
  | ⟨_, _, _, shape⟩ =>
    match shape with
    | .conversion _ operand => denotesObject operand
    | .qualified _ operand => denotesObject operand
    | .identifier entity => S.isObject entity
    | .selected .. | .indexed .. | .slice .. | .dereference _ => return true
    | .call callee _ => S.callsTraversal callee
    | .conditional _ thenValue elseValue => do
      if ← denotesObject thenValue then return true else denotesObject elseValue
    | _ => return false

/-- Whether an expression is a path. -/
def isPath : Node → Answer Bool
  | ⟨_, _, _, shape⟩ =>
    match shape with
    | .identifier entity => S.isObject entity
    | .selected whole _ => isPath whole
    | .indexed whole _ => isPath whole
    | .slice whole _ => isPath whole
    | .dereference pointer => isPath pointer
    | .conversion _ operand => isPath operand
    | .qualified _ operand => isPath operand
    | .call callee arguments => do
      if ← S.callsTraversal callee then
        match arguments with
        | first :: _ => isPath first
        | [] => return false
      else return false
    | .conditional _ thenValue elseValue => do
      if ← isPath thenValue then isPath elseValue else return false
    | .literal .null => return true
    | _ => return false

end Setting

end Conformance
