import Conformance.Inquiry.Basic
import Conformance.Path.Source

/-!
# Legality of moves and loans

The checks that an expression may be moved, borrowed or observed where its value goes.
Each finds a violation at the expression unless it may.
-/

namespace Conformance

open Inquiry

namespace Setting

variable (S : Setting)

/-- Checks that an expression may be moved, into a constant or into a variable. -/
def checkMove (toConstant : Bool) (n : Node) : Inquiry Bool := do
  if ← S.isMoveSource toConstant n then return true
  else
    violation n.site .moveSource
    return false

/-- Checks that an expression may be borrowed, or observed. -/
def checkLoan (observe : Bool) (n : Node) : Inquiry Bool := do
  if ← S.isLoanSource observe n then return true
  else
    violation n.site (if observe then .observeSource else .borrowSource)
    return false

/-- Checks that a value may be stored where an anonymous access type is expected. -/
def checkCompatible (expected : EntityId) (n : Node) : Inquiry Bool := do
  if ← S.isCompatible expected n then return true
  else
    violation n.site .incompatibleAccessTypes
    return false

/-- The anonymous access type to objects that a type stands for, if it stands for one. -/
def loanType? (type : EntityId) : Answer (Option AccessDefinition) := do
  return (← S.access? type).filter fun a => a.anonymous && a.toObject

/-- Checks that a value may be lent to where the anonymous access type `type` with
definition `a` is expected. -/
def checkLent (type : EntityId) (a : AccessDefinition) (n : Node) : Inquiry Unit := do
  let _ ← S.checkLoan (a.kind == .toConstant) n
  let _ ← S.checkCompatible type n

/-- Checks that a value may be stored in an object of the given type. -/
def checkStored (type : EntityId) (toConstant : Bool) (n : Node) : Inquiry Unit := do
  let applies : Bool ← do
    if ← S.isOwning type then pure true else S.isAnonymousAccess type
  if applies then
    match ← S.loanType? type with
    | some a => S.checkLent type a n
    | none => let _ ← S.checkMove toConstant n

end Setting

end Conformance
