import Conformance.Program.Site

/-!
# Reports

What a run has to say about a program.  A `Finding` is a breach of a legality rule, a
construct outside of what is handled, or a warning; a `Report` is a finding at a site,
with the root cause it goes back to where one is known.
-/

namespace Conformance

/-- The breaches of legality rules. -/
inductive Violation where
  /-- A consulted entity is not in the subset. -/
  | entityExcluded (entity : EntityId)
  /-- An entity that was consulted while it was admitted was excluded later. -/
  | dependsOnExcluded (entity : EntityId)
  | anonymousAccessComponent
  | owningComponentInExtension (component : EntityId)
  | duplicatedOwningValue
  | accessStorageClause
  | functionWithOutput (parameter : EntityId)
  | functionWithEffects
  | volatileInFunction (entity : EntityId)
  | anonymousAccessResult
  | traversalFirstParameter
  | traversalReturn
  | specificPreconditionOnDispatching
  | moveSource
  | borrowSource
  | observeSource
  | actualNotPath
  | incompatibleAccessTypes
  | accessEquality
  | arrayConversionIndex
  | fixedPointScaling
  | attributeOfObject (name : String)
  | gotoStatement
  | abortStatement
  | machineCode
  | volatileNotLibraryLevel
  | unknownPragma (name : String)
  deriving DecidableEq

/-- The constructs that are not handled. -/
inductive Unsupported where
  | integerRange
  | modulusTooLarge
  | floatDigits (digits : Nat)
  | fixedPointSmall
  | decimalFixedPoint
  | fixedPointFloatResult
  | arrayDimensions (dimensions : Nat)
  | constrainedClassWide
  | relaxedWithInvariant
  | multipleInheritance
  | missingCompletion
  | attribute (name : String)
  | pragma (name : String)
  deriving DecidableEq

/-- The warnings. -/
inductive Warning where
  | impreciseAttribute (name : String)
  | unknownPragma (name : String)
  deriving DecidableEq

/-- What a report says. -/
inductive Finding where
  | violation (violation : Violation)
  | unsupported (feature : Unsupported)
  | warning (warning : Warning)
  deriving DecidableEq

/-- A finding at a site. -/
structure Report where
  site : Site
  finding : Finding
  rootCause : Option Site := none
  deriving DecidableEq

namespace Report

/-- Whether a report is about a breach of a legality rule. -/
def isViolation (r : Report) : Bool :=
  match r.finding with
  | .violation _ => true
  | _ => false

/-- Whether a report is about a construct that is not handled. -/
def isUnsupported (r : Report) : Bool :=
  match r.finding with
  | .unsupported _ => true
  | _ => false

/-- Whether a report is a warning. -/
def isWarning (r : Report) : Bool :=
  match r.finding with
  | .warning _ => true
  | _ => false

end Report

end Conformance
