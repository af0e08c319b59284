import Conformance.Program.Site

/-!
# Faults

What makes a request fail, by cause.  A `Misreading` says why a document cannot be read,
a `Breach` which term of the contract with the front end a program breaks, and a `Fault`
is one of these, a name that no entity has, or a walk that does not end.  `message` is
the wording of each.
-/

namespace Conformance

/-- The reasons why a document cannot be read. -/
inductive Misreading where
  | missingField (name : String)
  | duplicateField (name : String)
  | unknownWord (word : String)
  | integerLiteral (text : String)
  | fractionLiteral (text : String)
  /-- An object without a member that names a shape of the given family. -/
  | shapeless (family : String)
  | malformed
  deriving DecidableEq

/-- The wording of a misreading. -/
def Misreading.message : Misreading → String
  | .missingField name => s!"missing field `{name}`"
  | .duplicateField name => s!"duplicate field `{name}`"
  | .unknownWord word => s!"unknown variant `{word}`"
  | .integerLiteral text => s!"invalid integer literal `{text}`"
  | .fractionLiteral text => s!"invalid rational literal `{text}`"
  | .shapeless family => s!"no variant of enum {family} found in flattened data"
  | .malformed => "malformed"

/-- The terms of the contract with the front end that a program can break. -/
inductive Breach where
  | declaredTwice (id : EntityId)
  | notAType (kind : String) (id : EntityId)
  | notASubprogram (id : EntityId)
  | notAParameter (id callee : EntityId)
  | notAnArray (id : EntityId)
  | notAnAccess (id : EntityId)
  | cyclicScope (id : EntityId)
  | cyclicDerivation (id : EntityId)
  | notAContextItem (node : NodeId)
  | unresolvedWord (text : String) (node : NodeId)
  | misplacedUnit (node : NodeId)
  | notAStatement (node : NodeId)
  | notAnExpression (node : NodeId)
  deriving DecidableEq

/-- The wording of a breach. -/
def Breach.message : Breach → String
  | .declaredTwice id => s!"entity `{id}` is declared twice"
  | .notAType kind id => s!"{kind} `{id}` is used as a type"
  | .notASubprogram id => s!"entity `{id}` is used as a subprogram"
  | .notAParameter id callee => s!"`{id}` is listed as a parameter of `{callee}`"
  | .notAnArray id => s!"`{id}` is not an array type"
  | .notAnAccess id => s!"`{id}` was queued as an access type"
  | .cyclicScope id => s!"scope chain of `{id}` is cyclic"
  | .cyclicDerivation id => s!"derivation chain of `{id}` is cyclic"
  | .notAContextItem node => s!"node {nodeText node} is not a context item"
  | .unresolvedWord text node => s!"unresolved name `{text}` at node {nodeText node}"
  | .misplacedUnit node => s!"node {nodeText node} can only appear at the top of a unit"
  | .notAStatement node => s!"expression node {nodeText node} used as a statement"
  | .notAnExpression node => s!"node {nodeText node} is not an expression"

/-- The two documents of a request. -/
inductive Source where
  | program
  | policy
  deriving DecidableEq

/-- The reasons why a request fails. -/
inductive Fault where
  | unknownEntity (id : EntityId)
  | contract (breach : Breach)
  | unreadable (source : Source) (reason : Misreading)
  /-- A walk that does not end: no number of steps completes it. -/
  | unfinished
  deriving DecidableEq

/-- The wording of a fault. -/
def Fault.message : Fault → String
  | .unknownEntity id => s!"reference to undeclared entity `{id}`"
  | .contract breach => "internal invariant violated: " ++ breach.message
  | .unreadable _ reason => reason.message
  | .unfinished => "the walk does not end"

/-- The answer of a question about a program. -/
abbrev Answer := Except Fault

end Conformance
