import Conformance.Program.Site

/-!
# Nodes

Expressions, statements, declarations and compilation units are nodes.  A `Node` has a
number, a location, a static type where one is known, and a `Shape`.  Shapes are
parametrised by the type of their children, so that functions on one layer of the tree
need no recursion: `Shape.children` lists the children in document order.
-/

namespace Conformance

/-- The explicit subset mode of an entity or of a body. -/
inductive Mode where
  | on
  | off
  deriving DecidableEq

/-- The operator of a binary expression. -/
inductive BinaryOperator where
  | add
  | subtract
  | multiply
  | divide
  | modulo
  | remainder
  | power
  | concatenate
  | equal
  | unequal
  | less
  | lessOrEqual
  | greater
  | greaterOrEqual
  | and
  | or
  | xor
  | andThen
  | orElse
  deriving DecidableEq

/-- The operator of a unary expression. -/
inductive UnaryOperator where
  | plus
  | minus
  | absolute
  | not
  deriving DecidableEq

/-- A value written out. -/
inductive Literal where
  | integer (value : Int)
  | real (text : String)
  | string (value : String)
  /-- A literal of the enumeration type that is the static type of the node. -/
  | enumeration (literal : String)
  | null
  deriving DecidableEq

/-- An association of an aggregate: the value of the components that the choices name.
A positional association has no choices. -/
structure Association (α : Type) where
  choices : List α
  others : Bool
  value : α

/-- A condition with the statements it guards. -/
structure Branch (α : Type) where
  condition : α
  body : List α

/-- A choice of a case statement. -/
structure CaseBranch (α : Type) where
  choices : List α
  body : List α

/-- What makes a loop go on. -/
inductive LoopScheme (α : Type) where
  | forever
  | whileTrue (condition : α)
  | overDomain (parameter : EntityId) (domain : α) (reversed : Bool)

/-- An argument of a pragma. -/
structure PragmaArgument (α : Type) where
  name : Option String
  value : α

/-- The declarations that only name the entity they declare. -/
inductive Declared where
  | object
  | type
  | subprogram
  | number
  | exception
  deriving DecidableEq

/-- The units whose bodies have declarations and statements. -/
inductive Bodied where
  | subprogram
  | package
  | task
  deriving DecidableEq

/-- One layer of the tree, with children in `α`. -/
inductive Shape (α : Type) where
  -- Expressions.
  | identifier (entity : EntityId)
  /-- A word that names no entity, which only pragmas take. -/
  | word (text : String)
  | literal (value : Literal)
  | aggregate (associations : List (Association α))
  | selected (whole : α) (component : EntityId)
  | indexed (whole : α) (indices : List α)
  | slice (whole bounds : α)
  | dereference (pointer : α)
  | call (callee : EntityId) (arguments : List α)
  | attribute (whole : α) (name : String) (arguments : List α)
  | conversion (target : EntityId) (operand : α)
  | qualified (target : EntityId) (operand : α)
  | binary (operator : BinaryOperator) (left right : α)
  | unary (operator : UnaryOperator) (operand : α)
  | allocator (target : EntityId) (initial : Option α)
  | conditional (condition thenValue elseValue : α)
  | quantified (element : EntityId) (domain predicate : α) (existential : Bool)
  | range (low high : α)
  | membership (operand : α) (choices : List α)
  -- Statements.
  | assignment (target value : α)
  | procedureCall (callee : EntityId) (arguments : List α)
  | return (value : Option α)
  | ifElse (branches : List (Branch α)) (otherwise : List α)
  | case (selector : α) (branches : List (CaseBranch α))
  | loop (scheme : LoopScheme α) (statements : List α)
  | block (declarations statements : List α)
  | exit (condition : Option α)
  | goto (label : String)
  | raise (exception : Option EntityId)
  | delay (value : α)
  | abort
  | machineCode
  | nothing
  | pragma (name : String) (arguments : List (PragmaArgument α))
  -- Declarations.
  | declaration (kind : Declared) (entity : EntityId)
  | package (entity : EntityId) (visible hidden : List α)
  | body (kind : Bodied) (entity : EntityId) (mode : Option Mode)
      (declarations statements : List α)
  | protectedBody (entity : EntityId) (mode : Option Mode) (bodies : List α)
  -- Compilation units.
  | compilationUnit (context : List α) (unit : α)
  | withClause (unit : EntityId)
  | useClause

/-- A node of the tree. -/
inductive Node where
  | mk (id : NodeId) (location : Location) (type : Option EntityId) (shape : Shape Node)

/-- The child that a loop scheme has, if any. -/
def LoopScheme.children {α : Type} : LoopScheme α → List α
  | .forever => []
  | .whileTrue condition => [condition]
  | .overDomain _ domain _ => [domain]

/-- Whether the value of an association goes to more than one component, given which
choices are ranges. -/
def Association.isShared {α : Type} (isRange : α → Bool) (a : Association α) : Bool :=
  a.others || 1 < a.choices.length || a.choices.any isRange

namespace Shape

variable {α : Type}

/-- The children of a layer, in document order. -/
def children : Shape α → List α
  | .aggregate associations => associations.flatMap fun a => a.choices ++ [a.value]
  | .selected whole _ => [whole]
  | .indexed whole indices => whole :: indices
  | .slice whole bounds => [whole, bounds]
  | .dereference pointer => [pointer]
  | .call _ arguments => arguments
  | .attribute whole _ arguments => whole :: arguments
  | .conversion _ operand => [operand]
  | .qualified _ operand => [operand]
  | .binary _ left right => [left, right]
  | .unary _ operand => [operand]
  | .allocator _ initial => initial.toList
  | .conditional condition thenValue elseValue => [condition, thenValue, elseValue]
  | .quantified _ domain predicate _ => [domain, predicate]
  | .range low high => [low, high]
  | .membership operand choices => operand :: choices
  | .assignment target value => [target, value]
  | .procedureCall _ arguments => arguments
  | .return value => value.toList
  | .ifElse branches otherwise =>
    (branches.flatMap fun b => b.condition :: b.body) ++ otherwise
  | .case selector branches => selector :: branches.flatMap fun b => b.choices ++ b.body
  | .loop scheme statements => scheme.children ++ statements
  | .block declarations statements => declarations ++ statements
  | .exit condition => condition.toList
  | .delay value => [value]
  | .pragma _ arguments => arguments.map (·.value)
  | .package _ visible hidden => visible ++ hidden
  | .body _ _ _ declarations statements => declarations ++ statements
  | .protectedBody _ _ bodies => bodies
  | .compilationUnit context unit => context ++ [unit]
  | .identifier _ | .word _ | .literal _ | .goto _ | .raise _ | .abort | .machineCode
  | .nothing | .declaration .. | .withClause _ | .useClause => []

end Shape

namespace Node

/-- The number of a node. -/
def id : Node → NodeId
  | ⟨id, _, _, _⟩ => id

/-- The position of a node. -/
def location : Node → Location
  | ⟨_, location, _, _⟩ => location

/-- The static type of a node, where one is known. -/
def type : Node → Option EntityId
  | ⟨_, _, type, _⟩ => type

/-- The outermost layer of a node. -/
def shape : Node → Shape Node
  | ⟨_, _, _, shape⟩ => shape

/-- The children of a node, in document order. -/
def children (n : Node) : List Node := n.shape.children

/-- A node as the place that a report points at. -/
def site (n : Node) : Site := .node n.id n.location

/-- Whether a node is the null literal. -/
def isNull (n : Node) : Bool :=
  match n.shape with
  | .literal .null => true
  | _ => false

/-- Whether a node is a range. -/
def isRange (n : Node) : Bool :=
  match n.shape with
  | .range .. => true
  | _ => false

end Node

end Conformance
