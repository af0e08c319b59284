import Conformance.Program.Entity

/-!
# Numbers of nodes

Every node of a program has a number of its own.  Numbers are given in pre-order: a node
before its children, children in document order.  Facets of entities are numbered like
any other tree.  The functions of this module thread the next number that is free.
-/

namespace Conformance

/-- Computations that give out numbers; the state is the next free one. -/
abbrev Numbering := StateM NodeId

namespace Numbering

/-- The next free number. -/
def fresh : Numbering NodeId := modifyGet fun next => (next, next + 1)

mutual

/-- Numbers a node and everything below it. -/
def node : Node → Numbering Node
  | ⟨_, location, type, shape⟩ => do
    let id ← fresh
    return ⟨id, location, type, ← layer shape⟩

/-- Numbers the children of a layer. -/
def layer : Shape Node → Numbering (Shape Node)
  | .identifier entity => return .identifier entity
  | .word text => return .word text
  | .literal value => return .literal value
  | .aggregate as => return .aggregate (← associations as)
  | .selected whole component => return .selected (← node whole) component
  | .indexed whole indices => return .indexed (← node whole) (← nodes indices)
  | .slice whole bounds => return .slice (← node whole) (← node bounds)
  | .dereference pointer => return .dereference (← node pointer)
  | .call callee arguments => return .call callee (← nodes arguments)
  | .attribute whole name arguments =>
    return .attribute (← node whole) name (← nodes arguments)
  | .conversion target operand => return .conversion target (← node operand)
  | .qualified target operand => return .qualified target (← node operand)
  | .binary operator left right => return .binary operator (← node left) (← node right)
  | .unary operator operand => return .unary operator (← node operand)
  | .allocator target initial => return .allocator target (← option initial)
  | .conditional condition thenValue elseValue =>
    return .conditional (← node condition) (← node thenValue) (← node elseValue)
  | .quantified element domain predicate existential =>
    return .quantified element (← node domain) (← node predicate) existential
  | .range low high => return .range (← node low) (← node high)
  | .membership operand choices => return .membership (← node operand) (← nodes choices)
  | .assignment target value => return .assignment (← node target) (← node value)
  | .procedureCall callee arguments => return .procedureCall callee (← nodes arguments)
  | .return value => return .return (← option value)
  | .ifElse bs otherwise => return .ifElse (← branches bs) (← nodes otherwise)
  | .case selector bs => return .case (← node selector) (← caseBranches bs)
  | .loop s statements => return .loop (← scheme s) (← nodes statements)
  | .block declarations statements =>
    return .block (← nodes declarations) (← nodes statements)
  | .exit condition => return .exit (← option condition)
  | .goto label => return .goto label
  | .raise exception => return .raise exception
  | .delay value => return .delay (← node value)
  | .abort => return .abort
  | .machineCode => return .machineCode
  | .nothing => return .nothing
  | .pragma name as => return .pragma name (← pragmaArguments as)
  | .declaration kind entity => return .declaration kind entity
  | .package entity visible hidden =>
    return .package entity (← nodes visible) (← nodes hidden)
  | .body kind entity mode declarations statements =>
    return .body kind entity mode (← nodes declarations) (← nodes statements)
  | .protectedBody entity mode bodies => return .protectedBody entity mode (← nodes bodies)
  | .compilationUnit context unit => return .compilationUnit (← nodes context) (← node unit)
  | .withClause unit => return .withClause unit
  | .useClause => return .useClause

/-- Numbers nodes one after another. -/
def nodes : List Node → Numbering (List Node)
  | [] => return []
  | n :: ns => return (← node n) :: (← nodes ns)

/-- Numbers a node that may be absent. -/
def option : Option Node → Numbering (Option Node)
  | none => return none
  | some n => return some (← node n)

/-- Numbers the trees of associations. -/
def associations : List (Association Node) → Numbering (List (Association Node))
  | [] => return []
  | ⟨choices, others, value⟩ :: as =>
    return ⟨← nodes choices, others, ← node value⟩ :: (← associations as)

/-- Numbers the trees of the branches of a conditional statement. -/
def branches : List (Branch Node) → Numbering (List (Branch Node))
  | [] => return []
  | ⟨condition, body⟩ :: bs => return ⟨← node condition, ← nodes body⟩ :: (← branches bs)

/-- Numbers the trees of the branches of a case statement. -/
def caseBranches : List (CaseBranch Node) → Numbering (List (CaseBranch Node))
  | [] => return []
  | ⟨choices, body⟩ :: bs => return ⟨← nodes choices, ← nodes body⟩ :: (← caseBranches bs)

/-- Numbers the tree of a loop scheme. -/
def scheme : LoopScheme Node → Numbering (LoopScheme Node)
  | .forever => return .forever
  | .whileTrue condition => return .whileTrue (← node condition)
  | .overDomain parameter domain reversed =>
    return .overDomain parameter (← node domain) reversed

/-- Numbers the arguments of a pragma. -/
def pragmaArguments : List (PragmaArgument Node) → Numbering (List (PragmaArgument Node))
  | [] => return []
  | ⟨name, value⟩ :: as => return ⟨name, ← node value⟩ :: (← pragmaArguments as)

end

/-- Numbers the constraint of a type definition. -/
def definition : TypeDefinition → Numbering TypeDefinition
  | .subtype parent constraint => return .subtype parent (← nodes constraint)
  | .derived parent constraint => return .derived parent (← nodes constraint)
  | other => return other

/-- Numbers the cases of a contract. -/
def contractCases : List ContractCase → Numbering (List ContractCase)
  | [] => return []
  | ⟨guard, consequence⟩ :: cs =>
    return ⟨← option guard, ← node consequence⟩ :: (← contractCases cs)

/-- Numbers the facets of a type. -/
def typeFacet (t : TypeFacet) : Numbering TypeFacet := do
  let invariant ← option t.invariant
  let initialCondition ← option t.initialCondition
  let definition ← definition t.definition
  return { t with invariant, initialCondition, definition }

/-- Numbers the contracts of a subprogram. -/
def subprogramFacet (s : SubprogramFacet) : Numbering SubprogramFacet := do
  let precondition ← option s.precondition
  let postcondition ← option s.postcondition
  let classPrecondition ← option s.classPrecondition
  let classPostcondition ← option s.classPostcondition
  let contractCases ← contractCases s.contractCases
  return { s with
    precondition, postcondition, classPrecondition, classPostcondition, contractCases }

/-- Numbers the facets of an entity of any kind. -/
def kind : EntityKind → Numbering EntityKind
  | .object facet => return .object { facet with initial := ← option facet.initial }
  | .parameter facet => return .parameter { facet with default := ← option facet.default }
  | .component facet => return .component { facet with default := ← option facet.default }
  | .discriminant facet =>
    return .discriminant { facet with default := ← option facet.default }
  | .type facet => return .type (← typeFacet facet)
  | .subprogram facet => return .subprogram (← subprogramFacet facet)
  | .package initialCondition => return .package (← option initialCondition)
  | .abstractState => return .abstractState
  | .number value => return .number (← option value)
  | .exception => return .exception

/-- Numbers the facets of an entity. -/
def entity (e : Entity) : Numbering Entity := do
  return { e with kind := ← kind e.kind }

/-- Numbers the facets of entities one after another. -/
def entities : List Entity → Numbering (List Entity)
  | [] => return []
  | e :: es => return (← entity e) :: (← entities es)

end Numbering

end Conformance
