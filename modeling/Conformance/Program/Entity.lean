import Conformance.Program.Node

/-!
# Entities

The records of the symbol table.  An `Entity` has a name, a location, an enclosing
scope, an explicit mode where one is given, and a kind with the facets that its
legality depends on.  `facets` lists the trees that an entity owns, in the order in
which their nodes are numbered.
-/

namespace Conformance

/-- An object: a variable or a constant. -/
structure ObjectFacet where
  type : EntityId
  constant : Bool := false
  initial : Option Node := none
  volatile : Bool := false
  relaxed : Bool := false

/-- The direction of a parameter. -/
inductive Direction where
  | input
  | output
  | both
  deriving DecidableEq

/-- A formal parameter. -/
structure ParameterFacet where
  type : EntityId
  direction : Direction := .input
  default : Option Node := none
  relaxed : Bool := false

/-- A component or a discriminant. -/
structure ComponentFacet where
  type : EntityId
  default : Option Node := none
  relaxed : Bool := false

/-- The state outside of a subprogram that it reads and writes. -/
structure Effects where
  reads : List EntityId := []
  writes : List EntityId := []
  location : Location := {}

/-- A case of a contract.  Without a guard it stands for all other cases. -/
structure ContractCase where
  guard : Option Node := none
  consequence : Node

/-- The three kinds of subprograms. -/
inductive SubprogramKind where
  | function
  | procedure
  | entry
  deriving DecidableEq

/-- A subprogram. -/
structure SubprogramFacet where
  kind : SubprogramKind
  parameters : List EntityId := []
  result : Option EntityId := none
  precondition : Option Node := none
  postcondition : Option Node := none
  classPrecondition : Option Node := none
  classPostcondition : Option Node := none
  contractCases : List ContractCase := []
  effects : Effects := {}
  /-- A function that may read volatile state. -/
  volatileFunction : Bool := false
  dispatching : Bool := false
  /-- The inherited operations that this one overrides. -/
  overridden : List EntityId := []
  /-- The entities that are decided along with this one. -/
  companions : List EntityId := []

/-- What the values of an access type designate, and whether they own it. -/
inductive AccessKind where
  /-- Access to variable: a value owns the object it designates. -/
  | toVariable
  | toConstant
  | toSubprogram
  deriving DecidableEq

/-- A record type. -/
structure RecordDefinition where
  discriminants : List EntityId := []
  components : List EntityId := []
  /-- The parent of a type extension. -/
  parent : Option EntityId := none
  interfaces : List EntityId := []
  tagged : Bool := false

/-- An access type. -/
structure AccessDefinition where
  designated : EntityId
  kind : AccessKind := .toVariable
  anonymous : Bool := false
  storagePool : Bool := false
  storageSize : Bool := false

/-- Whether an access type designates objects. -/
def AccessDefinition.toObject (a : AccessDefinition) : Bool := a.kind != .toSubprogram

/-- The definition of a type. -/
inductive TypeDefinition where
  | signed (low high : Int)
  | modular (modulus : Int)
  | floating (digits : Nat)
  | ordinaryFixed (small : Rat)
  | decimalFixed (digits : Nat) (delta : Rat)
  | enumeration (literals : List String)
  | array (indices : List EntityId) (component : EntityId)
  | record (definition : RecordDefinition)
  | interface (parents : List EntityId)
  | access (definition : AccessDefinition)
  | partialView (full : Option EntityId) (discriminants : List EntityId) (tagged : Bool)
  | incomplete (full : Option EntityId)
  | subtype (parent : EntityId) (constraint : List Node)
  | derived (parent : EntityId) (constraint : List Node)
  | classWide (root : EntityId) (constrained : Bool)
  | task (discriminants entries : List EntityId)
  | protectedUnit (discriminants components operations : List EntityId)

/-- A type. -/
structure TypeFacet where
  definition : TypeDefinition
  invariant : Option Node := none
  initialCondition : Option Node := none
  predicateFunction : Option EntityId := none
  relaxed : Bool := false
  /-- Whether the values of a private type own memory. -/
  ownership : Bool := false
  volatile : Bool := false
  primitives : List EntityId := []

/-- The kind of an entity, with its facets. -/
inductive EntityKind where
  | object (facet : ObjectFacet)
  | parameter (facet : ParameterFacet)
  | component (facet : ComponentFacet)
  | discriminant (facet : ComponentFacet)
  | type (facet : TypeFacet)
  | subprogram (facet : SubprogramFacet)
  | package (initialCondition : Option Node)
  | abstractState
  | number (value : Option Node)
  | exception

/-- A record of the symbol table. -/
structure Entity where
  name : EntityId
  location : Location := {}
  /-- The enclosing entity, unless the entity is at library level. -/
  scope : Option EntityId := none
  mode : Option Mode := none
  kind : EntityKind

namespace TypeDefinition

/-- Whether a type has a tag. -/
def isTagged : TypeDefinition → Bool
  | .record definition => definition.tagged
  | .partialView _ _ tagged => tagged
  | .interface _ | .classWide .. => true
  | _ => false

/-- Whether a type is a task or protected type. -/
def isConcurrent : TypeDefinition → Bool
  | .task .. | .protectedUnit .. => true
  | _ => false

/-- The type that a type is a view, a subtype or a derivation of. -/
def underlying? : TypeDefinition → Option EntityId
  | .subtype parent _ | .derived parent _ => some parent
  | .partialView full _ _ | .incomplete full => full
  | _ => none

/-- The constraint of a subtype or of a derived type. -/
def constraint : TypeDefinition → List Node
  | .subtype _ constraint | .derived _ constraint => constraint
  | _ => []

end TypeDefinition

/-- The trees of a contract case. -/
def ContractCase.facets (c : ContractCase) : List Node := c.guard.toList ++ [c.consequence]

/-- The contracts of a subprogram that are not split into cases. -/
def SubprogramFacet.contracts (s : SubprogramFacet) : List Node :=
  s.precondition.toList ++ s.postcondition.toList ++ s.classPrecondition.toList
    ++ s.classPostcondition.toList

/-- Whether a subprogram is a function. -/
def SubprogramFacet.isFunction (s : SubprogramFacet) : Bool := s.kind == .function

/-- The conditions on the values of a type that are checked once everything is declared. -/
def TypeFacet.aspects (t : TypeFacet) : List Node :=
  t.invariant.toList ++ t.initialCondition.toList

namespace EntityKind

/-- The words for a kind of entity. -/
def describe : EntityKind → String
  | .object _ => "object"
  | .parameter _ => "parameter"
  | .component _ => "component"
  | .discriminant _ => "discriminant"
  | .type _ => "type"
  | .subprogram _ => "subprogram"
  | .package _ => "package"
  | .abstractState => "abstract state"
  | .number _ => "number"
  | .exception => "exception"

/-- The declared type of an object, a parameter, a component or a discriminant. -/
def declaredType? : EntityKind → Option EntityId
  | .object facet => some facet.type
  | .parameter facet => some facet.type
  | .component facet | .discriminant facet => some facet.type
  | _ => none

/-- The trees that an entity owns, in the order of their numbers. -/
def facets : EntityKind → List Node
  | .object facet => facet.initial.toList
  | .parameter facet => facet.default.toList
  | .component facet | .discriminant facet => facet.default.toList
  | .type facet => facet.aspects ++ facet.definition.constraint
  | .subprogram facet => facet.contracts ++ facet.contractCases.flatMap ContractCase.facets
  | .package initialCondition => initialCondition.toList
  | .number value => value.toList
  | .abstractState | .exception => []

end EntityKind

namespace Entity

/-- The declaration of an entity as the place that a report points at. -/
def site (e : Entity) : Site := .entity e.name e.location

/-- The declared type of an object, a parameter, a component or a discriminant. -/
def declaredType? (e : Entity) : Option EntityId := e.kind.declaredType?

/-- The trees that an entity owns, in the order of their numbers. -/
def facets (e : Entity) : List Node := e.kind.facets

end Entity

end Conformance
