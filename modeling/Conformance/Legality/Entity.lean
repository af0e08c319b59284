import Conformance.Legality.Item
import Conformance.Legality.Object
import Conformance.Legality.Subprogram
import Conformance.Legality.Type
import Conformance.Program.Package

/-!
# Legality of entities

The inquiry into the declaration of an entity of any kind.
-/

namespace Conformance

namespace Setting

variable (S : Setting)

/-- The inquiry into a package: everything that it declares, then its initial
condition. -/
def packageInquiry (e : Entity) (initialCondition : Option Node) : Inquiry Unit := do
  match S.program.packageDeclaration? e.name with
  | some n => S.items {} n.packageItems
  | none => pure ()
  S.optionalExpression initialCondition

/-- The inquiry into the declaration of an entity. -/
def entityInquiry (e : Entity) : Inquiry Unit :=
  match e.kind with
  | .type t => S.typeInquiry e t
  | .object o => S.objectInquiry e o
  | .parameter p => S.parameterInquiry e p
  | .component c | .discriminant c => S.componentInquiry e c
  | .subprogram s => S.subprogramInquiry e s
  | .package initialCondition => S.packageInquiry e initialCondition
  | .number value => S.optionalExpression value
  | .abstractState | .exception => return

/-- The inquiry into the aspects of a type. -/
def aspectsInquiry (t : TypeFacet) : Inquiry Unit := S.expressions t.aspects

/-- The entity that is published before an entity: the partial view of a full view, or
the concurrent type of an operation. -/
def prerequisite? (e : Entity) : Answer (Option EntityId) := do
  match e.kind, e.scope with
  | .type _, _ => return S.program.partialView? e.name
  | .subprogram _, some scope => return if ← S.isConcurrentType scope then some scope else none
  | _, _ => return none

end Setting

/-- Whether an entity is published when it is admitted.  Abstract states, parameters and
components are declared along with something else. -/
def Entity.isPublished (e : Entity) : Bool :=
  match e.kind with
  | .abstractState | .parameter _ | .component _ | .discriminant _ => false
  | _ => true

/-- The entities that are decided later because an entity is admitted: primitive
operations of tagged types, entries and operations of concurrent types, and companions
of subprograms. -/
def Entity.followers (e : Entity) : List EntityId :=
  match e.kind with
  | .type t =>
    (if t.definition.isTagged then t.primitives else [])
      ++ (match t.definition with
        | .task _ entries => entries
        | .protectedUnit _ _ operations => operations
        | _ => [])
  | .subprogram s => s.companions
  | _ => []

/-- The predicate function that an entity rests on once it is admitted. -/
def Entity.predicateFunction? (e : Entity) : Option EntityId :=
  match e.kind with
  | .type t => t.predicateFunction
  | _ => none

end Conformance
