import Conformance.Legality.Entity
import Conformance.Proofs.Path

/-!
# Bodies

`Node.bodies` lists the bodies in a tree outside of other bodies and of packages.  What a
body holds is gone through as a list of items in turn.
-/

namespace Conformance

namespace Node

mutual

/-- The bodies in a tree outside of other bodies and of packages: the entities with what
the bodies hold. -/
def bodies : Node → List (EntityId × List Node)
  | ⟨_, _, _, shape⟩ =>
    match shape with
    | .body _ entity _ declarations statements => [(entity, declarations ++ statements)]
    | .protectedBody entity _ bs => [(entity, bs)]
    | .block declarations statements => bodiesOf declarations ++ bodiesOf statements
    | .ifElse bs otherwise => branchBodies bs ++ bodiesOf otherwise
    | .case _ bs => caseBranchBodies bs
    | .loop _ statements => bodiesOf statements
    | _ => []

/-- The bodies in trees, one after another. -/
def bodiesOf : List Node → List (EntityId × List Node)
  | [] => []
  | n :: ns => bodies n ++ bodiesOf ns

/-- The bodies in the branches of a conditional statement. -/
def branchBodies : List (Branch Node) → List (EntityId × List Node)
  | [] => []
  | ⟨_, statements⟩ :: bs => bodiesOf statements ++ branchBodies bs

/-- The bodies in the branches of a case statement. -/
def caseBranchBodies : List (CaseBranch Node) → List (EntityId × List Node)
  | [] => []
  | ⟨_, statements⟩ :: bs => bodiesOf statements ++ caseBranchBodies bs

end

end Node

/-- The body that a step decides, if it decides one. -/
def Step.body? : Step → Option (Entity × Inquiry Unit)
  | .body e _ inner => some (e, inner)
  | _ => none

namespace Setting

variable (S : Setting)

/-- A body that an inquiry decides is one in a tree. -/
def IsBody (b : Entity × Inquiry Unit) (c : EntityId × List Node) : Prop :=
  S.program.entity c.1 = .ok b.1 ∧ b.2 = S.items b.1.inside c.2

/-- The bodies that are declared along with an entity: those in a package. -/
def ownBodies (e : Entity) : List (EntityId × List Node) :=
  match e.kind with
  | .package _ => match S.program.packageDeclaration? e.name with
    | some n => Node.bodiesOf n.packageItems
    | none => []
  | _ => []

theorem items_append (around : Surroundings) (ns ms : List Node) :
  S.items around (ns ++ ms) = (do S.items around ns; S.items around ms)
  := by
  induction ns with
  | nil => rfl
  | cons n ns ih =>
    rw [List.cons_append, items, items, ih]
    exact (LawfulMonad.bind_assoc _ _ _).symm

end Setting

end Conformance
