import Conformance.Program.Basic

/-!
# Package declarations

The declarations of packages wherever a unit can hold them: at the top, inside other
packages, inside bodies, and inside statements.  An entity that is declared as a package
more than once has its last declaration.
-/

namespace Conformance

namespace Node

mutual

/-- The package declarations of a tree, in document order. -/
def packages : Node → List Node
  | ⟨id, location, type, shape⟩ =>
    match shape with
    | .compilationUnit _ unit => packages unit
    | .package entity visible hidden =>
      ⟨id, location, type, .package entity visible hidden⟩
        :: (packagesOf visible ++ packagesOf hidden)
    | .body _ _ _ declarations statements =>
      packagesOf declarations ++ packagesOf statements
    | .block declarations statements => packagesOf declarations ++ packagesOf statements
    | .protectedBody _ _ bodies => packagesOf bodies
    | .ifElse branches otherwise => branchPackages branches ++ packagesOf otherwise
    | .case _ branches => caseBranchPackages branches
    | .loop _ statements => packagesOf statements
    | _ => []

/-- The package declarations of trees, one after another. -/
def packagesOf : List Node → List Node
  | [] => []
  | n :: ns => packages n ++ packagesOf ns

/-- The package declarations of the branches of a conditional statement. -/
def branchPackages : List (Branch Node) → List Node
  | [] => []
  | ⟨_, statements⟩ :: bs => packagesOf statements ++ branchPackages bs

/-- The package declarations of the branches of a case statement. -/
def caseBranchPackages : List (CaseBranch Node) → List Node
  | [] => []
  | ⟨_, statements⟩ :: bs => packagesOf statements ++ caseBranchPackages bs

end

/-- Whether a node is a package declaration of an entity. -/
def declaresPackage (id : EntityId) (n : Node) : Bool :=
  match n.shape with
  | .package entity _ _ => entity == id
  | _ => false

/-- The declarations in a package, if the node is a package declaration. -/
def packageItems (n : Node) : List Node :=
  match n.shape with
  | .package _ visible hidden => visible ++ hidden
  | _ => []

end Node

namespace Program

/-- The declaration of the package with a name, if there is one. -/
def packageDeclaration? (p : Program) (id : EntityId) : Option Node :=
  ((Node.packagesOf p.units).filter (Node.declaresPackage id)).getLast?

/-- The private type whose full view is `full`, if there is one.  Where there are
several, the last name counts. -/
def partialView? (p : Program) (full : EntityId) : Option EntityId :=
  let isView (e : Entity) : Bool :=
    match e.kind with
    | .type t =>
      match t.definition with
      | .partialView view _ _ => view == some full
      | _ => false
    | _ => false
  ((p.entities.values.filter isView).getLast?).map (·.name)

end Program

end Conformance
