import Conformance.Legality.Expression
import Conformance.Vocabulary.Pragma

/-!
# Legality of declarations, bodies and statements

`item` is the inquiry into a node that stands in a list of declarations or statements.
Declarations consult what they declare, bodies are inquiries of their own, and
statements go through their expressions and apply their rules.  `Surroundings` is what
the rules need to know about where the node stands.
-/

namespace Conformance

open Inquiry

/-- Where a declaration or a statement stands. -/
structure Surroundings where
  /-- The subprogram whose body it is in. -/
  subprogram : Option EntityId := none
  /-- The innermost loop around it, inside the nearest body or package. -/
  loop : Option NodeId := none

/-- The surroundings of what the body of an entity holds. -/
def Entity.inside (e : Entity) : Surroundings :=
  match e.kind with
  | .subprogram _ => { subprogram := some e.name }
  | _ => {}

namespace Inquiry

/-- Consults a declared entity, and notes the loop it is in if it is an object. -/
def declareHere (around : Surroundings) (site : Site) (kind : Declared) (id : EntityId) :
    Inquiry Unit :=
  match kind, around.loop with
  | .object, some loop => .placeInLoop id loop (.declare id site (.done ()))
  | _, _ => .declare id site (.done ())

end Inquiry

namespace Setting

variable (S : Setting)

/-! ## Rules of single shapes -/

/-- The inquiry into a call: the callee, the actual parameters, and their fit. -/
def callStatement (site : Site) (callee : EntityId) (arguments : List Node) :
    Inquiry Unit := do
  let admitted ← ask callee site
  let facet ← S.program.subprogramFacet callee
  S.expressions arguments
  if admitted then S.checkActuals callee facet.parameters arguments

/-- Checks an assigned value against the static type of the target. -/
def checkAssigned (target value : Node) : Inquiry Unit := do
  match target.type with
  | none => return
  | some type => if ← stands type then S.checkStored type false value

/-- Checks the value that a function with result type `result` returns. -/
def checkResult (facet : SubprogramFacet) (result : EntityId) (value : Node) :
    Inquiry Unit := do
  if ← S.isTraversal facet then
    if value.isNull then return
    else if ← S.isRootedAt facet.parameters.head? value then
      let observe := (← S.access? result).any (·.kind == .toConstant)
      let _ ← S.checkLoan observe value
    else violation value.site .traversalReturn
  else if ← S.isOwning result then
    let _ ← S.checkMove false value

/-- Checks a returned value against the subprogram whose body it is in. -/
def checkReturned (around : Surroundings) (value : Node) : Inquiry Unit := do
  match around.subprogram with
  | none => return
  | some id =>
    let facet ← S.program.subprogramFacet id
    match facet.result with
    | none => return
    | some result => if ← stands result then S.checkResult facet result value

/-- The inquiry into the conditions of an assertion.  Names of checks and messages are
no conditions. -/
def assertions (arguments : List (PragmaArgument Node)) : Inquiry Unit :=
  arguments.forM fun a =>
    match a.value.shape with
    | .word _ | .literal (.string _) => return
    | _ => S.expression a.value

/-- The inquiry into a pragma. -/
def pragma (site : Site) (name : String) (arguments : List (PragmaArgument Node)) :
    Inquiry Unit :=
  match PragmaClass.ofName name with
  | .assertion => S.assertions arguments
  | .mode | .withoutEffect => return
  | .unsupported => unsupported site (.pragma name)
  | .unknown =>
    if S.policy.rejectUnknownPragmas then violation site (.unknownPragma name)
    else warning site (.unknownPragma name)

/-- The inquiry into an expression that may be absent. -/
def optionalExpression : Option Node → Inquiry Unit
  | none => return
  | some n => S.expression n

/-- The inquiry into the scheme of a loop. -/
def loopScheme (site : Site) (loop : NodeId) : LoopScheme Node → Inquiry Unit
  | .forever => return
  | .whileTrue condition => S.expression condition
  | .overDomain parameter domain _ => do
    .placeInLoop parameter loop (.done ())
    S.expression domain
    .declare parameter site (.done ())

/-! ## Trees -/

mutual

/-- The inquiry into a declaration, a body or a statement. -/
def item (around : Surroundings) : Node → Inquiry Unit
  | ⟨id, location, type, shape⟩ => do
    let n : Node := ⟨id, location, type, shape⟩
    come .item n
    match shape with
    | .declaration kind entity => declareHere around n.site kind entity
    | .package entity _ _ => .declare entity n.site (.done ())
    | .body _ entity mode declarations statements => do
      let e ← S.program.entity entity
      let inner : Inquiry Unit := do
        items e.inside declarations
        items e.inside statements
      .body e mode inner (.done ())
    | .protectedBody entity mode bodies => do
      let e ← S.program.entity entity
      .body e mode (items e.inside bodies) (.done ())
    | .assignment target value => do
      S.expression target
      S.expression value
      S.checkAssigned target value
    | .procedureCall callee arguments => S.callStatement n.site callee arguments
    | .return value => do
      match value with
      | none => return
      | some v =>
        S.expression v
        S.checkReturned around v
    | .ifElse bs otherwise => do
      branches around bs
      items around otherwise
    | .case selector bs => do
      S.expression selector
      caseBranches around bs
    | .loop scheme statements => do
      S.loopScheme n.site id scheme
      items { around with loop := some id } statements
    | .block declarations statements => do
      items around declarations
      items around statements
    | .exit condition => S.optionalExpression condition
    | .raise exception =>
      match exception with
      | none => return
      | some entity => restOn entity n.site
    | .delay value => S.expression value
    | .goto _ => violation n.site .gotoStatement
    | .abort => violation n.site .abortStatement
    | .machineCode => violation n.site .machineCode
    | .nothing | .useClause => return
    | .pragma name arguments => S.pragma n.site name arguments
    | .compilationUnit .. | .withClause _ => throw (.contract (.misplacedUnit id))
    | _ => throw (.contract (.notAStatement id))

/-- The inquiries into declarations, bodies and statements, one after another. -/
def items (around : Surroundings) : List Node → Inquiry Unit
  | [] => return
  | n :: ns => do
    item around n
    items around ns

/-- The inquiries into the branches of a conditional statement. -/
def branches (around : Surroundings) : List (Branch Node) → Inquiry Unit
  | [] => return
  | ⟨condition, statements⟩ :: bs => do
    S.expression condition
    items around statements
    branches around bs

/-- The inquiries into the branches of a case statement. -/
def caseBranches (around : Surroundings) : List (CaseBranch Node) → Inquiry Unit
  | [] => return
  | ⟨cs, statements⟩ :: bs => do
    S.expressions cs
    items around statements
    caseBranches around bs

end

end Setting

end Conformance
