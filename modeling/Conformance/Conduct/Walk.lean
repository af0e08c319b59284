import Conformance.Conduct.Context
import Conformance.Run.Walk

/-!
# Inquiries in a context

`perform` carries out an inquiry in the context of the matter under way.  `performItem` goes
through a declaration, a body or a statement: the body of an entity has a context of its own,
and a loop changes the loop in the context while its statements are gone through.

How entities are decided is given from outside.
-/

namespace Conformance

open Inquiry (come declareHere)

namespace Setting

open Conduct

variable (S : Setting) (decide : EntityId → Conduct Unit)

/-- Decides an entity and rests on its verdict. -/
def performConsult (id : EntityId) (site : Site) : Conduct Bool := do
  decide id
  note (.consulted · id)
  if ← Act.admits id then
    depend id
    return true
  else
    violationFrom site (.entityExcluded id) id
    return false

/-- Decides an entity that is declared in the matter under way, and rests on its verdict unless
the entity is excluded on purpose or there is no verdict that could rest on it. -/
def performDeclare (id : EntityId) (site : Site) : Conduct Unit := do
  decide id
  let s ← get
  if s.context.matter.any Matter.isRevocable then
    let counts : Bool ← do
      if ← Act.admits id then pure true else pure (!(← S.isOff id))
    if counts then
      let _ ← performConsult decide id site

/-- Begins a matter in its context: its findings are reported if the mode says so. -/
def performBegin (m : Matter) : Conduct Unit := inContext fun c => Act.begin c.toScope m

/-- The verdict on the body of an entity at the end of its inquiry. -/
def performBodyConclusion (e : Entity) : Conduct Unit :=
  inContext fun c => modify fun r =>
    if !c.violated && r.admits e.name then
      (r.rule fun v => { v with admittedBodies := v.admittedBodies.insert e.name }).note
        (.admittedBody e.name)
    else
      r.rule fun v =>
        { v with bodyCauses := v.bodyCauses.insert e.name (c.rootCause.getD e.site) }

/-- Decides an entity and then its body, whose contents are gone through in a context of their
own. -/
def performBody (e : Entity) (mode : Option Mode) (contents : Conduct Unit) :
    Conduct Unit := do
  decide e.name
  if ← Act.admits e.name then
    let (mode, anchor) ← S.bodyMode e mode
    if mode == some .off then return
    else
      let m : Matter := .body e.name
      under (enter { e.inside with matter := some m, mode, anchor }) do
        performBegin m
        contents
        performBodyConclusion e
  else Act.inheritCause e

/-- Carries out an inquiry. -/
def perform {α : Type} : Inquiry α → Conduct α
  | .done value => return value
  | .fail fault => throw fault
  | .visit role node next => do
    note (.visited · role node)
    perform next
  | .consult id site next => do
    let admitted ← performConsult decide id site
    perform (next admitted)
  | .declare id site next => do
    S.performDeclare decide id site
    perform next
  | .decide id next => do
    decide id
    perform next
  | .isAdmitted id next => do
    note (.asked · id)
    let admitted ← Act.admits id
    perform (next admitted)
  | .isExamined id next => do
    let s ← get
    perform (next (s.verdicts.examined.contains id))
  | .find site finding next => do
    find site finding
    perform next
  | .hideView id next => do
    Act.rule fun v => { v with hiddenViews := v.hiddenViews.insert id }
    perform next
  | .postponeCompletion access next => do
    Act.postpone (.completion access)
    perform next
  | .postponeAspects type next => do
    inContext fun c => Act.postpone (.aspects type c.anchor)
    perform next
  | .relax type next => do
    S.relax type
    perform next
  | .placeInLoop id loop next => do
    Act.rule fun v => { v with loops := v.loops.insert id loop }
    perform next
  | .body e mode inner next => do
    S.performBody decide e mode (perform inner)
    perform next

/-! ## Trees -/

mutual

/-- Goes through a declaration, a body or a statement.  What a shape without parts does, it
does whatever loop or body it stands in. -/
def performItem : Node → Conduct Unit
  | ⟨id, location, type, shape⟩ => do
    let n : Node := ⟨id, location, type, shape⟩
    match shape with
    | .declaration kind entity => do
      S.perform decide (come .item n)
      let s ← get
      S.perform decide (declareHere s.context.toSurroundings n.site kind entity)
    | .body _ entity mode declarations statements => do
      S.perform decide (come .item n)
      let e ← S.program.entity entity
      S.performBody decide e mode do
        performItems declarations
        performItems statements
    | .protectedBody entity mode bodies => do
      S.perform decide (come .item n)
      let e ← S.program.entity entity
      S.performBody decide e mode (performItems bodies)
    | .return (some value) => do
      S.perform decide (come .item n)
      S.perform decide (S.expression value)
      let s ← get
      S.perform decide (S.checkReturned s.context.toSurroundings value)
    | .ifElse bs otherwise => do
      S.perform decide (come .item n)
      performBranches bs
      performItems otherwise
    | .case selector bs => do
      S.perform decide (come .item n)
      S.perform decide (S.expression selector)
      performCases bs
    | .loop scheme statements => do
      S.perform decide (come .item n)
      under (enterLoop id) do
        S.perform decide (S.loopScheme n.site id scheme)
        performItems statements
    | .block declarations statements => do
      S.perform decide (come .item n)
      performItems declarations
      performItems statements
    | _ => S.perform decide (S.item {} n)

/-- Goes through declarations, bodies and statements, one after another. -/
def performItems : List Node → Conduct Unit
  | [] => return
  | n :: ns => do
    performItem n
    performItems ns

/-- Goes through the branches of a conditional statement. -/
def performBranches : List (Branch Node) → Conduct Unit
  | [] => return
  | ⟨condition, statements⟩ :: bs => do
    S.perform decide (S.expression condition)
    performItems statements
    performBranches bs

/-- Goes through the branches of a case statement. -/
def performCases : List (CaseBranch Node) → Conduct Unit
  | [] => return
  | ⟨choices, statements⟩ :: bs => do
    S.perform decide (S.expressions choices)
    performItems statements
    performCases bs

end

end Setting

end Conformance
