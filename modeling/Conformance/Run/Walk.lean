import Conformance.Run.Cascade
import Conformance.Run.Relaxation

/-!
# Inquiries as acts

`walk` carries out an inquiry in a run: what it asks is answered from the verdicts, and
what it finds is reported as the scope says.  How entities are decided is given from
outside, since the decision of an entity is an inquiry in turn.

A favourable answer makes the matter under way a dependent of the consulted entity; an
unfavourable one is a violation whose cause is inherited.
-/

namespace Conformance

namespace Act

/-- Decides an entity and rests on its verdict. -/
def consult (decide : EntityId → Act Unit) (scope : Scope) (id : EntityId) (site : Site) :
    Act Bool := do
  decide id
  modify (·.note (.consulted scope.matter id))
  if ← Act.admits id then
    match scope.matter with
    | none => return true
    | some m =>
      .rule fun v => v.depend id m
      return true
  else
    modify (·.findExcluded scope site id)
    return false

/-- Begins a matter: its findings are reported if the mode says so. -/
def begin (scope : Scope) (m : Matter) : Act Unit := do
  modify (·.note (.began m))
  if scope.reports then .rule fun v => { v with reporting := v.reporting.insert m }

/-- The verdict on the body of an entity at the end of its inquiry. -/
def concludeBody (e : Entity) : Act Unit :=
  modify fun r =>
    if !r.violated && r.admits e.name then
      (r.rule fun v => { v with admittedBodies := v.admittedBodies.insert e.name }).note
        (.admittedBody e.name)
    else
      r.rule fun v => { v with bodyCauses := v.bodyCauses.insert e.name (r.cause.getD e.site) }

/-- The body of an entity that is excluded is excluded for the same cause. -/
def inheritCause (e : Entity) : Act Unit :=
  .rule fun v =>
    match v.causes[e.name]? with
    | some cause => { v with bodyCauses := v.bodyCauses.insert e.name cause }
    | none => v

end Act

namespace Setting

variable (S : Setting) (decide : EntityId → Act Unit)

/-- Decides an entity that is declared in the matter under way, and rests on its verdict
unless the entity is excluded on purpose.  Where there is no verdict that could rest on
it, it is only decided. -/
def declare (scope : Scope) (id : EntityId) (site : Site) : Act Unit := do
  decide id
  if scope.matter.any Matter.isRevocable then
    let counts : Bool ← do
      if ← Act.admits id then pure true else pure (!(← S.isOff id))
    if counts then
      let _ ← Act.consult decide scope id site

/-- The mode of a body, and the entity that carries it: the mode of the entity unless the
body has one of its own. -/
def bodyMode (e : Entity) : Option Mode → Answer (Option Mode × Option EntityId)
  | some mode => return (some mode, some e.name)
  | none => S.modeOf e.name

/-- Decides an entity and then its body, whose contents are gone through by `inner` in a
scope of their own. -/
def decideBody (e : Entity) (mode : Option Mode) (inner : Scope → Act Unit) : Act Unit := do
  decide e.name
  if ← Act.admits e.name then
    let (mode, anchor) ← S.bodyMode e mode
    if mode == some .off then return
    else
      let m : Matter := .body e.name
      let scope : Scope := { matter := m, mode, anchor }
      .afresh do
        .begin scope m
        inner scope
        .concludeBody e
  else .inheritCause e

/-- The act that carries out an inquiry in a scope. -/
def walk {α : Type} (scope : Scope) : Inquiry α → Act α
  | .done value => return value
  | .fail fault => throw fault
  | .visit role node next => do
    modify (·.note (.visited scope.matter role node))
    walk scope next
  | .consult id site next => do
    let admitted ← Act.consult decide scope id site
    walk scope (next admitted)
  | .declare id site next => do
    S.declare decide scope id site
    walk scope next
  | .decide id next => do
    decide id
    walk scope next
  | .isAdmitted id next => do
    modify (·.note (.asked scope.matter id))
    let admitted ← Act.admits id
    walk scope (next admitted)
  | .isExamined id next => do
    let examined := (← get).verdicts.examined.contains id
    walk scope (next examined)
  | .find site finding next => do
    modify (·.find scope site finding)
    walk scope next
  | .hideView id next => do
    .rule fun v => { v with hiddenViews := v.hiddenViews.insert id }
    walk scope next
  | .postponeCompletion access next => do
    .postpone (.completion access)
    walk scope next
  | .postponeAspects type next => do
    .postpone (.aspects type scope.anchor)
    walk scope next
  | .relax type next => do
    S.relax type
    walk scope next
  | .placeInLoop id loop next => do
    .rule fun v => { v with loops := v.loops.insert id loop }
    walk scope next
  | .body e mode inner next => do
    S.decideBody decide e mode fun scope => walk scope inner
    walk scope next

end Setting

end Conformance
