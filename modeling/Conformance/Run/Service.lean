import Conformance.Run.Decision

/-!
# Service of postponed tasks

Declarations are decided in a context of their own.  Aspects of types are gone through
without a verdict that could be withdrawn: a failure is recorded, and the type stays.  A
completion decides what an access type designates, and takes the access type back if that
is excluded.
-/

namespace Conformance

namespace Act

/-- Notes that the aspects of a type are excluded, if they are violated. -/
def concludeAspects (type : EntityId) : Act Unit :=
  modify fun r =>
    if r.violated then
      r.rule fun v => { v with failedAspects := v.failedAspects.insert type }
    else r

end Act

namespace Setting

variable (S : Setting)

/-- The mode in which the aspects of a type are reported, and what they are attributed
to.  Where no entity carries a mode, they are reported in any case. -/
def aspectsMode (e : Entity) : Option EntityId → Answer (Option Mode × Site)
  | none => return (some .on, e.site)
  | some anchor => do
    let carrier ← S.program.entity anchor
    return ((← S.modeOf anchor).1, carrier.site)

/-- Serves the aspects of a type. -/
def serveAspects (type : EntityId) (anchor : Option EntityId) : Act Unit := do
  let e ← S.program.entity type
  let t ← S.program.typeFacet type
  let (mode, attribution) ← S.aspectsMode e anchor
  if mode == some .off then return
  else
    let scope : Scope := { matter := some (.aspects type), mode, anchor, attribution }
    .afresh do
      S.walk S.decide scope (S.aspectsInquiry t)
      .concludeAspects type

/-- What the access type with a name designates. -/
def designated (access : EntityId) : Answer EntityId := do
  match (← S.program.typeFacet access).definition with
  | .access a => return a.designated
  | _ => throw (.contract (.notAnAccess access))

/-- The cause of the exclusion of an entity. -/
def causeOf (v : Verdicts) (id : EntityId) : Answer Site :=
  match v.causes[id]? with
  | some cause => return cause
  | none => return (← S.program.entity id).site

/-- Takes an access type back because what it designates is excluded. -/
def takeBack (access designated : EntityId) (cause : Site) : Act Unit :=
  modify fun r =>
    let (r, changed) := r.withdraw S.program designated cause (.declaration access)
    if changed then r.cascade S.program cause [access] else r

/-- Serves the completion of an access type. -/
def serveCompletion (access : EntityId) : Act Unit := do
  let type ← S.designated access
  if ← Act.admits access then
    S.decide type
    if ← Act.admits type then
      .rule fun v => { v with completions := v.completions.insert type access }
    else
      let cause ← S.causeOf (← get).verdicts type
      S.takeBack access type cause

/-- Serves a task. -/
def serve : Task → Act Unit
  | .declaration id => S.decide id
  | .aspects type anchor => S.serveAspects type anchor
  | .completion access => S.serveCompletion access

/-- Serves at most `steps` tasks, until none waits. -/
def drainWithin (steps : Nat) : Act Unit := do
  match (← get).verdicts.backlog.next? with
  | none => return
  | some (task, backlog) =>
    match steps with
    | 0 => throw .unfinished
    | steps + 1 =>
      .rule fun v => { v with backlog }
      modify (·.note (.served task))
      S.serve task
      drainWithin steps

/-- Serves the postponed tasks until none waits.  Each entity is taken at most once in
each lane. -/
def drain : Act Unit := S.drainWithin (3 * S.program.entityCount + 1)

end Setting

end Conformance
