import Conformance.Legality.Entity
import Conformance.Run.Walk

/-!
# Decisions

An entity is decided once.  It is admitted provisionally, so that entities that refer to
each other see one another; when its inquiry is done it is excluded if it was violated,
and otherwise granted: published in the order of declarations, and its followers are
postponed.
-/

namespace Conformance

/-- The run with an entity published, behind its prerequisite if it has one. -/
def Verdicts.publish (v : Verdicts) (id : EntityId) (prerequisite : Option EntityId) :
    Verdicts :=
  { v with roster := v.roster.publish id prerequisite }

namespace Setting

variable (S : Setting)

section

variable (decide : EntityId → Act Unit)

/-- Excludes an entity at the end of its decision. -/
def exclude (e : Entity) : Act Unit := modify (·.exclude S.program e)

/-- Publishes an entity, if entities of its kind are. -/
def publish (e : Entity) : Act Unit := do
  if e.isPublished then
    let prerequisite ← S.prerequisite? e
    .rule fun v => v.publish e.name prerequisite

/-- Admits an entity whose inquiry found no violation.  A type goes if its predicate
function turns out to be excluded. -/
def grant (scope : Scope) (e : Entity) : Act Unit := do
  S.publish e
  let kept : Bool ← match e.predicateFunction? with
    | none => pure true
    | some function => .consult decide scope function e.site
  if kept then e.followers.forM fun id => .postpone (.declaration id)
  else S.exclude e

/-- The verdict on an entity at the end of its inquiry. -/
def conclude (scope : Scope) (e : Entity) : Act Unit := do
  let r ← get
  if r.violated || !r.admits e.name then S.exclude e else S.grant decide scope e

/-- Decides an entity that has not been examined yet. -/
def examine (e : Entity) : Act Unit := do
  .rule fun v => { v with examined := v.examined.insert e.name }
  let (mode, anchor) ← S.modeOf e.name
  if mode == some .off then return
  else
    let m : Matter := .declaration e.name
    let scope : Scope := { matter := m, mode, anchor }
    .afresh do
      .begin scope m
      .rule fun v => { v with admitted := v.admitted.insert e.name }
      S.walk decide scope (S.entityInquiry e)
      S.conclude decide scope e

end

/-- Decides an entity where at most `levels` decisions are within each other.  Each level
examines an entity more, so `levels` need not exceed the number of entities. -/
def decideWithin (levels : Nat) (id : EntityId) : Act Unit := do
  if (← get).verdicts.examined.contains id then return
  else
    let e ← S.program.entity id
    match levels with
    | 0 => throw .unfinished
    | levels + 1 => S.examine (decideWithin levels) e

/-- Decides an entity.  An entity that has been examined stays as it is. -/
def decide (id : EntityId) : Act Unit := S.decideWithin S.program.entityCount id

end Setting

end Conformance
