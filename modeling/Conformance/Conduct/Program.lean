import Conformance.Conduct.Walk
import Conformance.Run.Program

/-!
# Decisions, service and runs in a context

Each decision, each item of a context clause and each service of aspects stands under a guard
of its own, which puts the context of the matter under way aside.  The tasks that wait are
served in the context that they are found in.
-/

namespace Conformance

namespace Setting

open Conduct

variable (S : Setting)

/-! ## Decisions -/

section

variable (decide : EntityId → Conduct Unit)

/-- Inquires into the declaration of an entity.  What a package declares is gone through in
the context of the package. -/
def performEntityInquiry (e : Entity) : Conduct Unit :=
  match e.kind with
  | .package initialCondition => do
    match S.program.packageDeclaration? e.name with
    | some n => S.performItems decide n.packageItems
    | none => pure ()
    S.perform decide (S.optionalExpression initialCondition)
  | _ => S.perform decide (S.entityInquiry e)

/-- Admits an entity whose inquiry found no violation.  A type goes if its predicate function
turns out to be excluded. -/
def performGrant (e : Entity) : Conduct Unit := do
  S.publish e
  let kept : Bool ← match e.predicateFunction? with
    | none => pure true
    | some function => performConsult decide function e.site
  if kept then inContext fun _ => e.followers.forM fun id => .postpone (.declaration id)
  else S.exclude e

/-- The verdict on an entity at the end of its inquiry. -/
def performConclusion (e : Entity) : Conduct Unit := do
  let s ← get
  if s.context.violated || !s.run.admits e.name then S.exclude e else S.performGrant decide e

/-- Decides an entity that has not been examined yet, in a context of its own. -/
def performExamination (e : Entity) : Conduct Unit := do
  Act.rule fun v => { v with examined := v.examined.insert e.name }
  let (mode, anchor) ← S.modeOf e.name
  under (enter { matter := some (.declaration e.name), mode, anchor }) do
    if mode == some .off then return
    else
      performBegin (.declaration e.name)
      Act.rule fun v => { v with admitted := v.admitted.insert e.name }
      S.performEntityInquiry decide e
      S.performConclusion decide e

end

/-- Decides an entity where at most `levels` decisions are within each other. -/
def performWithin (levels : Nat) (id : EntityId) : Conduct Unit := do
  let s ← get
  if s.verdicts.examined.contains id then return
  else
    let e ← S.program.entity id
    match levels with
    | 0 => throw .unfinished
    | levels + 1 => S.performExamination (performWithin levels) e

/-- Decides an entity.  An entity that has been examined stays as it is. -/
def performDecision (id : EntityId) : Conduct Unit :=
  S.performWithin S.program.entityCount id

/-! ## Service of postponed tasks -/

/-- Notes that the aspects of a type are excluded, if they are violated. -/
def performAspectsConclusion (type : EntityId) : Conduct Unit :=
  inContext fun c => modify fun r =>
    if c.violated then
      r.rule fun v => { v with failedAspects := v.failedAspects.insert type }
    else r

/-- Serves the aspects of a type, in a context of their own. -/
def performAspects (type : EntityId) (anchor : Option EntityId) : Conduct Unit := do
  let e ← S.program.entity type
  let t ← S.program.typeFacet type
  let (mode, attribution) ← S.aspectsMode e anchor
  if mode == some .off then return
  else
    under (enter { matter := some (.aspects type), mode, anchor, attribution }) do
      S.perform S.performDecision (S.aspectsInquiry t)
      performAspectsConclusion type

/-- Serves the completion of an access type. -/
def performCompletion (access : EntityId) : Conduct Unit := do
  let type ← S.designated access
  if ← Act.admits access then
    S.performDecision type
    if ← Act.admits type then
      Act.rule fun v => { v with completions := v.completions.insert type access }
    else
      let s ← get
      let cause ← S.causeOf s.verdicts type
      S.takeBack access type cause

/-- Serves a task. -/
def performTask : Task → Conduct Unit
  | .declaration id => S.performDecision id
  | .aspects type anchor => S.performAspects type anchor
  | .completion access => S.performCompletion access

/-- Serves at most `steps` tasks, until none waits. -/
def performTasks (steps : Nat) : Conduct Unit := do
  let s ← get
  match s.verdicts.backlog.next? with
  | none => return
  | some (task, backlog) =>
    match steps with
    | 0 => throw .unfinished
    | steps + 1 =>
      Act.rule fun v => { v with backlog }
      note fun _ => .served task
      S.performTask task
      performTasks steps

/-- Serves the postponed tasks until none waits. -/
def performBacklog : Conduct Unit := S.performTasks (3 * S.program.entityCount + 1)

/-! ## Runs over a program -/

/-- Goes through an expression in the context of the matter under way. -/
def performExpression (n : Node) : Conduct Unit :=
  S.perform S.performDecision (S.expression n)

/-- Goes through an item of a context clause, in an empty context. -/
def performContextItem (item : Node) : Conduct Unit :=
  under reset (S.perform S.performDecision (S.contextItem item))

/-- Goes through a compilation unit. -/
def performUnit (n : Node) : Conduct Unit :=
  match n.shape with
  | .compilationUnit context unit => do
    context.forM S.performContextItem
    S.performItem S.performDecision unit
  | _ => S.performItem S.performDecision n

/-- Goes through the whole program. -/
def performProgram : Conduct Unit := do
  S.program.units.forM fun u => do
    S.performUnit u
    S.performBacklog
  Act.close

end Setting

end Conformance
