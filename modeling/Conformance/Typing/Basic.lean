import Conformance.Policy

/-!
# Settings and modes

A `Setting` is a program under a policy, which is what all questions are about.  The mode
of an entity is that of the nearest scope with an explicit mode, the entity itself
included, and the default mode where no scope has one.
-/

namespace Conformance

/-- A program under a policy. -/
structure Setting where
  program : Program
  policy : Policy

namespace Setting

variable (S : Setting)

/-- The mode that governs `id`, and the entity that carries it, where at most `steps`
scopes are left to be walked through.  `origin` is where the walk started. -/
def modeFrom (origin : EntityId) (steps : Nat) (id : EntityId) :
    Answer (Option Mode × Option EntityId) := do
  let e ← S.program.entity id
  match e.mode with
  | some mode => return (some mode, some id)
  | none =>
    match steps with
    | 0 => throw (.contract (.cyclicScope origin))
    | steps + 1 =>
      match e.scope with
      | some scope => modeFrom origin steps scope
      | none => return (S.policy.defaultMode, none)

/-- The mode that governs an entity, and the entity that carries it. -/
def modeOf (id : EntityId) : Answer (Option Mode × Option EntityId) :=
  S.modeFrom id S.program.entityCount id

/-- Whether an entity is excluded from analysis. -/
def isOff (id : EntityId) : Answer Bool := do
  return (← S.modeOf id).1 == some .off

end Setting

end Conformance
