import Conformance.Run.Basic
import Conformance.Typing.Core

/-!
# Relaxed initialisation

A type whose values may be partially initialised passes this on to the types of its
parts and to its ancestors.  What is recorded are cores; a core that has the property by
itself is never recorded as having it from elsewhere only.
-/

namespace Conformance

namespace Setting

variable (S : Setting)

/-- The name of the core of a type. -/
def coreName (type : EntityId) : Answer EntityId := return (← S.core type).1

/-- The cores of the declared types of parts. -/
def partCores : List EntityId → Answer (List EntityId)
  | [] => return []
  | part :: parts => do
    match ← S.program.declaredType? part with
    | none => partCores parts
    | some type => do
      let first ← S.coreName type
      return first :: (← partCores parts)

/-- The cores that have relaxed initialisation from a type: those of the component of an
array, and those of the parent, the discriminants and the components of a record. -/
def relaxedParts (type : EntityId) : Answer (List EntityId) := do
  match ← S.definition type with
  | .array _ component => return [← S.coreName component]
  | .record r => do
    let parents ← r.parent.toList.mapM S.coreName
    return parents ++ (← S.partCores (r.discriminants ++ r.components))
  | _ => return []

/-- Records relaxed initialisation of cores and of what has it from them; a core comes
with whether it has the property by itself.  What was found last is served first.  What
is recorded for a core improves at most twice, so `steps` need not exceed twice the
number of entities. -/
def relaxAll : Nat → List (EntityId × Bool) → Act Unit
  | _, [] => return
  | steps, (core, own) :: rest => do
    if (← get).verdicts.improvesRelaxed core own then
      match steps with
      | 0 => throw .unfinished
      | steps + 1 =>
        .rule fun v => { v with relaxed := v.relaxed.insert core own }
        let parts ← S.relaxedParts core
        relaxAll steps ((parts.map fun part => (part, false)).reverse ++ rest)
    else relaxAll steps rest
termination_by steps work => (steps, work.length)

/-- Induction along a search, which goes on with the other cores or with fewer steps. -/
@[elab_as_elim]
theorem relaxAll_induction {motive : Nat → List (EntityId × Bool) → Prop}
    (nil : ∀ steps, motive steps [])
    (cons : ∀ steps core own rest, motive steps rest → (∀ n < steps, ∀ work, motive n work) →
      motive steps ((core, own) :: rest))
    (steps : Nat) (work : List (EntityId × Bool)) :
  motive steps work
  := by
  induction steps using Nat.strongRecOn generalizing work with
  | ind steps ih =>
    induction work with
    | nil => exact nil steps
    | cons w rest ihw => exact cons steps w.1 w.2 rest ihw ih

theorem relaxAll_nil (steps : Nat) :
  S.relaxAll steps [] = pure ()
  := by rw [relaxAll.eq_def]

theorem relaxAll_cons (steps : Nat) (core : EntityId) (own : Bool)
    (rest : List (EntityId × Bool)) :
  S.relaxAll steps ((core, own) :: rest) = (do
    if (← get).verdicts.improvesRelaxed core own then
      match steps with
      | 0 => throw .unfinished
      | steps + 1 =>
        .rule fun v => { v with relaxed := v.relaxed.insert core own }
        let parts ← S.relaxedParts core
        S.relaxAll steps ((parts.map fun part => (part, false)).reverse ++ rest)
    else S.relaxAll steps rest)
  := by cases steps <;> rw [relaxAll]

/-- Records relaxed initialisation of a type, which declares it or has it from
elsewhere. -/
def relaxAs (own : Bool) (type : EntityId) : Act Unit := do
  let core ← S.coreName type
  S.relaxAll (2 * S.program.entityCount) [(core, own)]

/-- Records relaxed initialisation of a type that declares it. -/
def relax (type : EntityId) : Act Unit := S.relaxAs true type

end Setting

end Conformance
