import Conformance.Program.Site

/-!
# The order of publication

The admitted entities in the order in which they must be declared.  Entities arrive when
their decision succeeds, which already puts what they rest on first.  An entity with a
prerequisite is held back until the prerequisite is published; what waits for a
published entity is released right after it, in order of arrival.
-/

namespace Conformance

/-- The entities published so far and those that wait for another one. -/
structure Roster where
  /-- The published entities, in order. -/
  entries : List EntityId := []
  /-- The entities held back, each behind its prerequisite, in order of arrival. -/
  held : List (EntityId × EntityId) := []

namespace Roster

/-- Whether an entity is published. -/
def contains (r : Roster) (id : EntityId) : Bool := r.entries.contains id

/-- Whether an entity waits for its prerequisite. -/
def holds (r : Roster) (id : EntityId) : Bool := r.held.any (·.2 == id)

/-- The entities that wait for `id`, in order of arrival. -/
def waitingFor (r : Roster) (id : EntityId) : List EntityId :=
  (r.held.filter (·.1 == id)).map (·.2)

/-- The roster with `id` published, where what waited for `id` is held back no more. -/
def enter (r : Roster) (id : EntityId) : Roster :=
  ⟨r.entries ++ [id], r.held.filter (·.1 != id)⟩

/-- What waited for `id` is exactly what is held back no more. -/
theorem length_waitingFor_add (r : Roster) (id : EntityId) :
  (r.waitingFor id).length + (r.enter id).held.length = r.held.length
  := by
  simp only [waitingFor, enter, List.length_map]
  induction r.held with
  | nil => rfl
  | cons x xs ih => by_cases e : x.1 = id <;> simp [e] <;> omega

/-- The roster after the entities `ready` are published one by one, each followed by what
waited for it. -/
def release (r : Roster) : List EntityId → Roster
  | [] => r
  | id :: ready => release (r.enter id) (r.waitingFor id ++ ready)
termination_by ready => ready.length + r.held.length
decreasing_by
  have := r.length_waitingFor_add id
  simp only [List.length_append, List.length_cons]
  omega

/-- The roster after the arrival of an entity.  An entity that is published or held
already changes nothing. -/
def publish (r : Roster) (id : EntityId) (prerequisite : Option EntityId) : Roster :=
  if r.contains id || r.holds id then r
  else
    match prerequisite with
    | some p => if p != id && !r.contains p then { r with held := r.held ++ [(p, id)] }
      else r.release [id]
    | none => r.release [id]

/-- The roster without an entity. -/
def retire (r : Roster) (id : EntityId) : Roster :=
  ⟨r.entries.filter (· != id), r.held.filter (·.2 != id)⟩

/-- The entries followed by the entities of `waiting` that are not among them. -/
def closeWith (entries : List EntityId) : List (EntityId × EntityId) → List EntityId
  | [] => entries
  | (_, id) :: rest =>
    closeWith (if entries.contains id then entries else entries ++ [id]) rest

/-- The roster in which everything held back is published. -/
def close (r : Roster) : Roster := ⟨closeWith r.entries r.held, []⟩

end Roster

end Conformance
