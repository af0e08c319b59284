import Conformance.Verdict.Backlog
import Conformance.Verdict.Matter
import Conformance.Verdict.Roster
import Std.Data.TreeMap

/-!
# Verdicts

What a run has decided so far.  An entity is examined once; it is admitted
provisionally, and admitted or excluded for good when its decision is complete.
Dependents are the matters that consulted an entity while it was admitted: their
verdicts are withdrawn if the entity is excluded after all.
-/

namespace Conformance

/-- What a run has decided so far. -/
structure Verdicts where
  examined : Std.TreeSet EntityId := ∅
  admitted : Std.TreeSet EntityId := ∅
  admittedBodies : Std.TreeSet EntityId := ∅
  /-- Private types whose full view is not analysed. -/
  hiddenViews : Std.TreeSet EntityId := ∅
  /-- Types that may hold partially initialised values: whether they say so themselves
  or have it from a type they are part of. -/
  relaxed : Std.TreeMap EntityId Bool := ∅
  /-- Entities declared inside a loop, with that loop. -/
  loops : Std.TreeMap EntityId NodeId := ∅
  /-- Incomplete types, with the access type that they were completed for. -/
  completions : Std.TreeMap EntityId EntityId := ∅
  /-- Excluded entities, with the first cause of their exclusion. -/
  causes : Std.TreeMap EntityId Site := ∅
  /-- Entities whose body is excluded, with the first cause of its exclusion. -/
  bodyCauses : Std.TreeMap EntityId Site := ∅
  /-- Types whose aspects are excluded. -/
  failedAspects : Std.TreeSet EntityId := ∅
  /-- Entities, with the matters that consulted them while they were admitted. -/
  dependents : Std.TreeMap EntityId Matters := ∅
  /-- The matters whose findings are reported. -/
  reporting : Matters := ∅
  backlog : Backlog := {}
  roster : Roster := {}

namespace Verdicts

/-- The matters that consulted an entity while it was admitted. -/
def dependentsOf (v : Verdicts) (id : EntityId) : Matters := v.dependents.getD id ∅

/-- The verdicts after a matter consulted an admitted entity.  A declaration does not
depend on itself, and aspects of types depend on nothing. -/
def depend (v : Verdicts) (consulted : EntityId) (m : Matter) : Verdicts :=
  if m.isRevocable && m != .declaration consulted then
    { v with dependents := v.dependents.insert consulted ((v.dependentsOf consulted).insert m) }
  else v

/-- Whether recording relaxed initialisation of a type would change what is recorded: a
type's own declaration outranks what it inherits. -/
def improvesRelaxed (v : Verdicts) (type : EntityId) (own : Bool) : Bool :=
  match v.relaxed[type]? with
  | some true => false
  | some false => own
  | none => true

/-- The verdicts with the declaration of an entity out of the subset. -/
def expel (v : Verdicts) (id : EntityId) (cause : Site) : Verdicts :=
  { v with
    admitted := v.admitted.erase id
    admittedBodies := v.admittedBodies.erase id
    roster := v.roster.retire id
    causes := v.causes.insert id cause }

/-- The verdicts with the body of an entity out of the subset. -/
def expelBody (v : Verdicts) (id : EntityId) (cause : Site) : Verdicts :=
  { v with
    admittedBodies := v.admittedBodies.erase id
    bodyCauses := v.bodyCauses.insert id cause }

end Verdicts

end Conformance
