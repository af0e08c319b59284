import Conformance.Inquiry.Basic
import Conformance.Verdict.Basic

/-!
# Runs

A `Run` is all that a run has come to: the verdicts, whether the matter under way is
violated, the reports, and a journal of what happened.  An `Act` is a step of a run; when
it fails, the run keeps what the act did before.

A `Scope` says which matter is under way and how its findings are reported.  It is given
to acts from outside and no act changes it; `Act.afresh` starts a matter without a
violation and takes up the violation of the enclosing one again, on success and on
failure.

Programs are run by a `Conduct`, which keeps the scope and the violation in one context that
guards replace and put back.  Acts are its counterpart without that context.
-/

namespace Conformance

/-- The matter under way, and how its findings are reported. -/
structure Scope where
  /-- What the verdict is about, unless findings lead to no verdict. -/
  matter : Option Matter := none
  /-- The mode that governs the reports. -/
  mode : Option Mode := none
  /-- The entity that carries the mode. -/
  anchor : Option EntityId := none
  /-- What every violation is attributed to, if it is not its own root cause. -/
  attribution : Option Site := none

namespace Scope

/-- Whether violations and constructs that are not handled are reported. -/
def reports (s : Scope) : Bool := s.mode == some .on

/-- Whether warnings are reported. -/
def warns (s : Scope) : Bool := s.mode != some .off

end Scope

/-- What happens in a run. -/
inductive Event where
  /-- The inquiry of a matter began. -/
  | began (matter : Matter)
  /-- A matter rested on the verdict of an entity. -/
  | consulted (matter : Option Matter) (id : EntityId)
  /-- The inquiry of a matter looked whether an entity is in the subset, as far as
  decided. -/
  | asked (matter : Option Matter) (id : EntityId)
  /-- The inquiry of a matter came to a node. -/
  | visited (matter : Option Matter) (role : Role) (node : Node)
  /-- A postponed task was served. -/
  | served (task : Task)
  /-- The body of an entity was admitted. -/
  | admittedBody (id : EntityId)
  /-- An entity was excluded, at the end of its decision or after the fact. -/
  | excluded (id : EntityId) (cause : Site)

/-- All that a run has come to. -/
structure Run where
  verdicts : Verdicts := {}
  /-- The first cause of a violation of the matter under way. -/
  cause : Option Site := none
  /-- What was reported, in order. -/
  reports : Array Report := #[]
  /-- What happened, the latest first. -/
  journal : List Event := []

namespace Run

/-- Whether the matter under way is violated. -/
def violated (r : Run) : Bool := r.cause.isSome

/-- Whether an entity is in the subset, as far as decided. -/
def admits (r : Run) (id : EntityId) : Bool := r.verdicts.admitted.contains id

/-- The run with a change of its verdicts. -/
def rule (r : Run) (f : Verdicts → Verdicts) : Run := { r with verdicts := f r.verdicts }

/-- The run after an event. -/
def note (r : Run) (e : Event) : Run := { r with journal := e :: r.journal }

/-- The run after a report, if the scope is one that reports. -/
def report (r : Run) (scope : Scope) (report : Report) : Run :=
  if scope.reports then { r with reports := r.reports.push report } else r

/-- The run with the matter under way violated.  An earlier cause stays. -/
def flag (r : Run) (cause : Site) : Run := { r with cause := r.cause.or (some cause) }

/-- The run after a finding at a site.  Warnings violate nothing. -/
def find (r : Run) (scope : Scope) (site : Site) : Finding → Run
  | .violation v => (r.flag site).report scope ⟨site, .violation v, scope.attribution⟩
  | .unsupported feature => (r.flag site).report scope ⟨site, .unsupported feature, none⟩
  | .warning w =>
    if scope.warns then { r with reports := r.reports.push ⟨site, .warning w, none⟩ } else r

/-- The run after the finding that a consulted entity is excluded, whose cause is
inherited. -/
def findExcluded (r : Run) (scope : Scope) (site : Site) (excluded : EntityId) : Run :=
  let cause := r.verdicts.causes[excluded]?
  (r.flag (cause.getD site)).report scope
    ⟨site, .violation (.entityExcluded excluded), scope.attribution.or cause⟩

end Run

/-- A step of a run, which keeps what it did also when it fails. -/
abbrev Act := EStateM Fault Run

namespace Act

/-- The act that an answer about the program decides. -/
def ofAnswer {α : Type} : Answer α → Act α
  | .ok value => pure value
  | .error fault => throw fault

instance : MonadLift Answer Act := ⟨ofAnswer⟩

/-- An act for a matter of its own: it starts without a violation, and the violation of
the enclosing matter is as before when it ends. -/
def afresh {α : Type} (act : Act α) : Act α := fun r =>
  match act { r with cause := none } with
  | .ok value r' => .ok value { r' with cause := r.cause }
  | .error fault r' => .error fault { r' with cause := r.cause }

/-- Changes the verdicts. -/
def rule (f : Verdicts → Verdicts) : Act Unit := modify fun r => r.rule f

/-- Postpones a task, unless it was taken before. -/
def postpone (task : Task) : Act Unit :=
  rule fun v => { v with backlog := v.backlog.push task }

/-- Whether an entity is in the subset, as far as decided. -/
def admits (id : EntityId) : Act Bool := return (← get).admits id

end Act

end Conformance
