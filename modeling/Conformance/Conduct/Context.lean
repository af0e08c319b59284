import Conformance.Legality.Item
import Conformance.Run.Basic

/-!
# The context of a matter

While a matter is under way, the run keeps its `Context` in a place of its own, where every act
can read it.  Two kinds of operations write it.  `Conduct.flag` notes that the matter is
violated.  A guard replaces the context, or only the loop in it, and `Conduct.under` puts back
what the guard put aside when the act under it ends, whether it succeeds or fails.

A `Conduct` is an act on a `Situation`, which is a run along with the context.
-/

namespace Conformance

/-- The context of the matter under way. -/
structure Context extends Scope, Surroundings where
  /-- Whether the matter is violated. -/
  violated : Bool := false
  /-- The first cause of a violation of the matter, or the cause that it inherited from an
  excluded entity. -/
  rootCause : Option Site := none

/-- All that a run has come to, along with the context of the matter under way. -/
structure Situation where
  verdicts : Verdicts := {}
  /-- What was reported, in order. -/
  reports : Array Report := #[]
  /-- What happened, the latest first. -/
  journal : List Event := []
  context : Context := {}

namespace Situation

/-- The run in a situation. -/
def run (s : Situation) : Run :=
  { verdicts := s.verdicts, cause := s.context.rootCause, reports := s.reports,
    journal := s.journal }

/-- The situation with another run in the same context. -/
def update (s : Situation) (r : Run) : Situation :=
  { s with verdicts := r.verdicts, reports := r.reports, journal := r.journal }

end Situation

/-- An act on a situation, which keeps what it did also when it fails. -/
abbrev Conduct := EStateM Fault Situation

/-- What a guard puts aside. -/
inductive Saved where
  | context (context : Context)
  | loop (loop : Option NodeId)

/-- The context with what was put aside back in its place. -/
def Saved.restore : Saved → Context → Context
  | .context saved, _ => saved
  | .loop saved, c => { c with loop := saved }

namespace Conduct

variable {α : Type}

/-- The result of an act and the situation after it, whether it succeeds or fails. -/
def after (act : Conduct α) (s : Situation) : Answer α × Situation :=
  match act s with
  | .ok value s' => (.ok value, s')
  | .error fault s' => (.error fault, s')

/-- An act on the run that may read the context. -/
def inContext (act : Context → Act α) : Conduct α := fun s =>
  match act s.context s.run with
  | .ok value r => .ok value (s.update r)
  | .error fault r => .error fault (s.update r)

instance : MonadLift Act Conduct := ⟨fun act => inContext fun _ => act⟩

/-- Notes an event that the matter under way has a part in. -/
def note (event : Option Matter → Event) : Conduct Unit :=
  inContext fun c => modify (·.note (event c.matter))

/-- Makes the matter under way, if there is one, a dependent of an entity. -/
def depend (id : EntityId) : Conduct Unit :=
  inContext fun c => c.matter.forM fun m => .rule fun v => v.depend id m

/-! ## Guards -/

/-- Replaces the whole context. -/
def enter (next : Context) : Conduct Saved :=
  modifyGet fun s => (.context s.context, { s with context := next })

/-- Starts from an empty context. -/
def reset : Conduct Saved := enter {}

/-- Only the enclosing loop changes: violations keep flowing to the matter under way. -/
def enterLoop (loop : NodeId) : Conduct Saved :=
  modifyGet fun s =>
    (.loop s.context.loop, { s with context := { s.context with loop := some loop } })

/-- Drops a guard. -/
def drop (saved : Saved) : Conduct Unit :=
  modify fun s => { s with context := saved.restore s.context }

/-- Carries out an act under a guard, which is dropped on every way out. -/
def under (guard : Conduct Saved) (act : Conduct α) : Conduct α := do
  let saved ← guard
  try act finally drop saved

/-! ## Findings -/

/-- Flags the matter under way for a finding at a site that has a cause elsewhere or none.  The
result is whether the finding is reported, and what it is attributed to. -/
def flag (site : Site) (cause : Option Site) : Conduct (Bool × Option Site) :=
  modifyGet fun s =>
    ((s.context.reports, s.context.attribution.or cause),
      { s with context := { s.context with
        violated := true
        rootCause := s.context.rootCause.or (some (cause.getD site)) } })

/-- Adds a report. -/
def report (report : Report) : Conduct Unit :=
  inContext fun _ => modify fun r => { r with reports := r.reports.push report }

/-- A violation at a site. -/
def violation (site : Site) (v : Violation) : Conduct Unit := do
  let (reports, cause) ← flag site none
  if reports then report ⟨site, .violation v, cause⟩

/-- A violation because of an excluded entity, whose cause is inherited. -/
def violationFrom (site : Site) (v : Violation) (excluded : EntityId) : Conduct Unit := do
  let s ← get
  let (reports, cause) ← flag site s.verdicts.causes[excluded]?
  if reports then report ⟨site, .violation v, cause⟩

/-- A construct that is not handled. -/
def unsupported (site : Site) (feature : Unsupported) : Conduct Unit := do
  let (reports, _) ← flag site none
  if reports then report ⟨site, .unsupported feature, none⟩

/-- A reason to warn. -/
def warning (site : Site) (w : Warning) : Conduct Unit := do
  let s ← get
  if s.context.warns then report ⟨site, .warning w, none⟩

/-- A finding at a site. -/
def find (site : Site) : Finding → Conduct Unit
  | .violation v => violation site v
  | .unsupported feature => unsupported site feature
  | .warning w => warning site w

end Conduct

end Conformance
