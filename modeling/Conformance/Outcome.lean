import Conformance.Conduct.Program

/-!
# Outcomes

What a run over a whole program comes to.  `Setting.outcome` starts without any verdict and in
an empty context; when the run fails, what it reported before is kept.
-/

namespace Conformance

/-- The verdicts on a program, as far as they matter after the run. -/
structure Outcome where
  admitted : Std.TreeSet EntityId
  admittedBodies : Std.TreeSet EntityId
  /-- The admitted declarations, in an order in which they can be declared. -/
  ordered : List EntityId
  relaxed : Std.TreeMap EntityId Bool
  hiddenViews : Std.TreeSet EntityId
  causes : Std.TreeMap EntityId Site
  bodyCauses : Std.TreeMap EntityId Site
  completions : Std.TreeMap EntityId EntityId
  loops : Std.TreeMap EntityId NodeId
  failedAspects : Std.TreeSet EntityId

/-- What verdicts come to. -/
def Verdicts.outcome (v : Verdicts) : Outcome :=
  { admitted := v.admitted
    admittedBodies := v.admittedBodies
    ordered := v.roster.entries
    relaxed := v.relaxed
    hiddenViews := v.hiddenViews
    causes := v.causes
    bodyCauses := v.bodyCauses
    completions := v.completions
    loops := v.loops
    failedAspects := v.failedAspects }

/-- The result of an act and the run after it, whether it succeeds or fails. -/
def Act.after {α : Type} (act : Act α) (r : Run) : Answer α × Run :=
  match act r with
  | .ok value r' => (.ok value, r')
  | .error fault r' => (.error fault, r')

/-- The outcome of a program and the reports on the way. -/
def Setting.outcome (S : Setting) : Answer Outcome × Array Report :=
  let (result, s) := S.performProgram.after {}
  (result.map fun _ => s.verdicts.outcome, s.reports)

end Conformance
