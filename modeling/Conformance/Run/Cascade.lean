import Conformance.Program.Basic
import Conformance.Run.Basic

/-!
# Exclusion after the fact

An entity that is excluded takes along what consulted it while it was admitted:
`withdraw` takes back one verdict, and `cascade` goes on until no verdict rests on an
excluded entity.  Each entity that a cascade hits leaves the admitted ones, so it ends
also where entities depend on each other.
-/

namespace Conformance

namespace Verdicts

/-- Whether the verdict on a matter is favourable, as far as decided. -/
def upholds (v : Verdicts) : Matter → Bool
  | .declaration id => v.admitted.contains id
  | .body id => v.admittedBodies.contains id
  | .aspects _ => false

/-- The verdicts with a favourable one taken back. -/
def overturn (v : Verdicts) (cause : Site) : Matter → Verdicts
  | .declaration id => v.expel id cause
  | .body id => v.expelBody id cause
  | .aspects _ => v

/-- The verdicts without what consulted an entity. -/
def forget (v : Verdicts) (id : EntityId) : Verdicts :=
  { v with dependents := v.dependents.erase id }

/-- The number of admitted entities. -/
def weight (v : Verdicts) : Nat := v.admitted.size

theorem weight_expel {v : Verdicts} {id : EntityId} (cause : Site)
    (h : v.upholds (.declaration id)) :
  (v.expel id cause).weight + 1 = v.weight
  := by
  have hm : v.admitted.contains id = true := h
  have hs : v.admitted.size ≠ 0 := by
    intro h0
    have he : v.admitted.isEmpty = true := by
      rw [Std.TreeSet.isEmpty_eq_size_eq_zero, h0]
      rfl
    rw [Std.TreeSet.isEmpty_iff_forall_contains] at he
    simp [he id] at hm
  simp only [weight, expel, Std.TreeSet.size_erase, hm, if_true]
  omega

end Verdicts

namespace Run

/-- The report that a matter depends on an entity that is excluded. -/
def reportDependence (r : Run) (p : Program) (m : Matter) (excluded : EntityId)
    (cause : Site) : Run :=
  if r.verdicts.reporting.contains m then
    let location := ((p.get? m.entity).map (·.location)).getD {}
    { r with
      reports := r.reports.push
        ⟨.entity m.entity location, .violation (.dependsOnExcluded excluded), some cause⟩ }
  else r

/-- The run with a favourable verdict taken back. -/
def overturn (r : Run) (cause : Site) (m : Matter) : Run :=
  let r := r.rule fun v => v.overturn cause m
  match m with
  | .declaration id => r.note (.excluded id cause)
  | _ => r

theorem verdicts_overturn (r : Run) (cause : Site) (m : Matter) :
  (r.overturn cause m).verdicts = r.verdicts.overturn cause m
  := by cases m <;> rfl

/-- The run after a matter lost what it rests on, and whether its verdict changed. -/
def withdraw (r : Run) (p : Program) (excluded : EntityId) (cause : Site) (m : Matter) :
    Run × Bool :=
  if r.verdicts.upholds m then
    ((r.overturn cause m).reportDependence p m excluded cause, true)
  else (r, false)

/-- The run after several matters lost what they rest on, and the entities among them
whose declaration was hit. -/
def withdrawAll (r : Run) (p : Program) (excluded : EntityId) (cause : Site) :
    List Matter → Run × List EntityId
  | [] => (r, [])
  | m :: ms =>
    let (r, changed) := r.withdraw p excluded cause m
    let (r, hit) := r.withdrawAll p excluded cause ms
    match m with
    | .declaration id => (r, if changed then id :: hit else hit)
    | _ => (r, hit)

theorem verdicts_reportDependence (r : Run) (p : Program) (m : Matter) (excluded : EntityId)
    (cause : Site) :
  (r.reportDependence p m excluded cause).verdicts = r.verdicts
  := by
  unfold reportDependence
  split <;> rfl

/-- What is hit is admitted no more. -/
theorem length_hit_add (r : Run) (p : Program) (excluded : EntityId) (cause : Site)
    (ms : List Matter) :
  (r.withdrawAll p excluded cause ms).2.length
      + (r.withdrawAll p excluded cause ms).1.verdicts.weight
    = r.verdicts.weight
  := by
  induction ms generalizing r with
  | nil => simp [withdrawAll]
  | cons m ms ih =>
    by_cases h : r.verdicts.upholds m
    · have step := ih (r.withdraw p excluded cause m).1
      cases m with
      | declaration id =>
        have := Verdicts.weight_expel cause h
        simp only [withdraw, h, if_true, verdicts_reportDependence, verdicts_overturn,
          Verdicts.overturn] at step
        simp only [withdrawAll, withdraw, h, if_true, List.length_cons]
        omega
      | body id =>
        simp only [withdraw, h, if_true, verdicts_reportDependence, verdicts_overturn,
          Verdicts.overturn] at step
        simp only [withdrawAll, withdraw, h, if_true, step]
        rfl
      | aspects id => simp [Verdicts.upholds] at h
    · have step := ih r
      cases m <;> simpa [withdrawAll, withdraw, h] using step

/-- The run after the given entities were excluded for a cause: what consulted them while
they were admitted is excluded along with them.  The last entity of those hit together is
served first. -/
def cascade (p : Program) (cause : Site) (r : Run) : List EntityId → Run
  | [] => r
  | current :: rest =>
    let dependents := (r.verdicts.dependentsOf current).toList
    let step := (r.rule fun v => v.forget current).withdrawAll p current cause dependents
    cascade p cause step.1 (step.2.reverse ++ rest)
termination_by work => work.length + r.verdicts.weight
decreasing_by
  have := (r.rule fun v => v.forget current).length_hit_add p current cause
    (r.verdicts.dependentsOf current).toList
  have hw : (r.rule fun v => v.forget current).verdicts.weight = r.verdicts.weight := rfl
  simp only [List.length_append, List.length_reverse, List.length_cons]
  omega

/-- The run after an entity is excluded at the end of its decision, for the cause of its
violation if there is one. -/
def exclude (r : Run) (p : Program) (e : Entity) : Run :=
  let cause := r.cause.getD e.site
  (r.overturn cause (.declaration e.name)).cascade p cause [e.name]

end Run

end Conformance
