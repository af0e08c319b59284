import Conformance.Outcome
import Mathlib.Tactic.Common

/-!
# Contexts under guards

A guard puts back what it put aside when the act under it ends, whatever that act is and
whether it succeeds or fails.  `Conduct.Restores` says that an act leaves the context as it
found it in both cases.  Decisions, bodies, items of context clauses and the service of what
was postponed are such acts, and nothing else about them is used than where the guards stand.
-/

namespace Conformance

namespace Conduct

variable {α β : Type} {act : Conduct α} {f : α → Conduct β}

theorem after_bind (act : Conduct α) (f : α → Conduct β) (s : Situation) :
  (act >>= f).after s = match act.after s with
    | (.ok a, s') => (f a).after s'
    | (.error fault, s') => (.error fault, s')
  := by
  change after (EStateM.bind act f) s = _
  unfold after EStateM.bind
  cases act s <;> rfl

theorem after_inContext (act : Context → Act α) (s : Situation) :
  (inContext act).after s
    = (((act s.context).after s.run).1, s.update ((act s.context).after s.run).2)
  := by
  unfold after inContext Act.after
  cases act s.context s.run <;> rfl

/-- What an act under a guard comes to, if the guard is put up without a failure. -/
theorem after_under {guard : Conduct Saved} {s s' : Situation} {saved : Saved}
    (h : guard s = .ok saved s') (act : Conduct α) :
  (under guard act).after s
    = ((act.after s').1,
      { (act.after s').2 with context := saved.restore (act.after s').2.context })
  := by
  have hd : after (tryFinally act (drop saved)) s'
      = ((act.after s').1,
        { (act.after s').2 with context := saved.restore (act.after s').2.context }) := by
    have hf : tryFinally act (drop saved) s'
        = EStateM.map Prod.fst (tryFinally' act fun _ => drop saved) s' := rfl
    unfold after
    rw [hf]
    unfold EStateM.map
    cases h : act s' <;> simp only [tryFinally', h] <;> rfl
  have hg : guard.after s = (.ok saved, s') := by
    unfold after
    rw [h]
  unfold under
  rw [after_bind, hg]
  exact hd

/-- Under a guard that replaces the context, an act starts from the new context, and the old
one is there again afterwards. -/
theorem after_enter (next : Context) (act : Conduct α) (s : Situation) :
  (under (enter next) act).after s
    = ((act.after { s with context := next }).1,
      { (act.after { s with context := next }).2 with context := s.context })
  := after_under rfl act

/-- Under a guard that replaces the loop, an act starts from the same context with the new loop,
and of the context that it ends with, the old loop is put back. -/
theorem after_enterLoop (loop : NodeId) (act : Conduct α) (s : Situation) :
  (under (enterLoop loop) act).after s
    = let r := act.after { s with context := { s.context with loop := some loop } }
      (r.1, { r.2 with context := { r.2.context with loop := s.context.loop } })
  := after_under rfl act

/-- A violation within a loop stays when the guard of the loop is dropped. -/
example (site : Site) :
    ((under (enterLoop 4) (flag site none)).after {}).2.context
      = { violated := true, rootCause := some site } := rfl

/-! ### Acts that leave the context as it is -/

/-- An act leaves the context as it found it, whether it succeeds or fails. -/
def Restores (act : Conduct α) : Prop :=
  ∀ s, (act.after s).2.context = s.context

theorem Restores.bind (h : act.Restores) (hf : ∀ a, (f a).Restores) :
  (act >>= f).Restores
  := by
  intro s
  have hs := h s
  rw [after_bind]
  generalize act.after s = x at hs ⊢
  rcases x with ⟨fault | a, s'⟩
  · exact hs
  · exact (hf a s').trans hs

theorem restores_pure (a : α) :
  (pure a : Conduct α).Restores
  := fun _ => rfl

theorem restores_throw (fault : Fault) :
  (throw fault : Conduct α).Restores
  := fun _ => rfl

theorem restores_get :
  (get : Conduct Situation).Restores
  := fun _ => rfl

theorem restores_inContext (act : Context → Act α) :
  (inContext act).Restores
  := by
  intro s
  rw [after_inContext]
  rfl

theorem restores_lift (act : Act α) :
  (liftM act : Conduct α).Restores
  := restores_inContext fun _ => act

/-- Whatever an act does to the context, it does to the one that the guard put up. -/
theorem restores_enter (next : Context) (act : Conduct α) :
  (under (enter next) act).Restores
  := by
  intro s
  rw [after_enter]

end Conduct

namespace Setting

open Conduct

variable (S : Setting) {decide : EntityId → Conduct Unit}

/-! ### Decisions and bodies -/

theorem restores_performExamination (e : Entity) :
  (S.performExamination decide e).Restores
  := by
  refine (restores_lift _).bind fun _ => (restores_lift _).bind fun mode => ?_
  apply restores_enter

theorem restores_performWithin (levels : Nat) (id : EntityId) :
  (S.performWithin levels id).Restores
  := by
  unfold performWithin
  refine restores_get.bind fun s => ?_
  split
  · apply restores_pure
  · refine (restores_lift _).bind fun e => ?_
    cases levels with
    | zero => apply restores_throw
    | succ levels => exact S.restores_performExamination e

theorem restores_performDecision (id : EntityId) :
  (S.performDecision id).Restores
  := S.restores_performWithin _ id

/-- A body leaves the context as it is whatever its contents do. -/
theorem restores_performBody (e : Entity) (mode : Option Mode) (contents : Conduct Unit) :
  (S.performBody S.performDecision e mode contents).Restores
  := by
  refine (S.restores_performDecision e.name).bind fun _ => (restores_lift _).bind fun admitted => ?_
  cases admitted with
  | true =>
    refine (restores_lift _).bind fun mode => ?_
    dsimp only
    split
    · apply restores_pure
    · apply restores_enter
  | false => apply restores_lift

/-! ### Context clauses and postponed tasks -/

theorem restores_performContextItem (item : Node) :
  (S.performContextItem item).Restores
  := restores_enter _ _

theorem restores_performAspects (type : EntityId) (anchor : Option EntityId) :
  (S.performAspects type anchor).Restores
  := by
  refine (restores_lift _).bind fun e => (restores_lift _).bind fun t =>
    (restores_lift _).bind fun mode => ?_
  dsimp only
  split
  · apply restores_pure
  · apply restores_enter

theorem restores_performCompletion (access : EntityId) :
  (S.performCompletion access).Restores
  := by
  refine (restores_lift _).bind fun type => (restores_lift _).bind fun admitted => ?_
  cases admitted with
  | true =>
    refine (S.restores_performDecision type).bind fun _ => (restores_lift _).bind fun kept => ?_
    cases kept with
    | true => apply restores_lift
    | false =>
      exact restores_get.bind fun s => (restores_lift _).bind fun cause => restores_lift _
  | false => apply restores_pure

theorem restores_performTask (task : Task) :
  (S.performTask task).Restores
  := by
  cases task with
  | declaration id => exact S.restores_performDecision id
  | aspects type anchor => exact S.restores_performAspects type anchor
  | completion access => exact S.restores_performCompletion access

theorem restores_performTasks (steps : Nat) :
  (S.performTasks steps).Restores
  := by
  induction steps with
  | zero =>
    unfold performTasks
    refine restores_get.bind fun s => ?_
    split
    · apply restores_pure
    · apply restores_throw
  | succ steps ih =>
    unfold performTasks
    refine restores_get.bind fun s => ?_
    split
    · apply restores_pure
    · exact (restores_lift _).bind fun _ => (restores_inContext _).bind fun _ =>
        (S.restores_performTask _).bind fun _ => ih

theorem restores_performBacklog :
  S.performBacklog.Restores
  := S.restores_performTasks _

end Setting

end Conformance
