import Conformance.Proofs.Guard
import Conformance.Proofs.Isolation

/-!
# Runs that keep no context

The acts on runs are given the scope that they are carried out in, and remember of the context
only the cause of a violation.  `Conduct.Mirrors` says that an act on situations and an act on
runs do the same: the same result, the same verdicts, reports and events, and what the run
remembers as the cause is what the context of the situation is charged with.

Each act in a context mirrors its counterpart, and so the outcome of a program is the one of
the run that keeps no context, `Setting.outcome_eq`.
-/

namespace Conformance

/-! ### Situations of runs -/

/-- The context with the matter under way violated for a cause, if there is one.  An earlier
cause stays. -/
def Context.charge (c : Context) (cause : Option Site) : Context :=
  { c with violated := c.violated || cause.isSome, rootCause := c.rootCause.or cause }

@[simp]
theorem Context.charge_none (c : Context) :
  c.charge none = c
  := by
  simp [charge]

/-- The situation that a run is in, if it began in a context without a violation. -/
def Situation.ofRun (c : Context) (r : Run) : Situation :=
  { verdicts := r.verdicts, reports := r.reports, journal := r.journal,
    context := c.charge r.cause }

theorem Situation.verdicts_ofRun (c : Context) (r : Run) :
  (ofRun c r).verdicts = r.verdicts
  := rfl

theorem Situation.toScope_ofRun (c : Context) (r : Run) :
  (ofRun c r).context.toScope = c.toScope
  := rfl

theorem Situation.ofRun_run (s : Situation) :
  Situation.ofRun s.context { s.run with cause := none } = s
  := by
  simp [ofRun, run]

namespace Conduct

variable {α β : Type} {c : Context}

/-- In a context, an act on situations does what an act on runs does. -/
def Mirrors (c : Context) (conduct : Conduct α) (act : Act α) : Prop :=
  ∀ r, conduct.after (.ofRun c r) = ((act.after r).1, .ofRun c (act.after r).2)

section

variable {conduct : Conduct α} {act : Act α} {f : α → Conduct β} {g : α → Act β}

theorem Mirrors.bind (h : Mirrors c conduct act) (hf : ∀ a, Mirrors c (f a) (g a)) :
  Mirrors c (conduct >>= f) (act >>= g)
  := by
  intro r
  rw [after_bind, Act.after_bind_eq, h r]
  rcases act.after r with ⟨fault | a, r'⟩
  · rfl
  · exact hf a r'

theorem mirrors_pure (a : α) :
  Mirrors c (pure a) (pure a)
  := fun _ => rfl

theorem mirrors_throw (fault : Fault) :
  Mirrors (α := α) c (throw fault) (throw fault)
  := fun _ => rfl

/-- An act that reads the context, but neither whether the matter is violated nor for which
cause, and that leaves the violation as it is. -/
theorem mirrors_inContext {f : Context → Act α} (h : (f c).Isolated)
    (hc : ∀ cause, f (c.charge cause) = f c) :
  Mirrors c (inContext f) (f c)
  := by
  intro r
  have hr := h r
  rw [after_inContext]
  change (((f (c.charge r.cause)).after { r with cause := c.rootCause.or r.cause }).1,
    (Situation.ofRun c r).update
      ((f (c.charge r.cause)).after { r with cause := c.rootCause.or r.cause }).2) = _
  rw [hc, hr]
  unfold Situation.ofRun
  rw [h.cause_eq r]
  rfl

theorem mirrors_lift (h : act.Isolated) :
  Mirrors c (liftM act) act
  := mirrors_inContext (f := fun _ => act) h fun _ => rfl

theorem mirrors_get_bind {f : Situation → Conduct β} {g : Run → Act β}
    (h : ∀ r, Mirrors c (f (.ofRun c r)) (g r)) :
  Mirrors c (get >>= f) (get >>= g)
  := fun r => h r r

/-- An act may look at the situation where its counterpart needs nothing of the run. -/
theorem mirrors_look {f : Situation → Conduct α} (h : ∀ r, Mirrors c (f (.ofRun c r)) act) :
  Mirrors c (get >>= f) act
  := fun r => h r r

theorem mirrors_forM {ι : Type} {f : ι → Conduct PUnit} {g : ι → Act PUnit} {is : List ι}
    (h : ∀ i, Mirrors c (f i) (g i)) :
  Mirrors c (is.forM f) (is.forM g)
  := by
  induction is with
  | nil => apply mirrors_pure
  | cons i is ih => exact (h i).bind fun _ => ih

theorem mirrors_note (event : Option Matter → Event) :
  Mirrors c (note event) (modify (·.note (event c.matter)))
  := mirrors_inContext (Act.isolated_note _) fun _ => rfl

theorem mirrors_depend (id : EntityId) :
  Mirrors c (depend id) (c.matter.forM fun m => .rule fun v => v.depend id m)
  := by
  refine mirrors_inContext (f := fun c => c.matter.forM fun m => .rule fun v => v.depend id m)
    ?_ fun _ => rfl
  cases c.matter with
  | none => apply Act.isolated_pure
  | some m => apply Act.isolated_rule

/-- What the verdict on a matter does mirrors what it does in the run, if the context began
without a violation. -/
theorem mirrors_conclusion {f : Context → Run → Run} {g : Run → Run}
    (hr : c.rootCause = none) (hf : ∀ r, f (c.charge r.cause) r = g r)
    (hg : ∀ r, (g r).cause = r.cause) :
  Mirrors c (inContext fun c => modify (f c)) (modify g)
  := by
  intro r
  have hs : (Situation.ofRun c r).run = r := by
    simp [Situation.ofRun, Situation.run, Context.charge, hr]
  change (_, (Situation.ofRun c r).update (f (c.charge r.cause) (Situation.ofRun c r).run))
    = (Except.ok (), Situation.ofRun c (g r))
  rw [hs, hf]
  unfold Situation.ofRun
  rw [hg]
  rfl

/-- Under a guard that puts up a new context, an act does what an act on runs does afresh. -/
theorem Mirrors.under_enter {next : Context} (h : Mirrors next conduct act) :
  Mirrors c (under (enter next) conduct) act.afresh
  := by
  intro r
  have hs : { Situation.ofRun c r with context := next }
      = Situation.ofRun next { r with cause := none } := by
    simp [Situation.ofRun]
  rw [after_enter, hs, h, Act.after_afresh_eq]
  rfl

theorem Mirrors.under_enterLoop {loop : NodeId}
    (h : Mirrors { c with loop := some loop } conduct act) :
  Mirrors c (under (enterLoop loop) conduct) act
  := by
  intro r
  have hs : { Situation.ofRun c r with
        context := { (Situation.ofRun c r).context with loop := some loop } }
      = Situation.ofRun { c with loop := some loop } r := rfl
  rw [after_enterLoop, hs, h]
  rfl

end

/-! ### Findings -/

/-- A finding charges the context, and what is done about it mirrors what is done in the run. -/
theorem mirrors_flag (site : Site) (cause : Option Site) {f : Bool × Option Site → Conduct α}
    {act : Act α}
    (h : Mirrors c (f (c.reports, c.attribution.or cause)) act) :
  Mirrors c (flag site cause >>= f)
    ((modify (·.flag (cause.getD site)) : Act Unit) >>= fun _ => act)
  := by
  intro r
  have hs : { Situation.ofRun c r with
        context := { (Situation.ofRun c r).context with
          violated := true
          rootCause := (Situation.ofRun c r).context.rootCause.or (some (cause.getD site)) } }
      = Situation.ofRun c (r.flag (cause.getD site)) := by
    simp [Situation.ofRun, Context.charge, Run.flag]
  change (f (c.reports, c.attribution.or cause)).after _ = _
  rw [hs]
  exact h _

theorem mirrors_report (entry : Report) :
  Mirrors c (if c.reports then report entry else pure ())
    (modify (·.report c.toScope entry))
  := by
  unfold Run.report
  split
  · exact mirrors_lift (Act.isolated_modify fun _ _ => rfl)
  · apply mirrors_pure

theorem mirrors_find (site : Site) (finding : Finding) :
  Mirrors c (find site finding) (modify (·.find c.toScope site finding))
  := by
  cases finding with
  | violation v =>
    have h := mirrors_report (c := c) ⟨site, .violation v, c.attribution.or none⟩
    have hf := mirrors_flag site none (f := fun p =>
      if p.1 then report ⟨site, .violation v, p.2⟩ else pure ()) h
    rw [Option.or_none] at hf
    exact hf
  | unsupported feature =>
    exact mirrors_flag site none (f := fun p =>
      if p.1 then report ⟨site, .unsupported feature, none⟩ else pure ()) (mirrors_report _)
  | warning w =>
    refine mirrors_look fun r => ?_
    unfold Run.find
    dsimp only
    rw [Situation.toScope_ofRun]
    split
    · exact mirrors_lift (Act.isolated_modify fun _ _ => rfl)
    · apply mirrors_pure

theorem mirrors_findExcluded (site : Site) (id : EntityId) :
  Mirrors c (violationFrom site (.entityExcluded id) id)
    (modify (·.findExcluded c.toScope site id))
  := by
  refine mirrors_get_bind (g := fun r => modify (·.flag ((r.verdicts.causes[id]?).getD site))
    >>= fun _ => modify (·.report c.toScope
      ⟨site, .violation (.entityExcluded id), c.attribution.or r.verdicts.causes[id]?⟩)) fun r => ?_
  exact mirrors_flag site r.verdicts.causes[id]? (f := fun p =>
    if p.1 then report ⟨site, .violation (.entityExcluded id), p.2⟩ else pure ())
    (mirrors_report _)

end Conduct

namespace Setting

open Act Conduct
open Inquiry (come declareHere)

variable (S : Setting) {c : Context}

/-! ### Inquiries -/

section

variable {decide : EntityId → Conduct Unit} {decide' : EntityId → Act Unit}
  (hd : ∀ c id, Mirrors c (decide id) (decide' id))

include hd

theorem mirrors_performConsult (id : EntityId) (site : Site) :
  Mirrors c (performConsult decide id site) (consult decide' c.toScope id site)
  := by
  refine (hd c id).bind fun _ => (mirrors_note _).bind fun _ =>
    (mirrors_lift (isolated_admits id)).bind fun admitted => ?_
  cases admitted with
  | true =>
    have h := (mirrors_depend (c := c) id).bind fun _ => mirrors_pure true
    cases hm : c.matter with
    | none =>
      rw [hm] at h
      exact h
    | some m =>
      rw [hm] at h
      exact h
  | false => exact (mirrors_findExcluded site id).bind fun _ => mirrors_pure false

theorem mirrors_performDeclare (id : EntityId) (site : Site) :
  Mirrors c (S.performDeclare decide id site) (S.declare decide' c.toScope id site)
  := by
  refine (hd c id).bind fun _ => mirrors_look fun r => ?_
  rw [Situation.toScope_ofRun]
  split
  · have rests (counts : Bool) :
        Mirrors c (if counts = true then do
            let _ ← performConsult decide id site
          else pure ()) (if counts = true then do
            let _ ← consult decide' c.toScope id site
          else pure ()) := by
      split
      · exact (mirrors_performConsult hd id site).bind fun _ => mirrors_pure ()
      · apply mirrors_pure
    refine (mirrors_lift (isolated_admits id)).bind fun admitted => ?_
    cases admitted with
    | true => exact rests true
    | false =>
      exact (mirrors_lift (isolated_lift (S.isOff id))).bind fun off =>
        (mirrors_pure (!off)).bind rests
  · apply mirrors_pure

omit hd in
theorem mirrors_performBegin (m : Matter) :
  Mirrors c (performBegin m) (begin c.toScope m)
  := by
  refine mirrors_inContext (f := fun c => begin c.toScope m) ?_ fun _ => rfl
  refine (isolated_note _).bind fun _ => ?_
  split
  · apply isolated_rule
  · apply isolated_pure

theorem mirrors_performBody (e : Entity) (mode : Option Mode) {contents : Conduct Unit}
    {inner : Scope → Act Unit}
    (h : ∀ scope, Mirrors { e.inside with toScope := scope } contents (inner scope)) :
  Mirrors c (S.performBody decide e mode contents) (S.decideBody decide' e mode inner)
  := by
  refine (hd c e.name).bind fun _ => (mirrors_lift (isolated_admits e.name)).bind fun admitted => ?_
  cases admitted with
  | true =>
    refine (mirrors_lift (isolated_lift _)).bind fun mode => ?_
    dsimp only
    split
    · apply mirrors_pure
    · refine Mirrors.under_enter ?_
      refine (mirrors_performBegin _).bind fun _ => (h _).bind fun _ => ?_
      refine mirrors_conclusion rfl (fun r => ?_) fun r => ?_
      · simp [Context.charge, Run.violated]
      · split <;> rfl
  | false => exact mirrors_lift (isolated_rule _)

/-- The walk through an inquiry, in whatever surroundings. -/
theorem mirrors_perform {α : Type} (i : Inquiry α) :
  Mirrors c (S.perform decide i) (S.walk decide' c.toScope i)
  := by
  induction i generalizing c with
  | done value => exact mirrors_pure value
  | fail fault => exact mirrors_throw fault
  | visit role node next ih => exact (mirrors_note _).bind fun _ => ih
  | consult id site next ih => exact (mirrors_performConsult hd id site).bind fun b => ih b
  | declare id site next ih => exact (S.mirrors_performDeclare hd id site).bind fun _ => ih
  | decide id next ih => exact (hd c id).bind fun _ => ih
  | isAdmitted id next ih =>
    exact (mirrors_note _).bind fun _ => (mirrors_lift (isolated_admits id)).bind fun b => ih b
  | isExamined id next ih => exact mirrors_get_bind fun r => ih _
  | find site finding next ih => exact (mirrors_find site finding).bind fun _ => ih
  | hideView id next ih => exact (mirrors_lift (isolated_rule _)).bind fun _ => ih
  | postponeCompletion access next ih => exact (mirrors_lift (isolated_rule _)).bind fun _ => ih
  | postponeAspects type next ih =>
    exact (mirrors_inContext (f := fun c => postpone (.aspects type c.anchor))
      (isolated_rule _) fun _ => rfl).bind fun _ => ih
  | relax type next ih => exact (mirrors_lift (S.isolated_relax type)).bind fun _ => ih
  | placeInLoop id loop next ih => exact (mirrors_lift (isolated_rule _)).bind fun _ => ih
  | body e mode inner next ihi ih =>
    exact (S.mirrors_performBody hd e mode fun scope => ihi).bind fun _ => ih

omit hd in
theorem mirrors_answer {α : Type} (x : Answer α) :
  Mirrors c (liftM x) (S.walk decide' c.toScope (liftM x))
  := by
  cases x with
  | ok a => exact mirrors_pure a
  | error fault => exact mirrors_throw fault

omit hd in
theorem mirrors_walk_bind {α β : Type} {conduct : Conduct α} {next : α → Conduct β}
    {i : Inquiry α} {f : α → Inquiry β} (h : Mirrors c conduct (S.walk decide' c.toScope i))
    (hf : ∀ a, Mirrors c (next a) (S.walk decide' c.toScope (f a))) :
  Mirrors c (conduct >>= next) (S.walk decide' c.toScope (i >>= f))
  := by
  rw [walk_bind]
  exact h.bind hf

theorem mirrors_body (e : Entity) (mode : Option Mode) {contents : Conduct Unit}
    {inner : Inquiry Unit}
    (h : ∀ scope, Mirrors { e.inside with toScope := scope } contents
      (S.walk decide' scope inner)) :
  Mirrors c (S.performBody decide e mode contents)
    (S.walk decide' c.toScope (.body e mode inner (.done ())))
  := by
  rw [walk, walk, bind_pure_unit]
  exact S.mirrors_performBody hd e mode h

mutual

theorem mirrors_performItem :
    (n : Node) → (c : Context) →
      Mirrors c (S.performItem decide n) (S.walk decide' c.toScope (S.item c.toSurroundings n))
  | ⟨id, location, type, shape⟩, c => by
    match shape with
    | .declaration kind entity =>
      rw [performItem, item]
      exact S.mirrors_walk_bind (S.mirrors_perform hd _) fun _ =>
        mirrors_look fun r => S.mirrors_perform hd _
    | .body _ entity mode declarations statements =>
      rw [performItem, item]
      refine S.mirrors_walk_bind (S.mirrors_perform hd _) fun _ =>
        S.mirrors_walk_bind (S.mirrors_answer _) fun e => S.mirrors_body hd e mode fun scope => ?_
      exact S.mirrors_walk_bind (mirrors_performItems declarations _) fun _ =>
        mirrors_performItems statements _
    | .protectedBody entity mode bodies =>
      rw [performItem, item]
      exact S.mirrors_walk_bind (S.mirrors_perform hd _) fun _ =>
        S.mirrors_walk_bind (S.mirrors_answer _) fun e =>
          S.mirrors_body hd e mode fun scope => mirrors_performItems bodies _
    | .return (some value) =>
      rw [performItem, item]
      exact S.mirrors_walk_bind (S.mirrors_perform hd _) fun _ =>
        S.mirrors_walk_bind (S.mirrors_perform hd _) fun _ =>
          mirrors_look fun r => S.mirrors_perform hd _
    | .ifElse bs otherwise =>
      rw [performItem, item]
      exact S.mirrors_walk_bind (S.mirrors_perform hd _) fun _ =>
        S.mirrors_walk_bind (mirrors_performBranches bs c) fun _ => mirrors_performItems otherwise c
    | .case selector bs =>
      rw [performItem, item]
      exact S.mirrors_walk_bind (S.mirrors_perform hd _) fun _ =>
        S.mirrors_walk_bind (S.mirrors_perform hd _) fun _ => mirrors_performCases bs c
    | .loop scheme statements =>
      rw [performItem, item]
      exact S.mirrors_walk_bind (S.mirrors_perform hd _) fun _ =>
        Mirrors.under_enterLoop (S.mirrors_walk_bind (S.mirrors_perform hd _) fun _ =>
          mirrors_performItems statements _)
    | .block declarations statements =>
      rw [performItem, item]
      exact S.mirrors_walk_bind (S.mirrors_perform hd _) fun _ =>
        S.mirrors_walk_bind (mirrors_performItems declarations c) fun _ =>
          mirrors_performItems statements c
    | .package .. | .raise _ | .assignment .. | .procedureCall .. | .return none
    | .exit _ | .delay _ | .pragma .. | .goto _ | .abort | .machineCode | .nothing
    | .useClause | .compilationUnit .. | .withClause _ | .identifier _ | .word _
    | .literal _ | .aggregate _ | .selected .. | .indexed .. | .slice .. | .dereference _
    | .call .. | .attribute .. | .conversion .. | .qualified .. | .binary .. | .unary ..
    | .allocator .. | .conditional .. | .quantified .. | .range .. | .membership .. =>
      unfold performItem item
      apply S.mirrors_perform hd

theorem mirrors_performItems :
    (ns : List Node) → (c : Context) →
      Mirrors c (S.performItems decide ns) (S.walk decide' c.toScope (S.items c.toSurroundings ns))
  | [], _ => by
    rw [performItems, items]
    exact S.mirrors_perform hd (pure ())
  | n :: ns, c => by
    rw [performItems, items]
    exact S.mirrors_walk_bind (mirrors_performItem n c) fun _ => mirrors_performItems ns c

theorem mirrors_performBranches :
    (bs : List (Branch Node)) → (c : Context) →
      Mirrors c (S.performBranches decide bs)
        (S.walk decide' c.toScope (S.branches c.toSurroundings bs))
  | [], _ => by
    rw [performBranches, branches]
    exact S.mirrors_perform hd (pure ())
  | ⟨condition, statements⟩ :: bs, c => by
    rw [performBranches, branches]
    exact S.mirrors_walk_bind (S.mirrors_perform hd _) fun _ =>
      S.mirrors_walk_bind (mirrors_performItems statements c) fun _ => mirrors_performBranches bs c

theorem mirrors_performCases :
    (bs : List (CaseBranch Node)) → (c : Context) →
      Mirrors c (S.performCases decide bs)
        (S.walk decide' c.toScope (S.caseBranches c.toSurroundings bs))
  | [], _ => by
    rw [performCases, caseBranches]
    exact S.mirrors_perform hd (pure ())
  | ⟨choices, statements⟩ :: bs, c => by
    rw [performCases, caseBranches]
    exact S.mirrors_walk_bind (S.mirrors_perform hd _) fun _ =>
      S.mirrors_walk_bind (mirrors_performItems statements c) fun _ => mirrors_performCases bs c

end

/-! ### Decisions -/

theorem mirrors_performEntityInquiry (e : Entity) (scope : Scope) :
  Mirrors { toScope := scope } (S.performEntityInquiry decide e)
    (S.walk decide' scope (S.entityInquiry e))
  := by
  unfold performEntityInquiry entityInquiry
  cases e.kind with
  | package initialCondition =>
    dsimp only [packageInquiry]
    cases S.program.packageDeclaration? e.name with
    | some n =>
      exact S.mirrors_walk_bind (S.mirrors_performItems hd _ _) fun _ => S.mirrors_perform hd _
    | none => apply S.mirrors_perform hd
  | _ => apply S.mirrors_perform hd

omit hd in
/-- The exclusion of an entity at the end of its decision reads the cause off the context. -/
theorem mirrors_exclude (hc : c.rootCause = none) (e : Entity) :
  Mirrors c (liftM (S.exclude e)) (S.exclude e)
  := mirrors_conclusion (f := fun _ => (·.exclude S.program e)) hc (fun _ => rfl) fun r =>
    r.cause_exclude S.program e

theorem mirrors_performGrant (hc : c.rootCause = none) (e : Entity) :
  Mirrors c (S.performGrant decide e) (S.grant decide' c.toScope e)
  := by
  refine (mirrors_lift (S.isolated_publish e)).bind fun _ => ?_
  have concludes (kept : Bool) : Mirrors c
      (if kept then inContext fun _ => e.followers.forM fun id => .postpone (.declaration id)
        else liftM (S.exclude e))
      (if kept then e.followers.forM fun id => .postpone (.declaration id) else S.exclude e) := by
    split
    · exact mirrors_lift (isolated_forM fun _ => isolated_rule _)
    · exact S.mirrors_exclude hc e
  cases e.predicateFunction? with
  | none => exact concludes true
  | some function => exact (mirrors_performConsult hd function e.site).bind concludes

theorem mirrors_performConclusion (hv : c.violated = false) (hc : c.rootCause = none)
    (e : Entity) :
  Mirrors c (S.performConclusion decide e) (S.conclude decide' c.toScope e)
  := by
  refine mirrors_get_bind fun r => ?_
  have hr : ((Situation.ofRun c r).context.violated || !(Situation.ofRun c r).run.admits e.name)
      = (r.violated || !r.admits e.name) := by
    simp [Situation.ofRun, Situation.run, Context.charge, Run.violated, Run.admits, hv]
  rw [hr]
  split
  · exact S.mirrors_exclude hc e
  · exact S.mirrors_performGrant hd hc e

theorem mirrors_performExamination (e : Entity) :
  Mirrors c (S.performExamination decide e) (S.examine decide' e)
  := by
  refine (mirrors_lift (isolated_rule _)).bind fun _ =>
    (mirrors_lift (isolated_lift (S.modeOf e.name))).bind fun mode => ?_
  dsimp only
  split
  -- An entity of mode off is not looked into, but a context is put up for it.
  · exact (mirrors_pure ()).under_enter
  · refine Mirrors.under_enter ?_
    exact (mirrors_performBegin _).bind fun _ => (mirrors_lift (isolated_rule _)).bind fun _ =>
      (S.mirrors_performEntityInquiry hd e _).bind fun _ => S.mirrors_performConclusion hd rfl rfl e

end

theorem mirrors_performWithin (levels : Nat) (id : EntityId) (c : Context) :
  Mirrors c (S.performWithin levels id) (S.decideWithin levels id)
  := by
  induction levels generalizing id c with
  | zero =>
    unfold performWithin decideWithin
    refine mirrors_get_bind fun r => ?_
    rw [Situation.verdicts_ofRun]
    split
    · apply mirrors_pure
    · exact (mirrors_lift (isolated_lift _)).bind fun _ => mirrors_throw _
  | succ levels ih =>
    unfold performWithin decideWithin
    refine mirrors_get_bind fun r => ?_
    rw [Situation.verdicts_ofRun]
    split
    · apply mirrors_pure
    · exact (mirrors_lift (isolated_lift _)).bind fun e =>
        S.mirrors_performExamination (fun c id => ih id c) e

theorem mirrors_performDecision (c : Context) (id : EntityId) :
  Mirrors c (S.performDecision id) (S.decide id)
  := S.mirrors_performWithin _ id c

/-! ### Service of what was postponed -/

theorem mirrors_performAspects (type : EntityId) (anchor : Option EntityId) :
  Mirrors c (S.performAspects type anchor) (S.serveAspects type anchor)
  := by
  refine (mirrors_lift (isolated_lift _)).bind fun e =>
    (mirrors_lift (isolated_lift _)).bind fun t =>
      (mirrors_lift (isolated_lift (S.aspectsMode e anchor))).bind fun mode => ?_
  dsimp only
  split
  · apply mirrors_pure
  · refine ((S.mirrors_perform S.mirrors_performDecision _).bind fun _ => ?_).under_enter
    refine mirrors_conclusion rfl (fun r => rfl) fun r => ?_
    split <;> rfl

theorem mirrors_performCompletion (access : EntityId) :
  Mirrors c (S.performCompletion access) (S.serveCompletion access)
  := by
  refine (mirrors_lift (isolated_lift _)).bind fun type =>
    (mirrors_lift (isolated_admits access)).bind fun admitted => ?_
  cases admitted with
  | true =>
    refine (S.mirrors_performDecision c type).bind fun _ =>
      (mirrors_lift (isolated_admits type)).bind fun kept => ?_
    cases kept with
    | true => exact mirrors_lift (isolated_rule _)
    | false =>
      exact mirrors_get_bind fun r => (mirrors_lift (isolated_lift _)).bind fun cause =>
        mirrors_lift (S.isolated_takeBack access type cause)
  | false => apply mirrors_pure

theorem mirrors_performTask (task : Task) :
  Mirrors c (S.performTask task) (S.serve task)
  := by
  cases task with
  | declaration id => exact S.mirrors_performDecision c id
  | aspects type anchor => exact S.mirrors_performAspects type anchor
  | completion access => exact S.mirrors_performCompletion access

theorem mirrors_performTasks (steps : Nat) :
  Mirrors c (S.performTasks steps) (S.drainWithin steps)
  := by
  induction steps with
  | zero =>
    unfold performTasks drainWithin
    refine mirrors_get_bind fun r => ?_
    rw [Situation.verdicts_ofRun]
    cases r.verdicts.backlog.next? with
    | none => apply mirrors_pure
    | some next => apply mirrors_throw
  | succ steps ih =>
    unfold performTasks drainWithin
    refine mirrors_get_bind fun r => ?_
    rw [Situation.verdicts_ofRun]
    cases r.verdicts.backlog.next? with
    | none => apply mirrors_pure
    | some next =>
      exact (mirrors_lift (isolated_rule _)).bind fun _ => (mirrors_note _).bind fun _ =>
        (S.mirrors_performTask _).bind fun _ => ih

/-! ### Runs over a program -/

theorem mirrors_performContextItem (item : Node) :
  Mirrors c (S.performContextItem item) (S.walkOutside (S.contextItem item)).afresh
  := (S.mirrors_perform S.mirrors_performDecision _).under_enter

theorem mirrors_performUnit (n : Node) :
  Mirrors {} (S.performUnit n) (S.unit n)
  := by
  unfold performUnit unit
  cases n.shape with
  | compilationUnit context unit =>
    exact (mirrors_forM fun item => S.mirrors_performContextItem item).bind fun _ =>
      S.mirrors_performItem S.mirrors_performDecision unit {}
  | _ => apply S.mirrors_performItem S.mirrors_performDecision

theorem mirrors_performProgram :
  Mirrors {} S.performProgram S.wholeProgram
  := by
  refine (mirrors_forM fun n => ?_).bind fun _ => mirrors_lift (isolated_rule _)
  exact (S.mirrors_performUnit n).bind fun _ => S.mirrors_performTasks _

/-- The outcome of a program is the one of the run that keeps no context. -/
theorem outcome_eq :
  S.outcome = let (result, r) := S.wholeProgram.after {}
    (result.map fun _ => r.verdicts.outcome, r.reports)
  := by
  have h := S.mirrors_performProgram {}
  unfold outcome
  have he : Situation.ofRun {} {} = {} := rfl
  rw [he] at h
  rw [h]
  rfl

end Setting

end Conformance
