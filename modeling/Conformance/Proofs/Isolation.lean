import Conformance.Outcome
import Mathlib.Tactic.Common

/-!
# Violations of nested matters

A matter under way is violated by what its own inquiry finds.  `Act.Isolated` says that an act
leaves the violation of the matter under way as it found it, on success and on failure, and
that nothing it does depends on it: decisions of entities and bodies are such acts.

`Setting.ground` is the first reason for a violation that a walk meets by itself: a finding, or
an entity that it wants to rest on and that is excluded.  It is the only one that counts,
whatever is found in the matters that are decided on the way.
-/

namespace Conformance

namespace Act

variable {α β : Type} {act : Act α} {f : α → Act β}

/-! ### Acts and the violation of the matter under way -/

/-- An act leaves the violation of the matter under way as it is, and does not depend on
it. -/
def Isolated (act : Act α) : Prop :=
  ∀ (r : Run) (cause : Option Site),
    act.after { r with cause } = ((act.after r).1, { (act.after r).2 with cause })

theorem after_bind_eq (act : Act α) (f : α → Act β) (r : Run) :
  (act >>= f).after r = match act.after r with
    | (.ok a, r') => (f a).after r'
    | (.error fault, r') => (.error fault, r')
  := by
  change after (EStateM.bind act f) r = _
  unfold after EStateM.bind
  cases act r <;> rfl

theorem Isolated.cause_eq (h : act.Isolated) (r : Run) :
  (act.after r).2.cause = r.cause
  := by
  have := h r r.cause
  exact congrArg (fun x => x.2.cause) this

theorem Isolated.bind (h : act.Isolated) (hf : ∀ a, (f a).Isolated) :
  (act >>= f).Isolated
  := by
  intro r cause
  rw [after_bind_eq, after_bind_eq, h r cause]
  rcases act.after r with ⟨fault | a, r'⟩
  · rfl
  · exact hf a r' cause

/-- What comes of an act if it succeeds. -/
def onSuccess (act : Act α) (r : Run) (g : α → Run → Option Site) : Option Site :=
  match act r with
  | .ok a r' => g a r'
  | .error _ _ => none

theorem onSuccess_bind (act : Act α) (f : α → Act β) (r : Run) (g : β → Run → Option Site) :
  (act >>= f).onSuccess r g = act.onSuccess r fun a r' => (f a).onSuccess r' g
  := by
  change onSuccess (EStateM.bind act f) r g = _
  unfold onSuccess EStateM.bind
  cases act r <;> rfl

/-- After an act that is isolated, only what comes next adds a cause. -/
theorem Isolated.cause_bind (h : act.Isolated) {g : α → Run → Option Site}
    (hf : ∀ a r, ((f a).after r).2.cause = r.cause.or (g a r)) (r : Run) :
  ((act >>= f).after r).2.cause = r.cause.or (act.onSuccess r g)
  := by
  have hc := h.cause_eq r
  rw [after_bind_eq]
  unfold onSuccess
  unfold after at hc ⊢
  cases hr : act r with
  | ok a r' =>
    rw [hr] at hc
    have := hf a r'
    unfold after at this
    rw [← hc]
    exact this
  | error fault r' =>
    rw [hr] at hc
    simpa using hc

theorem isolated_pure (a : α) :
  (pure a : Act α).Isolated
  := fun _ _ => rfl

theorem isolated_throw (fault : Fault) :
  (throw fault : Act α).Isolated
  := fun _ _ => rfl

theorem isolated_lift (x : Answer α) :
  (liftM x : Act α).Isolated
  := by
  cases x with
  | ok a => exact isolated_pure a
  | error fault => exact isolated_throw fault

theorem isolated_modify {f : Run → Run}
    (h : ∀ (r : Run) (cause : Option Site), f { r with cause } = { f r with cause }) :
  (modify f : Act Unit).Isolated
  := by
  intro r cause
  change (Except.ok (), f { r with cause }) = (Except.ok (), { f r with cause })
  rw [h]

theorem isolated_rule (f : Verdicts → Verdicts) :
  (rule f).Isolated
  := isolated_modify fun _ _ => rfl

theorem isolated_note (e : Event) :
  (modify (·.note e) : Act Unit).Isolated
  := isolated_modify fun _ _ => rfl

theorem isolated_admits (id : EntityId) :
  (admits id).Isolated
  := fun _ _ => rfl

theorem isolated_forM {f : α → Act PUnit} {as : List α} (h : ∀ a, (f a).Isolated) :
  (as.forM f).Isolated
  := by
  induction as with
  | nil => exact isolated_pure _
  | cons a as ih => exact (h a).bind fun _ => ih

theorem isolated_get_bind {f : Run → Act β} (h : ∀ r, (f r).Isolated)
    (hc : ∀ (r : Run) (cause : Option Site), f { r with cause } = f r) :
  (get >>= f).Isolated
  := by
  intro r cause
  change (f { r with cause }).after { r with cause } = _
  rw [hc]
  exact h r r cause

theorem after_afresh_eq (act : Act α) (r : Run) :
  act.afresh.after r = ((act.after { r with cause := none }).1,
    { (act.after { r with cause := none }).2 with cause := r.cause })
  := by
  unfold after afresh
  dsimp only
  cases act { r with cause := none } <;> rfl

/-- Whatever an act does, it is isolated from the matter under way if it starts afresh. -/
theorem isolated_afresh (act : Act α) :
  act.afresh.Isolated
  := by
  intro r cause
  rw [after_afresh_eq, after_afresh_eq]

end Act

/-! ### Taking back -/

namespace Run

variable (r : Run) (p : Program) (excluded : EntityId) (cause : Site) (m : Matter)
  (c : Option Site)

theorem reportDependence_withCause :
  { r with cause := c }.reportDependence p m excluded cause
    = { r.reportDependence p m excluded cause with cause := c }
  := by
  unfold reportDependence
  by_cases h : r.verdicts.reporting.contains m = true
  · simp only [if_pos h]
  · simp only [if_neg h]

theorem withdraw_withCause :
  { r with cause := c }.withdraw p excluded cause m
    = ({ (r.withdraw p excluded cause m).1 with cause := c }, (r.withdraw p excluded cause m).2)
  := by
  unfold withdraw
  by_cases h : r.verdicts.upholds m = true
  · simp only [if_pos h]
    rw [← reportDependence_withCause]
    cases m <;> rfl
  · simp only [if_neg h]

theorem withdrawAll_withCause (ms : List Matter) :
  { r with cause := c }.withdrawAll p excluded cause ms
    = ({ (r.withdrawAll p excluded cause ms).1 with cause := c },
      (r.withdrawAll p excluded cause ms).2)
  := by
  induction ms generalizing r with
  | nil => rfl
  | cons m ms ih =>
    simp only [withdrawAll, withdraw_withCause, ih]
    cases m <;> rfl

theorem cascade_withCause (work : List EntityId) :
  { r with cause := c }.cascade p cause work = { r.cascade p cause work with cause := c }
  := by
  fun_induction cascade p cause r work with
  | case1 r => rw [cascade]
  | case2 r current rest dependents step ih =>
    rw [cascade]
    have hstep := (r.rule fun v => v.forget current).withdrawAll_withCause p current cause c
      dependents
    change cascade p cause ({ (r.rule fun v => v.forget current) with cause := c }.withdrawAll p
      current cause dependents).1 (({ (r.rule fun v => v.forget current) with
        cause := c }.withdrawAll p current cause dependents).2.reverse ++ rest) = _
    rw [hstep]
    exact ih

theorem cause_exclude (e : Entity) :
  (r.exclude p e).cause = r.cause
  := by
  have h := (r.overturn (r.cause.getD e.site) (.declaration e.name)).cascade_withCause p
    (r.cause.getD e.site) r.cause [e.name]
  exact congrArg (·.cause) h

end Run

namespace Setting

open Act

variable (S : Setting)

/-! ### Decisions -/

theorem isolated_relaxAll (steps : Nat) (work : List (EntityId × Bool)) :
  (S.relaxAll steps work).Isolated
  := by
  induction steps, work using relaxAll_induction with
  | nil steps =>
    rw [relaxAll_nil]
    exact isolated_pure ()
  | cons steps core own rest ih ih' =>
    rw [relaxAll_cons]
    refine isolated_get_bind (fun r => ?_) fun _ _ => rfl
    split
    · cases steps with
      | zero => exact isolated_throw _
      | succ n =>
        exact (isolated_rule _).bind fun _ => (isolated_lift _).bind fun _ =>
          ih' n (Nat.lt_succ_self n) _
    · exact ih

theorem isolated_relax (type : EntityId) :
  (S.relax type).Isolated
  := (isolated_lift _).bind fun _ => S.isolated_relaxAll _ _

theorem isolated_publish (e : Entity) :
  (S.publish e).Isolated
  := by
  unfold publish
  split
  · exact (isolated_lift _).bind fun _ => isolated_rule _
  · exact isolated_pure ()

/-- All that the decision of a new entity does to the run is done afresh, and so it is isolated
however the entities are decided that it refers to. -/
theorem isolated_examine (decide : EntityId → Act Unit) (e : Entity) :
  (S.examine decide e).Isolated
  := by
  refine (isolated_rule _).bind fun _ => (isolated_lift _).bind fun mode => ?_
  dsimp only
  split
  · exact isolated_pure ()
  · exact isolated_afresh _

theorem isolated_decideWithin (levels : Nat) (id : EntityId) :
  (S.decideWithin levels id).Isolated
  := by
  unfold decideWithin
  refine isolated_get_bind (fun r => ?_) fun _ _ => rfl
  split
  · exact isolated_pure ()
  · refine (isolated_lift _).bind fun e => ?_
    cases levels with
    | zero => exact isolated_throw _
    | succ levels => exact S.isolated_examine _ e

theorem isolated_decide (id : EntityId) :
  (S.decide id).Isolated
  := S.isolated_decideWithin _ id

theorem isolated_decideBody (e : Entity) (mode : Option Mode) (inner : Scope → Act Unit) :
  (S.decideBody S.decide e mode inner).Isolated
  := by
  refine (S.isolated_decide e.name).bind fun _ => (isolated_admits e.name).bind fun admitted => ?_
  cases admitted with
  | true =>
    refine (isolated_lift _).bind fun mode => ?_
    dsimp only
    split
    · exact isolated_pure ()
    · exact isolated_afresh _
  | false => exact isolated_rule _

theorem isolated_takeBack (access designated : EntityId) (cause : Site) :
  (S.takeBack access designated cause).Isolated
  := by
  apply isolated_modify
  intro r c
  simp only [Run.withdraw_withCause]
  split
  · exact Run.cascade_withCause _ S.program cause c [access]
  · rfl

/-! ### Reasons for violations -/

/-- An act answers whether the entity `id` is not refused, and only a refusal is a violation of
the matter under way, for the cause that the entity is excluded for. -/
def Answers (act : Act Bool) (id : EntityId) (site : Site) : Prop :=
  ∀ r, (act.after r).2.cause = r.cause.or
    (act.onSuccess r fun admitted r' =>
      if admitted then none else some (r'.verdicts.causes[id]?.getD site))

section

variable {α : Type} {act : Act Bool} {id : EntityId} {site : Site}

theorem answers_true (id : EntityId) (site : Site) :
  Answers (pure true) id site
  := fun r => (@Option.or_none _ r.cause).symm

theorem answers_bind {act : Act α} (h : act.Isolated) {f : α → Act Bool}
    (hf : ∀ a, Answers (f a) id site) :
  Answers (act >>= f) id site
  := by
  intro r
  rw [onSuccess_bind]
  exact h.cause_bind hf r

/-- After a refusal there is a cause, and what comes next adds none. -/
theorem Answers.cause_bind (h : Answers act id site) {f : Bool → Act α}
    {g : Bool → Run → Option Site}
    (hf : ∀ b r, ((f b).after r).2.cause = r.cause.or (g b r)) (r : Run) :
  ((act >>= f).after r).2.cause = r.cause.or (act.onSuccess r fun admitted r' =>
    if admitted then g true r' else some (r'.verdicts.causes[id]?.getD site))
  := by
  have hc := h r
  rw [after_bind_eq]
  unfold onSuccess after at hc ⊢
  cases hr : act r with
  | error fault r' =>
    rw [hr] at hc
    simpa using hc
  | ok admitted r' =>
    rw [hr] at hc
    have hn := hf admitted r'
    unfold after at hn
    dsimp only at hc ⊢
    rw [hn, hc]
    cases admitted <;> simp

theorem answers_consult (scope : Scope) (id : EntityId) (site : Site) :
  Answers (consult S.decide scope id site) id site
  := by
  refine answers_bind (S.isolated_decide id) fun _ => answers_bind (isolated_note _) fun _ =>
    answers_bind (isolated_admits id) fun admitted => ?_
  cases admitted with
  | true =>
    cases scope.matter with
    | none => exact answers_true id site
    | some m => exact answers_bind (isolated_rule _) fun _ => answers_true id site
  | false =>
    intro r
    have hr : (r.findExcluded scope site id).cause = r.cause.or (some (r.verdicts.causes[id]?.getD site))
        ∧ (r.findExcluded scope site id).verdicts = r.verdicts := by
      unfold Run.findExcluded Run.report
      split <;> exact ⟨rfl, rfl⟩
    change (r.findExcluded scope site id).cause = r.cause.or
      (some ((r.findExcluded scope site id).verdicts.causes[id]?.getD site))
    rw [hr.1, hr.2]

end

/-- Decides an entity that is declared in the matter under way, and answers whether the matter
is not refused: it is if it rests on the entity, and the entity is excluded. -/
def declareAnswer (scope : Scope) (id : EntityId) (site : Site) : Act Bool := do
  S.decide id
  if scope.matter.any Matter.isRevocable then
    let counts : Bool ← do
      if ← Act.admits id then pure true else pure (!(← S.isOff id))
    if counts then consult S.decide scope id site else return true
  else return true

theorem declare_eq (scope : Scope) (id : EntityId) (site : Site) :
  S.declare S.decide scope id site = S.declareAnswer scope id site >>= fun _ => pure ()
  := by
  unfold declare declareAnswer
  simp only [bind_assoc]
  congr 1
  funext _
  split
  · simp only [bind_assoc]
    congr 1
    funext admitted
    split <;> simp only [pure_bind, bind_assoc]
    · rfl
    · congr 1
      funext off
      split <;> simp
  · simp

theorem answers_declareAnswer (scope : Scope) (id : EntityId) (site : Site) :
  Answers (S.declareAnswer scope id site) id site
  := by
  refine answers_bind (S.isolated_decide id) fun _ => ?_
  split
  · refine answers_bind (isolated_admits id) fun admitted => ?_
    have rests (counts : Bool) :
        Answers (if counts = true then consult S.decide scope id site else pure true) id site := by
      split
      · exact S.answers_consult scope id site
      · exact answers_true id site
    cases admitted with
    | true => exact rests true
    | false =>
      exact answers_bind (isolated_lift _) fun off => answers_bind (isolated_pure (!off)) rests
  · exact answers_true id site

/-- The first reason for a violation that the walk through an inquiry meets by itself: a
finding that violates, or an entity that is refused to it.  What is decided on the way gives
none. -/
def ground {α : Type} (scope : Scope) : Inquiry α → Run → Option Site
  | .done _, _ => none
  | .fail _, _ => none
  | .visit role node next, r => ground scope next (r.note (.visited scope.matter role node))
  | .consult id site next, r =>
    (consult S.decide scope id site).onSuccess r fun admitted r' =>
      if admitted then ground scope (next true) r'
      else some (r'.verdicts.causes[id]?.getD site)
  | .declare id site next, r =>
    (S.declareAnswer scope id site).onSuccess r fun admitted r' =>
      if admitted then ground scope next r' else some (r'.verdicts.causes[id]?.getD site)
  | .decide id next, r => (S.decide id).onSuccess r fun _ r' => ground scope next r'
  | .isAdmitted id next, r =>
    ground scope (next (r.admits id)) (r.note (.asked scope.matter id))
  | .isExamined id next, r => ground scope (next (r.verdicts.examined.contains id)) r
  | .find site finding next, r =>
    match finding with
    | .warning _ => ground scope next (r.find scope site finding)
    | _ => some site
  | .hideView id next, r =>
    ground scope next (r.rule fun v => { v with hiddenViews := v.hiddenViews.insert id })
  | .postponeCompletion access next, r =>
    ground scope next (r.rule fun v => { v with backlog := v.backlog.push (.completion access) })
  | .postponeAspects type next, r =>
    ground scope next
      (r.rule fun v => { v with backlog := v.backlog.push (.aspects type scope.anchor) })
  | .relax type next, r => (S.relax type).onSuccess r fun _ r' => ground scope next r'
  | .placeInLoop id loop next, r =>
    ground scope next (r.rule fun v => { v with loops := v.loops.insert id loop })
  | .body e mode inner next, r =>
    (S.decideBody S.decide e mode fun scope => S.walk S.decide scope inner).onSuccess r
      fun _ r' => ground scope next r'

/-- A walk leaves the matter under way violated for an earlier cause, or else for the first
reason that it meets by itself. -/
theorem cause_walk {α : Type} (scope : Scope) (i : Inquiry α) (r : Run) :
  ((S.walk S.decide scope i).after r).2.cause = r.cause.or (S.ground scope i r)
  := by
  induction i generalizing r with
  | done value => exact (@Option.or_none _ r.cause).symm
  | fail fault => exact (@Option.or_none _ r.cause).symm
  | visit role node next ih => exact (isolated_note _).cause_bind (fun _ => ih) r
  | consult id site next ih => exact (S.answers_consult scope id site).cause_bind ih r
  | declare id site next ih =>
    have hw : S.walk S.decide scope (.declare id site next)
        = S.declareAnswer scope id site >>= fun _ => S.walk S.decide scope next := by
      rw [walk, declare_eq]
      simp only [bind_assoc, pure_bind]
    rw [hw]
    exact (S.answers_declareAnswer scope id site).cause_bind
      (g := fun _ r => S.ground scope next r) (fun _ => ih) r
  | decide id next ih => exact (S.isolated_decide id).cause_bind (fun _ => ih) r
  | isAdmitted id next ih => exact ih (r.admits id) (r.note (.asked scope.matter id))
  | isExamined id next ih => exact ih (r.verdicts.examined.contains id) r
  | find site finding next ih =>
    have hw : (S.walk S.decide scope (.find site finding next)).after r
        = (S.walk S.decide scope next).after (r.find scope site finding) := rfl
    rw [hw, ih]
    have flagged (report : Report) :
        ((r.flag site).report scope report).cause = r.cause.or (some site) := by
      unfold Run.report
      split <;> rfl
    cases finding with
    | violation v => simp [ground, Run.find, flagged]
    | unsupported feature => simp [ground, Run.find, flagged]
    | warning w =>
      have hc : (r.find scope site (.warning w)).cause = r.cause := by
        unfold Run.find
        dsimp only
        split <;> rfl
      rw [hc]
      rfl
  | hideView id next ih => exact (isolated_rule _).cause_bind (fun _ => ih) r
  | postponeCompletion access next ih => exact (isolated_rule _).cause_bind (fun _ => ih) r
  | postponeAspects type next ih => exact (isolated_rule _).cause_bind (fun _ => ih) r
  | relax type next ih => exact (S.isolated_relax type).cause_bind (fun _ => ih) r
  | placeInLoop id loop next ih => exact (isolated_rule _).cause_bind (fun _ => ih) r
  | body e mode inner next _ ih => exact (S.isolated_decideBody e mode _).cause_bind (fun _ => ih) r

/-! ### Scopes -/

/-- What comes after an inquiry is gone through in the scope that the inquiry was in. -/
theorem walk_bind {α β : Type} (decide : EntityId → Act Unit) (scope : Scope) (i : Inquiry α)
    (f : α → Inquiry β) :
  S.walk decide scope (i >>= f)
    = S.walk decide scope i >>= fun a => S.walk decide scope (f a)
  := by
  change S.walk decide scope (i.bind f) = _
  induction i with
  | done value => exact (pure_bind value fun a => S.walk decide scope (f a)).symm
  | fail fault => rfl
  | _ => simp only [Inquiry.bind, walk, bind_assoc, *]

end Setting

end Conformance
