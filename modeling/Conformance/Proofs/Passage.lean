import Conformance.Proofs.Act
import Conformance.Proofs.Lookup
import Conformance.Proofs.Path

/-!
# Passages of a run

A big-step account of the acts that succeed.  `Setting.Passes` says that a run passes to
another one while a list of steps is gone through in a scope, or while an entity is
decided.  A decision within a decision is a passage within a passage, so facts about all
runs are inductions over `Passes`, with one case for each thing that can happen.

`passes_walk` and `passes_decide` are the way from acts to passages.
-/

namespace Conformance

namespace Run

/-- The run in which an entity has been examined. -/
def examine (r : Run) (id : EntityId) : Run :=
  r.rule fun v => { v with examined := v.examined.insert id }

/-- The run in which an entity is admitted provisionally. -/
def enroll (r : Run) (id : EntityId) : Run :=
  r.rule fun v => { v with admitted := v.admitted.insert id }

/-- The run in which a matter begins, without a violation. -/
def start (r : Run) (scope : Scope) (m : Matter) : Run :=
  let r := { r with cause := none, journal := .began m :: r.journal }
  if scope.reports then r.rule fun v => { v with reporting := v.reporting.insert m } else r

/-- The run after the matter under way rested on the verdict of a decided entity. -/
def rest (r : Run) (scope : Scope) (id : EntityId) (site : Site) : Run :=
  if r.admits id then
    match scope.matter with
    | none => r.note (.consulted none id)
    | some m => (r.note (.consulted (some m) id)).rule fun v => v.depend id m
  else (r.note (.consulted scope.matter id)).findExcluded scope site id

/-- The run after the body of an excluded entity is excluded for the same cause. -/
def inheritCause (r : Run) (e : Entity) : Run :=
  r.rule fun v =>
    match v.causes[e.name]? with
    | some cause => { v with bodyCauses := v.bodyCauses.insert e.name cause }
    | none => v

/-- The run after the inquiry into the body of an entity. -/
def concludeBody (r : Run) (e : Entity) : Run :=
  if !r.violated && r.admits e.name then
    (r.rule fun v => { v with admittedBodies := v.admittedBodies.insert e.name }).note
      (.admittedBody e.name)
  else
    r.rule fun v => { v with bodyCauses := v.bodyCauses.insert e.name (r.cause.getD e.site) }

/-- The run after entities are postponed. -/
def follow (r : Run) (ids : List EntityId) : Run :=
  r.rule fun v =>
    { v with backlog := ids.foldl (fun b id => b.push (.declaration id)) v.backlog }

/-! ### What changes write

Each change is the run with some of its parts written anew; what else there is of the run can be
read off these equations. -/

variable (r : Run) (scope : Scope)

theorem exists_find (site : Site) (finding : Finding) :
  ∃ cause reports, r.find scope site finding = { r with cause, reports }
  := by
  cases finding <;> simp only [find, report] <;> split <;> exact ⟨_, _, rfl⟩

theorem exists_findExcluded (site : Site) (id : EntityId) :
  ∃ cause reports, r.findExcluded scope site id = { r with cause, reports }
  := by
  simp only [findExcluded, report]
  split <;> exact ⟨_, _, rfl⟩

theorem exists_rest (id : EntityId) (site : Site) :
  ∃ dependents cause reports, r.rest scope id site
    = { verdicts := { r.verdicts with dependents }, cause, reports,
        journal := .consulted scope.matter id :: r.journal }
  := by
  unfold rest
  split
  · split
    · next hm => exact ⟨r.verdicts.dependents, r.cause, r.reports, by rw [hm]; rfl⟩
    · next m hm =>
      rw [hm]
      simp only [rule, note, Verdicts.depend]
      split <;> exact ⟨_, r.cause, r.reports, rfl⟩
  · obtain ⟨cause, reports, h⟩ :=
      (r.note (.consulted scope.matter id)).exists_findExcluded scope site id
    exact ⟨r.verdicts.dependents, cause, reports, h⟩

theorem exists_start (m : Matter) :
  ∃ reporting, r.start scope m
    = { verdicts := { r.verdicts with reporting }, cause := none, reports := r.reports,
        journal := .began m :: r.journal }
  := by
  unfold start
  split
  · exact ⟨_, rfl⟩
  · exact ⟨r.verdicts.reporting, rfl⟩

theorem exists_inheritCause (e : Entity) :
  ∃ bodyCauses, r.inheritCause e = r.rule fun v => { v with bodyCauses }
  := by
  simp only [inheritCause, rule]
  split
  · exact ⟨_, rfl⟩
  · exact ⟨r.verdicts.bodyCauses, rfl⟩

end Run

/-- What a run passes through: the steps of an inquiry, or the decision of an entity. -/
inductive Course where
  | steps (scope : Scope) (path : List Step)
  | decision (id : EntityId)

/-- The scope of the declaration of an entity. -/
def Entity.declarationScope (e : Entity) (mode : Option Mode × Option EntityId) : Scope :=
  { matter := some (.declaration e.name), mode := mode.1, anchor := mode.2 }

/-- The scope of the body of an entity. -/
def Entity.bodyScope (e : Entity) (mode : Option Mode × Option EntityId) : Scope :=
  { matter := some (.body e.name), mode := mode.1, anchor := mode.2 }

/-- The run in which the inquiry into an entity starts. -/
def Run.open (r : Run) (e : Entity) (mode : Option Mode × Option EntityId) : Run :=
  ((r.examine e.name).start (e.declarationScope mode) (.declaration e.name)).enroll e.name

namespace Setting

open Inquiry

variable (S : Setting)

/-- The inquiry into an entity is due, under a mode. -/
structure Opens (e : Entity) (mode : Option Mode × Option EntityId) (r : Run) : Prop where
  entity : S.program.entity e.name = .ok e
  fresh : e.name ∉ r.verdicts.examined
  modeOf : S.modeOf e.name = .ok mode
  analysed : mode.1 ≠ some .off

/-- The part of the inquiry into an entity that comes after its publication. -/
def predicateInquiry (e : Entity) : Inquiry Unit :=
  match e.predicateFunction? with
  | none => pure ()
  | some function => restOn function e.site

/-- What a single step does that decides no entity. -/
inductive Plain (scope : Scope) : Step → Run → Run → Prop
  | visit {r : Run} {role : Role} {node : Node} :
    Plain scope (.visit role node) r (r.note (.visited scope.matter role node))
  | ask {r : Run} {id : EntityId} :
    Plain scope (.ask id (r.admits id)) r (r.note (.asked scope.matter id))
  | look {r : Run} {id : EntityId} :
    Plain scope (.look id (r.verdicts.examined.contains id)) r r
  | find {r : Run} {site : Site} {finding : Finding} :
    Plain scope (.find site finding) r (r.find scope site finding)
  | hideView {r : Run} {id : EntityId} :
    Plain scope (.hideView id) r
      (r.rule fun v => { v with hiddenViews := v.hiddenViews.insert id })
  | postponeCompletion {r : Run} {access : EntityId} :
    Plain scope (.postponeCompletion access) r
      (r.rule fun v => { v with backlog := v.backlog.push (.completion access) })
  | postponeAspects {r : Run} {type : EntityId} :
    Plain scope (.postponeAspects type) r
      (r.rule fun v => { v with backlog := v.backlog.push (.aspects type scope.anchor) })
  | relax {r r' : Run} {type : EntityId} (h : S.relax type r = .ok () r') :
    Plain scope (.relax type) r r'
  | placeInLoop {r : Run} {id : EntityId} {loop : NodeId} :
    Plain scope (.placeInLoop id loop) r
      (r.rule fun v => { v with loops := v.loops.insert id loop })

/-- A run passes to another one on a course. -/
inductive Passes : Course → Run → Run → Prop
  -- Steps of an inquiry.
  | nil {scope : Scope} {r : Run} : Passes (.steps scope []) r r
  | plain {scope : Scope} {s : Step} {path : List Step} {r r₁ r' : Run}
      (h : S.Plain scope s r r₁) (rest : Passes (.steps scope path) r₁ r') :
    Passes (.steps scope (s :: path)) r r'
  | decide {scope : Scope} {id : EntityId} {path : List Step} {r r₁ r' : Run}
      (d : Passes (.decision id) r r₁) (rest : Passes (.steps scope path) r₁ r') :
    Passes (.steps scope (.decide id :: path)) r r'
  | consult {scope : Scope} {id : EntityId} {site : Site} {path : List Step}
      {r r₁ r' : Run} (d : Passes (.decision id) r r₁)
      (rest : Passes (.steps scope path) (r₁.rest scope id site) r') :
    Passes (.steps scope (.consult id site (r₁.admits id) :: path)) r r'
  /-- The matter under way does not rest on what is declared. -/
  | declare {scope : Scope} {id : EntityId} {site : Site} {path : List Step}
      {r r₁ r' : Run} (d : Passes (.decision id) r r₁)
      (hd : scope.matter.any Matter.isRevocable = false
        ∨ r₁.admits id = false ∧ S.isOff id = .ok true)
      (rest : Passes (.steps scope path) r₁ r') :
    Passes (.steps scope (.declare id site none :: path)) r r'
  /-- The matter under way rests on what is declared. -/
  | declareResting {scope : Scope} {id : EntityId} {site : Site} {b : Bool}
      {path : List Step} {r r₁ r' : Run} (d : Passes (.decision id) r r₁)
      (hs : scope.matter.any Matter.isRevocable = true)
      (hd : r₁.admits id = true ∨ S.isOff id = .ok false)
      (rest : Passes (.steps scope (.consult id site b :: path)) r₁ r') :
    Passes (.steps scope (.declare id site (some b) :: path)) r r'
  /-- The body of an entity that is excluded. -/
  | bodyExcluded {scope : Scope} {e : Entity} {mode : Option Mode} {inner : Inquiry Unit}
      {path : List Step} {r r₁ r' : Run} (d : Passes (.decision e.name) r r₁)
      (h : r₁.admits e.name = false)
      (rest : Passes (.steps scope path) (r₁.inheritCause e) r') :
    Passes (.steps scope (.body e mode inner :: path)) r r'
  /-- A body that is not analysed. -/
  | bodyOff {scope : Scope} {e : Entity} {mode : Option Mode} {inner : Inquiry Unit}
      {anchor : Option EntityId} {path : List Step} {r r₁ r' : Run}
      (d : Passes (.decision e.name) r r₁) (h : r₁.admits e.name = true)
      (hm : S.bodyMode e mode = .ok (some .off, anchor))
      (rest : Passes (.steps scope path) r₁ r') :
    Passes (.steps scope (.body e mode inner :: path)) r r'
  | body {scope : Scope} {e : Entity} {mode : Option Mode} {inner : Inquiry Unit}
      {mode' : Option Mode × Option EntityId} {path innerPath : List Step}
      {r r₁ r₂ r' : Run} (d : Passes (.decision e.name) r r₁) (h : r₁.admits e.name = true)
      (hm : S.bodyMode e mode = .ok mode') (hn : mode'.1 ≠ some .off)
      (l : inner.Leads innerPath ())
      (w : Passes (.steps (e.bodyScope mode') innerPath)
        (r₁.start (e.bodyScope mode') (.body e.name)) r₂)
      (rest : Passes (.steps scope path) { r₂.concludeBody e with cause := r₁.cause } r') :
    Passes (.steps scope (.body e mode inner :: path)) r r'
  -- Decisions.
  | known {id : EntityId} {r : Run} (h : id ∈ r.verdicts.examined) :
    Passes (.decision id) r r
  | off {e : Entity} {anchor : Option EntityId} {r : Run}
      (he : S.program.entity e.name = .ok e) (h : e.name ∉ r.verdicts.examined)
      (hm : S.modeOf e.name = .ok (some .off, anchor)) :
    Passes (.decision e.name) r (r.examine e.name)
  /-- An entity that is excluded because of what its inquiry found. -/
  | reject {e : Entity} {mode : Option Mode × Option EntityId} {path : List Step}
      {r r₁ : Run} (o : S.Opens e mode r) (l : (S.entityInquiry e).Leads path ())
      (w : Passes (.steps (e.declarationScope mode) path) (r.open e mode) r₁)
      (hv : r₁.violated = true ∨ r₁.admits e.name = false) :
    Passes (.decision e.name) r { r₁.exclude S.program e with cause := r.cause }
  /-- An entity that is excluded because of its predicate function. -/
  | revoke {e : Entity} {mode : Option Mode × Option EntityId} {path path' : List Step}
      {r r₁ r₂ r₃ : Run} (o : S.Opens e mode r) (l : (S.entityInquiry e).Leads path ())
      (w : Passes (.steps (e.declarationScope mode) path) (r.open e mode) r₁)
      (hv : r₁.violated = false) (ha : r₁.admits e.name = true)
      (hp : S.publish e r₁ = .ok () r₂) (l' : (predicateInquiry e).Leads path' ())
      (w' : Passes (.steps (e.declarationScope mode) path') r₂ r₃)
      (hv' : r₃.violated = true) :
    Passes (.decision e.name) r { r₃.exclude S.program e with cause := r.cause }
  | grant {e : Entity} {mode : Option Mode × Option EntityId} {path path' : List Step}
      {r r₁ r₂ r₃ : Run} (o : S.Opens e mode r) (l : (S.entityInquiry e).Leads path ())
      (w : Passes (.steps (e.declarationScope mode) path) (r.open e mode) r₁)
      (hv : r₁.violated = false) (ha : r₁.admits e.name = true)
      (hp : S.publish e r₁ = .ok () r₂) (l' : (predicateInquiry e).Leads path' ())
      (w' : Passes (.steps (e.declarationScope mode) path') r₂ r₃)
      (hv' : r₃.violated = false) :
    Passes (.decision e.name) r { r₃.follow e.followers with cause := r.cause }

/-! ### From acts to passages -/

theorem publish_eq_ok {e : Entity} {r r' : Run} (h : S.publish e r = .ok () r') :
  ∃ roster, r' = r.rule fun v => { v with roster }
  := by
  unfold publish at h
  split at h
  · obtain ⟨prerequisite, r₁, h₁, h₂⟩ := Act.bind_eq_ok.1 h
    obtain ⟨-, rfl⟩ := Act.lift_eq_ok.1 h₁
    rw [Act.rule_eq_ok] at h₂
    exact ⟨_, h₂.symm⟩
  · obtain ⟨-, rfl⟩ := Act.pure_eq_ok.1 h
    exact ⟨r.verdicts.roster, rfl⟩

theorem relaxAll_eq_ok {steps : Nat} {work : List (EntityId × Bool)} {r r' : Run}
    (h : S.relaxAll steps work r = .ok () r') :
  ∃ relaxed, r' = r.rule fun v => { v with relaxed }
  := by
  induction steps, work using relaxAll_induction generalizing r with
  | nil steps =>
    rw [relaxAll_nil] at h
    obtain ⟨-, rfl⟩ := Act.pure_eq_ok.1 h
    exact ⟨r.verdicts.relaxed, rfl⟩
  | cons steps core own rest ih ih' =>
    rw [relaxAll_cons] at h
    obtain ⟨_, _, h₁, h⟩ := Act.bind_eq_ok.1 h
    obtain ⟨rfl, rfl⟩ := Act.get_eq_ok.1 h₁
    split at h
    · cases steps with
      | zero => exact (Act.throw_eq_ok.1 h).elim
      | succ n =>
        obtain ⟨_, _, h₂, h⟩ := Act.bind_eq_ok.1 h
        obtain rfl := Act.rule_eq_ok.1 h₂
        obtain ⟨_, _, h₃, h⟩ := Act.bind_eq_ok.1 h
        obtain ⟨-, rfl⟩ := Act.lift_eq_ok.1 h₃
        obtain ⟨relaxed, rfl⟩ := ih' n (Nat.lt_succ_self n) _ h
        exact ⟨relaxed, rfl⟩
    · exact ih h

theorem relax_eq_ok {type : EntityId} {r r' : Run} (h : S.relax type r = .ok () r') :
  ∃ relaxed, r' = r.rule fun v => { v with relaxed }
  := by
  obtain ⟨core, r₁, h₁, h₂⟩ := Act.bind_eq_ok.1 h
  obtain ⟨-, rfl⟩ := Act.lift_eq_ok.1 h₁
  exact S.relaxAll_eq_ok h₂

theorem postpone_eq_ok {ids : List EntityId} {r r' : Run} {u : Unit}
    (h : (ids.forM fun id => Act.postpone (.declaration id)) r = .ok u r') :
  r' = r.follow ids
  := by
  induction ids generalizing r with
  | nil =>
    obtain ⟨-, rfl⟩ := Act.pure_eq_ok.1 h
    rfl
  | cons id ids ih =>
    obtain ⟨_, r₁, h₁, h⟩ := Act.bind_eq_ok.1 h
    obtain rfl := Act.rule_eq_ok.1 h₁
    rw [ih h]
    rfl

variable {decide : EntityId → Act Unit}

theorem consult_eq_ok {scope : Scope} {id : EntityId} {site : Site} {b : Bool} {r r' : Run}
    (h : Act.consult decide scope id site r = .ok b r') :
  ∃ r₁, decide id r = .ok () r₁ ∧ b = r₁.admits id ∧ r' = r₁.rest scope id site
  := by
  obtain ⟨_, r₁, hd, h⟩ := Act.bind_eq_ok.1 h
  use r₁, hd
  obtain ⟨_, _, hn, h⟩ := Act.bind_eq_ok.1 h
  obtain rfl := Act.modify_eq_ok.1 hn
  obtain ⟨_, _, ha, h⟩ := Act.bind_eq_ok.1 h
  obtain ⟨rfl, rfl⟩ := Act.admits_eq_ok.1 ha
  have hr : (r₁.note (.consulted scope.matter id)).admits id = r₁.admits id := rfl
  unfold Run.rest
  rw [hr] at h
  cases hb : r₁.admits id with
  | true =>
    simp only [hb, if_true] at h ⊢
    cases hm : scope.matter with
    | none =>
      rw [hm] at h
      obtain ⟨rfl, rfl⟩ := Act.pure_eq_ok.1 h
      simp
    | some m =>
      rw [hm] at h
      obtain ⟨_, _, hr, h⟩ := Act.bind_eq_ok.1 h
      obtain rfl := Act.rule_eq_ok.1 hr
      obtain ⟨rfl, rfl⟩ := Act.pure_eq_ok.1 h
      simp
  | false =>
    simp only [hb, Bool.false_eq_true, if_false] at h ⊢
    obtain ⟨_, _, hf, h⟩ := Act.bind_eq_ok.1 h
    obtain rfl := Act.modify_eq_ok.1 hf
    obtain ⟨rfl, rfl⟩ := Act.pure_eq_ok.1 h
    simp

theorem begin_eq_ok {scope : Scope} {m : Matter} {r r' : Run} {u : Unit}
    (h : Act.begin scope m { r with cause := none } = .ok u r') :
  r' = r.start scope m
  := by
  obtain ⟨_, r₁, h₁, h⟩ := Act.bind_eq_ok.1 h
  obtain rfl := Act.modify_eq_ok.1 h₁
  unfold Run.start
  split at h
  · next hs =>
    rw [← Act.rule_eq_ok.1 h]
    simp only [hs, if_true]
    rfl
  · next hs =>
    obtain ⟨-, rfl⟩ := Act.pure_eq_ok.1 h
    simp only [hs]
    rfl

/-- A decision leaves the violation of the matter under way alone. -/
theorem Passes.cause_eq {id : EntityId} {r r' : Run} (h : S.Passes (.decision id) r r') :
  r'.cause = r.cause
  := by cases h <;> rfl

/-- What an act that decides an entity does is a passage. -/
def Decides (decide : EntityId → Act Unit) : Prop :=
  ∀ id r r', decide id r = .ok () r' → S.Passes (.decision id) r r'

variable {S}

theorem passes_declare (hd : S.Decides decide) {scope : Scope} {id : EntityId}
    {site : Site} {r r₁ : Run} (h : S.declare decide scope id site r = .ok () r₁) :
  ∃ b, ∀ path r', S.Passes (.steps scope path) r₁ r' →
    S.Passes (.steps scope (.declare id site b :: path)) r r'
  := by
  obtain ⟨_, r₂, hi, h⟩ := Act.bind_eq_ok.1 h
  have d := hd _ _ _ hi
  split at h
  · next hs =>
    have resting (hc : r₂.admits id = true ∨ S.isOff id = .ok false)
        (h : (Act.consult decide scope id site >>= fun _ => pure ()) r₂ = .ok () r₁) :
        ∃ b, ∀ path r', S.Passes (.steps scope path) r₁ r' →
          S.Passes (.steps scope (.declare id site b :: path)) r r' := by
      obtain ⟨b, r₃, hc', h'⟩ := Act.bind_eq_ok.1 h
      obtain ⟨-, rfl⟩ := Act.pure_eq_ok.1 h'
      obtain ⟨r₄, hi', rfl, rfl⟩ := consult_eq_ok hc'
      use some (r₄.admits id)
      intro path r' rest
      exact .declareResting d hs hc (.consult (hd _ _ _ hi') rest)
    obtain ⟨_, _, ha, h⟩ := Act.bind_eq_ok.1 h
    obtain ⟨rfl, rfl⟩ := Act.admits_eq_ok.1 ha
    split at h
    · next ha => exact resting (Or.inl ha) h
    · next ha =>
      obtain ⟨o, _, ho, h⟩ := Act.bind_eq_ok.1 h
      obtain ⟨ho', rfl⟩ := Act.lift_eq_ok.1 ho
      cases o with
      | false => exact resting (Or.inr ho') h
      | true =>
        obtain ⟨-, rfl⟩ := Act.pure_eq_ok.1 h
        use none
        intro path r' rest
        exact .declare d (Or.inr ⟨Bool.eq_false_iff.2 ha, ho'⟩) rest
  · next hs =>
    obtain ⟨-, rfl⟩ := Act.pure_eq_ok.1 h
    use none
    intro path r' rest
    exact .declare d (Or.inl (Bool.eq_false_iff.2 hs)) rest

theorem passes_body (hd : S.Decides decide) {scope : Scope} {e : Entity}
    {mode : Option Mode} {inner : Inquiry Unit}
    (hw : ∀ {scope r r'}, S.walk decide scope inner r = .ok () r' →
      ∃ path, inner.Leads path () ∧ S.Passes (.steps scope path) r r')
    {r r₁ : Run}
    (h : S.decideBody decide e mode (fun scope => S.walk decide scope inner) r = .ok () r₁)
    {path : List Step} {r' : Run} (rest : S.Passes (.steps scope path) r₁ r') :
  S.Passes (.steps scope (.body e mode inner :: path)) r r'
  := by
  obtain ⟨_, r₂, hi, h⟩ := Act.bind_eq_ok.1 h
  have d := hd _ _ _ hi
  obtain ⟨_, _, ha, h⟩ := Act.bind_eq_ok.1 h
  obtain ⟨rfl, rfl⟩ := Act.admits_eq_ok.1 ha
  split at h
  · next ha =>
    obtain ⟨⟨mode', anchor⟩, _, hl, h⟩ := Act.bind_eq_ok.1 h
    obtain ⟨hm, rfl⟩ := Act.lift_eq_ok.1 hl
    simp only at h
    split at h
    · next ho =>
      obtain ⟨-, rfl⟩ := Act.pure_eq_ok.1 h
      rw [beq_iff_eq] at ho
      subst ho
      exact .bodyOff d ha hm rest
    · next ho =>
      rw [beq_iff_eq] at ho
      obtain ⟨r₃, ht, rfl⟩ := Act.afresh_eq_ok.1 h
      obtain ⟨_, r₄, hb, ht⟩ := Act.bind_eq_ok.1 ht
      obtain rfl := begin_eq_ok hb
      obtain ⟨_, r₅, hi, ht⟩ := Act.bind_eq_ok.1 ht
      obtain ⟨innerPath, l, w⟩ := hw hi
      obtain rfl := Act.modify_eq_ok.1 ht
      exact .body d ha hm ho l w rest
  · next ha =>
    obtain rfl := Act.rule_eq_ok.1 h
    exact .bodyExcluded d (Bool.eq_false_iff.2 ha) rest

/-- What an inquiry does as an act is a passage along one of its paths. -/
theorem passes_walk (hd : S.Decides decide) {α : Type} {i : Inquiry α} {scope : Scope}
    {r : Run} {a : α} {r' : Run} (h : S.walk decide scope i r = .ok a r') :
  ∃ path, i.Leads path a ∧ S.Passes (.steps scope path) r r'
  := by
  induction i generalizing scope r r' with
  | done value =>
    obtain ⟨rfl, rfl⟩ := Act.pure_eq_ok.1 h
    exact ⟨[], .done, .nil⟩
  | fail fault => exact (Act.throw_eq_ok.1 h).elim
  | visit role node next ih =>
    obtain ⟨_, _, h₁, h⟩ := Act.bind_eq_ok.1 h
    obtain rfl := Act.modify_eq_ok.1 h₁
    obtain ⟨path, l, w⟩ := ih h
    exact ⟨_, .step .visit l, .plain .visit w⟩
  | consult id site next ih =>
    obtain ⟨b, _, h₁, h⟩ := Act.bind_eq_ok.1 h
    obtain ⟨r₁, hi, rfl, rfl⟩ := consult_eq_ok h₁
    obtain ⟨path, l, w⟩ := ih _ h
    exact ⟨_, .step (.consult _) l, .consult (hd _ _ _ hi) w⟩
  | declare id site next ih =>
    obtain ⟨_, r₁, h₁, h⟩ := Act.bind_eq_ok.1 h
    obtain ⟨path, l, w⟩ := ih h
    obtain ⟨b, hb⟩ := passes_declare hd h₁
    exact ⟨_, .step (.declare b) l, hb _ _ w⟩
  | decide id next ih =>
    obtain ⟨_, r₁, h₁, h⟩ := Act.bind_eq_ok.1 h
    obtain ⟨path, l, w⟩ := ih h
    exact ⟨_, .step .decide l, .decide (hd _ _ _ h₁) w⟩
  | isAdmitted id next ih =>
    obtain ⟨_, _, h₁, h⟩ := Act.bind_eq_ok.1 h
    obtain rfl := Act.modify_eq_ok.1 h₁
    obtain ⟨_, _, h₂, h⟩ := Act.bind_eq_ok.1 h
    obtain ⟨ha, rfl⟩ := Act.admits_eq_ok.1 h₂
    change r.admits id = _ at ha
    subst ha
    obtain ⟨path, l, w⟩ := ih _ h
    exact ⟨_, .step (.ask _) l, .plain .ask w⟩
  | isExamined id next ih =>
    obtain ⟨_, _, h₁, h⟩ := Act.bind_eq_ok.1 h
    obtain ⟨rfl, rfl⟩ := Act.get_eq_ok.1 h₁
    obtain ⟨path, l, w⟩ := ih _ h
    exact ⟨_, .step (.look _) l, .plain .look w⟩
  | find site finding next ih =>
    obtain ⟨_, _, h₁, h⟩ := Act.bind_eq_ok.1 h
    obtain rfl := Act.modify_eq_ok.1 h₁
    obtain ⟨path, l, w⟩ := ih h
    exact ⟨_, .step .find l, .plain .find w⟩
  | hideView id next ih =>
    obtain ⟨_, _, h₁, h⟩ := Act.bind_eq_ok.1 h
    obtain rfl := Act.rule_eq_ok.1 h₁
    obtain ⟨path, l, w⟩ := ih h
    exact ⟨_, .step .hideView l, .plain .hideView w⟩
  | postponeCompletion access next ih =>
    obtain ⟨_, _, h₁, h⟩ := Act.bind_eq_ok.1 h
    obtain rfl := Act.rule_eq_ok.1 h₁
    obtain ⟨path, l, w⟩ := ih h
    exact ⟨_, .step .postponeCompletion l, .plain .postponeCompletion w⟩
  | postponeAspects type next ih =>
    obtain ⟨_, _, h₁, h⟩ := Act.bind_eq_ok.1 h
    obtain rfl := Act.rule_eq_ok.1 h₁
    obtain ⟨path, l, w⟩ := ih h
    exact ⟨_, .step .postponeAspects l, .plain .postponeAspects w⟩
  | relax type next ih =>
    obtain ⟨_, _, h₁, h⟩ := Act.bind_eq_ok.1 h
    obtain ⟨path, l, w⟩ := ih h
    exact ⟨_, .step .relax l, .plain (.relax h₁) w⟩
  | placeInLoop id loop next ih =>
    obtain ⟨_, _, h₁, h⟩ := Act.bind_eq_ok.1 h
    obtain rfl := Act.rule_eq_ok.1 h₁
    obtain ⟨path, l, w⟩ := ih h
    exact ⟨_, .step .placeInLoop l, .plain .placeInLoop w⟩
  | body e mode inner next ih ih' =>
    obtain ⟨_, r₁, h₁, h⟩ := Act.bind_eq_ok.1 h
    obtain ⟨path, l, w⟩ := ih' h
    exact ⟨_, .step .body l, passes_body hd ih h₁ w⟩

/-- What happens after the inquiry into an entity that is not violated. -/
theorem passes_grant (hd : S.Decides decide) {e : Entity}
    {mode : Option Mode × Option EntityId} {path : List Step} {r r₁ r' : Run}
    (o : S.Opens e mode r) (l : (S.entityInquiry e).Leads path ())
    (w : S.Passes (.steps (e.declarationScope mode) path) (r.open e mode) r₁)
    (hv : r₁.violated = false) (ha : r₁.admits e.name = true)
    (h : S.grant decide (e.declarationScope mode) e r₁ = .ok () r') :
  S.Passes (.decision e.name) r { r' with cause := r.cause }
  := by
  obtain ⟨_, r₂, hp, h⟩ := Act.bind_eq_ok.1 h
  obtain ⟨roster, hr⟩ := S.publish_eq_ok hp
  have hv₂ : r₂.cause = none := by
    rw [hr]
    change r₁.cause = none
    simpa [Run.violated] using hv
  cases hf : e.predicateFunction? with
  | none =>
    rw [hf] at h
    have l' : (predicateInquiry e).Leads [] () := by
      unfold predicateInquiry
      rw [hf]
      exact .done
    obtain ⟨_, _, hb, h⟩ := Act.bind_eq_ok.1 h
    obtain ⟨rfl, rfl⟩ := Act.pure_eq_ok.1 hb
    obtain rfl := postpone_eq_ok h
    exact .grant o l w hv ha hp l' .nil (by simp [Run.violated, hv₂])
  | some function =>
    rw [hf] at h
    obtain ⟨b, r₃, hb, h⟩ := Act.bind_eq_ok.1 h
    obtain ⟨r₄, hi, rfl, rfl⟩ := consult_eq_ok hb
    have d := hd _ _ _ hi
    have l' : (predicateInquiry e).Leads [.consult function e.site (r₄.admits function)] () := by
      unfold predicateInquiry
      rw [hf]
      exact .step (.consult _) .done
    have w' : S.Passes (.steps (e.declarationScope mode)
        [.consult function e.site (r₄.admits function)]) r₂
        (r₄.rest (e.declarationScope mode) function e.site) := .consult d .nil
    have hv₄ : r₄.cause = none := (Passes.cause_eq S d).trans hv₂
    beta_reduce at h
    split at h
    · next hb =>
      obtain rfl := postpone_eq_ok h
      apply Passes.grant o l w hv ha hp l' w'
      simp [Run.rest, hb, Run.violated, Entity.declarationScope, Run.note, Run.rule, hv₄]
    · next hb =>
      obtain rfl := Act.modify_eq_ok.1 h
      apply Passes.revoke o l w hv ha hp l' w'
      rw [Bool.not_eq_true] at hb
      simp only [Run.rest, hb, Bool.false_eq_true, if_false, Run.violated, Run.findExcluded,
        Run.report]
      split <;> simp [Run.flag]

theorem passes_examine (hd : S.Decides decide) {e : Entity} {r r' : Run}
    (he : S.program.entity e.name = .ok e) (hf : e.name ∉ r.verdicts.examined)
    (h : S.examine decide e r = .ok () r') :
  S.Passes (.decision e.name) r r'
  := by
  obtain ⟨_, _, hx, h⟩ := Act.bind_eq_ok.1 h
  obtain rfl := Act.rule_eq_ok.1 hx
  obtain ⟨⟨mode, anchor⟩, _, hl, h⟩ := Act.bind_eq_ok.1 h
  obtain ⟨hm, rfl⟩ := Act.lift_eq_ok.1 hl
  simp only at h
  split at h
  · next ho =>
    obtain ⟨-, rfl⟩ := Act.pure_eq_ok.1 h
    rw [beq_iff_eq] at ho
    subst ho
    exact .off he hf hm
  · next ho =>
    rw [beq_iff_eq] at ho
    have o : S.Opens e (mode, anchor) r := ⟨he, hf, hm, ho⟩
    obtain ⟨r₃, ht, rfl⟩ := Act.afresh_eq_ok.1 h
    obtain ⟨_, _, hb, ht⟩ := Act.bind_eq_ok.1 ht
    obtain rfl := begin_eq_ok hb
    obtain ⟨_, _, ha, ht⟩ := Act.bind_eq_ok.1 ht
    obtain rfl := Act.rule_eq_ok.1 ha
    obtain ⟨_, r₄, hi, ht⟩ := Act.bind_eq_ok.1 ht
    obtain ⟨path, l, w⟩ := passes_walk hd hi
    obtain ⟨_, _, hg, ht⟩ := Act.bind_eq_ok.1 ht
    obtain ⟨rfl, rfl⟩ := Act.get_eq_ok.1 hg
    split at ht
    · next hv =>
      obtain rfl := Act.modify_eq_ok.1 ht
      apply Passes.reject o l w
      simpa using hv
    · next hv =>
      rw [Bool.or_eq_true, not_or, Bool.not_eq_true, Bool.not_eq_true,
        Bool.not_eq_false'] at hv
      exact passes_grant hd o l w hv.1 hv.2 ht

theorem passes_decideWithin (levels : Nat) :
  S.Decides (S.decideWithin levels)
  := by
  induction levels with
  | zero =>
    intro id r r' h
    obtain ⟨_, _, hg, h⟩ := Act.bind_eq_ok.1 h
    obtain ⟨rfl, rfl⟩ := Act.get_eq_ok.1 hg
    split at h
    · next hk =>
      obtain ⟨-, rfl⟩ := Act.pure_eq_ok.1 h
      exact .known hk
    · obtain ⟨_, _, -, h⟩ := Act.bind_eq_ok.1 h
      exact (Act.throw_eq_ok.1 h).elim
  | succ levels ih =>
    intro id r r' h
    obtain ⟨_, _, hg, h⟩ := Act.bind_eq_ok.1 h
    obtain ⟨rfl, rfl⟩ := Act.get_eq_ok.1 hg
    split at h
    · next hk =>
      obtain ⟨-, rfl⟩ := Act.pure_eq_ok.1 h
      exact .known hk
    · next hk =>
      obtain ⟨e, _, hl, ht⟩ := Act.bind_eq_ok.1 h
      obtain ⟨he, rfl⟩ := Act.lift_eq_ok.1 hl
      obtain rfl := S.program.name_eq_of_entity he
      exact passes_examine ih he hk ht

/-- What the decision of an entity does as an act is a passage. -/
theorem passes_decide :
  S.Decides S.decide
  := passes_decideWithin _

end Setting

end Conformance
