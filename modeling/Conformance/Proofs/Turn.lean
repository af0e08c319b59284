import Conformance.Proofs.Excision
import Conformance.Proofs.Session
import Conformance.Proofs.Settled

/-!
# Turns

The register of a run are its verdicts proper: what was examined, what is admitted, the
recorded causes, and the order of declarations, along with a log of the events that verdicts
are about.  A `Turn` is an elementary change of the register, with what is known when it
happens.  Whatever a run does is a chain of turns, so an
invariant of the register is proved one turn at a time.

`turns_of_passes` is about passages, and `follows_of_goes` about moments.
-/

namespace Conformance

open Relation (ReflTransGen)

/-- Whether an event is about a verdict. -/
def Event.isVerdict : Event → Bool
  | .admittedBody _ | .excluded _ _ => true
  | _ => false

/-- The verdicts proper. -/
structure Register where
  examined : Std.TreeSet EntityId
  admitted : Std.TreeSet EntityId
  admittedBodies : Std.TreeSet EntityId
  causes : Std.TreeMap EntityId Site
  bodyCauses : Std.TreeMap EntityId Site
  roster : Roster
  /-- The events that verdicts are about, the latest first. -/
  log : List Event

namespace Run

/-- The register of a run. -/
def register (r : Run) : Register :=
  { examined := r.verdicts.examined
    admitted := r.verdicts.admitted
    admittedBodies := r.verdicts.admittedBodies
    causes := r.verdicts.causes
    bodyCauses := r.verdicts.bodyCauses
    roster := r.verdicts.roster
    log := r.journal.filter Event.isVerdict }

/-- The run in which the body of an entity is admitted. -/
def admitBody (r : Run) (id : EntityId) : Run :=
  (r.rule fun v => { v with admittedBodies := v.admittedBodies.insert id }).note
    (.admittedBody id)

/-- The run in which the body of an entity is excluded. -/
def excludeBody (r : Run) (id : EntityId) (cause : Site) : Run :=
  r.rule fun v => { v with bodyCauses := v.bodyCauses.insert id cause }

theorem register_find (r : Run) (scope : Scope) (site : Site) (finding : Finding) :
  (r.find scope site finding).register = r.register
  := by
  obtain ⟨cause, reports, h⟩ := r.exists_find scope site finding
  rw [h]
  rfl

theorem register_rest (r : Run) (scope : Scope) (id : EntityId) (site : Site) :
  (r.rest scope id site).register = r.register
  := by
  obtain ⟨dependents, cause, reports, h⟩ := r.exists_rest scope id site
  rw [h]
  rfl

theorem register_start (r : Run) (scope : Scope) (m : Matter) :
  (r.start scope m).register = r.register
  := by
  obtain ⟨reporting, h⟩ := r.exists_start scope m
  rw [h]
  rfl

/-- The register of the run in which the inquiry into an entity starts. -/
theorem register_open (r : Run) (e : Entity) (mode : Option Mode × Option EntityId) :
  (r.open e mode).register = { r.register with
    examined := r.verdicts.examined.insert e.name
    admitted := r.verdicts.admitted.insert e.name }
  := by
  obtain ⟨reporting, hv⟩ := r.verdicts_open e mode
  have hj : (r.open e mode).journal = .began (.declaration e.name) :: r.journal :=
    (r.examine e.name).journal_start _ _
  simp only [register, hv, hj]
  rfl

end Run

namespace Setting

variable (S : Setting)

/-- An elementary change of the register. -/
inductive Turn : Run → Run → Prop
  | same {r r' : Run} (h : r'.register = r.register) : Turn r r'
  | off {e : Entity} {anchor : Option EntityId} {r : Run}
      (he : S.program.entity e.name = .ok e)
      (hm : S.modeOf e.name = .ok (some .off, anchor)) : Turn r (r.examine e.name)
  | open {e : Entity} {mode : Option Mode × Option EntityId} {r : Run} (o : S.Opens e mode r) :
    Turn r (r.open e mode)
  | publish {e : Entity} {r r' : Run} (ho : S.isOff e.name = .ok false)
      (hp : S.publish e r = .ok () r') : Turn r r'
  | admitBody {id : EntityId} {r : Run} (h : id ∈ r.verdicts.admitted) :
    Turn r (r.admitBody id)
  | excludeBody {id : EntityId} {cause : Site} {r : Run} : Turn r (r.excludeBody id cause)
  | excise {id : EntityId} {cause : Site} {r r' : Run} (h : id ∈ r.verdicts.admitted)
      (hx : r.Excises id cause r') : Turn r r'
  | close {r : Run} : Turn r (r.rule fun v => { v with roster := v.roster.close })

variable {S}

theorem turn_cause (r : Run) (cause : Option Site) :
  S.Turn r { r with cause }
  := .same rfl

theorem Opens.isOff {e : Entity} {mode : Option Mode × Option EntityId} {r : Run}
    (o : S.Opens e mode r) :
  S.isOff e.name = .ok false
  := by
  unfold Setting.isOff
  rw [o.modeOf]
  exact congrArg Except.ok (beq_false_of_ne o.analysed)

theorem register_plain {scope : Scope} {s : Step} {r r' : Run} (h : S.Plain scope s r r') :
  r'.register = r.register
  := by
  cases h with
  | find => apply Run.register_find
  | relax h =>
    obtain ⟨relaxed, rfl⟩ := S.relax_eq_ok h
    rfl
  | _ => rfl

theorem turns_inheritCause (r : Run) (e : Entity) :
  S.Turn r (r.inheritCause e)
  := by
  cases hc : r.verdicts.causes[e.name]? with
  | none =>
    apply Turn.same
    simp only [Run.inheritCause, Run.rule, hc]
  | some cause =>
    have he : r.inheritCause e = r.excludeBody e.name cause := by
      simp only [Run.inheritCause, Run.excludeBody, Run.rule, hc]
    rw [he]
    exact .excludeBody

theorem turns_concludeBody (r : Run) (e : Entity) (cause : Option Site) :
  ReflTransGen S.Turn r { r.concludeBody e with cause }
  := by
  unfold Run.concludeBody
  split
  · next h =>
    rw [Bool.and_eq_true] at h
    have ha : e.name ∈ r.verdicts.admitted := h.2
    exact .tail (.single (.admitBody ha)) (turn_cause _ _)
  · exact .tail (.single .excludeBody) (turn_cause _ _)

/-! ### Passages -/

/-- What holds of a passage from a coherent run in the way of turns. -/
def Turning (S : Setting) (c : Course) (r r' : Run) : Prop :=
  r.Coherent → r.Under c.matter → ReflTransGen S.Turn r r'

/-- An entity is still admitted when its verdict is due. -/
theorem admitted_of_passes {e : Entity} {mode : Option Mode × Option EntityId}
    {path : List Step} {r r₁ : Run} (o : S.Opens e mode r)
    (w : S.Passes (.steps (e.declarationScope mode) path) (r.open e mode) r₁)
    (hr : r.Coherent) :
  e.name ∈ r₁.verdicts.admitted
  := by
  obtain ⟨-, ho, hu, -⟩ := Run.open_step hr o.fresh mode
  obtain ⟨new, ha, -⟩ := orderly_of_passes w ho hu
  exact ha.admitted _ (mem_insert_iff.2 (Or.inl rfl))

theorem turns_open {e : Entity} {mode : Option Mode × Option EntityId} {path : List Step}
    {r r₁ : Run} (o : S.Opens e mode r)
    (ih : S.Turning (.steps (e.declarationScope mode) path) (r.open e mode) r₁)
    (hr : r.Coherent) :
  ReflTransGen S.Turn r r₁
  := by
  obtain ⟨-, ho, hu, -⟩ := Run.open_step hr o.fresh mode
  exact .head (.open o) (ih ho hu)

/-- The turns up to the end of the inquiry into an entity that is published, and that the
entity is admitted at the end. -/
theorem turns_published {e : Entity} {mode : Option Mode × Option EntityId}
    {path path' : List Step} {r r₁ r₂ r₃ : Run} (o : S.Opens e mode r)
    (w : S.Passes (.steps (e.declarationScope mode) path) (r.open e mode) r₁)
    (hp : S.publish e r₁ = .ok () r₂)
    (w' : S.Passes (.steps (e.declarationScope mode) path') r₂ r₃)
    (ih : S.Turning (.steps (e.declarationScope mode) path) (r.open e mode) r₁)
    (ih' : S.Turning (.steps (e.declarationScope mode) path') r₂ r₃) (hr : r.Coherent) :
  ReflTransGen S.Turn r r₃ ∧ e.name ∈ r₃.verdicts.admitted
  := by
  have hx := admitted_of_passes o w hr
  obtain ⟨-, ho, hu, -⟩ := Run.open_step hr o.fresh mode
  obtain ⟨new, ha, hr₁, -⟩ := orderly_of_passes w ho hu
  obtain ⟨hs, -⟩ := same_publish hp
  have hr₂ := hs.coherent hr₁
  have hu₂ := hu.after (ha.same hs)
  obtain ⟨new', ha', -⟩ := orderly_of_passes w' hr₂ hu₂
  constructor
  · exact ((turns_open o ih hr).tail (.publish o.isOff hp)).trans (ih' hr₂ hu₂)
  · apply ha'.admitted
    rwa [hs.admitted]

/-- A passage is a chain of turns. -/
theorem turns_of_passes {c : Course} {r r' : Run} (h : S.Passes c r r') :
  S.Turning c r r'
  := by
  induction h with
  | nil | known => exact fun _ _ => .refl
  | plain h _ ih =>
    intro hr hu
    obtain ⟨new, ha, hr₁⟩ := plain_step h hr hu
    exact .head (.same (register_plain h)) (ih hr₁ (hu.after ha))
  | decide d _ ihd ih | declare d _ _ ihd ih | declareResting d _ _ _ ihd ih
  | bodyOff d _ _ _ ihd ih =>
    intro hr hu
    obtain ⟨new, ha, hr₁, -⟩ := orderly_of_passes d hr (under_decision _ _)
    exact (ihd hr (under_decision _ _)).trans (ih hr₁ (hu.after ha))
  | @consult scope id site path r r₁ r' d _ ihd ih =>
    intro hr hu
    obtain ⟨new, ha, hr₁, hx⟩ := orderly_of_passes d hr (under_decision _ _)
    obtain ⟨ha₂, hr₂⟩ := Run.rest_step hr₁ (hu.after ha) (hx _ rfl) site
    have ht := (ihd hr (under_decision _ _)).tail (.same (r₁.register_rest scope id site))
    exact ht.trans (ih hr₂ ((hu.after ha).after ha₂))
  | @bodyExcluded scope e mode inner path r r₁ r' d _ _ ihd ih =>
    intro hr hu
    obtain ⟨new, ha, hr₁, -⟩ := orderly_of_passes d hr (under_decision _ _)
    have hs := r₁.same_inheritCause e
    have ht := (ihd hr (under_decision _ _)).tail (turns_inheritCause r₁ e)
    exact ht.trans (ih (hs.coherent hr₁) (hu.after (ha.same hs)))
  | @body scope e mode inner mode' path innerPath r r₁ r₂ r' d _ _ _ _ w _ ihd ihw ih =>
    intro hr hu
    obtain ⟨new, ha, hr₁, hx⟩ := orderly_of_passes d hr (under_decision _ _)
    obtain ⟨new₂, ha₂, hr₂, -⟩ := body_step (orderly_of_passes w) hr₁ (hx _ rfl) r₁.cause
    have ht := (ihd hr (under_decision _ _)).tail
      (.same (r₁.register_start (e.bodyScope mode') (.body e.name)))
    have ht' := ihw (hr₁.start _ (hx _ rfl)) (r₁.under_start _ _)
    have hb := (ht.trans ht').trans (turns_concludeBody r₂ e r₁.cause)
    exact hb.trans (ih hr₂ (hu.after ((ha.append ha₂).within scope.matter)))
  | off he _ hm => exact fun _ _ => .single (.off he hm)
  | @reject e mode path r r₁ o _ w _ ih =>
    intro hr _
    have ht := (turns_open o ih hr).tail
      (.excise (admitted_of_passes o w hr) (r₁.excises_exclude S.program e))
    exact ht.tail (turn_cause _ _)
  | @revoke e mode path path' r r₁ r₂ r₃ o _ w _ _ hp _ w' _ ih ih' =>
    intro hr _
    obtain ⟨ht, hx⟩ := turns_published o w hp w' ih ih' hr
    exact (ht.tail (.excise hx (r₃.excises_exclude S.program e))).tail (turn_cause _ _)
  | grant o _ w _ _ hp _ w' _ ih ih' =>
    intro hr _
    obtain ⟨ht, -⟩ := turns_published o w hp w' ih ih' hr
    exact ht.tail (.same rfl)

/-! ### Moments -/

/-- What is known of a moment that comes after another one. -/
structure Follows (S : Setting) (M M' : Moment) : Prop where
  advances : ∃ new, M.run.Advances M.scope.matter new M'.run
    ∧ ∀ m, M'.scope.matter = some m → M.scope.matter = some m ∨ .began m ∈ new
  coherent : M'.run.Coherent
  under : M'.run.Under M'.scope.matter
  turns : ReflTransGen S.Turn M.run M'.run
  /-- The entities of the matters that have begun since are admitted. -/
  stack : ∃ top, M'.stack = top ++ M.stack ∧ ∀ m ∈ top, m.entity ∈ M'.run.verdicts.admitted

theorem Follows.refl {M : Moment} (hr : M.run.Coherent) (hu : M.run.Under M.scope.matter) :
  S.Follows M M
  where
    advances := ⟨[], (Run.Same.refl _).advances _, fun _ => Or.inl⟩
    coherent := hr
    under := hu
    turns := .refl
    stack := ⟨[], rfl, by simp⟩

theorem Follows.trans {M M₁ M' : Moment} (h : S.Follows M M₁) (h' : S.Follows M₁ M') :
  S.Follows M M'
  := by
  obtain ⟨new, ha, hm⟩ := h.advances
  obtain ⟨new', ha', hm'⟩ := h'.advances
  obtain ⟨top, hs, ht⟩ := h.stack
  obtain ⟨top', hs', ht'⟩ := h'.stack
  constructor
  case advances =>
    refine ⟨new' ++ new, ha.trans ha' hm, fun m hx => ?_⟩
    obtain hx | hx := hm' m hx
    · exact (hm m hx).imp_right (List.mem_append_right _)
    · exact Or.inr (List.mem_append_left _ hx)
  case coherent => exact h'.coherent
  case under => exact h'.under
  case turns => exact h.turns.trans h'.turns
  case stack =>
    use top' ++ top
    constructor
    · rw [hs', hs, List.append_assoc]
    · intro m hx
      obtain hx | hx := List.mem_append.1 hx
      · exact ht' m hx
      · exact ha'.admitted _ (ht m hx)

/-- A moment at which another inquiry begins, that of a matter of its own. -/
theorem follows_enter {M : Moment} {m : Matter} {scope : Scope} {i : Inquiry Unit}
    {new : List Event} {r : Run} (ha : M.run.Advances none new r) (hr : r.Coherent)
    (hu : r.Under scope.matter) (hm : ∀ m, scope.matter = some m → .began m ∈ new)
    (ht : ReflTransGen S.Turn M.run r) (hx : m.entity ∈ r.verdicts.admitted) :
  S.Follows M ⟨m :: M.stack, scope, i, r⟩
  where
    advances := ⟨new, ha.within _, fun m hs => Or.inr (hm m hs)⟩
    coherent := hr
    under := hu
    turns := ht
    stack := ⟨[m], rfl, by simpa using hx⟩

theorem follows_of_goes {M M' : Moment} (g : S.Goes M M') (hr : M.run.Coherent)
    (hu : M.run.Under M.scope.matter) :
  S.Follows M M'
  := by
  cases g with
  | step t p =>
    obtain ⟨new, ha, hr', -⟩ := orderly_of_passes p hr hu
    constructor
    case advances => exact ⟨new, ha, fun _ => Or.inl⟩
    case coherent => exact hr'
    case under => exact hu.after ha
    case turns => exact turns_of_passes p hr hu
    case stack => exact ⟨[], rfl, by simp⟩
  | decided _ d =>
    obtain ⟨new, ha, hr', -⟩ := orderly_of_passes d hr (under_decision _ _)
    constructor
    case advances => exact ⟨new, ha.within _, fun _ => Or.inl⟩
    case coherent => exact hr'
    case under => exact hu.after ha
    case turns => exact turns_of_passes d hr (under_decision _ _)
    case stack => exact ⟨[], rfl, by simp⟩
  | @declaration stack scope i e mode r _ o =>
    obtain ⟨ha, hr', hu', -⟩ := Run.open_step hr o.fresh mode
    apply follows_enter ha hr' hu'
    · rintro _ ⟨⟩
      exact List.mem_singleton_self _
    · exact .single (.open o)
    · exact mem_insert_iff.2 (Or.inl rfl)
  | @predicate stack scope i e mode path r r₁ r₂ _ o _ w _ ha hp =>
    obtain ⟨ha₀, hr₀, hu₀, -⟩ := Run.open_step hr o.fresh mode
    obtain ⟨new, ha₁, hr₁, -⟩ := orderly_of_passes w hr₀ hu₀
    obtain ⟨hs, -⟩ := same_publish hp
    have ha₂ := ha₁.same hs
    have hm : ∀ m₀, some (Matter.declaration e.name) = some m₀ → none = some m₀
        ∨ Event.began m₀ ∈ [Event.began (.declaration e.name)] := by simp
    apply follows_enter (ha₀.trans ha₂ hm) (hs.coherent hr₁) (hu₀.after ha₂)
    · rintro _ ⟨⟩
      exact List.mem_append_right _ List.mem_cons_self
    · exact (turns_open o (turns_of_passes w) hr).tail (.publish o.isOff hp)
    · rw [hs.admitted]
      exact Run.admits_iff.1 ha
  | @body stack scope e mode inner next mode' r ha _ _ =>
    have hx : e.name ∈ r.verdicts.admitted := ha
    have hb : (Matter.body e.name).entity ∈ r.verdicts.examined := hr.mem_examined _ hx
    obtain ⟨reporting, hv⟩ := r.verdicts_start (e.bodyScope mode') (.body e.name)
    apply follows_enter (r.advances_start (e.bodyScope mode') e.name)
      (hr.start (e.bodyScope mode') hb) (r.under_start _ _)
    · rintro _ ⟨⟩
      exact List.mem_singleton_self _
    · exact .single (.same (r.register_start _ _))
    · rw [hv]
      exact hx

theorem follows_of_goes_to {M M' : Moment} (g : ReflTransGen S.Goes M M')
    (hr : M.run.Coherent) (hu : M.run.Under M.scope.matter) :
  S.Follows M M'
  := by
  induction g with
  | refl => exact .refl hr hu
  | tail _ g ih => exact ih.trans (follows_of_goes g ih.coherent ih.under)

end Setting

end Conformance
