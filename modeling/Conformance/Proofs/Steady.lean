import Conformance.Proofs.Partition

/-!
# Steady runs

The invariants of runs in one place.  `Setting.Steady` says that they hold while a matter is
under way; there is a lemma for each thing that can happen on a passage.  Further facts about
passages are proved from here.
-/

namespace Conformance

open Relation (ReflTransGen)

/-- Apart from tasks that are served, nothing happens that verdicts, reports or events are
about. -/
structure Run.Calm (r r' : Run) : Prop where
  coherent : r.Coherent → r'.Coherent
  register : r'.register = r.register
  dependents : r'.verdicts.dependents = r.verdicts.dependents
  reports : r'.reports = r.reports
  journal : ∃ new, r'.journal = new ++ r.journal ∧ ∀ event ∈ new, ∃ t, event = .served t

theorem Run.Same.calm {r r' : Run} (h : r.Same r') (hg : r'.register = r.register)
    (hr : r'.reports = r.reports) :
  r.Calm r'
  := ⟨h.coherent, hg, h.dependents, hr, [], h.journal, by simp⟩

theorem Run.calm_cause (r : Run) (cause : Option Site) :
  r.Calm { r with cause }
  := (r.same_cause cause).calm rfl rfl

theorem Run.calm_take (r : Run) (t : Task) (b : Backlog) (cause : Option Site) :
  r.Calm { r.take t b with cause }
  where
    coherent hr := ((r.take t b).same_cause cause).coherent (hr.take t b)
    register := rfl
    dependents := rfl
    reports := rfl
    journal := ⟨[.served t], rfl, by simp⟩

/-- The steps of a course. -/
def Course.path : Course → List Step
  | .decision _ => []
  | .steps _ path => path

namespace Setting

variable (S : Setting)

/-- The invariants of runs, while a matter is under way. -/
structure Steady (m : Option Matter) (r : Run) : Prop where
  coherent : r.Coherent
  under : r.Under m
  reached : ReflTransGen S.Turn {} r

variable {S} {m : Option Matter} {r r' : Run}

theorem steady_empty :
  S.Steady none {}
  := ⟨Run.coherent_empty, by simp [Run.Under], .refl⟩

theorem Steady.sorted (h : S.Steady m r) :
  S.Sorted r.register
  := sorted_of_turns h.reached sorted_empty

theorem Steady.classed (h : S.Steady m r) :
  S.Classed r.register
  := classed_of_turns h.reached classed_empty

/-- The invariants last through turns. -/
theorem Steady.turns {m' : Option Matter} (h : S.Steady m r) (ht : ReflTransGen S.Turn r r')
    (hr : r'.Coherent) (hu : r'.Under m') :
  S.Steady m' r'
  := ⟨hr, hu, h.reached.trans ht⟩

theorem Steady.passes {c : Course} (h : S.Steady c.matter r) (p : S.Passes c r r') :
  S.Steady c.matter r'
  := by
  obtain ⟨new, ha, hr, -⟩ := orderly_of_passes p h.coherent h.under
  exact h.turns (turns_of_passes p h.coherent h.under) hr (h.under.after ha)

theorem Steady.outside {scope : Scope} (h : S.Steady m r)
    (hm : ∀ m', scope.matter = some m' → m'.isRevocable = false) :
  S.Steady scope.matter r
  := h.turns .refl h.coherent (under_of_not_isRevocable hm r)

theorem Steady.apart (h : S.Steady m r) :
  S.Steady none r
  := ⟨h.coherent, by simp [Run.Under], h.reached⟩

theorem Steady.decides {id : EntityId} (h : S.Steady m r)
    (d : S.Passes (.decision id) r r') :
  S.Steady m r' ∧ id ∈ r'.verdicts.examined
  := by
  have hu := under_decision r id
  obtain ⟨new, ha, hr, hx⟩ := orderly_of_passes d h.coherent hu
  exact ⟨h.turns (turns_of_passes d h.coherent hu) hr (h.under.after ha), hx _ rfl⟩

theorem Steady.plain {scope : Scope} {s : Step} (h : S.Steady scope.matter r)
    (hp : S.Plain scope s r r') :
  S.Steady scope.matter r'
  := by
  obtain ⟨new, ha, hr⟩ := plain_step hp h.coherent h.under
  exact h.turns (.single (.same (register_plain hp))) hr (h.under.after ha)

theorem Steady.rest {scope : Scope} (h : S.Steady scope.matter r) {id : EntityId}
    (hx : id ∈ r.verdicts.examined) (site : Site) :
  S.Steady scope.matter (r.rest scope id site)
  := by
  obtain ⟨ha, hr⟩ := Run.rest_step h.coherent h.under hx site
  exact h.turns (.single (.same (r.register_rest scope id site))) hr (h.under.after ha)

theorem Steady.inheritCause (h : S.Steady m r) (e : Entity) :
  S.Steady m (r.inheritCause e)
  := by
  have hs := r.same_inheritCause e
  exact h.turns (.single (turns_inheritCause r e)) (hs.coherent h.coherent)
    (h.under.after (hs.advances none))

theorem Steady.start (h : S.Steady m r) {e : Entity} (hx : e.name ∈ r.verdicts.examined)
    (mode : Option Mode × Option EntityId) :
  S.Steady (some (.body e.name)) (r.start (e.bodyScope mode) (.body e.name))
  := h.turns (.single (.same (r.register_start _ _))) (h.coherent.start _ hx) (r.under_start _ _)

/-- What is known after the body of an entity was gone through. -/
theorem Steady.body {e : Entity} {mode : Option Mode × Option EntityId} {path : List Step}
    {r₁ : Run} (h : S.Steady m r) (hx : e.name ∈ r.verdicts.examined)
    (w : S.Passes (.steps (e.bodyScope mode) path)
      (r.start (e.bodyScope mode) (.body e.name)) r₁) (cause : Option Site) :
  S.Steady m { r₁.concludeBody e with cause }
  := by
  obtain ⟨new, ha, hr, -⟩ := body_step (orderly_of_passes w) h.coherent hx cause
  have ht := turns_of_passes w (h.coherent.start _ hx) (r.under_start _ _)
  have hs : S.Turn r (r.start (e.bodyScope mode) (.body e.name)) :=
    .same (r.register_start _ _)
  exact h.turns (.head hs (ht.trans (turns_concludeBody r₁ e cause))) hr (h.under.after ha)

theorem Steady.open (h : S.Steady m r) {e : Entity} {mode : Option Mode × Option EntityId}
    (o : S.Opens e mode r) :
  S.Steady (some (.declaration e.name)) (r.open e mode)
  := by
  obtain ⟨-, hr, hu, -⟩ := Run.open_step h.coherent o.fresh mode
  exact h.turns (.single (.open o)) hr hu

theorem Steady.publish {e : Entity} (h : S.Steady m r) (ho : S.isOff e.name = .ok false)
    (hp : S.publish e r = .ok () r') :
  S.Steady m r'
  := by
  have hs := (same_publish hp).1
  exact h.turns (.single (.publish ho hp)) (hs.coherent h.coherent)
    (h.under.after (hs.advances none))

/-- An entity that was admitted is admitted while its own inquiry goes on. -/
theorem Steady.admitted {c : Course} {x : EntityId} (h : S.Steady c.matter r)
    (p : S.Passes c r r') (hx : x ∈ r.verdicts.admitted) :
  x ∈ r'.verdicts.admitted
  := by
  obtain ⟨new, ha, -⟩ := orderly_of_passes p h.coherent h.under
  exact ha.admitted x hx

/-- An examined entity that is not admitted has a cause, unless it is excluded from
analysis. -/
theorem Steady.caused {x : EntityId} (h : S.Steady m r) (hx : x ∈ r.verdicts.examined)
    (ha : r.admits x = false) (ho : S.isOff x ≠ .ok true) :
  ∃ cause, r.verdicts.causes[x]? = some cause
  := by
  obtain ha' | hc | ho' := h.classed x hx
  · have : r.admits x = true := Run.admits_iff.2 ha'
    rw [ha] at this
    cases this
  · exact Option.isSome_iff_exists.1 hc
  · exact absurd ho' ho

/-- The invariants hold at each stage of a run. -/
theorem Steady.stage {ns : List Node} (h : S.Steady none r) (hs : S.Stage ns r r') :
  S.Steady none r'
  := by
  obtain ⟨ht, hr⟩ := turns_of_stage hs h.coherent
  exact h.turns ht hr (by simp [Run.Under])

theorem Steady.calm (h : S.Steady none r) (hc : r.Calm r') :
  S.Steady none r'
  := h.turns (.single (.same hc.register)) (hc.coherent h.coherent) (by simp [Run.Under])

/-- A course that is gone through by an inquiry of the legality rules. -/
def Lawful (S : Setting) : Course → Prop
  | .decision _ => True
  | .steps _ path => ∃ t known bs i, S.Regular t known bs i ∧ i.Leads path ()

theorem Lawful.proper {c : Course} (h : S.Lawful c) :
  Course.Proper S c
  := by
  cases c with
  | decision id => trivial
  | steps scope path =>
    obtain ⟨t, known, bs, i, hi, l⟩ := h
    exact hi.proper l scope

/-- A course that is gone through between stages: no matter is under way whose verdict can be
withdrawn. -/
structure Outer (S : Setting) (c : Course) : Prop where
  lawful : S.Lawful c
  matter : ∀ m, c.matter = some m → m.isRevocable = false

/-- A stage is a passage where no matter is under way whose verdict can be withdrawn, after
which an access type may be taken back. -/
theorem Stage.parts {ns : List Node} (st : S.Stage ns r r') (h : S.Steady none r) :
  ∃ c r₁ r₂, r.Calm r₁ ∧ S.Outer c ∧ S.Steady c.matter r₁ ∧ S.Passes c r₁ r₂
    ∧ (r₂.Calm r' ∨ ∃ access type cause, S.designated access = .ok type
      ∧ type ∈ r₂.verdicts.examined ∧ r₂.admits type = false
      ∧ S.causeOf r₂.verdicts type = .ok cause ∧ r' = r₂.takeBack S.program access type cause)
  := by
  have outside {path : List Step} (hl : S.Lawful (.steps {} path)) : S.Outer (.steps {} path) :=
    ⟨hl, nofun⟩
  have still : S.Outer (.steps {} []) :=
    outside ⟨{}, fun _ => False, [], _, regular_pure (), .done⟩
  cases st with
  | @context n path r r₁ l w =>
    have hc := r.calm_cause none
    exact ⟨.steps {} path, _, r₁, hc, outside ⟨_, _, _, _, regular_contextItem n, l⟩, h.calm hc, w,
      Or.inl (r₁.calm_cause r.cause)⟩
  | @unit n path r r' l w =>
    exact ⟨.steps {} path, r, r', r.calm_cause r.cause, outside ⟨_, _, _, _, regular_outside n, l⟩,
      h, w, Or.inl (r'.calm_cause r'.cause)⟩
  | @declaration id backlog r r' hn d =>
    have hc := r.calm_take (.declaration id) backlog r.cause
    exact ⟨.decision id, _, r', hc, ⟨trivial, nofun⟩, h.calm hc, d, Or.inl (r'.calm_cause r'.cause)⟩
  | @aspectsOff type anchor backlog r hn =>
    have hc := r.calm_take (.aspects type anchor) backlog r.cause
    exact ⟨.steps {} [], _, _, hc, still, h.calm hc, .nil, Or.inl (Run.calm_cause _ r.cause)⟩
  | @aspects type anchor backlog e t mode attribution path r r₁ hn _ _ _ _ l w =>
    have hc := r.calm_take (.aspects type anchor) backlog none
    have hm : ∀ m, (aspectsScope type anchor mode attribution).matter = some m →
        m.isRevocable = false := by
      rintro _ ⟨⟩
      rfl
    have hc' : r₁.Calm { r₁.concludeAspects type with cause := r.cause } := by
      unfold Run.concludeAspects
      split <;> exact Run.Same.calm ⟨rfl, rfl, rfl, rfl, rfl, .refl _⟩ rfl rfl
    exact ⟨.steps _ path, _, r₁, hc, ⟨⟨_, _, _, _, regular_aspectsInquiry t, l⟩, hm⟩,
      (h.calm hc).outside hm, w, Or.inl hc'⟩
  | @completionVoid access backlog r hn ha =>
    have hc := r.calm_take (.completion access) backlog r.cause
    exact ⟨.steps {} [], _, _, hc, still, h.calm hc, .nil, Or.inl (Run.calm_cause _ r.cause)⟩
  | @completion access type backlog r r₁ hn hd ha d ht =>
    have hc := r.calm_take (.completion access) backlog r.cause
    have hc' : r₁.Calm (r₁.complete type access) :=
      Run.Same.calm ⟨rfl, rfl, rfl, rfl, rfl, .refl _⟩ rfl rfl
    exact ⟨.decision type, _, r₁, hc, ⟨trivial, nofun⟩, h.calm hc, d, Or.inl hc'⟩
  | @completionFailed access type backlog cause r r₁ hn hd ha d ht hcause =>
    have hc := r.calm_take (.completion access) backlog r.cause
    exact ⟨.decision type, _, r₁, hc, ⟨trivial, nofun⟩, h.calm hc, d,
      Or.inr ⟨access, type, cause, hd, ((h.calm hc).decides d).2, ht, hcause, rfl⟩⟩

end Setting

end Conformance
