import Conformance.Proofs.Steady

/-!
# What aspects rely on

The aspects of a type have no verdict that could be withdrawn, so what they consulted has no
record of them.  While they are gone through, all that they consult is admitted, or their
failure is recorded: `Run.Heeds` is what a passage does for this.  What was admitted then stays
admitted until a completion fails that is served later, and `Setting.TakesAlong` says how
the access type that is taken back takes an entity along.

`aspects_rely_on_admitted` is the result.
-/

namespace Conformance

open Relation (ReflTransGen)

/-- A matter that is not the aspects of a type, or no matter. -/
def NoAspects (m : Option Matter) : Prop := ∀ type, m ≠ some (.aspects type)

theorem noAspects_none :
  NoAspects none
  := by simp [NoAspects]

theorem noAspects_declaration (id : EntityId) :
  NoAspects (some (.declaration id))
  := by simp [NoAspects]

theorem noAspects_body (id : EntityId) :
  NoAspects (some (.body id))
  := by simp [NoAspects]

namespace Run

/-- What a passage does about aspects, where `m` is the matter under way: no failure of them is
recorded, and what they consult on the way is admitted if no violation is found. -/
structure Heeds (m : Option Matter) (r r' : Run) : Prop where
  failed : r'.verdicts.failedAspects = r.verdicts.failedAspects
  cause : ∀ type, m = some (.aspects type) → r'.cause = none → r.cause = none
  consulted : ∀ type x, .consulted (some (.aspects type)) x ∈ r'.journal →
    .consulted (some (.aspects type)) x ∈ r.journal
      ∨ m = some (.aspects type) ∧ (r'.cause = none → x ∈ r'.verdicts.admitted)

variable {m m' : Option Matter} {r r₁ r' : Run}

theorem Heeds.refl (r : Run) :
  r.Heeds m r
  := ⟨rfl, fun _ _ => id, fun _ _ => Or.inl⟩

theorem Heeds.trans (h : r.Heeds m r₁) (h' : r₁.Heeds m r')
    (ha : ∀ type, m = some (.aspects type) → ∀ x ∈ r₁.verdicts.admitted, x ∈ r'.verdicts.admitted) :
  r.Heeds m r'
  where
    failed := h'.failed.trans h.failed
    cause type hm hc := h.cause type hm (h'.cause type hm hc)
    consulted type x hx := by
      obtain hx | hx := h'.consulted type x hx
      · obtain hx | ⟨hm, hx⟩ := h.consulted type x hx
        · exact Or.inl hx
        · exact Or.inr ⟨hm, fun hc => ha type hm x (hx (h'.cause type hm hc))⟩
      · exact Or.inr hx

/-- Two passages one after the other in a matter that is no aspects. -/
theorem Heeds.append (hm : NoAspects m) (h : r.Heeds m r₁) (h' : r₁.Heeds m r') :
  r.Heeds m r'
  := h.trans h' fun type he => absurd he (hm type)

/-- What happens in a matter that is no aspects counts for no aspects of another matter under
way. -/
theorem Heeds.apart (h : r.Heeds m' r') (hm : NoAspects m')
    (hc : r'.cause = r.cause) :
  r.Heeds m r'
  where
    failed := h.failed
    cause _ _ h := hc ▸ h
    consulted type x hx := (h.consulted type x hx).imp_right fun ⟨he, _⟩ => absurd he (hm type)

/-- A matter of its own: the violation of the enclosing one is as before when it ends. -/
theorem Heeds.own (h : r.Heeds m' r') (hm : NoAspects m') :
  r.Heeds m { r' with cause := r.cause }
  where
    failed := h.failed
    cause _ _ := id
    consulted type x hx := (h.consulted type x hx).imp_right fun ⟨he, _⟩ => absurd he (hm type)

/-- A change in which nothing is consulted. -/
theorem heeds_of_journal (new : List Event) (hj : r'.journal = new ++ r.journal)
    (hn : ∀ m x, .consulted m x ∉ new)
    (hf : r'.verdicts.failedAspects = r.verdicts.failedAspects)
    (hc : ∀ type, m = some (.aspects type) → r'.cause = none → r.cause = none) :
  r.Heeds m r'
  where
    failed := hf
    cause := hc
    consulted type x hx := by
      rw [hj] at hx
      exact Or.inl ((List.mem_append.1 hx).resolve_left (hn _ x))

/-- A change that leaves the journal and the aspects alone. -/
theorem heeds_of_eq (hj : r'.journal = r.journal)
    (hf : r'.verdicts.failedAspects = r.verdicts.failedAspects)
    (hc : r'.cause = none → r.cause = none) :
  r.Heeds m r'
  := heeds_of_journal [] hj (by simp) hf fun _ _ => hc

theorem admitted_rest (r : Run) (scope : Scope) (id : EntityId) (site : Site) :
  (r.rest scope id site).verdicts.admitted = r.verdicts.admitted
  := congrArg Register.admitted (r.register_rest scope id site)

theorem heeds_rest (r : Run) (scope : Scope) (id : EntityId) (site : Site) :
  r.Heeds scope.matter (r.rest scope id site)
  := by
  have hf : (r.rest scope id site).verdicts.failedAspects = r.verdicts.failedAspects := by
    obtain ⟨dependents, cause, reports, h⟩ := r.exists_rest scope id site
    rw [h]
  cases ha : r.admits id with
  | false =>
    -- A violation is found.
    have hn := Setting.cause_rest_of_not_admits ha scope site
    refine ⟨hf, fun _ _ hc => absurd hc hn, fun type x hx => ?_⟩
    rw [Setting.journal_rest] at hx
    obtain he | hx := List.mem_cons.1 hx
    · exact Or.inr ⟨(Event.consulted.inj he).1.symm, fun hc => absurd hc hn⟩
    · exact Or.inl hx
  | true =>
    have hc := Setting.cause_rest_of_admits ha scope site
    refine ⟨hf, fun _ _ h => hc ▸ h, fun type x hx => ?_⟩
    rw [Setting.journal_rest] at hx
    obtain he | hx := List.mem_cons.1 hx
    · obtain ⟨hm, rfl⟩ := Event.consulted.inj he
      refine Or.inr ⟨hm.symm, fun _ => ?_⟩
      rw [admitted_rest]
      exact Run.admits_iff.1 ha
    · exact Or.inl hx

theorem heeds_start (r : Run) (scope : Scope) (m' : Matter) (hm : NoAspects m) :
  r.Heeds m (r.start scope m')
  := by
  obtain ⟨reporting, hv⟩ := r.verdicts_start scope m'
  refine heeds_of_journal [.began m'] (r.journal_start scope m') (by simp) ?_
    fun type h => absurd h (hm type)
  rw [hv]

/-- The exclusion of an entity at the end of its decision. -/
theorem heeds_exclude (r : Run) (p : Program) (e : Entity) :
  r.Heeds m (r.exclude p e)
  := by
  have hs := r.strikes_exclude p e
  obtain ⟨new, hj, hn⟩ := hs.journal
  refine heeds_of_journal new hj (fun m x hx => ?_) ?_ fun _ _ hc => hs.cause_eq ▸ hc
  · obtain ⟨_, _, he⟩ := hn _ hx
    cases he
  · rw [hs.frame]

theorem heeds_concludeBody (r : Run) (e : Entity) :
  r.Heeds m (r.concludeBody e)
  := by
  unfold concludeBody
  split
  · exact heeds_of_journal [_] rfl (by simp) rfl fun _ _ => id
  · exact heeds_of_eq rfl rfl id

theorem journal_concludeAspects (r : Run) (type : EntityId) :
  (r.concludeAspects type).journal = r.journal
  := by
  unfold concludeAspects
  split <;> rfl

theorem register_concludeAspects (r : Run) (type : EntityId) :
  (r.concludeAspects type).register = r.register
  := by
  unfold concludeAspects
  split <;> rfl

theorem mem_failedAspects_concludeAspects {type x : EntityId} :
  x ∈ (r.concludeAspects type).verdicts.failedAspects
    ↔ x ∈ r.verdicts.failedAspects ∨ x = type ∧ r.violated = true
  := by
  unfold concludeAspects
  split
  · next hv =>
    rw [and_iff_left hv, or_comm]
    exact mem_insert_iff
  · next hv => simp [hv]

end Run

namespace Setting

variable {S : Setting} {r r₁ r₂ r' : Run}

theorem heeds_plain {scope : Scope} {s : Step} (h : S.Plain scope s r r') :
  r.Heeds scope.matter r'
  := by
  cases h with
  | visit | ask => exact Run.heeds_of_journal [_] rfl (by simp) rfl fun _ _ => id
  | look => exact .refl r
  | @find _ site finding =>
    refine Run.heeds_of_eq (r.same_find scope site finding).journal ?_ ?_
    · cases finding <;> simp only [Run.find, Run.report] <;> split <;> rfl
    · intro hc
      cases finding with
      | warning w =>
        simp only [Run.find] at hc
        split at hc <;> exact hc
      | violation v | unsupported feature =>
        have hn := cause_flag r site
        simp only [Run.find, Run.report] at hc
        split at hc <;> exact absurd hc hn
  | hideView | postponeCompletion | postponeAspects | placeInLoop =>
    exact Run.heeds_of_eq rfl rfl id
  | relax h =>
    obtain ⟨relaxed, rfl⟩ := relax_eq_ok S h
    exact Run.heeds_of_eq rfl rfl id

/-- What the inquiry into an entity does about aspects. -/
theorem heeds_opened {e : Entity} {mode : Option Mode × Option EntityId}
    (h : (r.open e mode).Heeds (some (.declaration e.name)) r₁) :
  r.Heeds (some (.declaration e.name)) r₁
  := by
  have hm := noAspects_declaration e.name
  have hexamine : r.Heeds (some (.declaration e.name)) (r.examine e.name) :=
    Run.heeds_of_eq rfl rfl id
  have hstart := (r.examine e.name).heeds_start (e.declarationScope mode) (.declaration e.name) hm
  have henroll : ((r.examine e.name).start (e.declarationScope mode) (.declaration e.name)).Heeds
      (some (.declaration e.name)) (r.open e mode) := Run.heeds_of_eq rfl rfl id
  exact .append hm (.append hm (.append hm hexamine hstart) henroll) h

/-- What the inquiry into an entity that is published does about aspects. -/
theorem heeds_published {e : Entity} {mode : Option Mode × Option EntityId} {r₃ : Run}
    (h : (r.open e mode).Heeds (some (.declaration e.name)) r₁)
    (hp : S.publish e r₁ = .ok () r₂) (h' : r₂.Heeds (some (.declaration e.name)) r₃) :
  r.Heeds (some (.declaration e.name)) r₃
  := by
  have hm := noAspects_declaration e.name
  obtain ⟨roster, rfl⟩ := publish_eq_ok S hp
  have hpublish : r₁.Heeds (some (.declaration e.name)) (r₁.rule fun v => { v with roster }) :=
    Run.heeds_of_eq rfl rfl id
  exact .append hm (.append hm (heeds_opened h) hpublish) h'

/-- The decision of an entity ends with its exclusion. -/
theorem heeds_excluded {e : Entity} (h : r.Heeds (some (.declaration e.name)) r₁) :
  r.Heeds none { r₁.exclude S.program e with cause := r.cause }
  := by
  have hm := noAspects_declaration e.name
  exact (Run.Heeds.append hm h (r₁.heeds_exclude S.program e)).own hm

/-- A decision counts for no aspects of the matter under way. -/
theorem heeds_decided {id : EntityId} {m : Option Matter} (d : S.Passes (.decision id) r r')
    (h : r.Heeds none r') :
  r.Heeds m r'
  := h.apart noAspects_none (d.cause_eq S)

/-- What a passage does about aspects. -/
theorem heeds_of_passes {c : Course} (p : S.Passes c r r') (hs : S.Steady c.matter r) :
  r.Heeds c.matter r'
  := by
  induction p with
  | nil | known => exact .refl _
  | plain hp p ih =>
    have hs₁ := hs.plain hp
    exact (heeds_plain hp).trans (ih hs₁) fun _ _ _ => hs₁.admitted p
  | decide d p ihd ih | declare d _ p ihd ih | declareResting d _ _ p ihd ih
  | bodyOff d _ _ p ihd ih =>
    have hs₁ := (hs.decides d).1
    obtain ⟨new, ha, -⟩ := orderly_of_passes p hs₁.coherent hs₁.under
    exact (heeds_decided d (ihd hs.apart)).trans (ih hs₁) fun _ _ => ha.admitted
  | @consult scope id site path r r₁ r' d p ihd ih =>
    obtain ⟨hs₁, hx⟩ := hs.decides d
    have hs₂ := hs₁.rest hx site
    have hrest := (heeds_decided d (ihd hs.apart)).trans (r₁.heeds_rest scope id site)
      fun _ _ x hx => by rwa [Run.admitted_rest]
    exact hrest.trans (ih hs₂) fun _ _ _ => hs₂.admitted p
  | @bodyExcluded scope e mode inner path r r₁ r' d _ p ihd ih =>
    have hs₁ := (hs.decides d).1.inheritCause e
    have hinherit : r₁.Heeds scope.matter (r₁.inheritCause e) := by
      refine Run.heeds_of_eq rfl ?_ id
      simp only [Run.inheritCause, Run.rule]
      split <;> rfl
    have hexcluded := (heeds_decided d (ihd hs.apart)).trans hinherit
      fun _ _ x hx => by rwa [(r₁.same_inheritCause e).admitted]
    obtain ⟨new, ha, -⟩ := orderly_of_passes p hs₁.coherent hs₁.under
    exact hexcluded.trans (ih hs₁) fun _ _ => ha.admitted
  | @body scope e mode inner mode' path innerPath r r₁ r₂ r' d _ _ _ _ w p ihd ihw ih =>
    have hm := noAspects_body e.name
    obtain ⟨hs₁, hx⟩ := hs.decides d
    have hs₂ := hs₁.body hx w r₁.cause
    have hstart := r₁.heeds_start (e.bodyScope mode') (.body e.name) hm
    have hinner := Run.Heeds.append hm (.append hm hstart (ihw (hs₁.start hx mode')))
      (r₂.heeds_concludeBody e)
    obtain ⟨new, ha, -⟩ := body_step (orderly_of_passes w) hs₁.coherent hx r₁.cause
    have hdecided : r.Heeds scope.matter r₁ := heeds_decided d (ihd hs.apart)
    have hbody := hdecided.trans (hinner.own hm) fun _ _ => ha.admitted
    obtain ⟨new₂, ha₂, -⟩ := orderly_of_passes p hs₂.coherent hs₂.under
    exact hbody.trans (ih hs₂) fun _ _ => ha₂.admitted
  | off he hf hm => exact Run.heeds_of_eq rfl rfl id
  | reject o l w hv ih => exact heeds_excluded (heeds_opened (ih (hs.open o)))
  | @revoke e mode path path' r r₁ r₂ r₃ o l w hv ha hp l' w' hv' ih ih' =>
    have hs₁ := (hs.open o).passes w
    exact heeds_excluded (heeds_published (ih (hs.open o)) hp (ih' (hs₁.publish o.isOff hp)))
  | @grant e mode path path' r r₁ r₂ r₃ o l w hv ha hp l' w' hv' ih ih' =>
    have hm := noAspects_declaration e.name
    have hs₁ := (hs.open o).passes w
    have h := heeds_published (ih (hs.open o)) hp (ih' (hs₁.publish o.isOff hp))
    have hfollow : r₃.Heeds (some (.declaration e.name)) (r₃.follow e.followers) :=
      Run.heeds_of_eq rfl rfl id
    exact (Run.Heeds.append hm h hfollow).own hm

end Setting

/-! ### What is taken along -/

namespace Run

variable {r r' : Run}

/-- A task was served after an event happened. -/
def ServesAfter (r : Run) (event : Event) (t : Task) : Prop :=
  ∃ later earlier, r.journal = later ++ event :: earlier ∧ .served t ∈ later

/-- The declaration of an entity consulted another one. -/
def Needs (r : Run) (a b : EntityId) : Prop := .consulted (some (.declaration a)) b ∈ r.journal

theorem ServesAfter.later {event : Event} {t : Task} (new : List Event)
    (h : r.ServesAfter event t) (hj : r'.journal = new ++ r.journal) :
  r'.ServesAfter event t
  := by
  obtain ⟨later, earlier, hs, hm⟩ := h
  refine ⟨new ++ later, earlier, ?_, List.mem_append_right new hm⟩
  rw [hj, hs, List.append_assoc]

theorem needs_mono {a b : EntityId} (new : List Event) (h : ReflTransGen r.Needs a b)
    (hj : r'.journal = new ++ r.journal) :
  ReflTransGen r'.Needs a b
  := by
  refine ReflTransGen.mono (fun a b hab => ?_) _ _ h
  rw [Needs, hj]
  exact List.mem_append_right new hab

/-- What is hit from an entity needs it, directly or through others. -/
theorem needs_of_hit (hr : r.Coherent) {access x : EntityId} (h : r.verdicts.Hit [access] x) :
  ReflTransGen r.Needs x access
  := by
  induction h with
  | first hc hd _ =>
    obtain rfl := List.mem_singleton.1 hc
    exact .single (hr.consulted_of_dependent _ _ hd)
  | next _ hd _ ih => exact ih.head (hr.consulted_of_dependent _ _ hd)

/-- What is taken back is excluded for the cause. -/
theorem Excises.barred {id x : EntityId} {cause : Site} (h : r.Excises id cause r')
    (hr : r.Coherent) (hx : r.Loses r' x) :
  Setting.Barred x (some cause) r'.register
  := by
  refine ⟨?_, hx.2, h.causes_of_lost x (Or.inr hx)⟩
  have hexamined := congrArg Verdicts.examined h.strikes.frame
  change x ∈ r'.verdicts.examined
  rw [hexamined]
  exact hr.mem_examined x hx.1

end Run

namespace Setting

variable {S : Setting} {r r₁ r' : Run}

variable (S) in
/-- A completion that was served after an event failed: what the access type designates is
excluded, and the access type for that, which took an entity along that needs it. -/
structure TakesAlong (r : Run) (event : Event) (access x : EntityId) : Prop where
  served : r.ServesAfter event (.completion access)
  designated : ∃ id, S.designated access = .ok id ∧ id ∈ r.verdicts.examined
    ∧ id ∉ r.verdicts.admitted
  cause : ∃ cause, Barred access (some cause) r.register ∧ Barred x (some cause) r.register
  needs : ReflTransGen r.Needs x access

/-- What an access type took along stays excluded. -/
theorem TakesAlong.later {event : Event} {access x : EntityId} (new : List Event)
    (h : S.TakesAlong r event access x) (hj : r'.journal = new ++ r.journal)
    (ht : ReflTransGen S.Turn r r') :
  S.TakesAlong r' event access x
  where
    served := h.served.later new hj
    designated := by
      obtain ⟨id, hd, hx, ha⟩ := h.designated
      have hb : Barred id r.verdicts.causes[id]? r.register := ⟨hx, ha, rfl⟩
      obtain ⟨hx', ha', -⟩ := barred_of_turns ht hb
      exact ⟨id, hd, hx', ha'⟩
    cause := by
      obtain ⟨cause, ha, hx⟩ := h.cause
      exact ⟨cause, barred_of_turns ht ha, barred_of_turns ht hx⟩
    needs := Run.needs_mono new h.needs hj

/-- What is lost when an access type is taken back was taken along by it. -/
theorem takesAlong_of_loses {event : Event} {access id x : EntityId} {cause : Site}
    (hs : r.ServesAfter event (.completion access)) (hd : S.designated access = .ok id)
    (hid : id ∈ r.verdicts.examined) (hn : r.admits id = false) (hr : r.Coherent)
    (ha : access ∈ r.verdicts.admitted) (he : r.Excises access cause r') (hx : r.Loses r' x) :
  S.TakesAlong r' event access x
  := by
  obtain ⟨new, hj, -⟩ := he.strikes.journal
  have hexamined := congrArg Verdicts.examined he.strikes.frame
  constructor
  · exact hs.later new hj
  · refine ⟨id, hd, hexamined ▸ hid, fun hid' => ?_⟩
    rw [Run.admits_iff.2 (he.strikes.admitted hid')] at hn
    cases hn
  · exact ⟨cause, he.barred hr ⟨ha, he.strikes.gone⟩, he.barred hr hx⟩
  · refine Run.needs_mono new ?_ hj
    obtain rfl | hhit := he.strikes.hit x hx
    · exact .refl
    · exact Run.needs_of_hit hr hhit

/-! ### Stages -/

variable (S) in
/-- What the aspects of a type consulted is admitted, unless their failure is recorded or an
access type took it along after that. -/
def Relies (r : Run) : Prop :=
  ∀ type x, .consulted (some (.aspects type)) x ∈ r.journal →
    type ∈ r.verdicts.failedAspects ∨ x ∈ r.verdicts.admitted
      ∨ ∃ access, S.TakesAlong r (.consulted (some (.aspects type)) x) access x

/-- What aspects rely on stays while nothing is withdrawn, if what they consult on the way is
admitted or their failure is recorded. -/
theorem Relies.later {new : List Event} (h : S.Relies r) (hj : r'.journal = new ++ r.journal)
    (ht : ReflTransGen S.Turn r r') (ha : ∀ x ∈ r.verdicts.admitted, x ∈ r'.verdicts.admitted)
    (hf : ∀ type ∈ r.verdicts.failedAspects, type ∈ r'.verdicts.failedAspects)
    (hn : ∀ type x, .consulted (some (.aspects type)) x ∈ r'.journal →
      .consulted (some (.aspects type)) x ∈ r.journal
        ∨ type ∈ r'.verdicts.failedAspects ∨ x ∈ r'.verdicts.admitted) :
  S.Relies r'
  := by
  intro type x hx
  obtain hx | hx := hn type x hx
  · obtain hx | hx | ⟨access, hx⟩ := h type x hx
    · exact Or.inl (hf type hx)
    · exact Or.inr (Or.inl (ha x hx))
    · exact Or.inr (Or.inr ⟨access, hx.later new hj ht⟩)
  · exact hx.imp_right Or.inl

/-- A change between stages that leaves the register and the aspects alone. -/
theorem Relies.calm (h : S.Relies r) (hc : r.Calm r')
    (hf : r'.verdicts.failedAspects = r.verdicts.failedAspects) :
  S.Relies r'
  := by
  obtain ⟨new, hj, hn⟩ := hc.journal
  refine h.later hj (.single (.same hc.register)) (fun x hx => ?_) (fun _ => hf ▸ id)
    fun type x hx => Or.inl ?_
  · rwa [show r'.verdicts.admitted = r.verdicts.admitted from
      congrArg Register.admitted hc.register]
  · rw [hj] at hx
    refine (List.mem_append.1 hx).resolve_left fun hx => ?_
    obtain ⟨t, ht⟩ := hn _ hx
    cases ht

/-- A passage on which no aspects are under way. -/
theorem Relies.passes {c : Course} (h : S.Relies r) (p : S.Passes c r r')
    (hs : S.Steady c.matter r) (hm : NoAspects c.matter) :
  S.Relies r'
  := by
  obtain ⟨new, ha, -⟩ := orderly_of_passes p hs.coherent hs.under
  have hh := heeds_of_passes p hs
  refine h.later ha.journal (turns_of_passes p hs.coherent hs.under) ha.admitted
    (fun _ => hh.failed ▸ id) fun type x hx => Or.inl ?_
  exact (hh.consulted type x hx).resolve_right fun he => hm type he.1

/-- The aspects of a type are gone through, and their failure is recorded if there is one. -/
theorem Relies.aspects {type : EntityId} {scope : Scope} {path : List Step} (h : S.Relies r)
    (p : S.Passes (.steps scope path) r r₁) (hs : S.Steady scope.matter r)
    (hm : scope.matter = some (.aspects type)) :
  S.Relies (r₁.concludeAspects type)
  := by
  obtain ⟨new, ha, -⟩ := orderly_of_passes p hs.coherent hs.under
  have hh := heeds_of_passes p hs
  have hg := r₁.register_concludeAspects type
  have hadmitted : (r₁.concludeAspects type).verdicts.admitted = r₁.verdicts.admitted :=
    congrArg Register.admitted hg
  apply h.later ((r₁.journal_concludeAspects type).trans ha.journal)
    ((turns_of_passes p hs.coherent hs.under).tail (.same hg))
  · intro x hx
    rw [hadmitted]
    exact ha.admitted x hx
  · intro type' ht
    rw [← hh.failed] at ht
    exact Run.mem_failedAspects_concludeAspects.2 (Or.inl ht)
  · intro type' x hx
    rw [r₁.journal_concludeAspects] at hx
    obtain hx | ⟨he, hclean⟩ := hh.consulted type' x hx
    · exact Or.inl hx
    · obtain rfl : type = type' := by simpa using hm.symm.trans he
      right
      by_cases hc : r₁.cause = none
      · exact Or.inr (hadmitted ▸ hclean hc)
      · have hv : r₁.violated = true := Option.isSome_iff_ne_none.2 hc
        exact Or.inl (Run.mem_failedAspects_concludeAspects.2 (Or.inr ⟨rfl, hv⟩))

/-- A completion fails that is served after all that aspects consulted so far. -/
theorem Relies.takeBack {access id : EntityId} {cause : Site} (h : S.Relies r)
    (hs : ∀ type x, .consulted (some (.aspects type)) x ∈ r.journal →
      r.ServesAfter (.consulted (some (.aspects type)) x) (.completion access))
    (hd : S.designated access = .ok id) (hid : id ∈ r.verdicts.examined)
    (hn : r.admits id = false) (hr : r.Coherent) :
  S.Relies (r.takeBack S.program access id cause)
  := by
  obtain ⟨he, -⟩ | ⟨ha, he⟩ := r.excises_takeBack S.program access id cause
  · rwa [he]
  intro type x hc
  have hc := (he.strikes.mem_journal (by simp)).1 hc
  obtain hf | hx | ⟨access', hx⟩ := h type x hc
  · left
    rw [he.strikes.frame]
    exact hf
  · right
    by_cases hx' : x ∈ (r.takeBack S.program access id cause).verdicts.admitted
    · exact Or.inl hx'
    · exact Or.inr ⟨access, takesAlong_of_loses (hs type x hc) hd hid hn hr ha he ⟨hx, hx'⟩⟩
  · obtain ⟨new, hj, -⟩ := he.strikes.journal
    exact Or.inr (Or.inr ⟨access', hx.later new hj (.single (.excise ha he))⟩)

/-- A stage keeps what aspects rely on. -/
theorem relies_of_stage {ns : List Node} (st : S.Stage ns r r') (hs : S.Steady none r)
    (h : S.Relies r) :
  S.Relies r'
  := by
  have decision {t : Task} {b : Backlog} {id : EntityId} {r₁ : Run}
      (d : S.Passes (.decision id) (r.take t b) r₁) : S.Relies r₁ := by
    have hc := r.calm_take t b r.cause
    exact (h.calm hc rfl).passes d (hs.calm hc) noAspects_none
  cases st with
  | @context n path r r₁ l w =>
    have hc := r.calm_cause none
    have h₁ := (h.calm hc rfl).passes w (hs.calm hc) noAspects_none
    exact h₁.calm (r₁.calm_cause r.cause) rfl
  | unit l w => exact h.passes w hs noAspects_none
  | declaration hn d => exact decision d
  | @aspectsOff type anchor backlog r hn => exact h.calm (r.calm_take _ backlog r.cause) rfl
  | @completionVoid access backlog r hn ha => exact h.calm (r.calm_take _ backlog r.cause) rfl
  | @aspects type anchor backlog e t mode attribution path r r₁ hn he ht hm ho l w =>
    have hc := r.calm_take (.aspects type anchor) backlog none
    have hs₁ : S.Steady (aspectsScope type anchor mode attribution).matter _ :=
      (hs.calm hc).outside (by rintro _ ⟨⟩; rfl)
    exact ((h.calm hc rfl).aspects w hs₁ rfl).calm (Run.calm_cause _ r.cause) rfl
  | @completion access type backlog r r₁ hn hd ha d ht =>
    exact (decision d).calm (Run.Same.calm ⟨rfl, rfl, rfl, rfl, rfl, .refl _⟩ rfl rfl) rfl
  | @completionFailed access type backlog cause r r₁ hn hd ha d ht hcause =>
    have hc := r.calm_take (.completion access) backlog r.cause
    have hs₁ := hs.calm hc
    obtain ⟨new, hadvances, hr₁, hx⟩ := orderly_of_passes d hs₁.coherent hs₁.under
    refine (decision d).takeBack (fun type' x hm => ?_) hd (hx _ rfl) ht hr₁
    -- The aspects consulted the entity before the completion was served.
    obtain hm | ⟨⟨⟩, -⟩ := (heeds_of_passes d hs₁).consulted type' x hm
    have hm : .consulted (some (.aspects type')) x ∈ r.journal :=
      List.mem_of_ne_of_mem (by simp) hm
    obtain ⟨later, earlier, hl⟩ := List.append_of_mem hm
    refine ⟨new ++ .served (.completion access) :: later, earlier, ?_, by simp⟩
    rw [hadvances.journal]
    simp only [Run.take, Run.note, Run.rule, hl, List.append_assoc, List.cons_append]

theorem relies_of_proceeds {ns : List Node} (p : S.Proceeds ns r r') (hs : S.Steady none r)
    (h : S.Relies r) :
  S.Relies r'
  := by
  induction p with
  | nil => exact h
  | cons st _ ih => exact ih (hs.stage st) (relies_of_stage st hs h)

/-- In a run over a program, whatever the aspects of a type consulted is admitted in the end if
no failure of them is recorded, unless it needs an access type that is taken back: a
completion fails that is served after the consultation. -/
theorem aspects_rely_on_admitted {S : Setting} {r : Run} (h : S.wholeProgram {} = .ok () r)
    {type x : EntityId} (ht : type ∉ r.verdicts.failedAspects)
    (hx : .consulted (some (.aspects type)) x ∈ r.journal) :
  x ∈ r.verdicts.admitted
    ∨ ∃ access, S.TakesAlong r (.consulted (some (.aspects type)) x) access x
  := by
  obtain ⟨r₁, hp, -, rfl⟩ := proceeds_wholeProgram h
  have h₁ : S.Relies r₁ := relies_of_proceeds hp steady_empty (by rintro _ _ ⟨⟩)
  obtain hf | hx | ⟨access, hx⟩ := h₁ type x hx
  · exact absurd hf ht
  · exact Or.inl hx
  · exact Or.inr ⟨access, hx.later [] rfl (.single .close)⟩

/-- Two types, each with an invariant that names an object.  The type of one object is an
integer type, and that of the other one an access type to a type that is never completed. -/
def invariantsSample : Setting :=
  (ofParts?
    [{ name := "B", kind := .type { definition := .signed 0 9 } },
      { name := "Y", kind := .object { type := "B" } },
      { name := "U", kind := .type
          { definition := .record {}, invariant := some (.plain (.identifier "Y")) } },
      { name := "I", kind := .type { definition := .incomplete none } },
      { name := "A", kind := .type { definition := .access { designated := "I" } } },
      { name := "X", kind := .object { type := "A" } },
      { name := "T", kind := .type
          { definition := .record {}, invariant := some (.plain (.identifier "X")) } }]
    [.plain (.declaration .type "U"), .plain (.declaration .type "T")]).get (by decide +kernel)

theorem aspects_rely_on_admitted_invariantsSample :
  let r := (invariantsSample.wholeProgram.after {}).2
  invariantsSample.wholeProgram {} = .ok () r
    ∧ "U" ∉ r.verdicts.failedAspects ∧ .consulted (some (.aspects "U")) "Y" ∈ r.journal
    ∧ "Y" ∈ r.verdicts.admitted
    ∧ "T" ∉ r.verdicts.failedAspects ∧ .consulted (some (.aspects "T")) "X" ∈ r.journal
    ∧ ∃ access, invariantsSample.TakesAlong r (.consulted (some (.aspects "T")) "X") access "X"
  := by
  have h : invariantsSample.wholeProgram {} = .ok () (invariantsSample.wholeProgram.after {}).2 :=
    Act.eq_ok_of_after (by decide +kernel)
  have hU : "U" ∉ (invariantsSample.wholeProgram.after {}).2.verdicts.failedAspects := by
    decide +kernel
  have hT : "T" ∉ (invariantsSample.wholeProgram.after {}).2.verdicts.failedAspects := by
    decide +kernel
  have hY : .consulted (some (.aspects "U")) "Y"
      ∈ (invariantsSample.wholeProgram.after {}).2.journal :=
    Run.mem_consultations.1 (by decide +kernel)
  have hX : .consulted (some (.aspects "T")) "X"
      ∈ (invariantsSample.wholeProgram.after {}).2.journal :=
    Run.mem_consultations.1 (by decide +kernel)
  refine ⟨h, hU, hY, ?_, hT, hX, ?_⟩
  · obtain hy | ⟨access, ht⟩ := aspects_rely_on_admitted h hU hY
    · exact hy
    · decide +kernel
  · obtain hx | ht := aspects_rely_on_admitted h hT hX
    · exact absurd hx (by decide +kernel)
    · exact ht

/-- The aspects of a type stay without a failure while what they consulted is withdrawn. -/
theorem aspects_outlast_invariantsSample :
  let r := (invariantsSample.wholeProgram.after {}).2
  invariantsSample.wholeProgram {} = .ok () r ∧ "T" ∉ r.verdicts.failedAspects
    ∧ "X" ∈ r.consultations (.aspects "T") ∧ "X" ∉ r.verdicts.admitted
  := by
  refine ⟨Act.eq_ok_of_after (by decide +kernel), ?_, ?_, ?_⟩ <;> decide +kernel

end Setting

end Conformance
