import Conformance.Proofs.Foundation

/-!
# Completions of access types

An access type whose designated type is incomplete is admitted before what it designates is
decided; its completion is postponed.  `Run.Defers` says what a passage does to postponed
completions, and `Setting.Completed` is the invariant of the stages of a run: a completion
that does not wait any more has excluded its access type or is recorded.

A recorded completion creates no dependent, so the designated type may be excluded later
while the access type stays.  `designated_admitted_iff` says that this is all that can go
wrong.
-/

namespace Conformance

namespace Run

/-- What completions are about: which entities were examined, which completions were
postponed, and which are recorded. -/
def docket (r : Run) :
    Std.TreeSet EntityId × Lane EntityId × Std.TreeMap EntityId EntityId :=
  (r.verdicts.examined, r.verdicts.backlog.completions, r.verdicts.completions)

/-- On a passage only examined access types are postponed, and none is completed. -/
structure Defers (r r' : Run) : Prop where
  examined : ∀ x ∈ r.verdicts.examined, x ∈ r'.verdicts.examined
  completions : r'.verdicts.completions = r.verdicts.completions
  taken : ∀ access, r'.verdicts.backlog.takes (.completion access) = false →
    r.verdicts.backlog.takes (.completion access) = false ∨ access ∈ r'.verdicts.examined

theorem Defers.trans {r r₁ r' : Run} (h : r.Defers r₁) (h' : r₁.Defers r') :
  r.Defers r'
  := by
  constructor
  · exact fun x hx => h'.examined x (h.examined x hx)
  · rw [h'.completions, h.completions]
  · intro access ht
    obtain ht | hx := h'.taken access ht
    · exact (h.taken access ht).imp_right (h'.examined access)
    · exact Or.inr hx

theorem defers_of_docket {r r' : Run} (h : r'.docket = r.docket) :
  r.Defers r'
  := by
  obtain ⟨he, hl, hc⟩ : r'.verdicts.examined = r.verdicts.examined
      ∧ r'.verdicts.backlog.completions = r.verdicts.backlog.completions
      ∧ r'.verdicts.completions = r.verdicts.completions := by simpa [docket] using h
  constructor
  · rw [he]
    exact fun _ => id
  · exact hc
  · intro access ht
    left
    rwa [Backlog.takes, hl] at ht

theorem Defers.same {r r₁ r' : Run} (h : r.Defers r₁) (h' : r'.docket = r₁.docket) :
  r.Defers r'
  := h.trans (defers_of_docket h')

/-! ### Changes that leave completions alone -/

theorem docket_find (r : Run) (scope : Scope) (site : Site) (finding : Finding) :
  (r.find scope site finding).docket = r.docket
  := by
  obtain ⟨cause, reports, h⟩ := r.exists_find scope site finding
  rw [h]
  rfl

theorem docket_rest (r : Run) (scope : Scope) (id : EntityId) (site : Site) :
  (r.rest scope id site).docket = r.docket
  := by
  obtain ⟨dependents, cause, reports, h⟩ := r.exists_rest scope id site
  rw [h]
  rfl

theorem docket_start (r : Run) (scope : Scope) (m : Matter) :
  (r.start scope m).docket = r.docket
  := by
  obtain ⟨reporting, h⟩ := r.exists_start scope m
  rw [h]
  rfl

theorem docket_inheritCause (r : Run) (e : Entity) :
  (r.inheritCause e).docket = r.docket
  := by
  obtain ⟨bodyCauses, h⟩ := r.exists_inheritCause e
  rw [h]
  rfl

theorem docket_concludeBody (r : Run) (e : Entity) (cause : Option Site) :
  ({ r.concludeBody e with cause } : Run).docket = r.docket
  := by
  unfold concludeBody
  split <;> rfl

theorem docket_follow (r : Run) (ids : List EntityId) (cause : Option Site) :
  ({ r.follow ids with cause } : Run).docket = r.docket
  := by
  have hl (b : Backlog) :
      (ids.foldl (fun b id => b.push (.declaration id)) b).completions = b.completions := by
    induction ids generalizing b with
    | nil => rfl
    | cons id ids ih => exact ih _
  simp [docket, follow, rule, hl]

theorem Strikes.docket {r r' : Run} {id : EntityId} (h : r.Strikes id r') :
  r'.docket = r.docket
  := by
  rw [Run.docket, h.frame]
  rfl

theorem defers_examine (r : Run) (id : EntityId) :
  r.Defers (r.examine id)
  where
    examined _ hx := Std.TreeSet.mem_insert.2 (Or.inr hx)
    completions := rfl
    taken _ := Or.inl

end Run

namespace Setting

variable {S : Setting}

/-- Only access types that were examined are postponed by the steps on a course. -/
def Course.Owns (r : Run) : Course → Prop
  | .decision _ => True
  | .steps _ path => ∀ access, .postponeCompletion access ∈ path → access ∈ r.verdicts.examined

theorem defers_plain {scope : Scope} {s : Step} {r r' : Run} (h : S.Plain scope s r r')
    (hs : ∀ access, s = .postponeCompletion access → access ∈ r.verdicts.examined) :
  r.Defers r'
  := by
  cases h with
  | visit | ask | look | hideView | postponeAspects | placeInLoop =>
    exact Run.defers_of_docket rfl
  | find => exact Run.defers_of_docket (Run.docket_find _ _ _ _)
  | relax h =>
    obtain ⟨relaxed, rfl⟩ := S.relax_eq_ok h
    exact Run.defers_of_docket rfl
  | @postponeCompletion r access =>
    constructor
    · exact fun _ => id
    · rfl
    · intro access' ht
      by_cases he : access' = access
      · exact Or.inr (he ▸ hs access rfl)
      · left
        simpa [Run.rule, Backlog.takes_push, he] using ht

theorem Course.Owns.tail {r r' : Run} {scope : Scope} {s : Step} {path : List Step}
    (h : Course.Owns r (.steps scope (s :: path))) (hr : r.Defers r') :
  Course.Owns r' (.steps scope path)
  := fun access ha => hr.examined access (h access (List.mem_cons_of_mem s ha))

/-- The inquiry into the declaration of an entity postpones no other completion. -/
theorem owns_entityInquiry {e : Entity} (he : S.program.entity e.name = .ok e)
    {path : List Step} (l : (S.entityInquiry e).Leads path ()) {r : Run}
    (hx : e.name ∈ r.verdicts.examined) (scope : Scope) :
  Course.Owns r (.steps scope path)
  := by
  intro access ha
  obtain rfl := Option.some.inj ((regular_entityInquiry he).completion l ha)
  exact hx

/-- An inquiry that declares nothing postpones no completion. -/
theorem Regular.owns {t : Topic} {known : EntityId → Prop} {i : Inquiry Unit}
    {bs : List (EntityId × List Node)} (h : S.Regular t known bs i) (ht : t.declared = none)
    {path : List Step} (l : i.Leads path ()) (r : Run) (scope : Scope) :
  Course.Owns r (.steps scope path)
  := by
  intro access ha
  have hd := h.completion l ha
  rw [ht] at hd
  cases hd

theorem examined_open {r : Run} {e : Entity} {mode : Option Mode × Option EntityId} :
  r.Defers (r.open e mode) ∧ e.name ∈ (r.open e mode).verdicts.examined
  := by
  have hs := Run.docket_start (r.examine e.name) (e.declarationScope mode) (.declaration e.name)
  have ho : (r.open e mode).docket = (r.examine e.name).docket := hs
  have hd := (r.defers_examine e.name).same ho
  refine ⟨hd, (Run.defers_of_docket ho).examined e.name ?_⟩
  exact Std.TreeSet.mem_insert_self

/-- The inquiry into an entity, the publication, and the inquiry into its predicate. -/
theorem defers_granted {e : Entity} {mode : Option Mode × Option EntityId}
    {path path' : List Step} {r r₁ r₂ r₃ : Run} (o : S.Opens e mode r)
    (l : (S.entityInquiry e).Leads path ()) (hp : S.publish e r₁ = .ok () r₂)
    (l' : (predicateInquiry e).Leads path' ())
    (ih : Course.Proper S (.steps (e.declarationScope mode) path) →
      Course.Owns (r.open e mode) (.steps (e.declarationScope mode) path) →
      (r.open e mode).Defers r₁)
    (ih' : Course.Proper S (.steps (e.declarationScope mode) path') →
      Course.Owns r₂ (.steps (e.declarationScope mode) path') → r₂.Defers r₃) :
  r.Defers r₃
  := by
  obtain ⟨hd, hx⟩ := examined_open (r := r) (e := e)
  have hr := regular_entityInquiry o.entity
  have hr' : S.Regular {} (fun _ => False) [] (predicateInquiry e) := regular_predicateInquiry e
  obtain ⟨roster, rfl⟩ := S.publish_eq_ok hp
  have h₁ := hd.trans (ih (hr.proper l _) (owns_entityInquiry o.entity l hx _))
  have h₂ := ih' (hr'.proper l' _) (hr'.owns rfl l' _ _)
  have hs : r₁.Defers (r₁.rule fun v => { v with roster }) := Run.defers_of_docket rfl
  exact (h₁.trans hs).trans h₂

theorem defers_of_passes {c : Course} {r r' : Run} (h : S.Passes c r r')
    (hp : Course.Proper S c) (ho : Course.Owns r c) :
  r.Defers r'
  := by
  induction h with
  | nil | known => exact Run.defers_of_docket rfl
  | plain h _ ih =>
    have hd := defers_plain h fun access hs => ho access (hs ▸ List.mem_cons_self)
    exact hd.trans (ih hp.tail (ho.tail hd))
  | decide _ _ ihd ih | declare _ _ _ ihd ih | bodyOff _ _ _ _ ihd ih =>
    have hd := ihd trivial trivial
    exact hd.trans (ih hp.tail (ho.tail hd))
  | @consult scope id site path r r₁ r' _ _ ihd ih =>
    have hd := (ihd trivial trivial).same (r₁.docket_rest scope id site)
    exact hd.trans (ih hp.tail (ho.tail hd))
  | declareResting _ _ _ _ ihd ih =>
    have hd := ihd trivial trivial
    apply hd.trans (ih hp _)
    intro access ha
    obtain ha | ha := List.mem_cons.1 ha
    · cases ha
    · exact ho.tail hd access ha
  | @bodyExcluded scope e mode inner path r r₁ r' _ _ _ ihd ih =>
    have hd := (ihd trivial trivial).same (r₁.docket_inheritCause e)
    exact hd.trans (ih hp.tail (ho.tail hd))
  | @body scope e mode inner mode' path innerPath r r₁ r₂ r' _ _ _ _ l _ _ ihd ihw ih =>
    obtain ⟨he, ns, rfl⟩ := hp.body
    have hb := regular_bodyItems (S := S) e ns
    have hw := ihw (hb.proper l _) (hb.owns rfl l _ _)
    have hs := (ihd trivial trivial).same (r₁.docket_start (e.bodyScope mode') (.body e.name))
    have hd := hs.trans (hw.same (r₂.docket_concludeBody e r₁.cause))
    exact hd.trans (ih hp.tail (ho.tail hd))
  | off => exact Run.defers_examine _ _
  | @reject e mode path r r₁ o l _ _ ih =>
    obtain ⟨hd, hx⟩ := examined_open (r := r) (e := e)
    have hr := regular_entityInquiry o.entity
    have hw := ih (hr.proper l _) (owns_entityInquiry o.entity l hx _)
    exact (hd.trans hw).same (r₁.strikes_exclude S.program e).docket
  | @revoke e mode path path' r r₁ r₂ r₃ o l _ _ _ hp' l' _ _ ih ih' =>
    exact (defers_granted o l hp' l' ih ih').same (r₃.strikes_exclude S.program e).docket
  | @grant e mode path path' r r₁ r₂ r₃ o l _ _ _ hp' l' _ _ ih ih' =>
    exact (defers_granted o l hp' l' ih ih').same (r₃.docket_follow e.followers r.cause)

/-- Steps of an inquiry that declares nothing. -/
theorem defers_walk {scope : Scope} {path : List Step} {i : Inquiry Unit}
    {bs : List (EntityId × List Node)} {r r' : Run}
    (hi : S.Regular {} (fun _ => False) bs i) (l : i.Leads path ())
    (p : S.Passes (.steps scope path) r r') :
  r.Defers r'
  := defers_of_passes p (hi.proper l _) (hi.owns rfl l _ _)

/-! ### Completions at the stages of a run -/

/-- The completion of an access type is done with: its access type is excluded, or what it
designates is recorded. -/
def Resolved (S : Setting) (r : Run) (access : EntityId) : Prop :=
  access ∉ r.verdicts.admitted
    ∨ ∃ id access', S.designated access = .ok id ∧ r.verdicts.completions[id]? = some access'

/-- Every completion that was postponed waits or is done with, apart from the given ones, and
what is recorded is designated. -/
structure Completed (S : Setting) (served : EntityId → Prop) (r : Run) : Prop where
  designated : ∀ id access, r.verdicts.completions[id]? = some access →
    S.designated access = .ok id
  examined : ∀ access, r.verdicts.backlog.takes (.completion access) = false →
    access ∈ r.verdicts.examined
  resolved : ∀ access, r.verdicts.backlog.takes (.completion access) = false →
    ¬ served access → r.verdicts.backlog.Awaits (.completion access) ∨ S.Resolved r access

/-- An examined entity that is excluded stays so. -/
theorem Resolved.advances {r r' : Run} {m : Option Matter} {new : List Event}
    {access : EntityId} (h : S.Resolved r access) (hx : access ∈ r.verdicts.examined)
    (ha : r.Advances m new r') (hc : r'.verdicts.completions = r.verdicts.completions) :
  S.Resolved r' access
  := by
  obtain h | h := h
  · left
    intro hx'
    obtain hx' | hx' := ha.fresh access hx'
    · exact h hx'
    · exact hx' hx
  · right
    rwa [hc]

theorem Completed.passes {served : EntityId → Prop} {c : Course} {r r' : Run}
    (h : S.Completed served r) (hr : r.Coherent) (hu : r.Under c.matter)
    (p : S.Passes c r r') (hp : Course.Proper S c) (ho : Course.Owns r c) :
  S.Completed served r'
  := by
  obtain ⟨new, ha, -⟩ := orderly_of_passes p hr hu
  have hd := defers_of_passes p hp ho
  constructor
  · rw [hd.completions]
    exact h.designated
  · intro access ht
    obtain ht | hx := hd.taken access ht
    · exact hd.examined access (h.examined access ht)
    · exact hx
  · intro access ht hs
    obtain ht | hw := ha.backlog.arrived _ ht
    · obtain hw | hres := h.resolved access ht hs
      · exact Or.inl (ha.backlog.awaits _ hw)
      · exact Or.inr (hres.advances (h.examined access ht) ha hd.completions)
    · exact Or.inl hw

/-- A change after which no more is admitted. -/
theorem Completed.shrink {served : EntityId → Prop} {r r' : Run}
    (h : S.Completed served r) (hd : r'.docket = r.docket)
    (ha : ∀ x ∈ r'.verdicts.admitted, x ∈ r.verdicts.admitted) :
  S.Completed served r'
  := by
  obtain ⟨he, hl, hc⟩ : r'.verdicts.examined = r.verdicts.examined
      ∧ r'.verdicts.backlog.completions = r.verdicts.backlog.completions
      ∧ r'.verdicts.completions = r.verdicts.completions := by simpa [Run.docket] using hd
  constructor
  · rw [hc]
    exact h.designated
  · rw [he]
    simp only [Backlog.takes, hl]
    exact h.examined
  · simp only [Resolved, Backlog.takes, Backlog.Awaits, hl, hc]
    intro access ht hs
    refine (h.resolved access ht hs).imp id fun hres => hres.imp_left ?_
    exact fun hn hx => hn (ha access hx)

/-- The completion that is served waits no more. -/
theorem Completed.take {r : Run} {t : Task} {b : Backlog} (h : S.Completed (fun _ => False) r)
    (hn : r.verdicts.backlog.next? = some (t, b)) :
  S.Completed (fun access => t = .completion access) (r.take t b)
  := by
  constructor
  · exact h.designated
  · intro access ht
    exact h.examined access ((Backlog.takes_of_next? hn _).symm.trans ht)
  · intro access ht hs
    have ht' := (Backlog.takes_of_next? hn _).symm.trans ht
    obtain hw | hres := h.resolved access ht' not_false
    · exact Or.inl ((Backlog.awaits_of_next? hn hw).resolve_left hs)
    · exact Or.inr hres

/-- What was served is done with. -/
theorem Completed.served {served : EntityId → Prop} {r : Run} (h : S.Completed served r)
    (hs : ∀ access, served access → S.Resolved r access) :
  S.Completed (fun _ => False) r
  := by
  refine ⟨h.designated, h.examined, fun access ht _ => ?_⟩
  by_cases ha : served access
  · exact Or.inr (hs access ha)
  · exact h.resolved access ht ha

/-- Steps that no verdict is about. -/
theorem Completed.walk {served : EntityId → Prop} {scope : Scope} {path : List Step}
    {i : Inquiry Unit} {bs : List (EntityId × List Node)} {r r' : Run} {cause : Option Site}
    (h : S.Completed served r) (hr : r.Coherent)
    (hm : ∀ m, scope.matter = some m → m.isRevocable = false)
    (hi : S.Regular {} (fun _ => False) bs i) (l : i.Leads path ())
    (p : S.Passes (.steps scope path) { r with cause } r') :
  S.Completed served r'
  := by
  have hs := r.same_cause cause
  have hc : S.Completed served { r with cause } := h.shrink rfl fun _ => id
  exact hc.passes (hs.coherent hr) (under_of_not_isRevocable hm _) p (hi.proper l _)
    (hi.owns rfl l _ _)

/-- The decision of an entity on behalf of a task. -/
theorem Completed.decision {r r' : Run} {t : Task} {b : Backlog} {id : EntityId}
    (h : S.Completed (fun _ => False) r) (hr : S.Settled r)
    (hn : r.verdicts.backlog.next? = some (t, b))
    (d : S.Passes (.decision id) (r.take t b) r') :
  S.Completed (fun access => t = .completion access) r'
  := (h.take hn).passes (hr.take hn).coherent (by simp [Run.Under, Course.matter]) d trivial
    trivial

/-- The completion that was served is recorded. -/
theorem Completed.complete {r : Run} {access type : EntityId}
    (h : S.Completed (fun access' => Task.completion access = .completion access') r)
    (hd : S.designated access = .ok type) :
  S.Completed (fun _ => False) (r.complete type access)
  := by
  have mem (id : EntityId) : (r.complete type access).verdicts.completions[id]?
      = if type = id then some access else r.verdicts.completions[id]? := by
    simp [Run.complete, Run.rule, Std.TreeMap.getElem?_insert]
  constructor
  case designated =>
    intro id access' hid
    rw [mem] at hid
    split at hid
    · next he =>
      obtain rfl := Option.some.inj hid
      exact he ▸ hd
    · exact h.designated id access' hid
  case examined => exact h.examined
  case resolved =>
    intro access' ht _
    by_cases he : access' = access
    · obtain rfl := he
      exact Or.inr (Or.inr ⟨type, access', hd, by rw [mem, if_pos rfl]⟩)
    · obtain hw | hx | ⟨id, access'', hd', hid⟩ :=
        h.resolved access' ht fun h => he (Task.completion.inj h).symm
      · exact Or.inl hw
      · exact Or.inr (Or.inl hx)
      · refine Or.inr (Or.inr ⟨id, if type = id then access else access'', hd', ?_⟩)
        rw [mem, hid]
        split <;> rfl

theorem completed_of_stage {ns : List Node} {r r' : Run} (h : S.Stage ns r r')
    (hr : S.Settled r) (hc : S.Completed (fun _ => False) r) :
  S.Completed (fun _ => False) r'
  := by
  cases h with
  | @context n path r r₁ l p =>
    have h₁ := hc.walk hr.coherent (by simp) (regular_contextItem n) l p
    exact h₁.shrink rfl fun _ => id
  | @unit n path r r' l p => exact hc.walk hr.coherent (by simp) (regular_outside n) l p
  | declaration hn d => exact (hc.decision hr hn d).served (by simp)
  | aspectsOff hn => exact (hc.take hn).served (by simp)
  | @aspects type anchor backlog e t mode attribution path r r₁ hn he ht hm ho l p =>
    have h₁ := (hc.take hn).walk (hr.take hn).coherent (by rintro _ ⟨⟩; rfl)
      (regular_aspectsInquiry t) l p
    have hd : ({ r₁.concludeAspects type with cause := r.cause } : Run).docket = r₁.docket := by
      unfold Run.concludeAspects
      split <;> rfl
    have ha : ∀ x ∈ (r₁.concludeAspects type).verdicts.admitted, x ∈ r₁.verdicts.admitted := by
      unfold Run.concludeAspects
      split <;> exact fun _ => id
    exact (h₁.shrink hd ha).served (by simp)
  | @completionVoid access backlog r hn ha =>
    apply (hc.take hn).served
    rintro access ⟨⟩
    left
    exact fun hx => absurd (Run.admits_iff.2 hx) (Bool.eq_false_iff.1 ha)
  | @completion access type backlog r r₁ hn hd ha d ht =>
    exact (hc.decision hr hn d).complete hd
  | @completionFailed access type backlog cause r r₁ hn hd ha d ht hcause =>
    have h₁ := hc.decision hr hn d
    obtain ⟨he, ha⟩ | ⟨-, hx⟩ := r₁.excises_takeBack S.program access type cause
    · rw [he]
      apply h₁.served
      rintro access ⟨⟩
      exact Or.inl ha
    · apply (h₁.shrink hx.strikes.docket fun _ => hx.strikes.admitted).served
      rintro access ⟨⟩
      exact Or.inl hx.strikes.gone

theorem completed_of_proceeds {ns : List Node} {r r' : Run} (h : S.Proceeds ns r r')
    (hr : S.Settled r) (hc : S.Completed (fun _ => False) r) :
  S.Completed (fun _ => False) r'
  := by
  induction h with
  | nil => exact hc
  | cons h _ ih =>
    exact ih (settled_of_moves (moves_of_stage h) hr) (completed_of_stage h hr hc)

theorem completed_empty :
  S.Completed (fun _ => False) {}
  := by
  constructor <;> simp [Backlog.takes, Lane.takes]

/-! ### What is recorded -/

/-- Apart from passages, only a completion records anything: an access type that is admitted
before and the type that is admitted after the decision. -/
theorem recorded_of_stage {ns : List Node} {r r' : Run} (h : S.Stage ns r r')
    {id access : EntityId} (hc : r'.verdicts.completions[id]? = some access) :
  r.verdicts.completions[id]? = some access
    ∨ access ∈ r.verdicts.admitted ∧ id ∈ r'.verdicts.admitted
  := by
  cases h with
  | @context n path r r₁ l p =>
    have hd := defers_walk (regular_contextItem n) l p
    left
    rwa [← hd.completions]
  | @unit n path r r' l p =>
    have hd := defers_walk (regular_outside n) l p
    left
    rwa [← hd.completions]
  | declaration hn d =>
    have hd := defers_of_passes d trivial trivial
    left
    rwa [hd.completions] at hc
  | aspectsOff hn => exact Or.inl hc
  | @aspects type anchor backlog e t mode attribution path r r₁ hn he ht hm ho l p =>
    have hd := defers_walk (regular_aspectsInquiry t) l p
    have hs : (r₁.concludeAspects type).verdicts.completions = r₁.verdicts.completions := by
      unfold Run.concludeAspects
      split <;> rfl
    left
    simp only [hs, hd.completions] at hc
    exact hc
  | completionVoid hn ha => exact Or.inl hc
  | @completion access' type backlog r r₁ hn hd ha d ht =>
    have hs := defers_of_passes d trivial trivial
    by_cases he : id = type
    · right
      obtain rfl := he
      have hi : (r₁.complete id access').verdicts.completions[id]? = some access' := by
        simp [Run.complete, Run.rule]
      obtain rfl := Option.some.inj (hi.symm.trans hc)
      exact ⟨Run.admits_iff.1 ha, Run.admits_iff.1 ht⟩
    · left
      have hi : (r₁.complete type access').verdicts.completions[id]?
          = r₁.verdicts.completions[id]? := getElem?_insert_of_ne he
      rw [hi, hs.completions] at hc
      exact hc
  | @completionFailed access' type backlog cause r r₁ hn hd ha d ht hcause =>
    have hs := defers_of_passes d trivial trivial
    left
    obtain ⟨he, -⟩ | ⟨-, hx⟩ := r₁.excises_takeBack S.program access' type cause
    · rw [he, hs.completions] at hc
      exact hc
    · have hd := Run.defers_of_docket hx.strikes.docket
      rw [hd.completions, hs.completions] at hc
      exact hc

/-- An entity is admitted at one of the stages from a run to another one. -/
def Admits (S : Setting) (ns : List Node) (r r' : Run) (id : EntityId) : Prop :=
  ∃ ms ms' r₁, ns = ms ++ ms' ∧ S.Proceeds ms r r₁ ∧ S.Proceeds ms' r₁ r'
    ∧ id ∈ r₁.verdicts.admitted

/-- An entity was admitted at a stage of a run over the program and is excluded in the end. -/
def Withdraws (S : Setting) (r : Run) (id : EntityId) : Prop :=
  ∃ r₁, r = (r₁.rule fun v => { v with roster := v.roster.close })
    ∧ S.Admits (S.program.units.map Node.content) {} r₁ id ∧ id ∉ r.verdicts.admitted

theorem Admits.cons {ns ms : List Node} {r r₁ r' : Run} {id : EntityId} (h : S.Stage ns r r₁)
    (ha : S.Admits ms r₁ r' id) :
  S.Admits (ns ++ ms) r r' id
  := by
  obtain ⟨ms₁, ms₂, r₂, rfl, hp, hp', hx⟩ := ha
  exact ⟨ns ++ ms₁, ms₂, r₂, (List.append_assoc _ _ _).symm, .cons h hp, hp', hx⟩

/-- Whatever is recorded was admitted at a stage. -/
theorem recorded_of_proceeds {ns : List Node} {r r' : Run} (h : S.Proceeds ns r r')
    {id access : EntityId} (hc : r'.verdicts.completions[id]? = some access) :
  r.verdicts.completions[id]? = some access
    ∨ S.Admits ns r r' access ∧ S.Admits ns r r' id
  := by
  induction h with
  | nil => exact Or.inl hc
  | cons h p ih =>
    obtain hc | ⟨ha, hi⟩ := ih hc
    · obtain hc | ⟨ha, hi⟩ := recorded_of_stage h hc
      · exact Or.inl hc
      · right
        constructor
        · exact ⟨[], _, _, rfl, .nil, .cons h p, ha⟩
        · exact ⟨_, _, _, rfl, h.proceeds, p, hi⟩
    · exact Or.inr ⟨.cons h ha, .cons h hi⟩

/-- Admitted access types designate admitted types, and recorded completions are of admitted
access types by the admitted types that they designate, if and only if no recorded completion
is withdrawn on either side at a later stage. -/
theorem designated_admitted_iff {r : Run} (h : S.wholeProgram {} = .ok () r) :
  ((∀ access id, access ∈ r.verdicts.admitted → S.designated access = .ok id →
        id ∈ r.verdicts.admitted)
      ∧ ∀ id access, r.verdicts.completions[id]? = some access →
        S.designated access = .ok id ∧ id ∈ r.verdicts.admitted
          ∧ access ∈ r.verdicts.admitted)
    ↔ ∀ id access, r.verdicts.completions[id]? = some access →
      ¬ S.Withdraws r id ∧ ¬ S.Withdraws r access
  := by
  constructor
  · rintro ⟨-, hp⟩ id access hc
    obtain ⟨-, hi, ha⟩ := hp id access hc
    exact ⟨fun ⟨_, _, _, hx⟩ => hx hi, fun ⟨_, _, _, hx⟩ => hx ha⟩
  · intro hw
    obtain ⟨r₁, hp, hn, rfl⟩ := proceeds_wholeProgram h
    have hr := completed_of_proceeds hp settled_empty completed_empty
    have kept (id access : EntityId) (hc : r₁.verdicts.completions[id]? = some access) :
        S.designated access = .ok id ∧ id ∈ r₁.verdicts.admitted
          ∧ access ∈ r₁.verdicts.admitted := by
      obtain ⟨hi, ha⟩ := hw id access hc
      obtain hc' | ⟨ha', hi'⟩ := recorded_of_proceeds hp hc
      · simp at hc'
      · refine ⟨hr.designated id access hc, ?_, ?_⟩
        · exact by_contra fun hx => hi ⟨r₁, rfl, hi', hx⟩
        · exact by_contra fun hx => ha ⟨r₁, rfl, ha', hx⟩
    refine ⟨fun access id ha hd => ?_, kept⟩
    obtain ⟨e, t, a, he, hk, hdef, rfl⟩ := designated_eq_ok.1 hd
    obtain rfl := S.program.name_eq_of_entity he
    obtain hx | ht := admitted_of_designated h he ha hk hdef
    · exact hx
    · obtain hw | hx | ⟨id, access', hd', hc⟩ := hr.resolved _ ht not_false
      · exact (Backlog.not_awaits_of_next? hn _ hw).elim
      · exact (hx ha).elim
      · obtain rfl := Except.ok.inj (hd.symm.trans hd')
        exact (kept _ _ hc).2.1

/-! ### A chain of access types -/

/-- Two access types: the full view of what the first one designates is the second one. -/
def chainEntities (full : Option EntityId) : List Entity :=
  [{ name := "A1", kind := .type { definition := .access { designated := "I1" } } },
    { name := "I1", kind := .type { definition := .incomplete (some "A2") } },
    { name := "A2", kind := .type { definition := .access { designated := "I2" } } },
    { name := "I2", kind := .type { definition := .incomplete full } },
    { name := "T", kind := .type { definition := .signed 0 9 } }]

/-- A chain whose last type has a full view. -/
def chainSample : Setting :=
  (ofParts? (chainEntities (some "T")) [.plain (.declaration .type "A1")]).get
    (by decide +kernel)

/-- A chain whose last type has none. -/
def brokenChainSample : Setting :=
  (ofParts? (chainEntities none) [.plain (.declaration .type "A1")]).get
    (by decide +kernel)

theorem designated_admitted_iff_chainSample :
  let r := (chainSample.wholeProgram.after {}).2
  chainSample.wholeProgram {} = .ok () r
    ∧ (∀ access id, access ∈ r.verdicts.admitted → chainSample.designated access = .ok id →
      id ∈ r.verdicts.admitted)
    ∧ r.verdicts.completions["I1"]? = some "A1" ∧ chainSample.designated "A1" = .ok "I1"
  := by
  have h : chainSample.wholeProgram {} = .ok () (chainSample.wholeProgram.after {}).2 :=
    Act.eq_ok_of_after (by decide +kernel)
  have hc : (chainSample.wholeProgram.after {}).2.verdicts.completions.toList
      = [("I1", "A1"), ("I2", "A2")] := by decide +kernel
  have h₁ : "I1" ∈ (chainSample.wholeProgram.after {}).2.verdicts.admitted := by
    decide +kernel
  have h₂ : "A1" ∈ (chainSample.wholeProgram.after {}).2.verdicts.admitted := by
    decide +kernel
  have h₃ : "I2" ∈ (chainSample.wholeProgram.after {}).2.verdicts.admitted := by
    decide +kernel
  have h₄ : "A2" ∈ (chainSample.wholeProgram.after {}).2.verdicts.admitted := by
    decide +kernel
  obtain ⟨hall, hpairs⟩ := (designated_admitted_iff h).2 (by
    intro id access hid
    rw [← Std.TreeMap.mem_toList_iff_getElem?_eq_some, hc] at hid
    simp only [List.mem_cons, List.not_mem_nil, Prod.mk.injEq, or_false] at hid
    obtain ⟨rfl, rfl⟩ | ⟨rfl, rfl⟩ := hid
    · exact ⟨fun ⟨_, _, _, hx⟩ => hx h₁, fun ⟨_, _, _, hx⟩ => hx h₂⟩
    · exact ⟨fun ⟨_, _, _, hx⟩ => hx h₃, fun ⟨_, _, _, hx⟩ => hx h₄⟩)
  have hk : (chainSample.wholeProgram.after {}).2.verdicts.completions["I1"]? = some "A1" := by
    decide +kernel
  exact ⟨h, hall, hk, (hpairs _ _ hk).1⟩

/-- The first access type stays admitted and recorded, although what it designates is
excluded. -/
theorem designated_excluded_brokenChainSample :
  let r := (brokenChainSample.wholeProgram.after {}).2
  brokenChainSample.wholeProgram {} = .ok () r
    ∧ "A1" ∈ r.verdicts.admitted ∧ brokenChainSample.designated "A1" = .ok "I1"
    ∧ "I1" ∉ r.verdicts.admitted ∧ r.verdicts.completions["I1"]? = some "A1"
  := by
  refine ⟨Act.eq_ok_of_after (by decide +kernel), ?_, rfl, ?_, ?_⟩ <;> decide +kernel

end Setting

end Conformance
