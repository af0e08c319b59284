import Conformance.Proofs.Completion
import Conformance.Proofs.Ledger

/-!
# Obligations of a run

What cannot be decided along with an entity is postponed: the entities that follow it, the
conditions on the values of a type, and the completion of an access type whose designated type
is incomplete.  `Run.Incurs` says which tasks become due on a passage, and
`Setting.Accounted` is the invariant of the stages of a run: what is due was taken by the
backlog, and the ledger is balanced.

`obligations_discharged` says that nothing is due any more when a unit is done with.
-/

namespace Conformance

/-- An act that succeeds for all elements of a list succeeds for those of a prefix. -/
theorem Act.forM_of_append {α : Type} {act : α → Act Unit} {as bs : List α} {r r' : Run} {u : Unit}
    (h : (as ++ bs).forM act r = .ok u r') :
  ∃ r₁, as.forM act r = .ok () r₁
  := by
  induction as generalizing r with
  | nil => exact ⟨r, rfl⟩
  | cons a as ih =>
    obtain ⟨_, r₁, ha, h⟩ := Act.bind_eq_ok.1 h
    obtain ⟨r₂, h⟩ := ih h
    exact ⟨r₂, Act.bind_eq_ok.2 ⟨_, r₁, ha, h⟩⟩

/-- An entity is to be decided once another one is granted: the primitives of a tagged type,
the entries of a task type, the operations of a protected type, and the companions of a
subprogram. -/
inductive Entity.Follows (e : Entity) (id : EntityId) : Prop
  | primitive {t : TypeFacet} (hk : e.kind = .type t) (ht : t.definition.isTagged)
      (h : id ∈ t.primitives)
  | entry {t : TypeFacet} {discriminants entries : List EntityId} (hk : e.kind = .type t)
      (hd : t.definition = .task discriminants entries) (h : id ∈ entries)
  | operation {t : TypeFacet} {discriminants components operations : List EntityId}
      (hk : e.kind = .type t)
      (hd : t.definition = .protectedUnit discriminants components operations)
      (h : id ∈ operations)
  | companion {s : SubprogramFacet} (hk : e.kind = .subprogram s) (h : id ∈ s.companions)

theorem Entity.Follows.mem_followers {e : Entity} {id : EntityId} (h : e.Follows id) :
  id ∈ e.followers
  := by
  cases h with
  | primitive hk ht h => simp [followers, hk, ht, h]
  | entry hk hd h | operation hk hd h => simp [followers, hk, hd, h]
  | companion hk h => simp [followers, hk, h]

namespace Setting

variable (S : Setting)

/-- What a run has to serve because of an entity: whatever follows the entity while it is
admitted, and the conditions on the values of a type that is analysed. -/
inductive Due (r : Run) (e : Entity) : Task → Prop
  | declaration {id : EntityId} (he : S.program.entity e.name = .ok e)
      (ha : e.name ∈ r.verdicts.admitted) (hf : e.Follows id) : Due r e (.declaration id)
  | aspects {t : TypeFacet} (he : S.program.entity e.name = .ok e)
      (hx : e.name ∈ r.verdicts.examined) (ho : S.isOff e.name = .ok false)
      (hk : e.kind = .type t) (ht : t.invariant.isSome || t.initialCondition.isSome) :
    Due r e (.aspects e.name none)

variable {S}

theorem Due.mono {r r' : Run} {e : Entity} {t : Task} (h : S.Due r e t)
    (ha : e.name ∈ r.verdicts.admitted → e.name ∈ r'.verdicts.admitted)
    (hx : e.name ∈ r.verdicts.examined → e.name ∈ r'.verdicts.examined) :
  S.Due r' e t
  := by
  cases h with
  | declaration he hm hf => exact .declaration he (ha hm) hf
  | aspects he hm ho hk ht => exact .aspects he (hx hm) ho hk ht

end Setting

/-! ### What becomes due on a passage -/

namespace Run

/-- On a passage no task is served, what becomes due is taken by the backlog, and the ledger
stays balanced. -/
structure Incurs (S : Setting) (r r' : Run) : Prop where
  services : r'.services = r.services
  examined : ∀ x ∈ r.verdicts.examined, x ∈ r'.verdicts.examined
  taken : ∀ t, r.verdicts.backlog.takes t = false → r'.verdicts.backlog.takes t = false
  due : ∀ e t, S.Due r' e t → S.Due r e t ∨ r'.verdicts.backlog.takes t = false
  balanced : r.Balanced → r'.Balanced

variable {S : Setting} {r r₁ r' : Run}

theorem Incurs.trans (h : r.Incurs S r₁) (h' : r₁.Incurs S r') :
  r.Incurs S r'
  where
    services := h'.services.trans h.services
    examined x hx := h'.examined x (h.examined x hx)
    taken t ht := h'.taken t (h.taken t ht)
    due e t ht := by
      obtain ht | ht := h'.due e t ht
      · exact (h.due e t ht).imp_right (h'.taken t)
      · exact Or.inr ht
    balanced hb := h'.balanced (h.balanced hb)

/-- A change that leaves the ledger alone, after which no more is admitted. -/
theorem incurs_of_agenda (h : r'.agenda = r.agenda)
    (ha : ∀ x ∈ r'.verdicts.admitted, x ∈ r.verdicts.admitted) :
  r.Incurs S r'
  := by
  obtain ⟨hx, hb, hs⟩ := agenda_eq_iff.1 h
  constructor
  case services => exact hs
  case examined => exact fun x hm => hx ▸ hm
  case taken => exact fun t ht => hb ▸ ht
  case due => exact fun e t ht => Or.inl (ht.mono (ha _) fun hm => hx ▸ hm)
  case balanced => exact fun hr => hr.of_agenda h

theorem Incurs.same (h : r.Incurs S r₁) (ha : r'.agenda = r₁.agenda)
    (hv : r'.verdicts.admitted = r₁.verdicts.admitted) :
  r.Incurs S r'
  := h.trans (incurs_of_agenda ha fun _ hx => hv ▸ hx)

theorem incurs_postpone (r : Run) (t : Task) :
  r.Incurs S (r.rule fun v => { v with backlog := v.backlog.push t })
  where
    services := rfl
    examined _ hx := hx
    taken := (r.verdicts.backlog.grows_push t).taken
    due _ _ ht := Or.inl (ht.mono id id)
    balanced hb := hb.postpone t

theorem incurs_follow (r : Run) (ids : List EntityId) :
  r.Incurs S (r.follow ids) ∧ ∀ id ∈ ids,
    (r.follow ids).verdicts.backlog.takes (.declaration id) = false
  := by
  induction ids generalizing r with
  | nil => exact ⟨incurs_of_agenda rfl fun _ => id, by simp⟩
  | cons id ids ih =>
    have hp := r.incurs_postpone (S := S) (.declaration id)
    obtain ⟨hi, hids⟩ := ih (r.rule fun v => { v with backlog := v.backlog.push (.declaration id) })
    refine ⟨hp.trans hi, fun x hx => ?_⟩
    obtain rfl | hx := List.mem_cons.1 hx
    · exact hi.taken _ (r.verdicts.backlog.not_takes_push (.declaration x))
    · exact hids x hx

theorem incurs_rest (r : Run) (scope : Scope) (id : EntityId) (site : Site) :
  r.Incurs S (r.rest scope id site)
  := by
  obtain ⟨dependents, cause, reports, h⟩ := r.exists_rest scope id site
  rw [h]
  exact incurs_of_agenda rfl fun _ hx => hx

theorem incurs_start (r : Run) (scope : Scope) (m : Matter) :
  r.Incurs S (r.start scope m)
  := by
  obtain ⟨reporting, h⟩ := r.exists_start scope m
  rw [h]
  exact incurs_of_agenda rfl fun _ => id

theorem incurs_inheritCause (r : Run) (e : Entity) :
  r.Incurs S (r.inheritCause e)
  := by
  obtain ⟨bodyCauses, h⟩ := r.exists_inheritCause e
  rw [h]
  exact incurs_of_agenda rfl fun _ => id

theorem incurs_concludeBody (r : Run) (e : Entity) (cause : Option Site) :
  r.Incurs S { r.concludeBody e with cause }
  := by
  unfold concludeBody
  split <;> exact incurs_of_agenda rfl fun _ => id

theorem Strikes.incurs {id : EntityId} (h : r.Strikes id r') (cause : Option Site) :
  r.Incurs S { r' with cause }
  := incurs_of_agenda h.agenda fun _ hx => h.admitted hx

end Run

namespace Setting

variable {S : Setting}

/-- The aspects that the steps on a course postpone are taken by the backlog. -/
def Course.Postpones (r : Run) : Course → Prop
  | .decision _ => True
  | .steps _ path => ∀ type, .postponeAspects type ∈ path →
    r.verdicts.backlog.takes (.aspects type none) = false

/-- A step that postpones no aspects. -/
theorem Course.Postpones.cons {r : Run} {scope : Scope} {s : Step} {path : List Step}
    (h : Course.Postpones r (.steps scope path)) (hs : ∀ type, s ≠ .postponeAspects type) :
  Course.Postpones r (.steps scope (s :: path))
  := fun type ht => h type ((List.mem_cons.1 ht).resolve_left (hs type).symm)

theorem incurs_plain {scope : Scope} {s : Step} {r r' : Run} (h : S.Plain scope s r r') :
  r.Incurs S r' ∧ ∀ type, s = .postponeAspects type →
    r'.verdicts.backlog.takes (.aspects type none) = false
  := by
  cases h with
  | visit | ask | look | hideView | placeInLoop =>
    exact ⟨Run.incurs_of_agenda rfl fun _ => id, by simp⟩
  | find =>
    refine ⟨Run.incurs_of_agenda (Run.agenda_find _ _ _ _) ?_, by simp⟩
    rw [(Run.same_find _ _ _ _).admitted]
    exact fun _ => id
  | relax h =>
    obtain ⟨relaxed, rfl⟩ := S.relax_eq_ok h
    exact ⟨Run.incurs_of_agenda rfl fun _ => id, by simp⟩
  | postponeCompletion => exact ⟨Run.incurs_postpone _ _, by simp⟩
  | @postponeAspects r type =>
    refine ⟨Run.incurs_postpone _ _, ?_⟩
    rintro _ ⟨⟩
    exact r.verdicts.backlog.not_takes_push (.aspects type scope.anchor)

/-- The inquiry into a type postpones its aspects if it has any. -/
theorem postponeAspects_mem {e : Entity} {t : TypeFacet} {path : List Step} (hk : e.kind = .type t)
    (ht : t.invariant.isSome || t.initialCondition.isSome)
    (l : (S.entityInquiry e).Leads path ()) :
  .postponeAspects e.name ∈ path
  := by
  simp only [entityInquiry, hk, typeInquiry, ht, if_true] at l
  obtain ⟨p, q, _, rfl, -, l⟩ := Inquiry.leads_bind_iff.1 l
  obtain ⟨p', q', _, rfl, l, -⟩ := Inquiry.leads_bind_iff.1 l
  cases l with
  | step s l =>
    cases s
    simp

/-- The inquiry into an entity takes on what is due because of the entity. -/
theorem incurs_decision {e : Entity} {mode : Option Mode × Option EntityId} {path : List Step}
    {r r₁ r' : Run} (o : S.Opens e mode r) (l : (S.entityInquiry e).Leads path ())
    (h₁ : (r.open e mode).Incurs S r₁)
    (hp : Course.Postpones r₁ (.steps (e.declarationScope mode) path)) (h : r₁.Incurs S r')
    (hf : e.name ∈ r'.verdicts.admitted → ∀ id ∈ e.followers,
      r'.verdicts.backlog.takes (.declaration id) = false) :
  r.Incurs S r'
  := by
  have hopen := (r.examine e.name).incurs_start (S := S) (e.declarationScope mode)
    (.declaration e.name)
  have hi := h₁.trans h
  constructor
  case services => exact hi.services.trans hopen.services
  case examined => exact fun x hx => hi.examined x (hopen.examined x (mem_insert_iff.2 (Or.inr hx)))
  case taken => exact fun t ht => hi.taken t (hopen.taken t ht)
  case due =>
    intro e' t ht
    by_cases hn : e'.name = e.name
    · right
      cases ht with
      | declaration he ha hid =>
        obtain rfl : e' = e := Except.ok.inj (he.symm.trans (hn ▸ o.entity))
        exact hf ha _ hid.mem_followers
      | aspects he hx ho hk ht =>
        obtain rfl : e' = e := Except.ok.inj (he.symm.trans (hn ▸ o.entity))
        exact h.taken _ (hp _ (postponeAspects_mem hk ht l))
    · refine (hi.due e' t ht).imp_left fun ht => ?_
      obtain ⟨reporting, hv⟩ := r.verdicts_open e mode
      refine ht.mono (fun hm => ?_) fun hm => ?_ <;> rw [hv] at hm
      · exact (mem_insert_iff.1 hm).resolve_left hn
      · exact (mem_insert_iff.1 hm).resolve_left hn
  case balanced => exact fun hb => hi.balanced ((hopen.balanced (hb.same rfl rfl)).same rfl rfl)

theorem incurs_publish {e : Entity} {r r' : Run} (h : S.publish e r = .ok () r') :
  r.Incurs S r'
  := by
  obtain ⟨roster, rfl⟩ := S.publish_eq_ok h
  exact Run.incurs_of_agenda rfl fun _ => id

/-- What becomes due on a passage, and the aspects that are postponed on it. -/
theorem incurs_of_passes {c : Course} {r r' : Run} (h : S.Passes c r r') :
  r.Incurs S r' ∧ Course.Postpones r' c
  := by
  induction h with
  | nil => exact ⟨Run.incurs_of_agenda rfl fun _ => id, by simp [Course.Postpones]⟩
  | @plain scope s path r r₁ r' h _ ih =>
    obtain ⟨hi, hs⟩ := incurs_plain h
    refine ⟨hi.trans ih.1, fun type ht => ?_⟩
    obtain ht | ht := List.mem_cons.1 ht
    · exact ih.1.taken _ (hs type ht.symm)
    · exact ih.2 type ht
  | decide _ _ ihd ih | declare _ _ _ ihd ih | bodyOff _ _ _ _ ihd ih =>
    exact ⟨ihd.1.trans ih.1, ih.2.cons (by simp)⟩
  | consult _ _ ihd ih =>
    exact ⟨(ihd.1.trans (Run.incurs_rest _ _ _ _)).trans ih.1, ih.2.cons (by simp)⟩
  | declareResting _ _ _ _ ihd ih =>
    refine ⟨ihd.1.trans ih.1, Course.Postpones.cons (fun type ht => ?_) (by simp)⟩
    exact ih.2 type (List.mem_cons_of_mem _ ht)
  | bodyExcluded _ _ _ ihd ih =>
    exact ⟨(ihd.1.trans (Run.incurs_inheritCause _ _)).trans ih.1, ih.2.cons (by simp)⟩
  | @body scope e mode inner mode' path innerPath r r₁ r₂ r' _ _ _ _ _ _ _ ihd ihw ih =>
    have hs := r₁.incurs_start (S := S) (e.bodyScope mode') (.body e.name)
    have hb := (hs.trans ihw.1).trans (r₂.incurs_concludeBody e r₁.cause)
    exact ⟨(ihd.1.trans hb).trans ih.1, ih.2.cons (by simp)⟩
  | known => exact ⟨Run.incurs_of_agenda rfl fun _ => id, trivial⟩
  | @off e anchor r he _ hm =>
    refine ⟨⟨rfl, fun x hx => mem_insert_iff.2 (Or.inr hx), fun _ => id, ?_, ?_⟩, trivial⟩
    · intro e' t ht
      left
      cases ht with
      | declaration he ha hf => exact .declaration he ha hf
      | aspects he hx ho hk ht =>
        refine .aspects he ((mem_insert_iff.1 hx).resolve_left fun hn => ?_) ho hk ht
        simp [isOff, hn, hm] at ho
    · exact fun hb => hb.same rfl rfl
  | @reject e mode path r r₁ o l _ _ ih =>
    have hx := r₁.strikes_exclude S.program e
    refine ⟨incurs_decision o l ih.1 ih.2 (hx.incurs r.cause) fun ha => ?_, trivial⟩
    exact (hx.gone ha).elim
  | @revoke e mode path path' r r₁ r₂ r₃ o l _ _ _ hp _ _ _ ih ih' =>
    have hx := r₃.strikes_exclude S.program e
    have h := ((incurs_publish hp).trans ih'.1).trans (hx.incurs r.cause)
    refine ⟨incurs_decision o l ih.1 ih.2 h fun ha => ?_, trivial⟩
    exact (hx.gone ha).elim
  | @grant e mode path path' r r₁ r₂ r₃ o l _ _ _ hp _ _ _ ih ih' =>
    obtain ⟨hi, hf⟩ := r₃.incurs_follow (S := S) e.followers
    have h := ((incurs_publish hp).trans ih'.1).trans hi
    have h' : r₁.Incurs S { r₃.follow e.followers with cause := r.cause } := h.same rfl rfl
    exact ⟨incurs_decision o l ih.1 ih.2 h' fun _ => hf, trivial⟩

/-! ### What is due between stages -/

/-- The ledger is balanced, what is due was taken by the backlog, and the declarations that were
served are examined, apart from the given ones. -/
structure Accounted (S : Setting) (served : EntityId → Prop) (r : Run) : Prop where
  balanced : r.Balanced
  due : ∀ e t, S.Due r e t → r.verdicts.backlog.takes t = false
  examined : ∀ id, .declaration id ∈ r.services → id ∈ r.verdicts.examined ∨ served id

theorem accounted_empty :
  S.Accounted (fun _ => False) {}
  := by
  refine ⟨Run.balanced_empty, fun e t ht => ?_, by simp [Run.services]⟩
  cases ht with
  | declaration _ ha => simp at ha
  | aspects _ hx => simp at hx

variable {served : EntityId → Prop}

theorem Accounted.incurs {r r' : Run} (h : S.Accounted served r) (hi : r.Incurs S r') :
  S.Accounted served r'
  where
    balanced := hi.balanced h.balanced
    due e t ht := by
      obtain ht | ht := hi.due e t ht
      · exact hi.taken t (h.due e t ht)
      · exact ht
    examined id hid := (h.examined id (hi.services ▸ hid)).imp_left (hi.examined id)

theorem Accounted.passes {c : Course} {r r' : Run} (h : S.Accounted served r)
    (p : S.Passes c r r') :
  S.Accounted served r'
  := h.incurs (incurs_of_passes p).1

theorem Accounted.withCause {r : Run} (h : S.Accounted served r) (cause : Option Site) :
  S.Accounted served { r with cause }
  := h.incurs (Run.incurs_of_agenda rfl fun _ => id)

/-- The task that is served next is entered into the ledger. -/
theorem Accounted.take {r : Run} {t : Task} {b : Backlog} (h : S.Accounted (fun _ => False) r)
    (hn : r.verdicts.backlog.next? = some (t, b)) :
  S.Accounted (fun id => t = .declaration id) (r.take t b)
  where
    balanced := h.balanced.serve hn
    due e t' ht := (Backlog.takes_of_next? hn t').trans (h.due e t' (ht.mono id id))
    examined id hid := by
      obtain hid | hid := List.mem_cons.1 hid
      · exact Or.inr hid.symm
      · exact Or.inl ((h.examined id hid).resolve_right not_false)

theorem Accounted.settle {r : Run} (h : S.Accounted served r)
    (hs : ∀ id, served id → id ∈ r.verdicts.examined) :
  S.Accounted (fun _ => False) r
  := ⟨h.balanced, h.due, fun id hid => Or.inl ((h.examined id hid).elim (fun h => h) (hs id))⟩

theorem accounted_of_stage {ns : List Node} {r r' : Run} (h : S.Stage ns r r')
    (hr : r.Coherent) (ha : S.Accounted (fun _ => False) r) :
  S.Accounted (fun _ => False) r'
  := by
  cases h with
  | context l p => exact ((ha.withCause none).passes p).withCause r.cause
  | unit l p => exact ha.passes p
  | @declaration id backlog r r' hn d =>
    have hc : (r.take (.declaration id) backlog).Coherent := hr.take _ _
    obtain ⟨new, -, -, hx⟩ := orderly_of_passes d hc (under_decision _ _)
    apply ((ha.take hn).passes d).settle
    rintro x ⟨⟩
    exact hx _ rfl
  | aspectsOff hn => exact (ha.take hn).settle (by simp)
  | @aspects type anchor backlog e t mode attribution path r r₁ hn he ht hm ho l p =>
    have h₁ := ((ha.take hn).withCause none).passes p
    apply Accounted.settle (h₁.incurs _) (by simp)
    unfold Run.concludeAspects
    split <;> exact Run.incurs_of_agenda rfl fun _ => id
  | completionVoid hn _ => exact (ha.take hn).settle (by simp)
  | @completion access type backlog r r₁ hn _ _ d _ =>
    have h₁ := (ha.take hn).passes d
    have hi : r₁.Incurs S (r₁.complete type access) := Run.incurs_of_agenda rfl fun _ hx => hx
    exact (h₁.incurs hi).settle (by simp)
  | @completionFailed access type backlog cause r r₁ hn _ _ d _ _ =>
    have h₁ := (ha.take hn).passes d
    obtain ⟨he, -⟩ | ⟨-, hx⟩ := r₁.excises_takeBack S.program access type cause
    · rw [he]
      exact h₁.settle (by simp)
    · exact (h₁.incurs (hx.strikes.incurs _)).settle (by simp)

theorem accounted_of_proceeds {ns : List Node} {r r' : Run} (h : S.Proceeds ns r r')
    (hr : S.Settled r) (ha : S.Accounted (fun _ => False) r) :
  S.Accounted (fun _ => False) r'
  := by
  induction h with
  | nil => exact ha
  | cons h _ ih =>
    exact ih (settled_of_moves (moves_of_stage h) hr) (accounted_of_stage h hr.coherent ha)

/-! ### What is due at the end of a unit -/

/-- No task waits, and whatever was to be done is done: what follows an admitted entity is
examined, the aspects of each analysed type were served once, and each completion was served
once and is done with. -/
structure Discharged (S : Setting) (r : Run) : Prop where
  idle : r.verdicts.backlog.isEmpty
  declarations : ∀ e id, S.Due r e (.declaration id) → id ∈ r.verdicts.examined
  aspects : ∀ e id, S.Due r e (.aspects id none) →
    (r.services.map Task.slot).count (.aspects id none) = 1
  completions : ∀ access, r.verdicts.backlog.takes (.completion access) = false →
    (r.services.map Task.slot).count (.completion access) = 1 ∧ S.Resolved r access

theorem Discharged.same {r r' : Run} (h : S.Discharged r) (ha : r'.agenda = r.agenda)
    (hv : r'.verdicts.admitted = r.verdicts.admitted)
    (hc : r'.verdicts.completions = r.verdicts.completions) :
  S.Discharged r'
  := by
  obtain ⟨hx, hb, hs⟩ := Run.agenda_eq_iff.1 ha
  have due {e : Entity} {t : Task} (ht : S.Due r' e t) : S.Due r e t :=
    ht.mono (fun hm => hv ▸ hm) fun hm => hx ▸ hm
  constructor
  · exact hb ▸ h.idle
  · exact fun e id ht => hx ▸ h.declarations e id (due ht)
  · exact fun e id ht => hs ▸ h.aspects e id (due ht)
  · simp only [Resolved, hb, hs, hv, hc]
    exact h.completions

/-- Where no task waits, each task that was taken was served once. -/
theorem Accounted.count_eq_one {r : Run} (h : S.Accounted served r)
    (hi : r.verdicts.backlog.toList = []) {t : Task} (ht : r.verdicts.backlog.takes t = false) :
  (r.services.map Task.slot).count t.slot = 1
  := by
  have hm := (h.balanced.taken t).1 ht
  rw [Run.slots, hi, List.append_nil] at hm
  exact List.count_eq_one_of_mem h.balanced.nodup_services hm

theorem discharged_of_proceeds {ns : List Node} {r : Run} (h : S.Proceeds ns {} r)
    (hn : r.verdicts.backlog.next? = none) :
  S.Discharged r
  := by
  have ha := accounted_of_proceeds h settled_empty accounted_empty
  have hc := completed_of_proceeds h settled_empty completed_empty
  have hi : r.verdicts.backlog.toList = [] := Backlog.toList_of_next?_eq_none hn
  constructor
  · exact (Backlog.isEmpty_iff _).2 hi
  · intro e id ht
    have hc := ha.count_eq_one hi (ha.due e _ ht)
    have hm := List.count_pos_iff.1 (Nat.lt_of_lt_of_eq Nat.one_pos hc.symm)
    obtain ⟨t, hs, hslot⟩ := List.mem_map.1 hm
    obtain rfl : t = .declaration id := by cases t <;> simp_all [Task.slot]
    exact (ha.examined id hs).resolve_right not_false
  · exact fun e id ht => ha.count_eq_one hi (ha.due e _ ht)
  · intro access ht
    refine ⟨ha.count_eq_one hi ht, ?_⟩
    exact (hc.resolved access ht not_false).resolve_left (Backlog.not_awaits_of_next? hn _)

/-- The service of a completion excludes its access type or records it. -/
theorem resolved_of_serve {access : EntityId} {r r' : Run}
    (h : S.serve (.completion access) r = .ok () r') :
  S.Resolved r' access
  := by
  obtain ⟨type, _, hl, h⟩ := Act.bind_eq_ok.1 h
  obtain ⟨hd, rfl⟩ := Act.lift_eq_ok.1 hl
  obtain ⟨_, _, ha, h⟩ := Act.bind_eq_ok.1 h
  obtain ⟨rfl, rfl⟩ := Act.admits_eq_ok.1 ha
  split at h
  · obtain ⟨_, r₁, -, h⟩ := Act.bind_eq_ok.1 h
    obtain ⟨_, _, ht, h⟩ := Act.bind_eq_ok.1 h
    obtain ⟨rfl, rfl⟩ := Act.admits_eq_ok.1 ht
    split at h
    · obtain rfl := Act.rule_eq_ok.1 h
      exact Or.inr ⟨type, access, hd, by simp [Run.rule]⟩
    · obtain ⟨_, _, hg, h⟩ := Act.bind_eq_ok.1 h
      obtain ⟨rfl, rfl⟩ := Act.get_eq_ok.1 hg
      obtain ⟨cause, _, hl, h⟩ := Act.bind_eq_ok.1 h
      obtain ⟨-, rfl⟩ := Act.lift_eq_ok.1 hl
      obtain rfl := Act.modify_eq_ok.1 h
      left
      obtain ⟨he, hx⟩ | ⟨-, hx⟩ := r₁.excises_takeBack S.program access type cause
      · exact fun hm => hx (he ▸ hm)
      · exact hx.strikes.gone
  · next ha =>
    obtain ⟨-, rfl⟩ := Act.pure_eq_ok.1 h
    exact Or.inl fun hm => ha (Run.admits_iff.2 hm)

/-- Nothing that was postponed is forgotten.  At the end of each compilation unit and of a run
no task waits, what follows an admitted entity is examined, the aspects of each analysed type
were served once, and so was each completion, which excluded its access type or recorded it. -/
theorem obligations_discharged {r : Run} (h : S.wholeProgram {} = .ok () r) :
  (∀ us, us <+: S.program.units →
      ∃ r₁, (us.forM fun u => do S.unit u; S.drain : Act Unit) {} = .ok () r₁ ∧ S.Discharged r₁)
    ∧ S.Discharged r
    ∧ ∀ access r₁ r₂, S.serve (.completion access) r₁ = .ok () r₂ → S.Resolved r₂ access
  := by
  refine ⟨?_, ?_, fun access r₁ r₂ => resolved_of_serve⟩
  · rintro us ⟨vs, hus⟩
    obtain ⟨_, r₂, hu, -⟩ := Act.bind_eq_ok.1 h
    rw [← hus] at hu
    obtain ⟨r₁, hu⟩ := Act.forM_of_append hu
    obtain ⟨hp, hn⟩ := proceeds_units hu
    exact ⟨r₁, hu, discharged_of_proceeds hp (hn rfl)⟩
  · obtain ⟨r₁, hp, hn, rfl⟩ := proceeds_wholeProgram h
    exact (discharged_of_proceeds hp hn).same rfl rfl rfl

/-! ### A tagged type and a type that is completed later -/

/-- A tagged type with an invariant and a primitive. -/
def taggedType : Entity :=
  { name := "T"
    kind := .type {
      definition := .record { tagged := true }
      invariant := some (.plain (.identifier "B"))
      primitives := ["Q"] } }

/-- A tagged type, and an access type that is declared before what it designates. -/
def postponingSample : Setting :=
  (ofParts?
    [taggedType,
      { name := "B", kind := .object { type := "N", constant := true } },
      { name := "N", kind := .type { definition := .signed 0 9 } },
      { name := "Q", kind := .subprogram { kind := .procedure } },
      { name := "A", kind := .type { definition := .access { designated := "I" } } },
      { name := "I", kind := .type { definition := .incomplete (some "N") } }]
    [.plain (.declaration .type "T"), .plain (.declaration .type "A")]).get
    (by decide +kernel)

theorem obligations_discharged_postponingSample :
  let r := (postponingSample.wholeProgram.after {}).2
  postponingSample.wholeProgram {} = .ok () r
    ∧ "T" ∈ r.verdicts.admitted ∧ "Q" ∈ r.verdicts.examined
    ∧ (r.services.map Task.slot).count (.aspects "T" none) = 1
    ∧ (r.services.map Task.slot).count (.completion "A") = 1 ∧ postponingSample.Resolved r "A"
    ∧ r.verdicts.completions["I"]? = some "A"
  := by
  have h : postponingSample.wholeProgram {}
      = .ok () (postponingSample.wholeProgram.after {}).2 := Act.eq_ok_of_after (by decide +kernel)
  have hd := (obligations_discharged h).2.1
  have ha : "T" ∈ (postponingSample.wholeProgram.after {}).2.verdicts.admitted := by
    decide +kernel
  have hx : "T" ∈ (postponingSample.wholeProgram.after {}).2.verdicts.examined := by
    decide +kernel
  have ht : (postponingSample.wholeProgram.after {}).2.verdicts.backlog.takes (.completion "A")
      = false := by decide +kernel
  have hi : (postponingSample.wholeProgram.after {}).2.verdicts.completions["I"]? = some "A" := by
    decide +kernel
  obtain ⟨hone, hres⟩ := hd.completions "A" ht
  refine ⟨h, ha, hd.declarations taggedType "Q" (.declaration ?_ ha ?_),
    hd.aspects taggedType "T" (.aspects ?_ hx ?_ rfl rfl), hone, hres, hi⟩
  · rfl
  · exact .primitive rfl rfl List.mem_cons_self
  · rfl
  · decide +kernel

end Setting

end Conformance
