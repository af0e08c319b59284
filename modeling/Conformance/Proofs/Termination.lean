import Conformance.Proofs.EndingInquiries
import Conformance.Proofs.Excision
import Conformance.Proofs.Moment
import Conformance.Proofs.Ledger
import Conformance.Proofs.Foundation

/-!
# Runs end

The walk of a run is cut off in three places: where decisions are within each other, where
relaxed initialisation is passed on, and where postponed tasks are served.  The decision of an
entity examines an entity more; what is recorded for a type improves at most twice; and each
task that is served stands for a slot of its own in the ledger of the run.  So where scopes are
acyclic, no run is cut off.

`wholeProgram_ends` is the result.
-/

namespace Conformance

/-! ### Acts that end -/

namespace Act

variable {α β : Type} {P : Run → Prop}

/-- The ledger of a run is balanced after an act, which kept a property of the run or failed, but
was not cut off. -/
def Leaves (P : Run → Prop) : EStateM.Result Fault Run α → Prop
  | .ok _ r' => r'.Balanced ∧ P r'
  | .error fault r' => r'.Balanced ∧ fault ≠ .unfinished

theorem Leaves.mono {P' : Run → Prop} {x : EStateM.Result Fault Run α} (h : Leaves P x)
    (hp : ∀ r, P r → P' r) :
  Leaves P' x
  := by
  cases x with
  | ok a r => exact ⟨h.1, hp r h.2⟩
  | error fault r => exact h

/-- An act keeps a property of runs whose ledger is balanced, and if it fails, it was not cut
off and leaves the ledger balanced. -/
def Ends (P : Run → Prop) (act : Act α) : Prop :=
  ∀ r, r.Balanced → P r → Leaves P (act r)

theorem leaves_bind {act : Act α} {f : α → Act β} {r : Run} {P' : Run → Prop}
    (h : Leaves P (act r)) (hf : ∀ a r₁, act r = .ok a r₁ → r₁.Balanced → P r₁ → Leaves P' (f a r₁)) :
  Leaves P' ((act >>= f) r)
  := by
  change Leaves P' (EStateM.bind act f r)
  unfold EStateM.bind
  cases he : act r with
  | ok a r₁ =>
    rw [he] at h
    exact hf a r₁ he h.1 h.2
  | error fault r₁ =>
    rw [he] at h
    exact h

theorem Ends.bind {act : Act α} {f : α → Act β} (h : act.Ends P) (hf : ∀ a, (f a).Ends P) :
  (act >>= f).Ends P
  := fun r hb hr => leaves_bind (h r hb hr) fun a r₁ _ => hf a r₁

theorem ends_pure (a : α) :
  (pure a : Act α).Ends P
  := fun _ hb hr => ⟨hb, hr⟩

theorem ends_throw {fault : Fault} (h : fault ≠ .unfinished) :
  (throw fault : Act α).Ends P
  := fun _ hb _ => ⟨hb, h⟩

theorem ends_lift {x : Answer α} (h : Answer.Ends x) :
  (liftM x : Act α).Ends P
  := by
  cases x with
  | ok a => exact ends_pure a
  | error fault => exact ends_throw fun he => h (he ▸ rfl)

theorem ends_lift_bind {x : Answer α} {f : α → Act β} (h : Answer.Ends x)
    (hf : ∀ a, x = .ok a → (f a).Ends P) :
  (liftM x >>= f).Ends P
  := by
  cases x with
  | ok a => exact hf a rfl
  | error fault => exact fun _ hb _ => ⟨hb, fun he => h (he ▸ rfl)⟩

theorem get_bind_apply (f : Run → Act β) (r : Run) :
  (get >>= f) r = f r r
  := rfl

theorem ends_get_bind {f : Run → Act β} (hf : ∀ r, (f r).Ends P) :
  (get >>= f).Ends P
  := fun r hb hr => hf r r hb hr

theorem ends_admits_bind {id : EntityId} {f : Bool → Act β} (hf : ∀ b, (f b).Ends P) :
  (admits id >>= f).Ends P
  := fun r hb hr => hf (r.admits id) r hb hr

theorem ends_forM {as : List β} {f : β → Act Unit} (h : ∀ a, (f a).Ends P) :
  (as.forM f).Ends P
  := by
  induction as with
  | nil => exact ends_pure ()
  | cons a as ih => exact (h a).bind fun _ => ih

end Act

namespace Setting

open Act

variable (S : Setting)

/-- Only entities of the program were examined, all but at most `levels` of them, and the given
tasks were served. -/
structure Account (levels : Nat) (services : List Task) (r : Run) : Prop where
  examined : ∀ id ∈ r.verdicts.examined, id ∈ S.program.entities.keys
  left : (S.program.outside r.verdicts.examined).length ≤ levels
  services : r.services = services

variable {S} {levels : Nat} {services : List Task}

theorem Account.of_agenda {r r' : Run} (h : S.Account levels services r)
    (ha : r'.agenda = r.agenda) :
  S.Account levels services r'
  := by
  obtain ⟨he, -, hs⟩ := Run.agenda_eq_iff.1 ha
  exact ⟨he ▸ h.examined, he ▸ h.left, hs.trans h.services⟩

/-- A change of something else. -/
theorem ends_modify {f : Run → Run} (h : ∀ r, (f r).agenda = r.agenda) :
  (modify f : Act Unit).Ends (S.Account levels services)
  := fun r hb hr => ⟨hb.of_agenda (h r), hr.of_agenda (h r)⟩

theorem ends_note {e : Event} (h : e.task? = none) :
  (modify (·.note e) : Act Unit).Ends (S.Account levels services)
  := ends_modify fun _ => Run.agenda_note h

theorem ends_rule {f : Verdicts → Verdicts} (he : ∀ v, (f v).examined = v.examined)
    (hb : ∀ v, (f v).backlog = v.backlog) :
  (rule f).Ends (S.Account levels services)
  := ends_modify fun r => by simp [Run.agenda, Run.rule, Run.services, he, hb]

theorem ends_postpone (t : Task) :
  (postpone t).Ends (S.Account levels services)
  := fun _ hb hr => ⟨hb.postpone t, hr.examined, hr.left, hr.services⟩

theorem ends_afresh {α : Type} {act : Act α} (h : act.Ends (S.Account levels services)) :
  act.afresh.Ends (S.Account levels services)
  := by
  intro r hb hr
  have h := h { r with cause := none } (hb.of_agenda rfl) (hr.of_agenda rfl)
  unfold afresh
  cases he : act { r with cause := none } with
  | ok a r₁ =>
    rw [he] at h
    exact ⟨h.1.of_agenda rfl, h.2.of_agenda rfl⟩
  | error fault r₁ =>
    rw [he] at h
    exact ⟨h.1.of_agenda rfl, h.2⟩

/-- An act that fails only with a fault of the program, and changes something else. -/
theorem ends_of_agenda {α : Type} {act : Act α}
    (h : ∀ r a r', act r = .ok a r' → r'.agenda = r.agenda)
    (h' : ∀ r fault r', act r = .error fault r' → r'.agenda = r.agenda ∧ fault ≠ .unfinished) :
  act.Ends (S.Account levels services)
  := by
  intro r hb hr
  cases he : act r with
  | ok a r' => exact ⟨hb.of_agenda (h r a r' he), hr.of_agenda (h r a r' he)⟩
  | error fault r' =>
    obtain ⟨ha, hf⟩ := h' r fault r' he
    exact ⟨hb.of_agenda ha, hf⟩

/-! ### Relaxed initialisation -/

variable (S) in
/-- The improvements that are left, two for each entity of the program that is not recorded. -/
def improvements (relaxed : Std.TreeMap EntityId Bool) : Nat :=
  (S.program.entities.keys.filter fun id => relaxed[id]? == none).length
    + (S.program.entities.keys.filter fun id => relaxed[id]? != some true).length

theorem improvements_le (relaxed : Std.TreeMap EntityId Bool) :
  S.improvements relaxed ≤ 2 * S.program.entityCount
  := by
  have h₁ := List.length_filter_le (fun id => relaxed[id]? == none) S.program.entities.keys
  have h₂ := List.length_filter_le (fun id => relaxed[id]? != some true) S.program.entities.keys
  rw [Std.TreeMap.length_keys] at h₁ h₂
  unfold improvements Program.entityCount
  omega

/-- What is recorded for an entity of the program improves once more. -/
theorem improvements_insert {v : Verdicts} {core : EntityId} {own : Bool}
    (hk : core ∈ S.program.entities.keys) (h : v.improvesRelaxed core own = true) :
  S.improvements (v.relaxed.insert core own) < S.improvements v.relaxed
  := by
  have hi (id : EntityId) : (v.relaxed.insert core own)[id]?
      = if id = core then some own else v.relaxed[id]? := by
    rw [Std.TreeMap.getElem?_insert]
    by_cases he : id = core
    · simp [he]
    · have hc : compare core id ≠ .eq := fun hc => he (Std.LawfulEqOrd.eq_of_compare hc).symm
      simp [he, hc]
  have none_le (id : EntityId) (hn : (v.relaxed.insert core own)[id]? == none) :
      v.relaxed[id]? == none := by
    rw [hi] at hn
    split at hn <;> simp_all
  have some_le (id : EntityId) (hn : (v.relaxed.insert core own)[id]? != some true) :
      v.relaxed[id]? != some true := by
    rw [hi] at hn
    split at hn
    · next he =>
      subst he
      unfold Verdicts.improvesRelaxed at h
      split at h <;> simp_all
    · exact hn
  have h₁ := Program.length_filter_le (l := S.program.entities.keys) none_le
  have h₂ := Program.length_filter_le (l := S.program.entities.keys) some_le
  have hlt : (S.program.entities.keys.filter fun id =>
        (v.relaxed.insert core own)[id]? == none).length
      < (S.program.entities.keys.filter fun id => v.relaxed[id]? == none).length
      ∨ (S.program.entities.keys.filter fun id =>
        (v.relaxed.insert core own)[id]? != some true).length
      < (S.program.entities.keys.filter fun id => v.relaxed[id]? != some true).length := by
    unfold Verdicts.improvesRelaxed at h
    split at h
    · cases h
    · next hr =>
      right
      exact Program.length_filter_lt hk some_le (by simp [hr]) (by simp [h])
    · next hr =>
      left
      exact Program.length_filter_lt hk none_le (by simp [hr]) (by simp)
  unfold improvements
  omega

theorem mem_keys_of_coreName {id core : EntityId} (h : S.coreName id = .ok core) :
  core ∈ S.program.entities.keys
  := by
  obtain ⟨c, hc, h⟩ := Answer.bind_eq_ok.1 h
  obtain rfl := Answer.pure_eq_ok.1 h
  exact mem_keys_of_core hc

@[grind ←]
theorem ends_coreName (id : EntityId) :
  Answer.Ends (S.coreName id)
  := by
  unfold coreName
  grind

theorem mem_keys_of_coreNames {ids cores : List EntityId}
    (h : ids.mapM S.coreName = .ok cores) :
  ∀ core ∈ cores, core ∈ S.program.entities.keys
  := by
  induction ids generalizing cores with
  | nil =>
    obtain rfl := Answer.pure_eq_ok.1 h
    simp
  | cons id ids ih =>
    rw [List.mapM_cons] at h
    obtain ⟨first, hf, h⟩ := Answer.bind_eq_ok.1 h
    obtain ⟨rest, hr, h⟩ := Answer.bind_eq_ok.1 h
    obtain rfl := Answer.pure_eq_ok.1 h
    exact List.forall_mem_cons.2 ⟨mem_keys_of_coreName hf, ih hr⟩

theorem mem_keys_of_partCores {ids cores : List EntityId} (h : S.partCores ids = .ok cores) :
  ∀ core ∈ cores, core ∈ S.program.entities.keys
  := by
  induction ids generalizing cores with
  | nil =>
    obtain rfl := Answer.pure_eq_ok.1 h
    simp
  | cons id ids ih =>
    obtain ⟨type, -, h⟩ := Answer.bind_eq_ok.1 h
    cases type with
    | none => exact ih h
    | some type =>
      obtain ⟨first, hf, h⟩ := Answer.bind_eq_ok.1 h
      obtain ⟨rest, hr, h⟩ := Answer.bind_eq_ok.1 h
      obtain rfl := Answer.pure_eq_ok.1 h
      exact List.forall_mem_cons.2 ⟨mem_keys_of_coreName hf, ih hr⟩

theorem mem_keys_of_relaxedParts {type : EntityId} {parts : List EntityId}
    (h : S.relaxedParts type = .ok parts) :
  ∀ part ∈ parts, part ∈ S.program.entities.keys
  := by
  obtain ⟨definition, -, h⟩ := Answer.bind_eq_ok.1 h
  split at h
  · obtain ⟨core, hc, h⟩ := Answer.bind_eq_ok.1 h
    obtain rfl := Answer.pure_eq_ok.1 h
    simpa using mem_keys_of_coreName hc
  · obtain ⟨parents, hp, h⟩ := Answer.bind_eq_ok.1 h
    obtain ⟨rest, hr, h⟩ := Answer.bind_eq_ok.1 h
    obtain rfl := Answer.pure_eq_ok.1 h
    exact List.forall_mem_append.2 ⟨mem_keys_of_coreNames hp, mem_keys_of_partCores hr⟩
  · obtain rfl := Answer.pure_eq_ok.1 h
    simp

@[grind ←]
theorem ends_relaxedParts (type : EntityId) :
  Answer.Ends (S.relaxedParts type)
  := by
  have cores (ids : List EntityId) : Answer.Ends (ids.mapM S.coreName) := by
    induction ids <;> grind
  have parts (ids : List EntityId) : Answer.Ends (S.partCores ids) := by
    induction ids <;> unfold partCores <;> grind
  unfold relaxedParts
  grind

/-- Each step improves what is recorded for a core. -/
theorem relaxAll_ne_unfinished {steps : Nat} {work : List (EntityId × Bool)} {fault : Fault}
    {r r' : Run} (hw : ∀ w ∈ work, w.1 ∈ S.program.entities.keys)
    (hs : S.improvements r.verdicts.relaxed ≤ steps)
    (h : S.relaxAll steps work r = .error fault r') :
  fault ≠ .unfinished
  := by
  induction steps, work using relaxAll_induction generalizing r with
  | nil steps =>
    rw [relaxAll_nil] at h
    exact (Act.pure_eq_error.1 h).elim
  | cons steps core own rest ih ih' =>
    obtain ⟨hcore, hrest⟩ := List.forall_mem_cons.1 hw
    rw [relaxAll_cons] at h
    obtain h | ⟨_, _, h₁, h⟩ := Act.bind_eq_error.1 h
    · exact (Act.get_eq_error.1 h).elim
    obtain ⟨rfl, rfl⟩ := Act.get_eq_ok.1 h₁
    split at h
    · next hi =>
      have hlt := improvements_insert hcore hi
      cases steps with
      | zero => omega
      | succ n =>
        obtain h | ⟨_, _, h₂, h⟩ := Act.bind_eq_error.1 h
        · exact (Act.rule_eq_error.1 h).elim
        obtain rfl := Act.rule_eq_ok.1 h₂
        obtain h | ⟨parts, _, h₃, h⟩ := Act.bind_eq_error.1 h
        · obtain ⟨h, -⟩ := Act.lift_eq_error.1 h
          exact fun he => S.ends_relaxedParts core (he ▸ h)
        obtain ⟨hp, rfl⟩ := Act.lift_eq_ok.1 h₃
        refine ih' n (Nat.lt_succ_self n) _ (fun w hm => ?_) ?_ h
        · obtain hm | hm := List.mem_append.1 hm
          · simp only [List.mem_reverse, List.mem_map] at hm
            obtain ⟨part, hpart, rfl⟩ := hm
            exact mem_keys_of_relaxedParts hp part hpart
          · exact hrest w hm
        · exact Nat.le_of_lt_succ (Nat.lt_of_lt_of_le hlt hs)
    · exact ih hrest hs h

theorem ends_relax (type : EntityId) :
  (S.relax type).Ends (S.Account levels services)
  := by
  apply ends_of_agenda
  · intro r _ r' h
    obtain ⟨relaxed, rfl⟩ := S.relax_eq_ok h
    rfl
  · intro r fault r' h
    obtain h | ⟨core, _, hl, h⟩ := Act.bind_eq_error.1 h
    · obtain ⟨hc, rfl⟩ := Act.lift_eq_error.1 h
      exact ⟨rfl, fun he => ends_coreName type (he ▸ hc)⟩
    · obtain ⟨hc, rfl⟩ := Act.lift_eq_ok.1 hl
      obtain ⟨relaxed, rfl⟩ := relaxAll_eq_error h
      refine ⟨rfl, relaxAll_ne_unfinished ?_ (improvements_le _) h⟩
      simpa using mem_keys_of_coreName hc

/-! ### Walks -/

variable {decide : EntityId → Act Unit} (hd : ∀ id, (decide id).Ends (S.Account levels services))

include hd

theorem ends_consult (scope : Scope) (id : EntityId) (site : Site) :
  (consult decide scope id site).Ends (S.Account levels services)
  := by
  refine (hd id).bind fun _ => (ends_note rfl).bind fun _ => ends_admits_bind fun b => ?_
  split
  · split
    · exact ends_pure true
    · refine (ends_rule ?_ ?_).bind fun _ => ends_pure true <;> intro v <;> unfold Verdicts.depend
        <;> split <;> rfl
  · exact (ends_modify fun r => r.agenda_findExcluded scope site id).bind fun _ => ends_pure false

theorem ends_declare (scope : Scope) (id : EntityId) (site : Site) :
  (S.declare decide scope id site).Ends (S.Account levels services)
  := by
  have hc := (ends_consult hd scope id site).bind fun _ => ends_pure ()
  refine (hd id).bind fun _ => ?_
  split
  · refine ends_admits_bind fun b => ?_
    split
    · exact hc
    · refine (ends_lift (S.ends_isOff id)).bind fun off => ?_
      refine (ends_pure (!off)).bind fun counts => ?_
      simp only
      split
      · exact hc
      · exact ends_pure ()
  · exact ends_pure ()

omit hd in
theorem ends_begin (scope : Scope) (m : Matter) :
  (begin scope m).Ends (S.Account levels services)
  := by
  refine (ends_note rfl).bind fun _ => ?_
  split
  · exact ends_rule (fun _ => rfl) fun _ => rfl
  · exact ends_pure ()

theorem ends_decideBody (e : Entity) (mode : Option Mode) {inner : Scope → Act Unit}
    (hi : ∀ scope, (inner scope).Ends (S.Account levels services)) :
  (S.decideBody decide e mode inner).Ends (S.Account levels services)
  := by
  have hm : Answer.Ends (S.bodyMode e mode) := by
    unfold bodyMode
    grind
  refine (hd e.name).bind fun _ => ends_admits_bind fun b => ?_
  split
  · refine (ends_lift hm).bind fun carried => ?_
    obtain ⟨mode, anchor⟩ := carried
    simp only
    split
    · exact ends_pure ()
    · apply ends_afresh
      refine (ends_begin _ _).bind fun _ => (hi _).bind fun _ => ends_modify fun r => ?_
      split <;> rfl
  · refine ends_rule ?_ ?_ <;> intro v <;> split <;> rfl

theorem ends_walk {α : Type} {i : Inquiry α} (hi : i.Ends) (scope : Scope) :
  (S.walk decide scope i).Ends (S.Account levels services)
  := by
  induction i generalizing scope with
  | done a => exact ends_pure a
  | fail fault => exact ends_throw hi
  | visit role node next ih => exact (ends_note rfl).bind fun _ => ih hi scope
  | consult id site next ih => exact (ends_consult hd scope id site).bind fun b => ih b (hi b) scope
  | declare id site next ih => exact (ends_declare hd scope id site).bind fun _ => ih hi scope
  | decide id next ih => exact (hd id).bind fun _ => ih hi scope
  | isAdmitted id next ih =>
    exact (ends_note rfl).bind fun _ => ends_admits_bind fun b => ih b (hi b) scope
  | isExamined id next ih => exact ends_get_bind fun r => ih _ (hi _) scope
  | find site finding next ih =>
    exact (ends_modify fun r => r.agenda_find scope site finding).bind fun _ => ih hi scope
  | relax type next ih => exact (ends_relax type).bind fun _ => ih hi scope
  | postponeAspects type next ih | postponeCompletion type next ih =>
    exact (ends_postpone _).bind fun _ => ih hi scope
  | hideView id next ih | placeInLoop id loop next ih =>
    refine (ends_rule ?_ ?_).bind fun _ => ih hi scope <;> exact fun _ => rfl
  | body e mode inner next ihi ih =>
    exact (ends_decideBody hd e mode fun scope => ihi hi.1 scope).bind fun _ => ih hi.2 scope

/-! ### Decisions and service -/

omit hd in
@[grind ←]
theorem ends_prerequisite? (e : Entity) :
  Answer.Ends (S.prerequisite? e)
  := by
  unfold prerequisite?
  grind

omit hd in
theorem ends_exclude (e : Entity) :
  (S.exclude e).Ends (S.Account levels services)
  := ends_modify fun r => (r.strikes_exclude S.program e).agenda

theorem ends_conclude (scope : Scope) (e : Entity) :
  (S.conclude decide scope e).Ends (S.Account levels services)
  := by
  have hf : (e.followers.forM fun id => postpone (.declaration id)).Ends
      (S.Account levels services) := ends_forM fun id => ends_postpone _
  refine ends_get_bind fun r => ?_
  split
  · exact ends_exclude e
  · refine Ends.bind ?_ fun _ => ?_
    · unfold publish
      split
      · refine (ends_lift (ends_prerequisite? e)).bind fun prerequisite => ?_
        refine ends_rule ?_ ?_ <;> exact fun _ => rfl
      · exact ends_pure ()
    · cases e.predicateFunction? with
      | none => exact hf
      | some function =>
        refine (ends_consult hd scope function e.site).bind fun kept => ?_
        cases kept with
        | true => exact hf
        | false => exact ends_exclude e

omit hd

section

variable (hS : S.program.ScopesAcyclic)

include hS

/-- The decision of an entity examines it. -/
theorem leaves_examine (hd : ∀ id, (decide id).Ends (S.Account levels services)) {e : Entity}
    {r : Run} (he : S.program.entity e.name = .ok e) (hx : e.name ∉ r.verdicts.examined)
    (hb : r.Balanced) (hr : S.Account (levels + 1) services r) :
  Leaves (S.Account (levels + 1) services) (S.examine decide e r)
  := by
  have hk := Program.mem_keys_of_entity he
  have hr' : S.Account levels services (r.examine e.name) := by
    refine ⟨fun id hid => ?_, ?_, hr.services⟩
    · obtain hid | hid := Std.TreeSet.mem_insert.1 hid
      · rwa [← Std.LawfulEqOrd.eq_of_compare hid]
      · exact hr.examined id hid
    · have hlt : (S.program.outside (r.verdicts.examined.insert e.name)).length
          < (S.program.outside r.verdicts.examined).length := Program.outside_insert hk hx
      exact Nat.le_of_lt_succ (Nat.lt_of_lt_of_le hlt hr.left)
  have more (r : Run) (h : S.Account levels services r) : S.Account (levels + 1) services r :=
    ⟨h.examined, Nat.le_succ_of_le h.left, h.services⟩
  unfold examine
  refine leaves_bind (P := S.Account levels services) ⟨hb.same rfl rfl, hr'⟩ fun _ r₁ _ hb₁ hr₁ => ?_
  refine Leaves.mono (Ends.bind (ends_lift (S.ends_modeOf e.name)) ?_ r₁ hb₁ hr₁) more
  rintro ⟨mode, anchor⟩
  simp only
  split
  · exact ends_pure ()
  · apply ends_afresh
    refine (ends_begin _ _).bind fun _ => Ends.bind ?_ fun _ => ?_
    · refine ends_rule ?_ ?_ <;> exact fun _ => rfl
    · exact (ends_walk hd (ends_entityInquiry hS e) _).bind fun _ => ends_conclude hd _ e

theorem ends_decideWithin (levels : Nat) (id : EntityId) :
  (S.decideWithin levels id).Ends (S.Account levels services)
  := by
  induction levels generalizing id with
  | zero =>
    unfold decideWithin
    intro r hb hr
    change Leaves _ ((if r.verdicts.examined.contains id then pure () else _ : Act Unit) r)
    split
    · exact ⟨hb, hr⟩
    · next hx =>
      refine ends_lift_bind (S.program.ends_entity id) (fun e he => ?_) r hb hr
      have hm : id ∈ S.program.outside r.verdicts.examined :=
        Program.mem_outside.2 ⟨Program.mem_keys_of_entity he, hx⟩
      rw [List.length_eq_zero_iff.1 (Nat.le_zero.1 hr.left)] at hm
      cases hm
  | succ levels ih =>
    unfold decideWithin
    intro r hb hr
    change Leaves _ ((if r.verdicts.examined.contains id then pure () else _ : Act Unit) r)
    split
    · exact ⟨hb, hr⟩
    · next hx =>
      cases he : S.program.entity id with
      | error fault => exact ⟨hb, fun hf => S.program.ends_entity id (hf ▸ he)⟩
      | ok e =>
        obtain rfl := S.program.name_eq_of_entity he
        exact leaves_examine hS ih he hx hb hr

theorem ends_decide (id : EntityId) :
  (S.decide id).Ends (S.Account S.program.entityCount services)
  := ends_decideWithin hS _ id

theorem ends_serveAspects (type : EntityId) (anchor : Option EntityId) :
  (S.serveAspects type anchor).Ends (S.Account S.program.entityCount services)
  := by
  have hm (e : Entity) : Answer.Ends (S.aspectsMode e anchor) := by
    unfold aspectsMode
    grind
  refine (ends_lift (S.program.ends_entity type)).bind fun e => ?_
  refine (ends_lift (S.program.ends_typeFacet type)).bind fun t => ?_
  refine (ends_lift (hm e)).bind fun carried => ?_
  obtain ⟨mode, attribution⟩ := carried
  simp only
  split
  · exact ends_pure ()
  · apply ends_afresh
    refine (ends_walk (ends_decide hS) (S.confined_expressions _).ends _).bind fun _ => ?_
    refine ends_modify fun r => ?_
    split <;> rfl

theorem ends_serveCompletion (access : EntityId) :
  (S.serveCompletion access).Ends (S.Account S.program.entityCount services)
  := by
  have hl : Answer.Ends (S.designated access) := by
    unfold designated
    grind
  have hc (v : Verdicts) (type : EntityId) : Answer.Ends (S.causeOf v type) := by
    unfold causeOf
    grind
  refine (ends_lift hl).bind fun type => ends_admits_bind fun admitted => ?_
  split
  · refine (ends_decide hS type).bind fun _ => ends_admits_bind fun kept => ?_
    split
    · refine ends_rule ?_ ?_ <;> exact fun _ => rfl
    · refine ends_get_bind fun r => (ends_lift (hc r.verdicts type)).bind fun cause => ?_
      refine ends_modify fun r => ?_
      obtain ⟨he, -⟩ | ⟨-, hx⟩ := r.excises_takeBack S.program access type cause
      · exact congrArg Run.agenda he
      · exact hx.strikes.agenda
  · exact ends_pure ()

theorem ends_serve (t : Task) :
  (S.serve t).Ends (S.Account S.program.entityCount services)
  := by
  cases t with
  | declaration id => exact ends_decide hS id
  | aspects type anchor => exact ends_serveAspects hS type anchor
  | completion access => exact ends_serveCompletion hS access

/-! ### Runs over a program -/

variable (S) in
/-- Only entities of the program were examined, and only tasks about them were served. -/
structure Founded (r : Run) : Prop where
  examined : ∀ id ∈ r.verdicts.examined, id ∈ S.program.entities.keys
  served : ∀ t ∈ r.services, t.entity ∈ S.program.entities.keys

omit hS in
theorem Founded.account {r : Run} (h : S.Founded r) :
  S.Account S.program.entityCount r.services r
  := ⟨h.examined, Program.length_outside_le _, rfl⟩

omit hS in
/-- Only tasks about entities of the program are served with success. -/
theorem mem_keys_of_serve {t : Task} {r r' : Run} {u : Unit}
    (h : ∀ id ∈ r.verdicts.examined, id ∈ S.program.entities.keys)
    (hs : S.serve t r = .ok u r') :
  t.entity ∈ S.program.entities.keys
  := by
  cases t with
  | declaration id =>
    change S.decideWithin _ id r = _ at hs
    unfold decideWithin at hs
    obtain ⟨_, _, hg, hs⟩ := Act.bind_eq_ok.1 hs
    obtain ⟨rfl, rfl⟩ := Act.get_eq_ok.1 hg
    split at hs
    · next hx => exact h id hx
    · obtain ⟨e, _, hl, -⟩ := Act.bind_eq_ok.1 hs
      exact Program.mem_keys_of_entity (Act.lift_eq_ok.1 hl).1
  | aspects type anchor =>
    obtain ⟨e, _, hl, -⟩ := Act.bind_eq_ok.1 hs
    exact Program.mem_keys_of_entity (Act.lift_eq_ok.1 hl).1
  | completion access =>
    obtain ⟨type, _, hl, -⟩ := Act.bind_eq_ok.1 hs
    obtain ⟨e, t, a, he, -⟩ := designated_eq_ok.1 (Act.lift_eq_ok.1 hl).1
    exact Program.mem_keys_of_entity he

omit hS in
/-- Each task that was served stands for a slot of its own. -/
theorem Founded.length_services_le {r : Run} (h : S.Founded r) (hb : r.Balanced) :
  r.services.length ≤ 3 * S.program.entityCount
  := by
  let slots (id : EntityId) : List Task := [.declaration id, .aspects id none, .completion id]
  have hn : (r.services.map Task.slot).Nodup := hb.nodup_services
  have hsub : r.services.map Task.slot ⊆ S.program.entities.keys.flatMap slots := by
    intro slot hslot
    obtain ⟨t, ht, rfl⟩ := List.mem_map.1 hslot
    refine List.mem_flatMap.2 ⟨t.entity, h.served t ht, ?_⟩
    cases t <;> simp [slots, Task.slot, Task.entity]
  have hl := hn.length_le_of_subset hsub
  have hc : (S.program.entities.keys.flatMap slots).length = 3 * S.program.entityCount := by
    simp [List.length_flatMap, slots, Program.entityCount, Nat.mul_comm]
  rwa [List.length_map, hc] at hl

omit hS in
/-- Where no task waits, none is served. -/
theorem drainWithin_none {steps : Nat} {r : Run} (hn : r.verdicts.backlog.next? = none) :
  S.drainWithin (steps + 1) r = .ok () r
  := by
  rw [drainWithin, get_bind_apply, hn]
  rfl

omit hS in
/-- The task that is next is served before the others. -/
theorem drainWithin_some {steps : Nat} {t : Task} {b : Backlog} {r : Run}
    (hn : r.verdicts.backlog.next? = some (t, b)) :
  S.drainWithin (steps + 1) r = (S.serve t >>= fun _ => S.drainWithin steps) (r.take t b)
  := by
  rw [drainWithin, get_bind_apply, hn]
  rfl

theorem leaves_drainWithin (steps : Nat) {r : Run} (hb : r.Balanced) (hr : S.Founded r)
    (hl : 3 * S.program.entityCount < steps + r.services.length) :
  Leaves S.Founded (S.drainWithin steps r)
  := by
  induction steps generalizing r with
  | zero =>
    have := hr.length_services_le hb
    omega
  | succ steps ih =>
    cases hn : r.verdicts.backlog.next? with
    | none =>
      rw [drainWithin_none hn]
      exact ⟨hb, hr⟩
    | some next =>
      obtain ⟨t, b⟩ := next
      have hr₁ : S.Account S.program.entityCount (t :: r.services) (r.take t b) :=
        ⟨hr.examined, Program.length_outside_le _, rfl⟩
      rw [drainWithin_some hn]
      refine leaves_bind (ends_serve hS t _ (hb.serve hn) hr₁) fun _ r₂ hs hb₂ hr₂ => ?_
      have hserved : ∀ t' ∈ r₂.services, t'.entity ∈ S.program.entities.keys := by
        rw [hr₂.services]
        intro t' ht'
        obtain rfl | ht' := List.mem_cons.1 ht'
        · exact mem_keys_of_serve hr₁.examined hs
        · exact hr.served t' ht'
      apply ih hb₂ ⟨hr₂.examined, hserved⟩
      rw [hr₂.services, List.length_cons]
      omega

theorem ends_unit (n : Node) :
  (S.unit n).Ends (S.Account S.program.entityCount services)
  := by
  have outside {i : Inquiry Unit} (hi : i.Ends) :
      (S.walkOutside i).Ends (S.Account S.program.entityCount services) :=
    ends_walk (ends_decide hS) hi {}
  unfold unit
  split
  · refine (ends_forM fun item => ?_).bind fun _ => outside (S.ends_item _ {})
    exact ends_afresh (outside (S.ends_contextItem item))
  · exact outside (S.ends_item _ {})

theorem leaves_units (ns : List Node) :
  (ns.forM fun n => do S.unit n; S.drain).Ends S.Founded
  := by
  refine ends_forM fun n r hb hr => ?_
  refine leaves_bind (ends_unit hS n r hb hr.account) fun _ r₁ _ hb₁ hr₁ => ?_
  refine leaves_drainWithin hS _ hb₁ ⟨hr₁.examined, hr₁.services ▸ hr.served⟩ (by omega)

/-- Every run ends.  Where no entity is declared in itself, the run over a program succeeds or
fails with a fault of the program, and it serves no task twice: declarations, aspects and
completions of an entity are served at most once each, from the beginning of the run to its end
or to its failure. -/
theorem wholeProgram_ends :
  (S.wholeProgram.after {}).1 ≠ .error .unfinished
    ∧ ((S.wholeProgram.after {}).2.services.map Task.slot).Nodup
  := by
  have h : Leaves S.Founded (S.wholeProgram {}) := by
    refine leaves_bind (leaves_units hS _ {} Run.balanced_empty ⟨by simp, by simp [Run.services]⟩) ?_
    exact fun _ r _ hb hr => ⟨hb.of_agenda rfl, hr.examined, hr.served⟩
  unfold after
  cases he : S.wholeProgram {} with
  | ok _ r =>
    rw [he] at h
    exact ⟨by simp, h.1.nodup_services⟩
  | error fault r =>
    rw [he] at h
    exact ⟨fun hf => h.2 (Except.error.inj hf), h.1.nodup_services⟩

end

/-! ### A list and a procedure that passes it on -/

/-- A package with a record type and an access type that need each other, and a procedure that
calls itself and declares a volatile object two scopes deep. -/
def nestedSample : Setting :=
  (ofParts?
    [{ name := "P", kind := .package none },
      { name := "I", scope := some "P", kind := .type { definition := .incomplete (some "T") } },
      { name := "A", scope := some "P",
        kind := .type { definition := .access { designated := "I" } } },
      { name := "N", scope := some "T", kind := .component { type := "A" } },
      { name := "T", scope := some "P",
        kind := .type { definition := .record { components := ["N"] } } },
      { name := "X", scope := some "Q", kind := .parameter { type := "T" } },
      { name := "Q", scope := some "P",
        kind := .subprogram { kind := .procedure, parameters := ["X"] } },
      { name := "V", scope := some "Q", kind := .object { type := "T", volatile := true } }]
    [.plain (.declaration .type "T"), .plain (.declaration .subprogram "Q"),
      .plain (.body .subprogram "Q" none [.plain (.declaration .object "V")]
        [.plain (.procedureCall "Q" [.plain (.identifier "X")])])]).get
    (by decide +kernel)

theorem wholeProgram_ends_nestedSample :
  nestedSample.program.ScopesAcyclic
    ∧ (nestedSample.wholeProgram.after {}).1 ≠ .error .unfinished
    ∧ ((nestedSample.wholeProgram.after {}).2.services.map Task.slot).Nodup
  := by
  let depth (id : EntityId) : Nat := if id ∈ ["P"] then 0 else if id ∈ ["N", "X", "V"] then 2 else 1
  have hS : nestedSample.program.ScopesAcyclic :=
    Program.scopesAcyclic_of_rank depth (by decide +kernel)
  exact ⟨hS, wholeProgram_ends hS⟩

end Setting

end Conformance
