import Conformance.Inquiry.Basic
import Mathlib.Tactic.Common

/-!
# Paths of inquiries

A `Step` is what an inquiry does, with the answer that it got.  `Inquiry.Takes` says that
an inquiry takes a step and goes on with another inquiry, and `Inquiry.Leads` that it is
done with a value after a list of steps.  The paths of a composed inquiry are those of its
parts, one after the other.

A step is clean if it leads to no violation.  `Inquiry.Favours` are the paths all of
whose steps are clean.
-/

namespace Conformance

/-- A step of an inquiry, with the answer that it got. -/
inductive Step where
  | visit (role : Role) (node : Node)
  | consult (id : EntityId) (site : Site) (admitted : Bool)
  /-- A declared entity, with its verdict if the matter under way rests on it. -/
  | declare (id : EntityId) (site : Site) (admitted : Option Bool)
  | decide (id : EntityId)
  | ask (id : EntityId) (admitted : Bool)
  | look (id : EntityId) (examined : Bool)
  | find (site : Site) (finding : Finding)
  | hideView (id : EntityId)
  | postponeCompletion (access : EntityId)
  | postponeAspects (type : EntityId)
  | relax (type : EntityId)
  | placeInLoop (id : EntityId) (loop : NodeId)
  | body (entity : Entity) (mode : Option Mode) (inner : Inquiry Unit)

/-- Whether a finding violates what it is found in. -/
def Finding.violates : Finding → Bool
  | .warning _ => false
  | _ => true

/-- Whether a step leads to no violation of the matter under way. -/
def Step.isClean : Step → Bool
  | .consult _ _ admitted => admitted
  | .declare _ _ admitted => admitted.getD true
  | .find _ finding => !finding.violates
  | _ => true

namespace Inquiry

variable {α β : Type}

/-- An inquiry takes a step and goes on with another one. -/
inductive Takes : Inquiry α → Step → Inquiry α → Prop
  | visit {role node next} : Takes (.visit role node next) (.visit role node) next
  | consult {id site next} (b : Bool) :
    Takes (.consult id site next) (.consult id site b) (next b)
  | declare {id site next} (b : Option Bool) :
    Takes (.declare id site next) (.declare id site b) next
  | decide {id next} : Takes (.decide id next) (.decide id) next
  | ask {id next} (b : Bool) : Takes (.isAdmitted id next) (.ask id b) (next b)
  | look {id next} (b : Bool) : Takes (.isExamined id next) (.look id b) (next b)
  | find {site finding next} : Takes (.find site finding next) (.find site finding) next
  | hideView {id next} : Takes (.hideView id next) (.hideView id) next
  | postponeCompletion {access next} :
    Takes (.postponeCompletion access next) (.postponeCompletion access) next
  | postponeAspects {type next} :
    Takes (.postponeAspects type next) (.postponeAspects type) next
  | relax {type next} : Takes (.relax type next) (.relax type) next
  | placeInLoop {id loop next} : Takes (.placeInLoop id loop next) (.placeInLoop id loop) next
  | body {e mode inner next} : Takes (.body e mode inner next) (.body e mode inner) next

/-- An inquiry is done with a value after a list of steps. -/
inductive Leads : Inquiry α → List Step → α → Prop
  | done {a : α} : Leads (.done a) [] a
  | step {i j : Inquiry α} {s : Step} {path : List Step} {a : α} (h : i.Takes s j)
      (l : Leads j path a) : Leads i (s :: path) a

theorem takes_bind {i j : Inquiry α} {s : Step} (h : i.Takes s j) (f : α → Inquiry β) :
  (i.bind f).Takes s (j.bind f)
  := by cases h <;> constructor

/-- What a composed inquiry does first is what its first part does. -/
theorem of_takes_bind {i : Inquiry α} {f : α → Inquiry β} {s : Step} {k : Inquiry β}
    (h : (i.bind f).Takes s k) :
  (∃ a, i = .done a ∧ (f a).Takes s k) ∨ ∃ j, i.Takes s j ∧ k = j.bind f
  := by
  cases i with
  | done a => exact Or.inl ⟨a, rfl, h⟩
  | fail => cases h
  | _ =>
    right
    cases h
    exact ⟨_, by constructor, rfl⟩

theorem leads_bind {i : Inquiry α} {f : α → Inquiry β} {p q : List Step} {a : α} {b : β}
    (h : i.Leads p a) (h' : (f a).Leads q b) :
  (i.bind f).Leads (p ++ q) b
  := by
  induction h with
  | done => exact h'
  | step h _ ih => exact .step (takes_bind h f) (ih h')

theorem of_leads_bind {i : Inquiry α} {f : α → Inquiry β} {path : List Step} {b : β}
    (h : (i.bind f).Leads path b) :
  ∃ p a q, path = p ++ q ∧ i.Leads p a ∧ (f a).Leads q b
  := by
  generalize hk : i.bind f = k at h
  induction h generalizing i with
  | done =>
    cases i with
    | done a =>
      change f a = _ at hk
      exact ⟨[], a, [], rfl, .done, by rw [hk]; exact .done⟩
    | _ => cases hk
  | @step _ _ s path _ ht hl ih =>
    subst hk
    obtain ⟨a, rfl, ht'⟩ | ⟨j, ht', rfl⟩ := of_takes_bind ht
    · exact ⟨[], a, s :: path, rfl, .done, .step ht' hl⟩
    · obtain ⟨p, a, q, rfl, hp, hq⟩ := ih rfl
      exact ⟨s :: p, a, q, rfl, .step ht' hp, hq⟩

/-- The paths of a composed inquiry. -/
theorem leads_bind_iff {i : Inquiry α} {f : α → Inquiry β} {path : List Step} {b : β} :
  (i >>= f).Leads path b ↔ ∃ p a q, path = p ++ q ∧ i.Leads p a ∧ (f a).Leads q b
  := by
  constructor
  · exact of_leads_bind
  · rintro ⟨p, a, q, rfl, hp, hq⟩
    exact leads_bind hp hq

@[simp]
theorem leads_pure {a b : α} {path : List Step} :
  (pure a : Inquiry α).Leads path b ↔ path = [] ∧ a = b
  := by
  constructor
  · intro h
    cases h with
    | done => simp
    | step h => cases h
  · rintro ⟨rfl, rfl⟩
    exact .done

theorem leads_fail {fault : Fault} {a : α} {path : List Step} :
  (.fail fault : Inquiry α).Leads path a ↔ False
  := by
  rw [iff_false]
  intro h
  cases h with
  | step h => cases h

@[simp]
theorem leads_throw {fault : Fault} {a : α} {path : List Step} :
  (throw fault : Inquiry α).Leads path a ↔ False
  := leads_fail

/-- An answer about the program takes no step. -/
@[simp]
theorem leads_lift {x : Answer α} {a : α} {path : List Step} :
  (liftM x : Inquiry α).Leads path a ↔ path = [] ∧ x = .ok a
  := by
  cases x with
  | ok b =>
    change (pure b : Inquiry α).Leads path a ↔ _
    simp
  | error fault =>
    change (Inquiry.fail fault : Inquiry α).Leads path a ↔ _
    simp [leads_fail]

/-! ### Single steps -/

theorem leads_then_iff {i j : Inquiry Unit} {path : List Step} :
  (i >>= fun _ => j).Leads path () ↔ ∃ p q, path = p ++ q ∧ i.Leads p () ∧ j.Leads q ()
  := by
  rw [leads_bind_iff]
  constructor
  · rintro ⟨p, ⟨⟩, q, h⟩
    exact ⟨p, q, h⟩
  · rintro ⟨p, q, h⟩
    exact ⟨p, (), q, h⟩

/-- The path of an inquiry that takes one step. -/
theorem leads_of_takes {i : Inquiry Unit} {s : Step} {path : List Step}
    (h : ∀ s' j, i.Takes s' j ↔ s' = s ∧ j = .done ()) (hi : i ≠ .done ()) :
  i.Leads path () ↔ path = [s]
  := by
  constructor
  · intro hl
    cases hl with
    | done => exact absurd rfl hi
    | step ht hl =>
      obtain ⟨rfl, rfl⟩ := (h _ _).1 ht
      rw [(leads_pure.1 hl).1]
  · rintro rfl
    exact .step ((h _ _).2 ⟨rfl, rfl⟩) .done

theorem leads_unsupported {site : Site} {feature : Unsupported} {path : List Step} :
  (unsupported site feature).Leads path () ↔ path = [.find site (.unsupported feature)]
  := by
  refine leads_of_takes (fun s j => ⟨?_, ?_⟩) nofun
  · rintro ⟨⟩
    exact ⟨rfl, rfl⟩
  · rintro ⟨rfl, rfl⟩
    exact .find

theorem leads_postponeAspects {id : EntityId} {path : List Step} :
  (.postponeAspects id (.done ()) : Inquiry Unit).Leads path () ↔ path = [.postponeAspects id]
  := by
  refine leads_of_takes (fun s j => ⟨?_, ?_⟩) nofun
  · rintro ⟨⟩
    exact ⟨rfl, rfl⟩
  · rintro ⟨rfl, rfl⟩
    exact .postponeAspects

theorem leads_relax {id : EntityId} {path : List Step} :
  (.relax id (.done ()) : Inquiry Unit).Leads path () ↔ path = [.relax id]
  := by
  refine leads_of_takes (fun s j => ⟨?_, ?_⟩) nofun
  · rintro ⟨⟩
    exact ⟨rfl, rfl⟩
  · rintro ⟨rfl, rfl⟩
    exact .relax

/-! ### Properties of all paths -/

/-- All steps on all paths of an inquiry have the property `P`, and the values that it is
done with have the property `Q`. -/
def Every (P : Step → Prop) (Q : α → Prop) : Inquiry α → Prop
  | .done a => Q a
  | .fail _ => True
  | .visit role node next => P (.visit role node) ∧ next.Every P Q
  | .consult id site next => ∀ b, P (.consult id site b) ∧ (next b).Every P Q
  | .declare id site next => (∀ b, P (.declare id site b)) ∧ next.Every P Q
  | .decide id next => P (.decide id) ∧ next.Every P Q
  | .isAdmitted id next => ∀ b, P (.ask id b) ∧ (next b).Every P Q
  | .isExamined id next => ∀ b, P (.look id b) ∧ (next b).Every P Q
  | .find site finding next => P (.find site finding) ∧ next.Every P Q
  | .hideView id next => P (.hideView id) ∧ next.Every P Q
  | .postponeCompletion access next => P (.postponeCompletion access) ∧ next.Every P Q
  | .postponeAspects type next => P (.postponeAspects type) ∧ next.Every P Q
  | .relax type next => P (.relax type) ∧ next.Every P Q
  | .placeInLoop id loop next => P (.placeInLoop id loop) ∧ next.Every P Q
  | .body e mode inner next => P (.body e mode inner) ∧ next.Every P Q

section

variable {P P' : Step → Prop} {Q Q' : α → Prop} {i : Inquiry α}

theorem Every.takes {j : Inquiry α} {s : Step} (h : i.Every P Q) (t : i.Takes s j) :
  P s ∧ j.Every P Q
  := by
  cases t with
  | consult b | ask b | look b => exact h b
  | declare b => exact ⟨h.1 b, h.2⟩
  | _ => exact h

/-- What holds on all paths holds on each path. -/
theorem Every.of_leads {path : List Step} {a : α} (h : i.Every P Q) (l : i.Leads path a) :
  (∀ s ∈ path, P s) ∧ Q a
  := by
  induction l with
  | done => exact ⟨by simp, h⟩
  | step t _ ih =>
    obtain ⟨hs, hj⟩ := h.takes t
    obtain ⟨hp, hq⟩ := ih hj
    exact ⟨by simpa [hs] using hp, hq⟩

@[simp]
theorem every_bind {f : α → Inquiry β} {Q' : β → Prop} :
  (i >>= f).Every P Q' ↔ i.Every P fun a => (f a).Every P Q'
  := by
  change (i.bind f).Every P Q' ↔ _
  induction i with
  | done => rfl
  | fail => rfl
  | _ => simp only [Inquiry.bind, Every, *]

@[simp]
theorem every_map {f : α → β} {Q' : β → Prop} :
  (f <$> i).Every P Q' ↔ i.Every P fun a => Q' (f a)
  := by
  rw [← bind_pure_comp, every_bind]
  rfl

@[simp]
theorem every_pure {a : α} :
  (pure a : Inquiry α).Every P Q ↔ Q a
  := Iff.rfl

@[simp]
theorem every_throw {fault : Fault} :
  (throw fault : Inquiry α).Every P Q ↔ True
  := Iff.rfl

@[simp]
theorem every_lift {x : Answer α} :
  (liftM x : Inquiry α).Every P Q ↔ ∀ a, x = .ok a → Q a
  := by
  cases x with
  | ok b =>
    change Q b ↔ _
    simp
  | error fault =>
    change True ↔ _
    simp

@[simp]
theorem every_ite {c : Prop} [Decidable c] {j : Inquiry α} :
  (if c then i else j).Every P Q ↔ (c → i.Every P Q) ∧ (¬ c → j.Every P Q)
  := by split <;> simp_all

@[simp]
theorem every_ask {id : EntityId} {site : Site} {Q : Bool → Prop} :
  (ask id site).Every P Q ↔ ∀ b, P (.consult id site b) ∧ Q b
  := Iff.rfl

@[simp]
theorem every_restOn {id : EntityId} {site : Site} {Q : Unit → Prop} :
  (restOn id site).Every P Q ↔ ∀ b, P (.consult id site b) ∧ Q ()
  := Iff.rfl

@[simp]
theorem every_stands {id : EntityId} {Q : Bool → Prop} :
  (stands id).Every P Q ↔ ∀ b, P (.ask id b) ∧ Q b
  := Iff.rfl

@[simp]
theorem every_come {role : Role} {n : Node} {Q : Unit → Prop} :
  (come role n).Every P Q ↔ P (.visit role n) ∧ Q ()
  := Iff.rfl

@[simp]
theorem every_violation {site : Site} {v : Violation} {Q : Unit → Prop} :
  (violation site v).Every P Q ↔ P (.find site (.violation v)) ∧ Q ()
  := Iff.rfl

@[simp]
theorem every_unsupported {site : Site} {feature : Unsupported} {Q : Unit → Prop} :
  (unsupported site feature).Every P Q ↔ P (.find site (.unsupported feature)) ∧ Q ()
  := Iff.rfl

@[simp]
theorem every_warning {site : Site} {w : Warning} {Q : Unit → Prop} :
  (warning site w).Every P Q ↔ P (.find site (.warning w)) ∧ Q ()
  := Iff.rfl

end

/-! ### Favourable paths -/

/-- An inquiry is done with a value after a list of steps without any violation. -/
structure Favours (i : Inquiry α) (path : List Step) (a : α) : Prop where
  leads : i.Leads path a
  clean : ∀ s ∈ path, s.isClean

theorem favours_bind_iff {i : Inquiry α} {f : α → Inquiry β} {path : List Step} {b : β} :
  (i >>= f).Favours path b
    ↔ ∃ p a q, path = p ++ q ∧ i.Favours p a ∧ (f a).Favours q b
  := by
  constructor
  · rintro ⟨h, hc⟩
    obtain ⟨p, a, q, rfl, hp, hq⟩ := leads_bind_iff.1 h
    refine ⟨p, a, q, rfl, ⟨hp, fun s hs => hc s ?_⟩, ⟨hq, fun s hs => hc s ?_⟩⟩
    · exact List.mem_append_left q hs
    · exact List.mem_append_right p hs
  · rintro ⟨p, a, q, rfl, hp, hq⟩
    refine ⟨leads_bind_iff.2 ⟨p, a, q, rfl, hp.leads, hq.leads⟩, fun s hs => ?_⟩
    obtain hs | hs := List.mem_append.1 hs
    · exact hp.clean s hs
    · exact hq.clean s hs

@[simp]
theorem favours_pure {a b : α} {path : List Step} :
  (pure a : Inquiry α).Favours path b ↔ path = [] ∧ a = b
  := by
  constructor
  · exact fun h => leads_pure.1 h.leads
  · rintro ⟨rfl, rfl⟩
    exact ⟨.done, by simp⟩

@[simp]
theorem favours_done {a b : α} {path : List Step} :
  (.done a : Inquiry α).Favours path b ↔ path = [] ∧ a = b
  := favours_pure

@[simp]
theorem favours_fail {fault : Fault} {a : α} {path : List Step} :
  (.fail fault : Inquiry α).Favours path a ↔ False
  := by
  rw [iff_false]
  exact fun h => leads_fail.1 h.leads

@[simp]
theorem favours_throw {fault : Fault} {a : α} {path : List Step} :
  (throw fault : Inquiry α).Favours path a ↔ False
  := favours_fail

@[simp]
theorem favours_lift {x : Answer α} {a : α} {path : List Step} :
  (liftM x : Inquiry α).Favours path a ↔ path = [] ∧ x = .ok a
  := by
  constructor
  · exact fun h => leads_lift.1 h.leads
  · rintro ⟨rfl, rfl⟩
    exact ⟨leads_lift.2 ⟨rfl, rfl⟩, by simp⟩

/-- A favourable path of an inquiry that takes one kind of step first. -/
theorem favours_step_iff {i : Inquiry α} {path : List Step} {a : α}
    (h : ∀ b, i ≠ .done b) :
  i.Favours path a
    ↔ ∃ s j rest, path = s :: rest ∧ i.Takes s j ∧ s.isClean ∧ j.Favours rest a
  := by
  constructor
  · rintro ⟨hl, hc⟩
    cases hl with
    | done => exact absurd rfl (h a)
    | @step _ j s rest _ ht hl =>
      refine ⟨s, j, rest, rfl, ht, hc s List.mem_cons_self, hl, fun s hs => hc s ?_⟩
      exact List.mem_cons_of_mem _ hs
  · rintro ⟨s, j, rest, rfl, ht, hs, hl⟩
    refine ⟨.step ht hl.leads, fun s' hs' => ?_⟩
    obtain rfl | hs' := List.mem_cons.1 hs'
    · exact hs
    · exact hl.clean s' hs'

/-- A consulted entity is admitted on a favourable path. -/
@[simp]
theorem favours_ask {id : EntityId} {site : Site} {b : Bool} {path : List Step} :
  (ask id site).Favours path b ↔ b = true ∧ path = [.consult id site true]
  := by
  rw [ask, favours_step_iff (by simp)]
  constructor
  · rintro ⟨s, j, rest, rfl, ht, hs, hl⟩
    cases ht with
    | consult b' =>
      obtain ⟨rfl, rfl⟩ := favours_done.1 hl
      obtain rfl : b' = true := hs
      simp
  · rintro ⟨rfl, rfl⟩
    exact ⟨_, _, [], rfl, .consult true, rfl, favours_done.2 ⟨rfl, rfl⟩⟩

@[simp]
theorem favours_restOn {id : EntityId} {site : Site} {path : List Step} :
  (restOn id site).Favours path () ↔ path = [.consult id site true]
  := by
  change (ask id site >>= fun _ => pure ()).Favours path () ↔ _
  rw [favours_bind_iff]
  constructor
  · rintro ⟨p, b, q, rfl, hp, hq⟩
    obtain ⟨rfl, rfl⟩ := favours_ask.1 hp
    obtain ⟨rfl, -⟩ := favours_pure.1 hq
    rfl
  · rintro rfl
    exact ⟨_, true, [], rfl, favours_ask.2 ⟨rfl, rfl⟩, favours_pure.2 ⟨rfl, rfl⟩⟩

theorem favours_restOnAll {ids : List EntityId} {site : Site} {path : List Step} :
  (restOnAll ids site).Favours path () ↔ path = ids.map fun id => .consult id site true
  := by
  unfold restOnAll
  induction ids generalizing path with
  | nil => simp
  | cons id ids ih =>
    change (restOn id site >>= fun _ => ids.forM _).Favours path () ↔ _
    rw [favours_bind_iff]
    constructor
    · rintro ⟨p, ⟨⟩, q, rfl, hp, hq⟩
      rw [favours_restOn.1 hp, ih.1 hq]
      rfl
    · rintro rfl
      exact ⟨_, (), _, rfl, favours_restOn.2 rfl, ih.2 rfl⟩

@[simp]
theorem favours_stands {id : EntityId} {b : Bool} {path : List Step} :
  (stands id).Favours path b ↔ path = [.ask id b]
  := by
  rw [stands, favours_step_iff (by simp)]
  constructor
  · rintro ⟨s, j, rest, rfl, ht, hs, hl⟩
    cases ht with
    | ask b' =>
      obtain ⟨rfl, rfl⟩ := favours_done.1 hl
      rfl
  · rintro rfl
    exact ⟨_, _, [], rfl, .ask b, rfl, favours_done.2 ⟨rfl, rfl⟩⟩

@[simp]
theorem favours_come {role : Role} {n : Node} {path : List Step} :
  (come role n).Favours path () ↔ path = [.visit role n]
  := by
  rw [come, favours_step_iff (by simp)]
  constructor
  · rintro ⟨s, j, rest, rfl, ht, hs, hl⟩
    cases ht with
    | visit =>
      obtain ⟨rfl, -⟩ := favours_done.1 hl
      rfl
  · rintro rfl
    exact ⟨_, _, [], rfl, .visit, rfl, favours_done.2 ⟨rfl, rfl⟩⟩

/-- A violation is on no favourable path. -/
@[simp]
theorem favours_violation {site : Site} {v : Violation} {path : List Step} :
  (violation site v).Favours path () ↔ False
  := by
  rw [iff_false, violation, favours_step_iff (by simp)]
  rintro ⟨s, j, rest, rfl, ht, hs, hl⟩
  cases ht
  simp [Step.isClean, Finding.violates] at hs

/-- A construct that is not handled is on no favourable path. -/
@[simp]
theorem favours_unsupported {site : Site} {feature : Unsupported} {path : List Step} :
  (unsupported site feature).Favours path () ↔ False
  := by
  rw [iff_false, unsupported, favours_step_iff (by simp)]
  rintro ⟨s, j, rest, rfl, ht, hs, hl⟩
  cases ht
  simp [Step.isClean, Finding.violates] at hs

@[simp]
theorem favours_warning {site : Site} {w : Warning} {path : List Step} :
  (warning site w).Favours path () ↔ path = [.find site (.warning w)]
  := by
  rw [warning, favours_step_iff (by simp)]
  constructor
  · rintro ⟨s, j, rest, rfl, ht, hs, hl⟩
    cases ht with
    | find =>
      obtain ⟨rfl, -⟩ := favours_done.1 hl
      rfl
  · rintro rfl
    exact ⟨_, _, [], rfl, .find, rfl, favours_done.2 ⟨rfl, rfl⟩⟩

end Inquiry

end Conformance
