import Conformance.Proofs.Turn

/-!
# Acts and sessions as chains of turns

`Setting.Lasting` are the properties of runs that last while no matter is under way whose
verdict can be withdrawn; acts keep them, whether they succeed or fail.  Completions are the
only acts that keep less: what they come to is `Setting.Sound`, a chain of turns from where
the session started.

`sound_of_arises` is about sessions, and `turns_of_session` about those in which every
request is served.
-/

namespace Conformance

open Relation (ReflTransGen)

namespace Setting

variable {S : Setting}

/-! ### Acts -/

theorem Stops.coherent {r r' : Run} (h : S.Stops r r') (hr : r.Coherent) :
  r'.Coherent
  := by
  cases h with
  | plain relaxed cause =>
    have hs : r.Same { r.rule (fun v => { v with relaxed }) with cause } :=
      ⟨rfl, rfl, rfl, rfl, rfl, .refl _⟩
    exact hs.coherent hr
  | @examined e fault cause _ _ _ =>
    exact ((r.examine e.name).same_cause cause).coherent (hr.examine e.name)

theorem Stops.advances {r r' : Run} (h : S.Stops r r') :
  r.Advances none [] r'
  := by
  cases h with
  | plain relaxed cause =>
    have hs : r.Same { r.rule (fun v => { v with relaxed }) with cause } :=
      ⟨rfl, rfl, rfl, rfl, rfl, .refl _⟩
    exact hs.advances none
  | @examined e fault cause _ _ _ =>
    exact Run.advances_examine.same ((r.examine e.name).same_cause cause)

/-- A property of coherent runs that lasts while no matter is under way whose verdict can be
withdrawn. -/
structure Lasting (S : Setting) (P : Run → Prop) : Prop where
  coherent : ∀ r, P r → r.Coherent
  passage : ∀ r r' new, P r → r.Advances none new r' → r'.Coherent →
    ReflTransGen S.Turn r r' → P r'
  stop : ∀ r r', P r → S.Stops r r' → P r'

theorem advances_none {m : Option Matter} {new : List Event} {r r' : Run}
    (h : r.Advances m new r') (hm : ∀ m', m = some m' → m'.isRevocable = false) :
  r.Advances none new r'
  where
    journal := h.journal
    examined := h.examined
    admitted := h.admitted
    fresh := h.fresh
    bodies := h.bodies
    dependents := h.dependents
    began := h.began
    owned e he m' ho hr := by
      obtain hm' | hb := h.owned e he m' ho hr
      · rw [hm m' hm'] at hr
        cases hr
      · exact Or.inr hb
    backlog := h.backlog

section

variable {P : Run → Prop} (hP : S.Lasting P)

include hP

theorem Lasting.same {r r' : Run} (h : P r) (hs : r.Same r')
    (hr : r'.register = r.register) :
  P r'
  := hP.passage r r' [] h (hs.advances none) (hs.coherent (hP.coherent r h)) (.single (.same hr))

theorem Lasting.cause {r : Run} (h : P r) (cause : Option Site) :
  P { r with cause }
  := hP.same h ⟨rfl, rfl, rfl, rfl, rfl, .refl _⟩ rfl

theorem Lasting.goes {M M' : Moment} (h : P M.run)
    (hm : ∀ m, M.scope.matter = some m → m.isRevocable = false)
    (g : ReflTransGen S.Goes M M') :
  P M'.run
  := by
  have hf := follows_of_goes_to g (hP.coherent _ h) (under_of_not_isRevocable hm _)
  obtain ⟨new, ha, -⟩ := hf.advances
  exact hP.passage _ _ new h (advances_none ha hm) hf.coherent hf.turns

/-- An inquiry into a matter whose verdict cannot be withdrawn. -/
theorem keeps_walk {scope : Scope} (hm : ∀ m, scope.matter = some m → m.isRevocable = false)
    (i : Inquiry Unit) :
  (S.walk S.decide scope i).Keeps P
  := by
  intro r h
  let M : Moment := ⟨[], scope, i, r⟩
  have hr := hP.coherent r h
  have hu : r.Under M.scope.matter := under_of_not_isRevocable hm r
  obtain ⟨path, -, p⟩ | ⟨M', hM, hs⟩ := S.walk_cases M
  · obtain ⟨new, ha, hr', -⟩ := orderly_of_passes p hr hu
    exact hP.passage _ _ new h (advances_none ha hm) hr' (turns_of_passes p hr hu)
  · exact hP.stop _ _ (hP.goes h hm hM) hs

theorem keeps_decideWithin (levels : Nat) (id : EntityId) :
  (S.decideWithin levels id).Keeps P
  := by
  intro r h
  let M : Moment := ⟨[], {}, .decide id (.done ()), r⟩
  have hr := hP.coherent r h
  have hm : ∀ m, M.scope.matter = some m → m.isRevocable = false := by simp [M]
  have hi : M.rest.decides? = some id := rfl
  obtain d | ⟨M', hM, hs⟩ := S.decideWithin_cases levels hi
  · obtain ⟨new, ha, hr', -⟩ := orderly_of_passes d hr (under_decision _ _)
    exact hP.passage _ _ new h ha hr' (turns_of_passes d hr (under_decision _ _))
  · exact hP.stop _ _ (hP.goes h hm hM) hs

theorem keeps_walkOutside (i : Inquiry Unit) :
  (S.walkOutside i).Keeps P
  := keeps_walk hP (by simp) i

theorem keeps_context (n : Node) :
  (Act.afresh (S.walkOutside (S.contextItem n))).Keeps P
  := (keeps_walkOutside hP _).afresh fun _ cause h => hP.cause h cause

theorem keeps_unit (n : Node) :
  (S.unit n).Keeps P
  := by
  unfold unit
  cases n.shape with
  | compilationUnit context unit =>
    apply Act.Keeps.bind
    · induction context with
      | nil => exact Act.keeps_pure ()
      | cons item context ih => exact (keeps_context hP item).bind fun _ => ih
    · exact fun _ => keeps_walkOutside hP _
  | _ => exact keeps_walkOutside hP _

theorem keeps_concludeAspects (type : EntityId) :
  (Act.concludeAspects type).Keeps P
  := by
  intro r h
  change P (r.concludeAspects type)
  unfold Run.concludeAspects
  split
  · exact hP.same h ⟨rfl, rfl, rfl, rfl, rfl, .refl _⟩ rfl
  · exact h

theorem keeps_serveAspects (type : EntityId) (anchor : Option EntityId) :
  (S.serveAspects type anchor).Keeps P
  := by
  unfold serveAspects
  refine (Act.keeps_lift _).bind fun e => ?_
  refine (Act.keeps_lift _).bind fun t => ?_
  refine (Act.keeps_lift _).bind fun ⟨mode, attribution⟩ => ?_
  simp only
  split
  · exact Act.keeps_pure ()
  · refine Act.Keeps.afresh (Act.Keeps.bind (keeps_walk hP ?_ _) fun _ => ?_)
      fun _ cause h => hP.cause h cause
    · rintro _ ⟨⟩
      rfl
    · exact keeps_concludeAspects hP type

end

/-! ### Sessions -/

/-- A coherent run that comes about from `r₀` by turns, and by acts that fail. -/
structure Sound (S : Setting) (r₀ r : Run) : Prop where
  coherent : r.Coherent
  turns : ReflTransGen (fun r r' => S.Turn r r' ∨ S.Stops r r') r₀ r

variable {r₀ : Run}

theorem Sound.turn {r r' : Run} (h : S.Sound r₀ r) (hr : r'.Coherent)
    (ht : ReflTransGen S.Turn r r') :
  S.Sound r₀ r'
  := ⟨hr, h.turns.trans (ReflTransGen.mono (fun _ _ => Or.inl) _ _ ht)⟩

theorem lasting_sound :
  S.Lasting (S.Sound r₀)
  where
    coherent _ h := h.coherent
    passage _ _ _ h _ hr ht := h.turn hr ht
    stop _ _ h hs := ⟨hs.coherent h.coherent, h.turns.tail (Or.inr hs)⟩

theorem turns_takeBack {r : Run} (hr : r.Coherent) (access type : EntityId) (cause : Site) :
  ReflTransGen S.Turn r (r.takeBack S.program access type cause)
    ∧ (r.takeBack S.program access type cause).Coherent
  := by
  obtain ⟨he, -⟩ | ⟨ha, hx⟩ := r.excises_takeBack S.program access type cause
  · rw [he]
    exact ⟨.refl, hr⟩
  · exact ⟨.single (.excise ha hx), hr.strikes hx.strikes⟩

theorem keeps_serveCompletion (access : EntityId) :
  (S.serveCompletion access).Keeps (S.Sound r₀)
  := by
  unfold serveCompletion
  refine (Act.keeps_lift _).bind fun type => ?_
  refine (Act.keeps_admits _).bind fun admitted => ?_
  split
  · refine (keeps_decideWithin lasting_sound _ _).bind fun _ => ?_
    refine (Act.keeps_admits _).bind fun completed => ?_
    split
    · exact fun r h => lasting_sound.same h ⟨rfl, rfl, rfl, rfl, rfl, .refl _⟩ rfl
    · refine Act.keeps_get.bind fun r => ?_
      refine (Act.keeps_lift _).bind fun cause => ?_
      intro r h
      obtain ⟨ht, hr⟩ := turns_takeBack (S := S) h.coherent access type cause
      exact h.turn hr ht
  · exact Act.keeps_pure ()

theorem keeps_serve (t : Task) :
  (S.serve t).Keeps (S.Sound r₀)
  := by
  cases t with
  | declaration id => exact keeps_decideWithin lasting_sound _ id
  | aspects type anchor => exact keeps_serveAspects lasting_sound type anchor
  | completion access => exact keeps_serveCompletion access

/-- The runs of a session in which no matter is under way come about by turns. -/
theorem sound_of_rested {r : Run} (h : S.Rested r₀ r) (h₀ : r₀.Coherent) :
  S.Sound r₀ r
  := by
  induction h with
  | start => exact ⟨h₀, .refl⟩
  | context n _ ih => exact keeps_context lasting_sound n _ ih
  | content n _ ih => exact keeps_walkOutside lasting_sound _ _ ih
  | decide id _ ih => exact keeps_decideWithin lasting_sound _ id _ ih
  | @take r t b _ _ ih => exact ih.turn (ih.coherent.take t b) (.single (.same rfl))
  | serve t _ ih => exact keeps_serve t _ ih
  | @close r _ ih =>
    have hs : r.Same (r.rule fun v => { v with roster := v.roster.close }) :=
      ⟨rfl, rfl, rfl, rfl, rfl, .refl _⟩
    exact ih.turn (hs.coherent ih.coherent) (.single .close)

theorem Starts.matter {scope : Scope} {i : Inquiry Unit} {r : Run}
    (h : S.Starts r₀ scope i r) :
  ∀ m, scope.matter = some m → m.isRevocable = false
  := by
  cases h with
  | aspects _ _ _ _ _ =>
    rintro _ ⟨⟩
    rfl
  | _ => simp

/-- The moments of a session come about by turns, and the entities of the matters under way
are admitted. -/
theorem sound_of_reached {M : Moment} (h : S.Reached r₀ M) (h₀ : r₀.Coherent) :
  S.Sound r₀ M.run ∧ M.run.Under M.scope.matter
    ∧ ∀ m ∈ M.stack, m.entity ∈ M.run.verdicts.admitted
  := by
  induction h with
  | @start scope i r h =>
    refine ⟨?_, under_of_not_isRevocable h.matter r, by simp⟩
    cases h with
    | context _ h => exact lasting_sound.cause (sound_of_rested h h₀) none
    | content _ h => exact sound_of_rested h h₀
    | decision _ h => exact sound_of_rested h h₀
    | aspects h => exact lasting_sound.cause (sound_of_rested h h₀) none
  | @goes M M' _ g ih =>
    obtain ⟨hs, hu, hx⟩ := ih
    have hf := follows_of_goes g hs.coherent hu
    refine ⟨hs.turn hf.coherent hf.turns, hf.under, ?_⟩
    obtain ⟨new, ha, -⟩ := hf.advances
    obtain ⟨top, ht, htop⟩ := hf.stack
    intro m hm
    rw [ht, List.mem_append] at hm
    obtain hm | hm := hm
    · exact htop m hm
    · exact ha.admitted _ (hx m hm)

theorem sound_of_arises {r : Run} (h : S.Arises r₀ r) (h₀ : r₀.Coherent) :
  S.Sound r₀ r
  := by
  obtain h | ⟨M, h, rfl⟩ := h
  · exact sound_of_rested h h₀
  · exact (sound_of_reached h h₀).1

/-! ### Stages -/

/-- A stage of a run that succeeds is a chain of turns. -/
theorem turns_of_stage {ns : List Node} {r r' : Run} (h : S.Stage ns r r') (hr : r.Coherent) :
  ReflTransGen S.Turn r r' ∧ r'.Coherent
  := by
  have outside {scope : Scope} {path : List Step} {r r' : Run} (hr : r.Coherent)
      (hm : ∀ m, scope.matter = some m → m.isRevocable = false)
      (w : S.Passes (.steps scope path) r r') : ReflTransGen S.Turn r r' ∧ r'.Coherent := by
    have hu := under_of_not_isRevocable hm r
    obtain ⟨new, -, hr', -⟩ := orderly_of_passes w hr hu
    exact ⟨turns_of_passes w hr hu, hr'⟩
  have decision {t : Task} {b : Backlog} {id : EntityId} {r₁ : Run}
      (d : S.Passes (.decision id) (r.take t b) r₁) : ReflTransGen S.Turn r r₁ ∧ r₁.Coherent := by
    have ht := hr.take t b
    obtain ⟨new, -, hr₁, -⟩ := orderly_of_passes d ht (under_decision _ _)
    have h₁ : S.Turn r (r.take t b) := .same rfl
    exact ⟨.head h₁ (turns_of_passes d ht (under_decision _ _)), hr₁⟩
  cases h with
  | @context n path r r₁ l w =>
    obtain ⟨ht, hr₁⟩ := outside ((r.same_cause none).coherent hr) (by simp) w
    exact ⟨.head (turn_cause r none) (ht.tail (turn_cause r₁ _)), (r₁.same_cause _).coherent hr₁⟩
  | unit l w => exact outside hr (by simp) w
  | declaration _ d => exact decision d
  | aspectsOff | completionVoid => exact ⟨.single (.same rfl), hr.take _ _⟩
  | @aspects type anchor backlog e t mode attribution path r r₁ _ _ _ _ _ _ w =>
    have hr₀ := (Run.same_cause _ none).coherent (hr.take (.aspects type anchor) backlog)
    obtain ⟨ht, hr₁⟩ := outside hr₀ (by rintro _ ⟨⟩; rfl) w
    have h₁ : S.Turn r { r.take (.aspects type anchor) backlog with cause := none } := .same rfl
    have hs : r₁.Same { r₁.concludeAspects type with cause := r.cause } := by
      unfold Run.concludeAspects
      split <;> exact ⟨rfl, rfl, rfl, rfl, rfl, .refl _⟩
    have h₂ : S.Turn r₁ { r₁.concludeAspects type with cause := r.cause } := by
      apply Turn.same
      unfold Run.concludeAspects
      split <;> rfl
    exact ⟨.head h₁ (ht.tail h₂), hs.coherent hr₁⟩
  | @completion access type backlog r r₁ _ _ _ d _ =>
    obtain ⟨ht, hr₁⟩ := decision d
    have hs : r₁.Same (r₁.complete type access) := ⟨rfl, rfl, rfl, rfl, rfl, .refl _⟩
    exact ⟨ht.tail (.same rfl), hs.coherent hr₁⟩
  | @completionFailed access type backlog cause r r₁ _ _ _ d _ _ =>
    obtain ⟨ht, hr₁⟩ := decision d
    obtain ⟨ht', hr'⟩ := turns_takeBack hr₁ access type cause
    exact ⟨ht.trans ht', hr'⟩

theorem turns_of_proceeds {ns : List Node} {r r' : Run} (h : S.Proceeds ns r r')
    (hr : r.Coherent) :
  ReflTransGen S.Turn r r' ∧ r'.Coherent
  := by
  induction h with
  | nil => exact ⟨.refl, hr⟩
  | cons h _ ih =>
    obtain ⟨ht, hr₁⟩ := turns_of_stage h hr
    obtain ⟨ht', hr'⟩ := ih hr₁
    exact ⟨ht.trans ht', hr'⟩

/-- A session in which every request is served comes about by turns. -/
theorem turns_of_session {qs : List Request} {r r' : Run} {u : Unit}
    (h : (qs.forM S.request) r = .ok u r') (hr : r.Coherent) :
  ReflTransGen S.Turn r r' ∧ r'.Coherent
  := by
  induction qs generalizing r with
  | nil =>
    obtain ⟨-, rfl⟩ := Act.pure_eq_ok.1 h
    exact ⟨.refl, hr⟩
  | cons q qs ih =>
    obtain ⟨_, r₁, hq, h⟩ := Act.bind_eq_ok.1 h
    have served : ReflTransGen S.Turn r r₁ ∧ r₁.Coherent := by
      cases q with
      | unit n => exact turns_of_proceeds (proceeds_unit hq) hr
      | entity id =>
        have d := passes_decide _ _ _ hq
        obtain ⟨new, -, hr₁, -⟩ := orderly_of_passes d hr (under_decision _ _)
        exact ⟨turns_of_passes d hr (under_decision _ _), hr₁⟩
      | backlog => exact turns_of_proceeds (proceeds_drainWithin _ hq).1 hr
      | program =>
        obtain ⟨_, r₂, hu, hc⟩ := Act.bind_eq_ok.1 hq
        obtain ⟨ht, hr₂⟩ := turns_of_proceeds (proceeds_units hu).1 hr
        obtain rfl := Act.rule_eq_ok.1 hc
        have hs : r₂.Same (r₂.rule fun v => { v with roster := v.roster.close }) :=
          ⟨rfl, rfl, rfl, rfl, rfl, .refl _⟩
        exact ⟨ht.tail .close, hs.coherent hr₂⟩
    obtain ⟨ht, hr₁⟩ := served
    obtain ⟨ht', hr'⟩ := ih h hr₁
    exact ⟨ht.trans ht', hr'⟩

end Setting

end Conformance
