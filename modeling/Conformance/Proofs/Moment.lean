import Conformance.Proofs.Stage
import Mathlib.Logic.Relation

/-!
# Moments of a run

Passages are about acts that succeed.  A `Moment` is a point on the way of any act: the
matters under way, the innermost first, what is left of the innermost inquiry, and the run
so far.  `Setting.Goes` says how a run goes from one moment to another: it may pass over a
decision or go into it.

An act that fails does so at a moment, and keeps what was done by then, apart from what
`Setting.Stops` describes; this is `fails_decide`.  `Setting.Rested` are the runs between
the acts of a session, and `Setting.Reached` the moments of a session.
-/

namespace Conformance

open Relation (ReflTransGen)

/-- The entity that an inquiry decides next. -/
def Inquiry.decides? {α : Type} : Inquiry α → Option EntityId
  | .consult id _ _ | .declare id _ _ | .decide id _ => some id
  | .body e _ _ _ => some e.name
  | _ => none

/-- A point on the way of an act. -/
structure Moment where
  /-- The matters under way whose verdicts can be withdrawn, the innermost first. -/
  stack : List Matter
  scope : Scope
  /-- What is left of the innermost inquiry. -/
  rest : Inquiry Unit
  run : Run

namespace Setting

variable (S : Setting)

/-- A run goes from one moment to another. -/
inductive Goes : Moment → Moment → Prop
  | step {stack : List Matter} {scope : Scope} {i j : Inquiry Unit} {s : Step} {r r' : Run}
      (t : i.Takes s j) (p : S.Passes (.steps scope [s]) r r') :
    Goes ⟨stack, scope, i, r⟩ ⟨stack, scope, j, r'⟩
  /-- What the inquiry decides next is decided, and the inquiry has not gone on yet. -/
  | decided {stack : List Matter} {scope : Scope} {i : Inquiry Unit} {id : EntityId}
      {r r' : Run} (h : i.decides? = some id) (d : S.Passes (.decision id) r r') :
    Goes ⟨stack, scope, i, r⟩ ⟨stack, scope, i, r'⟩
  | declaration {stack : List Matter} {scope : Scope} {i : Inquiry Unit} {e : Entity}
      {mode : Option Mode × Option EntityId} {r : Run} (h : i.decides? = some e.name)
      (o : S.Opens e mode r) :
    Goes ⟨stack, scope, i, r⟩
      ⟨.declaration e.name :: stack, e.declarationScope mode, S.entityInquiry e, r.open e mode⟩
  /-- The part of the inquiry into an entity that comes after its publication. -/
  | predicate {stack : List Matter} {scope : Scope} {i : Inquiry Unit} {e : Entity}
      {mode : Option Mode × Option EntityId} {path : List Step} {r r₁ r₂ : Run}
      (h : i.decides? = some e.name) (o : S.Opens e mode r)
      (l : (S.entityInquiry e).Leads path ())
      (w : S.Passes (.steps (e.declarationScope mode) path) (r.open e mode) r₁)
      (hv : r₁.violated = false) (ha : r₁.admits e.name = true)
      (hp : S.publish e r₁ = .ok () r₂) :
    Goes ⟨stack, scope, i, r⟩
      ⟨.declaration e.name :: stack, e.declarationScope mode, predicateInquiry e, r₂⟩
  | body {stack : List Matter} {scope : Scope} {e : Entity} {mode : Option Mode}
      {inner next : Inquiry Unit} {mode' : Option Mode × Option EntityId} {r : Run}
      (ha : r.admits e.name = true) (hm : S.bodyMode e mode = .ok mode')
      (hn : mode'.1 ≠ some .off) :
    Goes ⟨stack, scope, .body e mode inner next, r⟩
      ⟨.body e.name :: stack, e.bodyScope mode', inner,
        r.start (e.bodyScope mode') (.body e.name)⟩

/-- What is left of a run when an act fails: relaxed initialisation may be recorded in
part, and an entity without a mode is examined for nothing. -/
inductive Stops (r : Run) : Run → Prop
  | plain (relaxed : Std.TreeMap EntityId Bool) (cause : Option Site) :
    Stops r { r.rule (fun v => { v with relaxed }) with cause }
  | examined {e : Entity} {fault : Fault} (cause : Option Site)
      (he : S.program.entity e.name = .ok e) (hf : e.name ∉ r.verdicts.examined)
      (hm : S.modeOf e.name = .error fault) : Stops r { r.examine e.name with cause }

/-- An act that decides an entity fails only at a moment of the decision. -/
def Fails (decide : EntityId → Act Unit) : Prop :=
  ∀ id fault r r', decide id r = .error fault r' → ∀ stack scope i,
    Inquiry.decides? i = some id →
    ∃ M, ReflTransGen S.Goes ⟨stack, scope, i, r⟩ M ∧ S.Stops M.run r'

variable {S}

theorem Stops.refl (r : Run) :
  S.Stops r r
  := .plain r.verdicts.relaxed r.cause

theorem Stops.cause {r r' : Run} (h : S.Stops r r') (cause : Option Site) :
  S.Stops r { r' with cause }
  := by
  cases h with
  | plain relaxed _ => exact .plain relaxed cause
  | examined _ he hf hm => exact .examined cause he hf hm

/-- The first step of a passage and the others. -/
theorem passes_cons {scope : Scope} {s : Step} {path : List Step} {r r' : Run}
    (h : S.Passes (.steps scope (s :: path)) r r') :
  ∃ r₁, S.Passes (.steps scope [s]) r r₁ ∧ S.Passes (.steps scope path) r₁ r'
  := by
  cases h with
  | plain h rest => exact ⟨_, .plain h .nil, rest⟩
  | decide d rest => exact ⟨_, .decide d .nil, rest⟩
  | consult d rest => exact ⟨_, .consult d .nil, rest⟩
  | declare d hd rest => exact ⟨_, .declare d hd .nil, rest⟩
  | declareResting d hs hd rest =>
    cases rest with
    | plain h _ => cases h
    | consult d' rest => exact ⟨_, .declareResting d hs hd (.consult d' .nil), rest⟩
  | bodyExcluded d h rest => exact ⟨_, .bodyExcluded d h .nil, rest⟩
  | bodyOff d h hm rest => exact ⟨_, .bodyOff d h hm .nil, rest⟩
  | body d h hm hn l w rest => exact ⟨_, .body d h hm hn l w .nil, rest⟩

/-- A passage goes through the moments between its steps. -/
theorem goes_of_leads {stack : List Matter} {scope : Scope} {i : Inquiry Unit}
    {path : List Step} {r r' : Run} (l : i.Leads path ())
    (p : S.Passes (.steps scope path) r r') :
  ReflTransGen S.Goes ⟨stack, scope, i, r⟩ ⟨stack, scope, .done (), r'⟩
  := by
  generalize hu : () = u at l
  induction l generalizing r with
  | done =>
    cases p
    exact .refl
  | step t _ ih =>
    obtain ⟨r₁, p₁, p₂⟩ := passes_cons p
    exact .head (.step t p₁) (ih p₂ hu)

/-! ### Acts that fail -/

theorem relaxAll_eq_error {steps : Nat} {work : List (EntityId × Bool)} {fault : Fault}
    {r r' : Run} (h : S.relaxAll steps work r = .error fault r') :
  ∃ relaxed, r' = r.rule fun v => { v with relaxed }
  := by
  induction steps, work using relaxAll_induction generalizing r with
  | nil steps =>
    rw [relaxAll_nil] at h
    exact (Act.pure_eq_error.1 h).elim
  | cons steps core own rest ih ih' =>
    rw [relaxAll_cons] at h
    obtain h | ⟨_, _, h₁, h⟩ := Act.bind_eq_error.1 h
    · exact (Act.get_eq_error.1 h).elim
    obtain ⟨rfl, rfl⟩ := Act.get_eq_ok.1 h₁
    split at h
    · cases steps with
      | zero =>
        obtain ⟨-, rfl⟩ := Act.throw_eq_error.1 h
        exact ⟨r.verdicts.relaxed, rfl⟩
      | succ n =>
        obtain h | ⟨_, _, h₂, h⟩ := Act.bind_eq_error.1 h
        · exact (Act.rule_eq_error.1 h).elim
        obtain rfl := Act.rule_eq_ok.1 h₂
        obtain h | ⟨_, _, h₃, h⟩ := Act.bind_eq_error.1 h
        · obtain ⟨-, rfl⟩ := Act.lift_eq_error.1 h
          exact ⟨_, rfl⟩
        · obtain ⟨-, rfl⟩ := Act.lift_eq_ok.1 h₃
          obtain ⟨relaxed, rfl⟩ := ih' n (Nat.lt_succ_self n) _ h
          exact ⟨relaxed, rfl⟩
    · exact ih h

theorem stops_relax {type : EntityId} {fault : Fault} {r r' : Run}
    (h : S.relax type r = .error fault r') :
  S.Stops r r'
  := by
  obtain h | ⟨_, _, hl, h⟩ := Act.bind_eq_error.1 h
  · obtain ⟨-, rfl⟩ := Act.lift_eq_error.1 h
    exact .refl r
  · obtain ⟨-, rfl⟩ := Act.lift_eq_ok.1 hl
    obtain ⟨relaxed, rfl⟩ := relaxAll_eq_error h
    exact .plain relaxed r.cause

theorem postpone_ne_error {ids : List EntityId} {fault : Fault} {r r' : Run} :
  (ids.forM fun id => Act.postpone (.declaration id)) r ≠ .error fault r'
  := by
  intro h
  induction ids generalizing r with
  | nil => exact Act.pure_eq_error.1 h
  | cons id ids ih =>
    obtain h | ⟨_, _, -, h⟩ := Act.bind_eq_error.1 h
    · exact Act.rule_eq_error.1 h
    · exact ih h

variable {decide : EntityId → Act Unit}

/-- A consultation fails only where the consulted entity is decided. -/
theorem consult_eq_error {scope : Scope} {id : EntityId} {site : Site} {fault : Fault}
    {r r' : Run} (h : Act.consult decide scope id site r = .error fault r') :
  decide id r = .error fault r'
  := by
  obtain h | ⟨_, r₁, -, h⟩ := Act.bind_eq_error.1 h
  · exact h
  obtain h | ⟨_, _, -, h⟩ := Act.bind_eq_error.1 h
  · exact (Act.modify_eq_error.1 h).elim
  obtain h | ⟨_, _, -, h⟩ := Act.bind_eq_error.1 h
  · exact (Act.admits_eq_error.1 h).elim
  split at h
  · generalize scope.matter = m at h
    cases m with
    | none => exact (Act.pure_eq_error.1 h).elim
    | some m =>
      obtain h | ⟨_, _, -, h⟩ := Act.bind_eq_error.1 h
      · exact (Act.rule_eq_error.1 h).elim
      · exact (Act.pure_eq_error.1 h).elim
  · obtain h | ⟨_, _, -, h⟩ := Act.bind_eq_error.1 h
    · exact (Act.modify_eq_error.1 h).elim
    · exact (Act.pure_eq_error.1 h).elim

theorem begin_ne_error {scope : Scope} {m : Matter} {fault : Fault} {r r' : Run} :
  Act.begin scope m r ≠ .error fault r'
  := by
  intro h
  obtain h | ⟨_, _, -, h⟩ := Act.bind_eq_error.1 h
  · exact Act.modify_eq_error.1 h
  · split at h
    · exact Act.rule_eq_error.1 h
    · exact Act.pure_eq_error.1 h

theorem fails_declare (hd : S.Decides decide) (hf : S.Fails decide) {scope : Scope}
    {id : EntityId} {site : Site} {fault : Fault} {r r' : Run}
    (h : S.declare decide scope id site r = .error fault r') (stack : List Matter)
    (next : Inquiry Unit) :
  ∃ M, ReflTransGen S.Goes ⟨stack, scope, .declare id site next, r⟩ M ∧ S.Stops M.run r'
  := by
  obtain h | ⟨_, r₁, hi, h⟩ := Act.bind_eq_error.1 h
  · exact hf _ _ _ _ h _ _ _ rfl
  have d : S.Goes ⟨stack, scope, .declare id site next, r⟩ ⟨_, _, _, r₁⟩ :=
    .decided rfl (hd _ _ _ hi)
  have resting (h : (Act.consult decide scope id site >>= fun _ => pure ()) r₁
      = .error fault r') : ∃ M, ReflTransGen S.Goes ⟨stack, scope, .declare id site next, r⟩ M
        ∧ S.Stops M.run r' := by
    obtain h | ⟨_, _, -, h⟩ := Act.bind_eq_error.1 h
    · obtain ⟨M, hM, hs⟩ := hf _ _ _ _ (consult_eq_error h) stack scope
        (.declare id site next) rfl
      exact ⟨M, .head d hM, hs⟩
    · exact (Act.pure_eq_error.1 h).elim
  split at h
  · obtain h | ⟨_, _, ha, h⟩ := Act.bind_eq_error.1 h
    · exact (Act.admits_eq_error.1 h).elim
    obtain ⟨rfl, rfl⟩ := Act.admits_eq_ok.1 ha
    split at h
    · exact resting h
    · obtain h | ⟨o, _, ho, h⟩ := Act.bind_eq_error.1 h
      · obtain ⟨-, rfl⟩ := Act.lift_eq_error.1 h
        exact ⟨_, .single d, .refl r₁⟩
      · obtain ⟨-, rfl⟩ := Act.lift_eq_ok.1 ho
        cases o with
        | false => exact resting h
        | true => exact (Act.pure_eq_error.1 h).elim
  · exact (Act.pure_eq_error.1 h).elim

theorem fails_body (hd : S.Decides decide) (hf : S.Fails decide) {scope : Scope}
    {e : Entity} {mode : Option Mode} {inner : Inquiry Unit} {fault : Fault} {r r' : Run}
    (hw : ∀ {stack scope r r'}, S.walk decide scope inner r = .error fault r' →
      ∃ M, ReflTransGen S.Goes ⟨stack, scope, inner, r⟩ M ∧ S.Stops M.run r')
    (h : S.decideBody decide e mode (fun scope => S.walk decide scope inner) r
      = .error fault r') (stack : List Matter) (next : Inquiry Unit) :
  ∃ M, ReflTransGen S.Goes ⟨stack, scope, .body e mode inner next, r⟩ M ∧ S.Stops M.run r'
  := by
  obtain h | ⟨_, r₁, hi, h⟩ := Act.bind_eq_error.1 h
  · exact hf _ _ _ _ h _ _ _ rfl
  have d : S.Goes ⟨stack, scope, .body e mode inner next, r⟩ ⟨_, _, _, r₁⟩ :=
    .decided rfl (hd _ _ _ hi)
  obtain h | ⟨_, _, ha, h⟩ := Act.bind_eq_error.1 h
  · exact (Act.admits_eq_error.1 h).elim
  obtain ⟨rfl, rfl⟩ := Act.admits_eq_ok.1 ha
  split at h
  · next ha =>
    obtain h | ⟨⟨mode', anchor⟩, _, hl, h⟩ := Act.bind_eq_error.1 h
    · obtain ⟨-, rfl⟩ := Act.lift_eq_error.1 h
      exact ⟨_, .single d, .refl r₁⟩
    obtain ⟨hm, rfl⟩ := Act.lift_eq_ok.1 hl
    simp only at h
    split at h
    · exact (Act.pure_eq_error.1 h).elim
    · next ho =>
      rw [beq_iff_eq] at ho
      obtain ⟨r₂, ht, rfl⟩ := Act.afresh_eq_error.1 h
      obtain ht | ⟨_, r₃, hb, ht⟩ := Act.bind_eq_error.1 ht
      · exact (begin_ne_error ht).elim
      obtain rfl := begin_eq_ok hb
      obtain ht | ⟨_, _, -, ht⟩ := Act.bind_eq_error.1 ht
      · obtain ⟨M, hM, hs⟩ := hw ht
        exact ⟨M, .head d (.head (.body ha hm ho) hM), hs.cause _⟩
      · exact (Act.modify_eq_error.1 ht).elim
  · exact (Act.rule_eq_error.1 h).elim

/-- An inquiry fails as an act only at one of its moments. -/
theorem fails_walk (hd : S.Decides decide) (hf : S.Fails decide) {α : Type} {i : Inquiry α}
    (stack : List Matter) {scope : Scope} {fault : Fault} {r r' : Run}
    (h : S.walk decide scope i r = .error fault r') (f : α → Inquiry Unit) :
  ∃ M, ReflTransGen S.Goes ⟨stack, scope, i.bind f, r⟩ M ∧ S.Stops M.run r'
  := by
  have on {i : Inquiry Unit} {M : Moment} {r r' : Run} (g : S.Goes ⟨stack, scope, i, r⟩ M)
      (h : ∃ M', ReflTransGen S.Goes M M' ∧ S.Stops M'.run r') :
      ∃ M', ReflTransGen S.Goes ⟨stack, scope, i, r⟩ M' ∧ S.Stops M'.run r' := by
    obtain ⟨M', hM, hs⟩ := h
    exact ⟨M', .head g hM, hs⟩
  induction i generalizing stack scope r r' with
  | done value => exact (Act.pure_eq_error.1 h).elim
  | fail =>
    obtain ⟨-, rfl⟩ := Act.throw_eq_error.1 h
    exact ⟨_, .refl, .refl r⟩
  | visit role node next ih =>
    obtain h | ⟨_, _, h₁, h⟩ := Act.bind_eq_error.1 h
    · exact (Act.modify_eq_error.1 h).elim
    obtain rfl := Act.modify_eq_ok.1 h₁
    exact on (.step .visit (.plain .visit .nil)) (ih stack h f on)
  | consult id site next ih =>
    obtain h | ⟨_, _, h₁, h⟩ := Act.bind_eq_error.1 h
    · exact hf _ _ _ _ (consult_eq_error h) _ _ _ rfl
    obtain ⟨r₁, hi, rfl, rfl⟩ := consult_eq_ok h₁
    exact on (.step (.consult _) (.consult (hd _ _ _ hi) .nil)) (ih _ stack h f on)
  | declare id site next ih =>
    obtain h | ⟨_, r₁, h₁, h⟩ := Act.bind_eq_error.1 h
    · exact fails_declare hd hf h _ _
    obtain ⟨b, hb⟩ := passes_declare hd h₁
    exact on (.step (.declare b) (hb _ _ .nil)) (ih stack h f on)
  | decide id next ih =>
    obtain h | ⟨_, r₁, h₁, h⟩ := Act.bind_eq_error.1 h
    · exact hf _ _ _ _ h _ _ _ rfl
    exact on (.step .decide (.decide (hd _ _ _ h₁) .nil)) (ih stack h f on)
  | isAdmitted id next ih =>
    obtain h | ⟨_, _, h₁, h⟩ := Act.bind_eq_error.1 h
    · exact (Act.modify_eq_error.1 h).elim
    obtain rfl := Act.modify_eq_ok.1 h₁
    obtain h | ⟨_, _, h₂, h⟩ := Act.bind_eq_error.1 h
    · exact (Act.admits_eq_error.1 h).elim
    obtain ⟨ha, rfl⟩ := Act.admits_eq_ok.1 h₂
    change r.admits id = _ at ha
    subst ha
    exact on (.step (.ask _) (.plain .ask .nil)) (ih _ stack h f on)
  | isExamined id next ih =>
    obtain h | ⟨_, _, h₁, h⟩ := Act.bind_eq_error.1 h
    · exact (Act.get_eq_error.1 h).elim
    obtain ⟨rfl, rfl⟩ := Act.get_eq_ok.1 h₁
    exact on (.step (.look _) (.plain .look .nil)) (ih _ stack h f on)
  | find site finding next ih =>
    obtain h | ⟨_, _, h₁, h⟩ := Act.bind_eq_error.1 h
    · exact (Act.modify_eq_error.1 h).elim
    obtain rfl := Act.modify_eq_ok.1 h₁
    exact on (.step .find (.plain .find .nil)) (ih stack h f on)
  | hideView id next ih =>
    obtain h | ⟨_, _, h₁, h⟩ := Act.bind_eq_error.1 h
    · exact (Act.rule_eq_error.1 h).elim
    obtain rfl := Act.rule_eq_ok.1 h₁
    exact on (.step .hideView (.plain .hideView .nil)) (ih stack h f on)
  | postponeCompletion access next ih =>
    obtain h | ⟨_, _, h₁, h⟩ := Act.bind_eq_error.1 h
    · exact (Act.rule_eq_error.1 h).elim
    obtain rfl := Act.rule_eq_ok.1 h₁
    exact on (.step .postponeCompletion (.plain .postponeCompletion .nil)) (ih stack h f on)
  | postponeAspects type next ih =>
    obtain h | ⟨_, _, h₁, h⟩ := Act.bind_eq_error.1 h
    · exact (Act.rule_eq_error.1 h).elim
    obtain rfl := Act.rule_eq_ok.1 h₁
    exact on (.step .postponeAspects (.plain .postponeAspects .nil)) (ih stack h f on)
  | relax type next ih =>
    obtain h | ⟨_, _, h₁, h⟩ := Act.bind_eq_error.1 h
    · exact ⟨_, .refl, stops_relax h⟩
    exact on (.step .relax (.plain (.relax h₁) .nil)) (ih stack h f on)
  | placeInLoop id loop next ih =>
    obtain h | ⟨_, _, h₁, h⟩ := Act.bind_eq_error.1 h
    · exact (Act.rule_eq_error.1 h).elim
    obtain rfl := Act.rule_eq_ok.1 h₁
    exact on (.step .placeInLoop (.plain .placeInLoop .nil)) (ih stack h f on)
  | body e mode inner next ih ih' =>
    obtain h | ⟨_, r₁, h₁, h⟩ := Act.bind_eq_error.1 h
    · apply fails_body hd hf _ h
      intro stack scope r r' h
      rw [← inner.bind_done]
      apply ih stack h
      intro i M r r' g ⟨M', hM, hs⟩
      exact ⟨M', .head g hM, hs⟩
    exact on (.step .body (passes_body hd (passes_walk hd) h₁ .nil)) (ih' stack h f on)

/-- What comes after the inquiry into an entity fails only where the predicate function of
the entity is decided, or before it is published. -/
theorem fails_grant (hf : S.Fails decide) {stack : List Matter} {scope : Scope}
    {i : Inquiry Unit} {e : Entity} {mode : Option Mode × Option EntityId}
    {path : List Step} {fault : Fault} {r r₁ r' : Run} (hi : i.decides? = some e.name)
    (o : S.Opens e mode r) (l : (S.entityInquiry e).Leads path ())
    (w : S.Passes (.steps (e.declarationScope mode) path) (r.open e mode) r₁)
    (hv : r₁.violated = false) (ha : r₁.admits e.name = true)
    (h : S.grant decide (e.declarationScope mode) e r₁ = .error fault r') :
  ∃ M, ReflTransGen S.Goes ⟨stack, scope, i, r⟩ M ∧ S.Stops M.run r'
  := by
  obtain h | ⟨_, r₂, hp, h⟩ := Act.bind_eq_error.1 h
  · unfold publish at h
    split at h
    · obtain h | ⟨_, _, -, h⟩ := Act.bind_eq_error.1 h
      · obtain ⟨-, rfl⟩ := Act.lift_eq_error.1 h
        exact ⟨_, .head (.declaration hi o) (goes_of_leads l w), .refl r₁⟩
      · exact (Act.rule_eq_error.1 h).elim
    · exact (Act.pure_eq_error.1 h).elim
  have g : S.Goes ⟨stack, scope, i, r⟩ _ := .predicate hi o l w hv ha hp
  have kept {kept : Bool} {r₃ : Run} (h : (if kept then
      e.followers.forM fun id => Act.postpone (.declaration id)
      else S.exclude e) r₃ = .error fault r') : False := by
    split at h
    · exact postpone_ne_error h
    · exact Act.modify_eq_error.1 h
  cases hfn : e.predicateFunction? with
  | none =>
    rw [hfn] at h
    obtain h | ⟨_, _, -, h⟩ := Act.bind_eq_error.1 h
    · exact (Act.pure_eq_error.1 h).elim
    · exact (kept h).elim
  | some function =>
    rw [hfn] at h
    obtain h | ⟨_, _, -, h⟩ := Act.bind_eq_error.1 h
    · have hd : (predicateInquiry e).decides? = some function := by
        unfold predicateInquiry
        rw [hfn]
        rfl
      obtain ⟨M, hM, hs⟩ := hf _ _ _ _ (consult_eq_error h) _ _ _ hd
      exact ⟨M, .head g hM, hs⟩
    · exact (kept h).elim

theorem fails_examine (hd : S.Decides decide) (hf : S.Fails decide) {stack : List Matter}
    {scope : Scope} {i : Inquiry Unit} {e : Entity} {fault : Fault} {r r' : Run}
    (hi : i.decides? = some e.name) (he : S.program.entity e.name = .ok e)
    (hx : e.name ∉ r.verdicts.examined) (h : S.examine decide e r = .error fault r') :
  ∃ M, ReflTransGen S.Goes ⟨stack, scope, i, r⟩ M ∧ S.Stops M.run r'
  := by
  obtain h | ⟨_, _, hr, h⟩ := Act.bind_eq_error.1 h
  · exact (Act.rule_eq_error.1 h).elim
  obtain rfl := Act.rule_eq_ok.1 hr
  obtain h | ⟨⟨mode, anchor⟩, _, hl, h⟩ := Act.bind_eq_error.1 h
  · obtain ⟨hm, rfl⟩ := Act.lift_eq_error.1 h
    exact ⟨_, .refl, .examined r.cause he hx hm⟩
  obtain ⟨hm, rfl⟩ := Act.lift_eq_ok.1 hl
  simp only at h
  split at h
  · exact (Act.pure_eq_error.1 h).elim
  · next ho =>
    rw [beq_iff_eq] at ho
    have o : S.Opens e (mode, anchor) r := ⟨he, hx, hm, ho⟩
    obtain ⟨r₁, ht, rfl⟩ := Act.afresh_eq_error.1 h
    obtain ht | ⟨_, _, hb, ht⟩ := Act.bind_eq_error.1 ht
    · exact (begin_ne_error ht).elim
    obtain rfl := begin_eq_ok hb
    obtain ht | ⟨_, _, ha, ht⟩ := Act.bind_eq_error.1 ht
    · exact (Act.rule_eq_error.1 ht).elim
    obtain rfl := Act.rule_eq_ok.1 ha
    obtain ht | ⟨_, r₂, hw, ht⟩ := Act.bind_eq_error.1 ht
    · obtain ⟨M, hM, hs⟩ := fails_walk hd hf (.declaration e.name :: stack) ht .done
      rw [Inquiry.bind_done] at hM
      exact ⟨M, .head (.declaration hi o) hM, hs.cause _⟩
    obtain ⟨path, l, w⟩ := passes_walk hd hw
    obtain ht | ⟨_, _, hg, ht⟩ := Act.bind_eq_error.1 ht
    · exact (Act.get_eq_error.1 ht).elim
    obtain ⟨rfl, rfl⟩ := Act.get_eq_ok.1 hg
    split at ht
    · exact (Act.modify_eq_error.1 ht).elim
    · next hv =>
      rw [Bool.or_eq_true, not_or, Bool.not_eq_true, Bool.not_eq_true,
        Bool.not_eq_false'] at hv
      obtain ⟨M, hM, hs⟩ := fails_grant hf hi o l w hv.1 hv.2 ht
      exact ⟨M, hM, hs.cause _⟩

theorem fails_decideWithin (levels : Nat) :
  S.Fails (S.decideWithin levels)
  := by
  induction levels with
  | zero =>
    intro id fault r r' h stack scope i hi
    obtain h | ⟨_, _, hg, h⟩ := Act.bind_eq_error.1 h
    · exact (Act.get_eq_error.1 h).elim
    obtain ⟨rfl, rfl⟩ := Act.get_eq_ok.1 hg
    split at h
    · exact (Act.pure_eq_error.1 h).elim
    · obtain h | ⟨_, _, hl, h⟩ := Act.bind_eq_error.1 h
      · obtain ⟨-, rfl⟩ := Act.lift_eq_error.1 h
        exact ⟨_, .refl, .refl r⟩
      · obtain ⟨-, rfl⟩ := Act.lift_eq_ok.1 hl
        obtain ⟨-, rfl⟩ := Act.throw_eq_error.1 h
        exact ⟨_, .refl, .refl r⟩
  | succ levels ih =>
    intro id fault r r' h stack scope i hi
    obtain h | ⟨_, _, hg, h⟩ := Act.bind_eq_error.1 h
    · exact (Act.get_eq_error.1 h).elim
    obtain ⟨rfl, rfl⟩ := Act.get_eq_ok.1 hg
    split at h
    · exact (Act.pure_eq_error.1 h).elim
    · next hx =>
      obtain h | ⟨e, _, hl, ht⟩ := Act.bind_eq_error.1 h
      · obtain ⟨-, rfl⟩ := Act.lift_eq_error.1 h
        exact ⟨_, .refl, .refl r⟩
      · obtain ⟨he, rfl⟩ := Act.lift_eq_ok.1 hl
        obtain rfl := S.program.name_eq_of_entity he
        exact fails_examine (passes_decideWithin levels) ih hi he hx ht

/-- The decision of an entity fails only at one of its moments. -/
theorem fails_decide :
  S.Fails S.decide
  := fails_decideWithin _

end Setting

end Conformance
